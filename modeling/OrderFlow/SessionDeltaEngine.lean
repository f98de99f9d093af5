import OrderFlow.SessionImbalance
import OrderFlow.SessionTypes

/-!
# The delta engine of `session1`

The running delta of the open bar, the accounting of a bar's close and the
session totals of `delta_engine.cpp`. The 32-bit fields are reduced by `wrap32`
where the code adds to them or casts to them, and absolute values of them are `abs32`.
-/
namespace SessionDeltaEngine

open SessionTypes SessionImbalance

/-- A value-initialised state is all zeros. -/
structure DeltaState where
  barDelta : Int := 0
  runningDelta : Int := 0
  maxDelta : Int := 0
  minDelta : Int := 0
  barAskVol : Int := 0
  barBidVol : Int := 0
  barTotalVol : Int := 0
  cumulativeDelta : Int := 0
  sessionMaxDelta : Int := 0
  sessionMinDelta : Int := 0
  sessionAvgAbsDelta : Int := 0
  barCount : UInt32 := 0
  lastBarClose : Rat := 0
  lastBarCvd : Int := 0
  deriving DecidableEq, Repr

structure DeltaEngine where
  surgeEmaAlpha : Rat

def onTick (tick : UniversalTickRecord) (state : DeltaState) : DeltaState :=
  if tick.isAccumulatable then
    let vol := wrap32 tick.volume
    let barAskVol := if tick.side = .ask then state.barAskVol + vol else state.barAskVol
    let barBidVol := if tick.side = .ask then state.barBidVol else state.barBidVol + vol
    let runningDelta := wrap32 (if tick.side = .ask then state.runningDelta + vol
      else state.runningDelta - vol)
    { state with
      barAskVol := barAskVol
      barBidVol := barBidVol
      runningDelta := runningDelta
      barTotalVol := barAskVol + barBidVol
      maxDelta := if runningDelta > state.maxDelta then runningDelta else state.maxDelta
      minDelta := if runningDelta < state.minDelta then runningDelta else state.minDelta }
  else state

/-- What `on_bar_close` returns and leaves in its two arguments. -/
structure Closed where
  deltaPct : Rat
  bar : BarRecord
  state : DeltaState

/-- The moving average of the absolute bar delta; the first bar seeds it. -/
def nextAvgAbsDelta (engine : DeltaEngine) (avg absDelta : Int) : Int :=
  if avg = 0 then absDelta
  else truncate (engine.surgeEmaAlpha * absDelta + (1 - engine.surgeEmaAlpha) * avg)

def onBarClose (engine : DeltaEngine) (bar : BarRecord) (state : DeltaState) : Closed :=
  let barDelta := wrap32 (state.barAskVol - state.barBidVol)
  let cumulativeDelta := state.cumulativeDelta + barDelta
  let deltaPct : Rat := if state.barTotalVol > 0 then barDelta / state.barTotalVol * 100 else 0
  { deltaPct := deltaPct
    bar := { bar with
      barDelta := barDelta
      maxDelta := state.maxDelta
      minDelta := state.minDelta
      cumulativeDelta := cumulativeDelta
      deltaPct := deltaPct
      totalVolume := state.barTotalVol }
    state := { state with
      cumulativeDelta := cumulativeDelta
      sessionMaxDelta :=
        if barDelta > state.sessionMaxDelta then barDelta else state.sessionMaxDelta
      sessionMinDelta :=
        if barDelta < state.sessionMinDelta then barDelta else state.sessionMinDelta
      sessionAvgAbsDelta := nextAvgAbsDelta engine state.sessionAvgAbsDelta (abs32 barDelta)
      lastBarClose := bar.close
      lastBarCvd := cumulativeDelta
      barCount := state.barCount + 1
      barDelta := 0
      barAskVol := 0
      barBidVol := 0
      barTotalVol := 0
      runningDelta := 0
      maxDelta := 0
      minDelta := 0 } }

/-- The state is replaced by a fresh one. -/
def onSessionOpen (_ : DeltaState) : DeltaState := {}

inductive Call where
  | onTick (tick : UniversalTickRecord)
  | onBarClose (bar : BarRecord)
  | onSessionOpen

def step (engine : DeltaEngine) (state : DeltaState) : Call → DeltaState
  | .onTick tick => onTick tick state
  | .onBarClose bar => (onBarClose engine bar state).state
  | .onSessionOpen => onSessionOpen state

def run (engine : DeltaEngine) (calls : List Call) : DeltaState :=
  calls.foldl (step engine) {}

end SessionDeltaEngine
