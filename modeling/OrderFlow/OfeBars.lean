import Mathlib.Data.Rat.Defs
import Mathlib.Algebra.Order.Ring.Rat

/-!
# Bars of `include/ofe`

The bar series and the bar engine of `bar_engine.h`, with every `double` read
as an exact rational. Timestamps and thresholds are the 64-bit words of the
source and wrap as they do there. Counts of ticks are naturals.
-/
namespace OfeBars

inductive BarType where
  | time | range | volume
  deriving DecidableEq, Repr

structure UniversalTickRecord where
  timestampNs : UInt64
  symbolId : UInt32
  price : Rat
  size : Rat
  bidPrice : Rat
  askPrice : Rat
  bidSize : UInt32
  askSize : UInt32
  deriving DecidableEq, Repr

/-- A value-initialised record is all zeros. `openPrice` is the source's `open`. -/
structure BarRecord where
  startTimestampNs : UInt64 := 0
  endTimestampNs : UInt64 := 0
  openPrice : Rat := 0
  high : Rat := 0
  low : Rat := 0
  close : Rat := 0
  vwap : Rat := 0
  volume : Rat := 0
  tradeCount : Nat := 0
  buyVolume : Rat := 0
  sellVolume : Rat := 0
  delta : Rat := 0
  cvd : Rat := 0
  maxDelta : Rat := 0
  minDelta : Rat := 0
  range : Rat := 0
  bodySize : Rat := 0
  upperWick : Rat := 0
  lowerWick : Rat := 0
  pocPrice : Rat := 0
  barIndex : UInt32 := 0
  deriving DecidableEq, Repr

structure BarSeries where
  type : BarType
  threshold : UInt64
  current : BarRecord := {}
  notional : Rat := 0
  sessionCvd : Rat := 0
  active : Bool := false
  completed : List BarRecord := []
  deriving DecidableEq, Repr

/-- The side on which `update_bar` books a tick. -/
inductive Booking where
  | buy | sell | neither
  deriving DecidableEq, Repr

def booking (tick : UniversalTickRecord) : Booking :=
  if tick.price ≥ tick.askPrice ∧ tick.askSize > 0 then .buy
  else if tick.price ≤ tick.bidPrice ∧ tick.bidSize > 0 then .sell
  else .neither

namespace BarSeries

def clearCompleted (s : BarSeries) : BarSeries := { s with completed := [] }

def startBar (s : BarSeries) (tick : UniversalTickRecord) : BarSeries :=
  let current : BarRecord :=
    { startTimestampNs := tick.timestampNs
      endTimestampNs := tick.timestampNs
      openPrice := tick.price
      high := tick.price
      low := tick.price
      close := tick.price
      pocPrice := tick.price
      barIndex := UInt32.ofNat s.completed.length
      volume := 0
      tradeCount := 0 }
  { s with current := current, notional := 0, sessionCvd := current.cvd, active := true }

def updateBar (s : BarSeries) (tick : UniversalTickRecord) : BarSeries :=
  let high := max s.current.high tick.price
  let low := min s.current.low tick.price
  let close := tick.price
  let volume := s.current.volume + tick.size
  let tradeCount := s.current.tradeCount + 1
  let notional := s.notional + tick.price * tick.size
  let buyVolume :=
    if booking tick = .buy then s.current.buyVolume + tick.size else s.current.buyVolume
  let sellVolume :=
    if booking tick = .sell then s.current.sellVolume + tick.size else s.current.sellVolume
  let delta := buyVolume - sellVolume
  let sessionCvd := s.sessionCvd + delta
  { s with
    notional := notional
    sessionCvd := sessionCvd
    current := { s.current with
      endTimestampNs := tick.timestampNs
      high := high
      low := low
      close := close
      volume := volume
      tradeCount := tradeCount
      vwap := if volume > 0 then notional / volume else tick.price
      buyVolume := buyVolume
      sellVolume := sellVolume
      delta := delta
      cvd := sessionCvd
      maxDelta := if tradeCount = 1 then delta else max s.current.maxDelta delta
      minDelta := if tradeCount = 1 then delta else min s.current.minDelta delta
      range := high - low
      bodySize := |close - s.current.openPrice|
      upperWick := high - max s.current.openPrice close
      lowerWick := min s.current.openPrice close - low } }

def shouldFinalize (s : BarSeries) : Bool :=
  match s.type with
  | .time => false
  | .range => decide (s.current.range ≥ (s.threshold.toNat : Rat))
  | .volume => decide (s.current.volume ≥ (s.threshold.toNat : Rat))

def finalizeBar (s : BarSeries) (endTimestampNs : UInt64) : BarSeries :=
  { s with
    completed := s.completed ++ [{ s.current with endTimestampNs := endTimestampNs }]
    current := {}
    notional := 0 }

/-- The time test of `ingest`; the sum of two words wraps. -/
def timeUp (s : BarSeries) (tick : UniversalTickRecord) : Bool :=
  decide (s.type = .time) && decide (tick.timestampNs ≥ s.current.startTimestampNs + s.threshold) &&
    decide (s.current.tradeCount > 0)

/-- The source also returns `true`, whatever the tick. -/
def ingest (s : BarSeries) (tick : UniversalTickRecord) : BarSeries :=
  let s := if s.active then s else s.startBar tick
  let s := if s.timeUp tick then (s.finalizeBar tick.timestampNs).startBar tick else s
  let s := s.updateBar tick
  if s.shouldFinalize then { s.finalizeBar tick.timestampNs with active := false } else s

def ingestAll (s : BarSeries) (ticks : List UniversalTickRecord) : BarSeries :=
  ticks.foldl ingest s

end BarSeries

/-- A series as its constructor leaves it. -/
def newSeries (type : BarType) (threshold : UInt64) : BarSeries := { type, threshold }

/-- The hash map from symbols to deques of series. -/
structure BarEngine where
  seriesBySymbol : UInt32 → Option (List BarSeries) := fun _ => none

namespace BarEngine

def addSeries (e : BarEngine) (symbolId : UInt32) (type : BarType) (threshold : UInt64) : BarEngine :=
  let series := (e.seriesBySymbol symbolId).getD []
  { seriesBySymbol := fun id =>
      if id = symbolId then some (series ++ [newSeries type threshold]) else e.seriesBySymbol id }

def ingest (e : BarEngine) (tick : UniversalTickRecord) : BarEngine :=
  match e.seriesBySymbol tick.symbolId with
  | none => e
  | some series =>
    { seriesBySymbol := fun id =>
        if id = tick.symbolId then some (series.map (·.ingest tick)) else e.seriesBySymbol id }

/-- The series of a symbol, in the order in which they were added. -/
def seriesOf (e : BarEngine) (symbolId : UInt32) : List BarSeries :=
  (e.seriesBySymbol symbolId).getD []

end BarEngine

inductive Call where
  | addSeries (symbolId : UInt32) (type : BarType) (threshold : UInt64)
  | ingest (tick : UniversalTickRecord)
  deriving DecidableEq, Repr

def BarEngine.call (e : BarEngine) : Call → BarEngine
  | .addSeries symbolId type threshold => e.addSeries symbolId type threshold
  | .ingest tick => e.ingest tick

def BarEngine.run (e : BarEngine) (calls : List Call) : BarEngine := calls.foldl BarEngine.call e

end OfeBars
