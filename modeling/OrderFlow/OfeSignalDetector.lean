import OrderFlow.OfeDeltaEngine
import OrderFlow.OfeLeeReady
import OrderFlow.OfeSignalTypes

/-!
# The signal detector of `include/ofe`

`score` makes four scores of the states of the analytics, `evaluate` an event of them.
The snapshots have the fields these two read.
-/
namespace OfeSignalDetector

open OfeDeltaEngine OfeLeeReady OfeSignalTypes

structure ImbalanceSnapshot where
  diagonalBuyRatio : Rat := 0
  diagonalSellRatio : Rat := 0
  buyImbalance : Bool := false
  sellImbalance : Bool := false
  stacked : Bool := false
  absorption : Bool := false
  deriving DecidableEq, Repr

structure VwapSnapshot where
  vwap : Rat := 0
  upperBand1 : Rat := 0
  lowerBand1 : Rat := 0
  totalVolume : Rat := 0
  deriving DecidableEq, Repr

structure VolumeProfileSnapshot where
  pocPrice : Rat := 0
  valueAreaLow : Rat := 0
  valueAreaHigh : Rat := 0
  deriving DecidableEq, Repr

structure CompositeSignalScores where
  pulse : Rat := 0
  turns : Rat := 0
  cot : Rat := 0
  sweep : Rat := 0
  deriving DecidableEq, Repr

/-- `std::clamp`. -/
def clamp (value low high : Rat) : Rat :=
  if value < low then low else if high < value then high else value

def normalizedDelta (delta : DeltaState) : Rat :=
  if delta.cumulativeVolumeDelta = 0 then 0
  else delta.barDelta / (|delta.cumulativeVolumeDelta| + 1)

def imbalanceComponent (imbalance : ImbalanceSnapshot) : Rat :=
  if imbalance.buyImbalance then 1 else if imbalance.sellImbalance then -1 else 0

def vwapComponent (vwap : VwapSnapshot) (profile : VolumeProfileSnapshot) : Rat :=
  if vwap.totalVolume > 0 then (vwap.vwap - profile.pocPrice) / (|profile.pocPrice| + 1) else 0

def score (delta : DeltaState) (imbalance : ImbalanceSnapshot) (vwap : VwapSnapshot)
    (profile : VolumeProfileSnapshot) (direction : TradeDirection) : CompositeSignalScores where
  pulse :=
    clamp ((normalizedDelta delta + imbalanceComponent imbalance + vwapComponent vwap profile) / 3)
      (-1) 1
  turns := clamp ((delta.divergence + delta.surge) / (|delta.surge| + 1)) (-1) 1
  cot := if direction = .buy then 1 else if direction = .sell then -1 else 0
  sweep := if imbalance.absorption then 1 else if imbalance.stacked then 1 / 2 else 0

def selectSignalType (scores : CompositeSignalScores) : SignalType :=
  if scores.sweep > 4 / 5 then .sweepBuy
  else if scores.pulse > 1 / 2 then .pulseLong
  else if scores.pulse < -1 / 2 then .pulseShort
  else if scores.turns > 1 / 2 then .turnLong
  else if scores.turns < -1 / 2 then .turnShort
  else if scores.cot > 1 / 2 then .cotLong
  else if scores.cot < -1 / 2 then .cotShort
  else .unknown

def strength (scores : CompositeSignalScores) : Rat :=
  clamp ((|scores.pulse| + |scores.turns| + |scores.cot| + |scores.sweep|) / 4) 0 1

def evaluate (timestampNs : UInt64) (symbolId : UInt32) (delta : DeltaState)
    (imbalance : ImbalanceSnapshot) (vwap : VwapSnapshot) (profile : VolumeProfileSnapshot)
    (direction : TradeDirection) : SignalEvent :=
  let scores := score delta imbalance vwap profile direction
  { timestampNs := timestampNs
    symbolId := symbolId
    delta := delta.barDelta
    cvd := delta.cumulativeVolumeDelta
    vwap := vwap.vwap
    upperBand := vwap.upperBand1
    lowerBand := vwap.lowerBand1
    pocPrice := profile.pocPrice
    valueAreaLow := profile.valueAreaLow
    valueAreaHigh := profile.valueAreaHigh
    imbalanceRatio :=
      if imbalance.diagonalBuyRatio > 0 then imbalance.diagonalBuyRatio
      else imbalance.diagonalSellRatio
    pulseScore := scores.pulse
    turnScore := scores.turns
    cotScore := scores.cot
    sweepScore := scores.sweep
    strength := strength scores
    confidence := strength scores
    signalType := selectSignalType scores
    imbalanceZone :=
      if imbalance.buyImbalance then .buyEdge
      else if imbalance.sellImbalance then .sellEdge
      else .neutral }

end OfeSignalDetector
