import Mathlib.Data.Rat.Defs

/-!
# Signals of `include/ofe`

The signal types that the modelled code can produce or should, the zones, and
the fields of a signal event that it writes. Every `double` is an exact
rational.
-/
namespace OfeSignalTypes

inductive SignalType where
  | unknown
  | sweepBuy | sweepSell
  | pulseLong | pulseShort
  | turnLong | turnShort
  | cotLong | cotShort
  deriving DecidableEq, Repr

inductive ImbalanceZone where
  | unknown | neutral | buyEdge | sellEdge | stack | absorption | sweep
  deriving DecidableEq, Repr

/-- A value-initialised event is all zeros. -/
structure SignalEvent where
  timestampNs : UInt64 := 0
  symbolId : UInt32 := 0
  signalType : SignalType := .unknown
  imbalanceZone : ImbalanceZone := .unknown
  price : Rat := 0
  referencePrice : Rat := 0
  vwap : Rat := 0
  upperBand : Rat := 0
  lowerBand : Rat := 0
  delta : Rat := 0
  cvd : Rat := 0
  volume : Rat := 0
  strength : Rat := 0
  confidence : Rat := 0
  pulseScore : Rat := 0
  turnScore : Rat := 0
  cotScore : Rat := 0
  sweepScore : Rat := 0
  imbalanceRatio : Rat := 0
  pocPrice : Rat := 0
  valueAreaLow : Rat := 0
  valueAreaHigh : Rat := 0
  deriving DecidableEq, Repr

end OfeSignalTypes
