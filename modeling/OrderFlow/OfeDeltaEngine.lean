import Mathlib.Algebra.Order.Ring.Rat

/-!
# The delta engine of `include/ofe`

Every `double` is an exact rational.
-/
namespace OfeDeltaEngine

structure DeltaState where
  barDelta : Rat := 0
  maxDelta : Rat := 0
  minDelta : Rat := 0
  cumulativeVolumeDelta : Rat := 0
  divergence : Rat := 0
  surge : Rat := 0
  updateCount : Nat := 0
  deriving DecidableEq, Repr

structure DeltaEngine where
  state : DeltaState := {}
  lastPrice : Rat := 0
  deriving DecidableEq, Repr

def reset (_ : DeltaEngine) : DeltaEngine := {}

/-- The arguments of an `update`. -/
structure Update where
  price : Rat
  buyVolume : Rat
  sellVolume : Rat
  deriving DecidableEq, Repr

def Update.delta (u : Update) : Rat := u.buyVolume - u.sellVolume

def update (e : DeltaEngine) (u : Update) : DeltaEngine :=
  { state :=
      { barDelta := u.delta
        cumulativeVolumeDelta := e.state.cumulativeVolumeDelta + u.delta
        maxDelta := max e.state.maxDelta u.delta
        minDelta := min e.state.minDelta u.delta
        divergence := if e.state.updateCount = 0 then 0 else (u.price - e.lastPrice) * u.delta
        surge := |u.delta|
        updateCount := e.state.updateCount + 1 }
    lastPrice := u.price }

def run (updates : List Update) : DeltaEngine := updates.foldl update {}

theorem run_snoc (updates : List Update) (u : Update) :
    run (updates ++ [u]) = update (run updates) u := by
  rw [run, List.foldl_append]
  rfl

end OfeDeltaEngine
