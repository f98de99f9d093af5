import Mathlib.Algebra.Order.Field.Basic
import Mathlib.Algebra.Order.Round
import Mathlib.Algebra.Order.Ring.Rat
import Mathlib.Data.Rat.Floor
import Mathlib.Tactic.FieldSimp
import Mathlib.Tactic.Linarith
import Mathlib.Tactic.Ring

/-!
# Prices on a grid

A grid is the set of integer multiples of a positive step. Rounding to the grid
is by the nearest multiple, halves away from zero. Two prices on the grid that
are less than a step apart are equal, so a comparison with any tolerance of at
most a step is equality there.
-/
namespace TickGrid

/-- `std::round`: the nearest integer, halves away from zero. -/
def roundHalfAway (q : Rat) : Int := if 0 ≤ q then ⌊q + 1 / 2⌋ else -⌊-q + 1 / 2⌋

def roundToTick (tick price : Rat) : Rat := roundHalfAway (price / tick) * tick

def OnGrid (tick price : Rat) : Prop := ∃ k : Int, price = k * tick

variable {tick p q : Rat}

theorem onGrid_roundToTick (tick price : Rat) : OnGrid tick (roundToTick tick price) :=
  ⟨_, rfl⟩

theorem onGrid_add (hp : OnGrid tick p) (hq : OnGrid tick q) : OnGrid tick (p + q) := by
  obtain ⟨k, rfl⟩ := hp
  obtain ⟨l, rfl⟩ := hq
  exact ⟨k + l, by push_cast; ring⟩

theorem onGrid_neg (hp : OnGrid tick p) : OnGrid tick (-p) := by
  obtain ⟨k, rfl⟩ := hp
  exact ⟨-k, by push_cast; ring⟩

theorem onGrid_tick (tick : Rat) : OnGrid tick tick := ⟨1, by simp⟩

theorem onGrid_sub (hp : OnGrid tick p) (hq : OnGrid tick q) : OnGrid tick (p - q) := by
  rw [sub_eq_add_neg]
  exact onGrid_add hp (onGrid_neg hq)

/-- Different prices on the grid are at least a step apart. -/
theorem add_tick_le (ht : 0 < tick) (hp : OnGrid tick p) (hq : OnGrid tick q) (hlt : p < q) :
    p + tick ≤ q := by
  obtain ⟨k, rfl⟩ := hp
  obtain ⟨l, rfl⟩ := hq
  have hkl : k < l := by
    have := lt_of_mul_lt_mul_right hlt ht.le
    exact_mod_cast this
  have hle : ((k + 1 : Int) : Rat) ≤ l := by exact_mod_cast hkl
  have := mul_le_mul_of_nonneg_right hle ht.le
  push_cast at this
  linarith

theorem eq_of_abs_sub_lt (ht : 0 < tick) (hp : OnGrid tick p) (hq : OnGrid tick q)
    (h : |p - q| < tick) : p = q := by
  obtain ⟨hlo, hhi⟩ := abs_lt.mp h
  rcases lt_trichotomy p q with hlt | heq | hgt
  · have := add_tick_le ht hp hq hlt
    linarith
  · exact heq
  · have := add_tick_le ht hq hp hgt
    linarith

/-- On the grid a comparison within a tolerance of at most a step is equality. -/
theorem abs_sub_lt_iff {tolerance : Rat} (ht : 0 < tick) (hpos : 0 < tolerance)
    (hle : tolerance ≤ tick) (hp : OnGrid tick p) (hq : OnGrid tick q) :
    |p - q| < tolerance ↔ p = q := by
  constructor
  · exact fun h => eq_of_abs_sub_lt ht hp hq (lt_of_lt_of_le h hle)
  · rintro rfl
    simpa using hpos

theorem roundHalfAway_intCast (k : Int) : roundHalfAway k = k := by
  have hhalf : ∀ n : Int, ⌊(n : Rat) + 1 / 2⌋ = n := by
    intro n
    rw [Int.floor_eq_iff]
    constructor <;> linarith
  unfold roundHalfAway
  split
  · exact hhalf k
  · have := hhalf (-k)
    push_cast at this
    rw [this, neg_neg]

theorem roundToTick_of_onGrid (ht : 0 < tick) (hp : OnGrid tick p) : roundToTick tick p = p := by
  obtain ⟨k, rfl⟩ := hp
  rw [roundToTick, mul_div_assoc, div_self ht.ne', mul_one, roundHalfAway_intCast]

end TickGrid
