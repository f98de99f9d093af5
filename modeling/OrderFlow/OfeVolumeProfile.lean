import Mathlib.Algebra.Order.Ring.Rat
import Mathlib.Data.Prod.Lex
import OrderFlow.KeyedRecords
import OrderFlow.ResetRuns
import OrderFlow.SortedTallies
import OrderFlow.WhileLoops

/-!
# The volume profile of `include/ofe`

Every `double` is an exact rational. The map from prices to volumes is the list
of its entries, which a profile keeps in the order of their prices: the price is
an entry's `first` and the volume its `second`. Of the iterators `left` and
`right` an expansion keeps the entries on their far sides, nearest first.
-/
namespace OfeVolumeProfile

open KeyedRecords SortedTallies WhileLoops

/-- A value-initialised snapshot is all zeros. -/
structure VolumeProfileSnapshot where
  pocPrice : Rat := 0
  valueAreaLow : Rat := 0
  valueAreaHigh : Rat := 0
  totalVolume : Rat := 0
  pocVolume : Rat := 0
  deriving DecidableEq, Repr

structure VolumeProfileEngine where
  volumeByPrice : List (Rat × Rat)
  sorted : Sorted volumeByPrice

def newEngine : VolumeProfileEngine := ⟨[], .nil⟩

def reset (_ : VolumeProfileEngine) : VolumeProfileEngine := newEngine

def add (e : VolumeProfileEngine) (price volume : Rat) : VolumeProfileEngine :=
  ⟨addAt price volume e.volumeByPrice, sorted_addAt price volume e.sorted⟩

/-- The comparison of the point of control: by volume, then by falling price. -/
def pocLess (left right : Rat × Rat) : Bool :=
  if left.2 ≠ right.2 then decide (left.2 < right.2) else decide (left.1 > right.1)

/-- The loop variables of `snapshot`: the entries before `left`, nearest first,
those after `right`, and what the loop has computed. -/
structure Expansion where
  beforeLeft : List (Rat × Rat)
  afterRight : List (Rat × Rat)
  accumulated : Rat
  valueAreaLow : Rat
  valueAreaHigh : Rat
  deriving DecidableEq, Repr

namespace Expansion

def canMoveLeft (s : Expansion) : Bool := !s.beforeLeft.isEmpty

def canMoveRight (s : Expansion) : Bool := !s.afterRight.isEmpty

def leftVolume (s : Expansion) : Rat :=
  match s.beforeLeft with
  | [] => -1
  | e :: _ => e.2

def rightVolume (s : Expansion) : Rat :=
  match s.afterRight with
  | [] => -1
  | e :: _ => e.2

/-- `left = std::prev(left)` and what follows it; not called at the first entry. -/
def moveLeft (s : Expansion) : Expansion :=
  match s.beforeLeft with
  | [] => s
  | e :: rest =>
    { s with
      beforeLeft := rest
      accumulated := s.accumulated + e.2
      valueAreaLow := e.1 }

/-- `right = std::next(right)` and what follows it; not called at the last entry. -/
def moveRight (s : Expansion) : Expansion :=
  match s.afterRight with
  | [] => s
  | e :: rest =>
    { s with
      afterRight := rest
      accumulated := s.accumulated + e.2
      valueAreaHigh := e.1 }

/-- The test of the loop. -/
def mayExpand (targetVolume : Rat) (s : Expansion) : Bool :=
  decide (s.accumulated < targetVolume) && (s.canMoveLeft || s.canMoveRight)

/-- The body of the loop. -/
def round (s : Expansion) : Expansion :=
  let canMoveLeft := s.canMoveLeft
  let canMoveRight := s.canMoveRight
  let leftVolume := s.leftVolume
  let rightVolume := s.rightVolume
  if canMoveLeft && (!canMoveRight || decide (leftVolume > rightVolume)) then s.moveLeft
  else if canMoveRight && (!canMoveLeft || decide (rightVolume > leftVolume)) then s.moveRight
  else
    let s := if canMoveLeft then s.moveLeft else s
    if canMoveRight then s.moveRight else s

end Expansion

/-- The loop variables before the loop, with both iterators at the entry `poc` of
index `i`. -/
def startAt (levels : List (Rat × Rat)) (poc : Rat × Rat) (i : Nat) : Expansion where
  beforeLeft := (levels.take i).reverse
  afterRight := levels.drop (i + 1)
  accumulated := poc.2
  valueAreaLow := poc.1
  valueAreaHigh := poc.1

/-- The loop, given a round for every entry but the first. -/
def expand (levels : List (Rat × Rat)) (targetVolume : Rat) (poc : Rat × Rat) (i : Nat) : Expansion :=
  whileLoop (Expansion.mayExpand targetVolume) Expansion.round (levels.length - 1)
    (startAt levels poc i)

def totalVolume (levels : List (Rat × Rat)) : Rat := (levels.map (·.2)).sum

def snapshot (e : VolumeProfileEngine) (valueAreaRatio : Rat := 7 / 10) : VolumeProfileSnapshot :=
  match maxElement pocLess e.volumeByPrice with
  | none => {}
  | some (poc, i) =>
    let targetVolume := totalVolume e.volumeByPrice * valueAreaRatio
    let area := expand e.volumeByPrice targetVolume poc i
    { pocPrice := poc.1
      pocVolume := poc.2
      totalVolume := totalVolume e.volumeByPrice
      valueAreaLow := area.valueAreaLow
      valueAreaHigh := area.valueAreaHigh }

/-- A call of `add` carries its price and its volume. -/
def run (calls : List (ResetRuns.Call (Rat × Rat))) : VolumeProfileEngine :=
  ResetRuns.run (fun e x => add e x.1 x.2) reset newEngine calls

theorem volumeByPrice_foldl (e : VolumeProfileEngine) (xs : List (Rat × Rat)) :
    (xs.foldl (fun e x => add e x.1 x.2) e).volumeByPrice =
      xs.foldl (fun t x => addAt x.1 x.2 t) e.volumeByPrice := by
  induction xs generalizing e with
  | nil => rfl
  | cons x xs ih => exact ih (add e x.1 x.2)

/-- A profile is the tally of what was added since the last reset. -/
theorem volumeByPrice_run (calls : List (ResetRuns.Call (Rat × Rat))) :
    (run calls).volumeByPrice = tally (ResetRuns.sinceReset calls) := by
  have hreset : ∀ e, reset e = newEngine := fun _ => rfl
  rw [run, ResetRuns.run_eq_foldl hreset, volumeByPrice_foldl]
  rfl

namespace Expansion

/-- The entries that no iterator has reached. -/
def remaining (s : Expansion) : Nat := s.beforeLeft.length + s.afterRight.length

/-- What a round does: it takes the heavier neighbour, or the only one, or both
when they are equal. -/
theorem round_cases (s : Expansion) :
    (∃ l rest, s.beforeLeft = l :: rest ∧ (∀ r ∈ s.afterRight.head?, r.2 < l.2) ∧
      s.round = s.moveLeft) ∨
    (∃ r rest, s.afterRight = r :: rest ∧ (∀ l ∈ s.beforeLeft.head?, l.2 < r.2) ∧
      s.round = s.moveRight) ∨
    (∃ l rest r rest', s.beforeLeft = l :: rest ∧ s.afterRight = r :: rest' ∧ l.2 = r.2 ∧
      s.round = s.moveLeft.moveRight) ∨
    (s.beforeLeft = [] ∧ s.afterRight = [] ∧ s.round = s) := by
  obtain ⟨before, after, accumulated, low, high⟩ := s
  cases before with
  | nil =>
    cases after with
    | nil => exact .inr (.inr (.inr ⟨rfl, rfl, rfl⟩))
    | cons r rest => exact .inr (.inl ⟨r, rest, rfl, by simp, rfl⟩)
  | cons l rest =>
    cases after with
    | nil => exact .inl ⟨l, rest, rfl, by simp, rfl⟩
    | cons r rest' =>
      rcases lt_trichotomy r.2 l.2 with hlt | heq | hgt
      · refine .inl ⟨l, rest, rfl, by simpa using hlt, ?_⟩
        simp [round, canMoveLeft, canMoveRight, leftVolume, rightVolume, hlt]
      · refine .inr (.inr (.inl ⟨l, rest, r, rest', rfl, rfl, heq.symm, ?_⟩))
        simp [round, canMoveLeft, canMoveRight, leftVolume, rightVolume, heq]
      · refine .inr (.inl ⟨r, rest', rfl, by simpa using hgt, ?_⟩)
        simp [round, canMoveLeft, canMoveRight, leftVolume, rightVolume, hgt, lt_asymm hgt]

theorem mayExpand_iff (targetVolume : Rat) (s : Expansion) :
    s.mayExpand targetVolume = true ↔
      s.accumulated < targetVolume ∧ (s.beforeLeft ≠ [] ∨ s.afterRight ≠ []) := by
  simp [mayExpand, canMoveLeft, canMoveRight]

/-- Every round reaches another entry. -/
theorem remaining_round {s : Expansion} (h : s.beforeLeft ≠ [] ∨ s.afterRight ≠ []) :
    s.round.remaining < s.remaining := by
  obtain ⟨l, rest, hbefore, -, hround⟩ | ⟨r, rest, hafter, -, hround⟩ |
    ⟨l, rest, r, rest', hbefore, hafter, -, hround⟩ | ⟨hbefore, hafter, -⟩ := round_cases s
  · simp [hround, moveLeft, hbefore, remaining]
  · simp [hround, moveRight, hafter, remaining]
  · simp only [hround, moveRight, moveLeft, hbefore, hafter, remaining, List.length_cons]
    omega
  · exact absurd h (by simp [hbefore, hafter])

end Expansion

/-- However the volumes and the target lie, a round for every entry but the first
is enough for the loop to end. -/
theorem expand_ends (levels : List (Rat × Rat)) (targetVolume : Rat) (poc : Rat × Rat) (i : Nat)
    (hi : i < levels.length) : (expand levels targetVolume poc i).mayExpand targetVolume = false := by
  apply whileLoop_ends Expansion.remaining
  · intro s hs
    exact Expansion.remaining_round ((Expansion.mayExpand_iff targetVolume s).mp hs).2
  · simp only [Expansion.remaining, startAt, List.length_reverse, List.length_take, List.length_drop]
    omega

/-- What the comparison of the point of control compares. -/
def pocSize (level : Rat × Rat) : Lex (Rat × OrderDual Rat) := toLex (level.2, OrderDual.toDual level.1)

theorem pocLess_eq : pocLess = fun left right => decide (pocSize left < pocSize right) := by
  funext left right
  rw [Bool.eq_iff_iff, decide_eq_true_iff, pocSize, pocSize, Prod.Lex.toLex_lt_toLex]
  by_cases h : left.2 = right.2 <;> simp [pocLess, h]

theorem firstLargest_poc {levels : List (Rat × Rat)} {poc : Rat × Rat} {i : Nat}
    (h : maxElement pocLess levels = some (poc, i)) : FirstLargest pocSize levels (poc, i) := by
  rw [pocLess_eq] at h
  exact firstLargest_maxElement h

/-- The entries of a profile, cut at its point of control. -/
theorem split_at_poc {levels : List (Rat × Rat)} {poc : Rat × Rat} {i : Nat}
    (h : maxElement pocLess levels = some (poc, i)) :
    i < levels.length ∧ levels = levels.take i ++ poc :: levels.drop (i + 1) := by
  obtain ⟨hi, hget⟩ := List.getElem?_eq_some_iff.mp (firstLargest_poc h).at_index
  dsimp only at hi hget
  refine ⟨hi, ?_⟩
  rw [← hget, ← List.drop_eq_getElem_cons hi, List.take_append_drop]

end OfeVolumeProfile
