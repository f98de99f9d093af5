import Mathlib.Data.List.Chain
import Mathlib.Data.List.Pairwise
import OrderFlow.WhileLoops

/-!
# Lower bounds

`lowerBound` is the search of `std::lower_bound`: it halves a range by a test that should hold
of a first part of the list and of nothing behind it. On any list it ends between an element
of which the test holds and one of which it does not. So a search for each element of a list
finds all of them only if they are in order.
-/
namespace LowerBounds

open WhileLoops

variable {α : Type} {before : α → Bool} {xs : List α}

/-- The part of the list that is still searched. -/
structure Range where
  first : Nat
  len : Nat
  deriving DecidableEq, Repr

def halve (before : α → Bool) (xs : List α) (range : Range) : Range :=
  let half := range.len / 2
  let middle := range.first + half
  if xs[middle]?.any before then ⟨middle + 1, range.len - half - 1⟩ else ⟨range.first, half⟩

def searching (range : Range) : Bool := decide (range.len > 0)

def search (before : α → Bool) (xs : List α) : Range :=
  whileLoop searching (halve before xs) xs.length ⟨0, xs.length⟩

def lowerBound (before : α → Bool) (xs : List α) : Nat := (search before xs).first

/-- The test holds of the element in front of the range, and not of the one behind it. -/
structure Brackets (before : α → Bool) (xs : List α) (range : Range) : Prop where
  within : range.first + range.len ≤ xs.length
  front : ∀ i x, i + 1 = range.first → xs[i]? = some x → before x = true
  behind : ∀ x, xs[range.first + range.len]? = some x → before x = false

theorem brackets_halve {range : Range} (hlen : range.len > 0) (h : Brackets before xs range) :
    Brackets before xs (halve before xs range) := by
  have hwithin := h.within
  have hmiddle : range.first + range.len / 2 < xs.length := by omega
  simp only [halve, List.getElem?_eq_getElem hmiddle, Option.any_some]
  split
  · rename_i hbefore
    have hend : range.first + range.len / 2 + 1 + (range.len - range.len / 2 - 1) =
        range.first + range.len := by omega
    refine ⟨?_, ?_, ?_⟩
    · dsimp only
      omega
    · intro i x hi hx
      obtain rfl : i = range.first + range.len / 2 := by
        dsimp only at hi
        omega
      rw [List.getElem?_eq_getElem hmiddle, Option.some.injEq] at hx
      rwa [← hx]
    · intro x hx
      rw [hend] at hx
      exact h.behind x hx
  · rename_i hbehind
    refine ⟨?_, h.front, ?_⟩
    · dsimp only
      omega
    · intro x hx
      rw [List.getElem?_eq_getElem hmiddle, Option.some.injEq] at hx
      rwa [← hx, ← Bool.not_eq_true]

theorem halve_len_lt {range : Range} (hlen : range.len > 0) :
    (halve before xs range).len < range.len := by
  simp only [halve]
  split <;> dsimp only <;> omega

theorem search_len (before : α → Bool) (xs : List α) : (search before xs).len = 0 := by
  have hends : searching (search before xs) = false :=
    whileLoop_ends Range.len (fun range h => halve_len_lt (of_decide_eq_true h)) (Nat.le_refl _)
  exact Nat.eq_zero_of_not_pos (of_decide_eq_false hends)

/-- Where the search ends. -/
theorem lowerBound_brackets (before : α → Bool) (xs : List α) :
    Brackets before xs ⟨lowerBound before xs, 0⟩ := by
  have hstart : Brackets before xs ⟨0, xs.length⟩ := by
    refine ⟨by simp, ?_, ?_⟩
    · intro i x hi
      cases hi
    · intro x hx
      simp at hx
  have hresult : Brackets before xs (search before xs) :=
    whileLoop_invariant (Brackets before xs)
      (fun range h => brackets_halve (of_decide_eq_true h)) xs.length hstart
  rw [lowerBound, ← search_len before xs]
  exact hresult

theorem lowerBound_eq {i : Nat} (hi : i ≤ xs.length)
    (hsplit : ∀ j x, xs[j]? = some x → (before x = true ↔ j < i)) : lowerBound before xs = i := by
  have h := lowerBound_brackets before xs
  have hwithin : lowerBound before xs ≤ xs.length := h.within
  rcases lt_trichotomy (lowerBound before xs) i with hlt | heq | hgt
  · have hget := List.getElem?_eq_getElem (hlt.trans_le hi)
    have hfalse := h.behind _ hget
    rw [(hsplit _ _ hget).mpr hlt] at hfalse
    cases hfalse
  · exact heq
  · have hlast : lowerBound before xs - 1 < xs.length := by omega
    have hget := List.getElem?_eq_getElem hlast
    have hindex : lowerBound before xs - 1 + 1 = lowerBound before xs := by omega
    have hbefore := h.front _ _ hindex hget
    have hlow := (hsplit _ _ hget).mp hbefore
    omega

example : lowerBound (fun x => decide (x < 4)) [1, 3, 4, 4, 8] = 2 := by decide

/-- Each element is found exactly if every one is before all that follow. -/
theorem finds_all_iff (less : α → α → Bool) (hirrefl : ∀ x, less x x = false)
    (htrans : ∀ x y z, less x y = true → less y z = true → less x z = true) (xs : List α) :
    (∀ i y, xs[i]? = some y → lowerBound (fun x => less x y) xs = i) ↔
      xs.Pairwise fun x y => less x y = true := by
  have : IsTrans α fun x y => less x y = true := ⟨htrans⟩
  constructor
  · intro hall
    rw [← List.isChain_iff_pairwise, List.isChain_iff_getElem]
    intro i hi
    have hnext := List.getElem?_eq_getElem hi
    have hfront := (lowerBound_brackets (fun x => less x xs[i + 1]) xs).front
    rw [hall _ _ hnext] at hfront
    exact hfront i _ rfl (List.getElem?_eq_getElem (by omega))
  · intro hordered i y hy
    obtain ⟨hi, rfl⟩ := List.getElem?_eq_some_iff.mp hy
    apply lowerBound_eq hi.le
    intro j x hx
    obtain ⟨hj, rfl⟩ := List.getElem?_eq_some_iff.mp hx
    have hpairs := List.pairwise_iff_getElem.mp hordered
    rcases lt_trichotomy j i with hlt | rfl | hgt
    · simp [hlt, hpairs j i hj hi hlt]
    · simp [hirrefl]
    · have hback := hpairs i j hi hj hgt
      have hnot : less xs[j] xs[i] ≠ true := by
        intro hless
        have hself := htrans _ _ _ hback hless
        rw [hirrefl] at hself
        cases hself
      simp [hnot, hgt.le]

end LowerBounds
