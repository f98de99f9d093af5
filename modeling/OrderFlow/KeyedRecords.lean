import Mathlib.Algebra.BigOperators.Group.List.Basic
import Mathlib.Data.List.Nodup
import Mathlib.Data.List.Sort

/-!
# Records with distinct keys

A list of records in which no two have the same key stands for a finite map. An
update through an index is an update by key, amounts grouped by key add up to
the whole, and sorting by key leaves the keys strictly ascending. `maxElement`
is the first of the largest, by a given order.
-/
namespace KeyedRecords

variable {α β κ : Type}

section Keys

variable [DecidableEq κ] (key : α → κ)

/-- What is reached through an index is what has its key. -/
theorem modify_eq_map {xs : List α} (hnodup : (xs.map key).Nodup) (f : α → α) {i : Nat}
    (hi : i < xs.length) :
    xs.modify i f = xs.map fun x => if key x = key xs[i] then f x else x := by
  apply List.ext_getElem
  · simp
  · intro j hj hj'
    rw [List.length_modify] at hj
    have hiff : key xs[j] = key xs[i] ↔ i = j := by
      constructor
      · intro hkey
        have hmap : (xs.map key).get ⟨i, by simpa using hi⟩ =
            (xs.map key).get ⟨j, by simpa using hj⟩ := by simpa using hkey.symm
        exact Fin.mk.inj (hnodup.get_inj_iff.mp hmap)
      · rintro rfl
        rfl
    by_cases hij : i = j
    · simp [hij]
    · simp [hij, hiff]

/-- An update that leaves keys alone. -/
theorem map_key_update {f : α → α} (hf : ∀ x, key (f x) = key x) (xs : List α) (k : κ) :
    (xs.map fun x => if key x = k then f x else x).map key = xs.map key := by
  rw [List.map_map]
  apply List.map_congr_left
  intro x _
  simp only [Function.comp_apply]
  split
  · exact hf x
  · rfl

theorem sum_indicator {M : Type} [AddCommMonoid M] {keys : List κ} (hnodup : keys.Nodup) (k : κ)
    (m : M) : (keys.map fun q => if k = q then m else 0).sum = if k ∈ keys then m else 0 := by
  induction keys with
  | nil => simp
  | cons q keys ih =>
    obtain ⟨hq, hrest⟩ := List.nodup_cons.mp hnodup
    by_cases heq : k = q
    · subst heq
      simp [ih hrest, hq]
    · simp [ih hrest, heq]

/-- The amounts of each key, summed over all keys, are all amounts. -/
theorem sum_by_key {M : Type} [AddCommMonoid M] {keys : List κ} (hnodup : keys.Nodup) (k : β → κ)
    (amount : β → M) (ys : List β) (hcover : ∀ y ∈ ys, k y ∈ keys) :
    (keys.map fun q => ((ys.filter fun y => k y = q).map amount).sum).sum =
      (ys.map amount).sum := by
  induction ys with
  | nil => simp
  | cons y ys ih =>
    have hone := sum_indicator hnodup (k y) (amount y)
    have hsplit : ∀ q, (((y :: ys).filter fun y => k y = q).map amount).sum =
        (if k y = q then amount y else 0) + ((ys.filter fun y => k y = q).map amount).sum := by
      intro q
      by_cases heq : k y = q <;> simp [heq]
    simp only [hsplit, List.sum_map_add, hone, hcover y (by simp), if_true,
      ih fun z hz => hcover z (by simp [hz]), List.map_cons, List.sum_cons]

omit [DecidableEq κ] in
/-- A record with a key of its own may join. -/
theorem nodup_snoc {xs : List α} (hnodup : (xs.map key).Nodup) {x : α}
    (hnew : ∀ y ∈ xs, key y ≠ key x) : ((xs ++ [x]).map key).Nodup := by
  rw [List.map_append, List.map_singleton, ← List.concat_eq_append]
  apply List.Nodup.concat _ hnodup
  intro hmem
  obtain ⟨y, hy, heq⟩ := List.mem_map.mp hmem
  exact hnew y hy heq

/-- A key picks out its own record. -/
theorem filter_key {xs : List α} (hnodup : (xs.map key).Nodup) {x : α} (hx : x ∈ xs) :
    (xs.filter fun y => key y = key x) = [x] := by
  induction xs with
  | nil => cases hx
  | cons y xs ih =>
    rw [List.map_cons, List.nodup_cons] at hnodup
    rcases List.mem_cons.mp hx with rfl | hx
    · have hrest : xs.filter (fun y => key y = key x) = [] := by
        rw [List.filter_eq_nil_iff]
        intro y hy heq
        exact hnodup.1 (List.mem_map.mpr ⟨y, hy, by simpa using heq⟩)
      simp [hrest]
    · have hne : key y ≠ key x := fun heq => hnodup.1 (List.mem_map.mpr ⟨x, hx, heq.symm⟩)
      simp [hne, ih hnodup.2 hx]

end Keys

/-- What an update keeps of a record, it keeps in every list. -/
theorem map_modify {g : α → β} {f : α → α} (hkept : ∀ x, g (f x) = g x) (xs : List α) (i : Nat) :
    (xs.modify i f).map g = xs.map g := by
  apply List.ext_getElem
  · simp
  · intro j _ _
    rw [List.getElem_map, List.getElem_map, List.getElem_modify]
    split
    · exact hkept _
    · rfl

/-- Sorting by a key that no two records share. -/
theorem insertionSort_strict [LinearOrder κ] (key : α → κ) {xs : List α}
    (hnodup : (xs.map key).Nodup) :
    (xs.insertionSort fun a b => key a ≤ key b).Pairwise fun a b => key a < key b := by
  have : IsTrans α fun a b => key a ≤ key b := ⟨fun _ _ _ => le_trans⟩
  have : Std.Total fun a b : α => key a ≤ key b := ⟨fun _ _ => le_total _ _⟩
  have hsorted := List.pairwise_insertionSort (fun a b => key a ≤ key b) xs
  have hdistinct : (xs.insertionSort fun a b => key a ≤ key b).Pairwise fun a b => key a ≠ key b := by
    have hperm := (List.perm_insertionSort (fun a b => key a ≤ key b) xs).map key
    exact List.pairwise_map.mp (hperm.nodup_iff.mpr hnodup)
  exact (hsorted.and hdistinct).imp fun h => lt_of_le_of_ne h.1 h.2

/-- The scan behind `maxElement`: the largest so far and its position, and the
position of the next element. -/
def maxElementFrom (less : α → α → Bool) (largest : α × Nat) (next : Nat) : List α → α × Nat
  | [] => largest
  | x :: xs => maxElementFrom less (if less largest.1 x then (x, next) else largest) (next + 1) xs

/-- The first of the largest elements, with its position. -/
def maxElement (less : α → α → Bool) : List α → Option (α × Nat)
  | [] => none
  | x :: xs => some (maxElementFrom less (x, 0) 1 xs)

/-- A largest element, and every one before it is smaller. -/
structure FirstLargest [LinearOrder κ] (size : α → κ) (xs : List α) (largest : α × Nat) :
    Prop where
  at_index : xs[largest.2]? = some largest.1
  largest_le : ∀ x ∈ xs, size x ≤ size largest.1
  first : ∀ j x, j < largest.2 → xs[j]? = some x → size x < size largest.1

/-- In a list sorted by a key, the first of the largest has the least key of them. -/
theorem FirstLargest.key_le [LinearOrder κ] {size : α → κ} {M : Type} [Preorder M] {key : α → M}
    {xs : List α} {x : α} {i : Nat} (h : FirstLargest size xs (x, i))
    (hsorted : xs.Pairwise fun a b => key a < key b) {y : α} (hy : y ∈ xs) (heq : size y = size x) :
    key x ≤ key y := by
  obtain ⟨hi, hx⟩ := List.getElem?_eq_some_iff.mp h.at_index
  dsimp only at hi hx
  obtain ⟨j, hj, hget⟩ := List.mem_iff_getElem.mp hy
  have hij : i ≤ j := by
    by_contra hlt
    have hless := h.first j y (by simpa using hlt) (by rw [List.getElem?_eq_getElem hj, hget])
    exact absurd heq (ne_of_lt hless)
  rcases Nat.eq_or_lt_of_le hij with rfl | hlt
  · rw [← hx, ← hget]
  · have hkey := List.pairwise_iff_getElem.mp hsorted i j hi hj hlt
    rw [hx, hget] at hkey
    exact hkey.le

theorem firstLargest_from [LinearOrder κ] {size : α → κ} {xs : List α} {largest : α × Nat}
    (h : FirstLargest size xs largest) (ys : List α) :
    FirstLargest size (xs ++ ys)
      (maxElementFrom (fun a b => decide (size a < size b)) largest xs.length ys) := by
  induction ys generalizing xs largest with
  | nil => simpa [maxElementFrom] using h
  | cons y ys ih =>
    have hstep : FirstLargest size (xs ++ [y])
        (if size largest.1 < size y then (y, xs.length) else largest) := by
      split
      · rename_i hlt
        refine ⟨by simp, ?_, ?_⟩
        · intro x hx
          rcases List.mem_append.mp hx with hx | hx
          · exact (h.largest_le x hx).trans hlt.le
          · rw [List.mem_singleton.mp hx]
        · intro j x hj hx
          rw [List.getElem?_append_left hj] at hx
          exact (h.largest_le x (List.mem_of_getElem? hx)).trans_lt hlt
      · rename_i hnot
        have hindex := (List.getElem?_eq_some_iff.mp h.at_index).1
        refine ⟨?_, ?_, ?_⟩
        · rw [List.getElem?_append_left hindex]
          exact h.at_index
        · intro x hx
          rcases List.mem_append.mp hx with hx | hx
          · exact h.largest_le x hx
          · rw [List.mem_singleton.mp hx]
            exact not_lt.mp hnot
        · intro j x hj hx
          rw [List.getElem?_append_left (hj.trans hindex)] at hx
          exact h.first j x hj hx
    have hnext := ih hstep
    rw [List.length_append, List.length_singleton, List.append_assoc, List.singleton_append] at hnext
    simpa [maxElementFrom] using hnext

theorem firstLargest_maxElement [LinearOrder κ] {size : α → κ} {xs : List α} {largest : α × Nat}
    (h : maxElement (fun a b => decide (size a < size b)) xs = some largest) :
    FirstLargest size xs largest := by
  cases xs with
  | nil => cases h
  | cons x xs =>
    obtain rfl := Option.some.inj h
    have hone : FirstLargest size [x] (x, 0) :=
      ⟨rfl, fun y hy => by rw [List.mem_singleton.mp hy], fun j y hj => absurd hj (Nat.not_lt_zero j)⟩
    exact firstLargest_from hone xs

theorem maxElement_isSome (less : α → α → Bool) (xs : List α) (x : α) (ys : List α) :
    (maxElement less (xs ++ x :: ys)).isSome := by
  cases xs <;> rfl

/-- An element above all others is found, wherever it stands. -/
theorem maxElement_of_unique [LinearOrder κ] {size : α → κ} {xs ys : List α} {x : α}
    (hlt : ∀ y ∈ xs ++ ys, size y < size x) :
    maxElement (fun a b => decide (size a < size b)) (xs ++ x :: ys) = some (x, xs.length) := by
  obtain ⟨⟨y, i⟩, hfound⟩ := Option.isSome_iff_exists.mp
    (maxElement_isSome (fun a b => decide (size a < size b)) xs x ys)
  have hfirst := firstLargest_maxElement hfound
  have hle : size x ≤ size y := hfirst.largest_le x (by simp)
  have hget : (xs ++ x :: ys)[i]? = some y := hfirst.at_index
  rw [hfound]
  rcases lt_trichotomy i xs.length with hi | rfl | hi
  · rw [List.getElem?_append_left hi] at hget
    exact absurd (hlt y (List.mem_append_left _ (List.mem_of_getElem? hget))) (not_lt_of_ge hle)
  · simpa using hget.symm
  · rw [List.getElem?_append_right hi.le] at hget
    obtain ⟨k, hk⟩ := Nat.exists_eq_add_of_lt hi
    have hk' : i - xs.length = k + 1 := by omega
    rw [hk', List.getElem?_cons_succ] at hget
    exact absurd (hlt y (List.mem_append_right _ (List.mem_of_getElem? hget))) (not_lt_of_ge hle)

theorem maxElement_eq_none (less : α → α → Bool) (xs : List α) :
    maxElement less xs = none ↔ xs = [] := by
  cases xs <;> simp [maxElement]

end KeyedRecords
