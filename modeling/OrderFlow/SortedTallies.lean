import Mathlib.Algebra.BigOperators.Group.List.Basic
import Mathlib.Data.List.Induction
import Mathlib.Data.List.Sort
import Mathlib.Order.Monotone.Basic

/-!
# Amounts tallied in the order of their keys

A tally is a list of keys with amounts, the keys strictly ascending. An amount is
added to the entry of its key, which is put in its place if there is none. What a
tally says is decided by its keys and their totals, so it is the same for every
order of the keys up to reversal.
-/
namespace SortedTallies

variable {κ κ' M : Type} [LinearOrder κ] [LinearOrder κ'] [AddCommMonoid M]

def Sorted (t : List (κ × M)) : Prop := t.Pairwise fun a b => a.1 < b.1

/-- A new entry starts at zero. -/
def addAt (key : κ) (amount : M) : List (κ × M) → List (κ × M)
  | [] => [(key, 0 + amount)]
  | e :: rest =>
    if key < e.1 then (key, 0 + amount) :: e :: rest
    else if e.1 < key then e :: addAt key amount rest
    else (e.1, e.2 + amount) :: rest

def total (key : κ) (xs : List (κ × M)) : M := ((xs.filter fun x => x.1 = key).map (·.2)).sum

def tally (xs : List (κ × M)) : List (κ × M) := xs.foldl (fun t x => addAt x.1 x.2 t) []

@[simp] theorem total_nil (key : κ) : total key ([] : List (κ × M)) = 0 := rfl

theorem total_cons (key : κ) (x : κ × M) (xs : List (κ × M)) :
    total key (x :: xs) = (if x.1 = key then x.2 else 0) + total key xs := by
  by_cases h : x.1 = key <;> simp [total, h]

theorem total_append (key : κ) (xs ys : List (κ × M)) :
    total key (xs ++ ys) = total key xs + total key ys := by
  simp [total]

theorem mem_keys_addAt (key q : κ) (amount : M) (t : List (κ × M)) :
    q ∈ (addAt key amount t).map (·.1) ↔ q = key ∨ q ∈ t.map (·.1) := by
  induction t with
  | nil => simp [addAt]
  | cons e rest ih =>
    unfold addAt
    split_ifs with hlt hgt
    · simp
    · rw [List.map_cons, List.mem_cons, ih, List.map_cons, List.mem_cons]
      tauto
    · have heq : e.1 = key := le_antisymm (not_lt.mp hlt) (not_lt.mp hgt)
      simp [heq]

theorem total_addAt (key q : κ) (amount : M) (t : List (κ × M)) :
    total q (addAt key amount t) = total q t + if key = q then amount else 0 := by
  induction t with
  | nil => simp [addAt, total_cons]
  | cons e rest ih =>
    rcases lt_trichotomy key e.1 with hlt | heq | hgt
    · rw [addAt, if_pos hlt, total_cons, zero_add, add_comm]
    · rw [addAt, if_neg heq.not_lt, if_neg heq.symm.not_lt, total_cons, total_cons, heq]
      split
      · rw [add_right_comm]
      · rw [add_zero]
    · rw [addAt, if_neg (lt_asymm hgt), if_pos hgt, total_cons, ih, total_cons, add_assoc]

theorem sorted_addAt (key : κ) (amount : M) {t : List (κ × M)} (h : Sorted t) :
    Sorted (addAt key amount t) := by
  induction t with
  | nil => exact List.pairwise_singleton _ _
  | cons e rest ih =>
    obtain ⟨hhead, hrest⟩ := List.pairwise_cons.mp h
    unfold addAt
    split_ifs with hlt hgt
    · refine List.pairwise_cons.mpr ⟨?_, h⟩
      intro x hx
      rcases List.mem_cons.mp hx with rfl | hx
      · exact hlt
      · exact hlt.trans (hhead x hx)
    · refine List.pairwise_cons.mpr ⟨?_, ih hrest⟩
      intro x hx
      have hkey := (mem_keys_addAt key x.1 amount rest).mp (List.mem_map_of_mem hx)
      rcases hkey with hkey | hkey
      · exact hkey ▸ hgt
      · obtain ⟨y, hy, hxy⟩ := List.mem_map.mp hkey
        exact hxy ▸ hhead y hy
    · exact List.pairwise_cons.mpr ⟨hhead, hrest⟩

/-- In a tally, an entry is a key with its total. -/
theorem mem_iff_total {t : List (κ × M)} (h : Sorted t) (x : κ × M) :
    x ∈ t ↔ x.1 ∈ t.map (·.1) ∧ x.2 = total x.1 t := by
  induction t with
  | nil => simp
  | cons e rest ih =>
    obtain ⟨hhead, hrest⟩ := List.pairwise_cons.mp h
    rw [List.mem_cons, total_cons, List.map_cons, List.mem_cons, ih hrest]
    by_cases heq : e.1 = x.1
    · have hout : x.1 ∉ rest.map (·.1) := by
        intro hmem
        obtain ⟨y, hy, hxy⟩ := List.mem_map.mp hmem
        exact absurd (hhead y hy) (by rw [heq, hxy]; exact lt_irrefl _)
      have hzero : total x.1 rest = 0 := by
        have hnone : rest.filter (fun y => y.1 = x.1) = [] := by
          rw [List.filter_eq_nil_iff]
          intro y hy hxy
          exact hout (List.mem_map.mpr ⟨y, hy, by simpa using hxy⟩)
        simp [total, hnone]
      rw [if_pos heq, hzero, add_zero]
      constructor
      · rintro (rfl | ⟨hmem, -⟩)
        · exact ⟨Or.inl rfl, rfl⟩
        · exact absurd hmem hout
      · rintro ⟨-, hamount⟩
        exact Or.inl (Prod.ext heq.symm hamount)
    · have hne : x ≠ e := fun h => heq (by rw [h])
      rw [if_neg heq, zero_add]
      constructor
      · rintro (hx | hx)
        · exact absurd hx hne
        · exact ⟨Or.inr hx.1, hx.2⟩
      · rintro ⟨hkey | hkey, hamount⟩
        · exact absurd hkey.symm heq
        · exact Or.inr ⟨hkey, hamount⟩

@[simp] theorem tally_snoc (xs : List (κ × M)) (x : κ × M) :
    tally (xs ++ [x]) = addAt x.1 x.2 (tally xs) := by
  simp [tally]

theorem sorted_tally (xs : List (κ × M)) : Sorted (tally xs) := by
  induction xs using List.reverseRecOn with
  | nil => exact .nil
  | append_singleton xs x ih => simpa using sorted_addAt x.1 x.2 ih

theorem mem_keys_tally (key : κ) (xs : List (κ × M)) :
    key ∈ (tally xs).map (·.1) ↔ key ∈ xs.map (·.1) := by
  induction xs using List.reverseRecOn with
  | nil => rfl
  | append_singleton xs x ih =>
    rw [tally_snoc, mem_keys_addAt, ih, List.map_append, List.mem_append]
    simp [or_comm]

theorem total_tally (key : κ) (xs : List (κ × M)) : total key (tally xs) = total key xs := by
  induction xs using List.reverseRecOn with
  | nil => rfl
  | append_singleton xs x ih => simp [total_addAt, ih, total_append, total_cons]

/-- The entries of a tally are the keys of what was tallied, with their totals. -/
theorem mem_tally (xs : List (κ × M)) (x : κ × M) :
    x ∈ tally xs ↔ x.1 ∈ xs.map (·.1) ∧ x.2 = total x.1 xs := by
  rw [mem_iff_total (sorted_tally xs), mem_keys_tally, total_tally]

theorem sum_addAt (key : κ) (amount : M) (t : List (κ × M)) :
    ((addAt key amount t).map (·.2)).sum = (t.map (·.2)).sum + amount := by
  induction t with
  | nil => simp [addAt]
  | cons e rest ih =>
    unfold addAt
    split_ifs
    · simp only [List.map_cons, List.sum_cons, zero_add]
      rw [add_comm]
    · rw [List.map_cons, List.sum_cons, ih, List.map_cons, List.sum_cons, add_assoc]
    · simp only [List.map_cons, List.sum_cons]
      rw [add_right_comm]

/-- A tally holds all that was added. -/
theorem sum_tally (xs : List (κ × M)) : ((tally xs).map (·.2)).sum = (xs.map (·.2)).sum := by
  induction xs using List.reverseRecOn with
  | nil => rfl
  | append_singleton xs x ih =>
    rw [tally_snoc, sum_addAt, ih, List.map_append, List.sum_append, List.map_singleton,
      List.sum_singleton]

/-- The first entry of a list in rising order is the least one. -/
theorem head?_iff_least {α β : Type} [LinearOrder β] (key : α → β) {xs : List α}
    (h : xs.Pairwise fun a b => key a < key b) {x : α} :
    xs.head? = some x ↔ x ∈ xs ∧ ∀ y ∈ xs, key x ≤ key y := by
  cases xs with
  | nil => simp
  | cons a rest =>
    obtain ⟨hfirst, -⟩ := List.pairwise_cons.mp h
    constructor
    · rintro hx
      obtain rfl : a = x := Option.some.inj hx
      refine ⟨List.mem_cons_self, fun y hy => ?_⟩
      rcases List.mem_cons.mp hy with rfl | hy
      · exact le_rfl
      · exact (hfirst y hy).le
    · rintro ⟨hmem, hleast⟩
      rcases List.mem_cons.mp hmem with rfl | hmem
      · rfl
      · have hlt := hfirst x hmem
        have hle := hleast a List.mem_cons_self
        exact absurd hlt (not_lt_of_ge hle)

/-- The tally of the images of the keys under a map that turns their order around. -/
def mirror (f : κ → κ') (t : List (κ × M)) : List (κ' × M) := (t.map fun x => (f x.1, x.2)).reverse

omit [AddCommMonoid M] in
theorem sorted_mirror {f : κ → κ'} (hf : StrictAnti f) {t : List (κ × M)} (h : Sorted t) :
    Sorted (mirror f t) := by
  unfold Sorted mirror
  rw [List.pairwise_reverse, List.pairwise_map]
  exact h.imp fun hlt => hf hlt

theorem total_map {f : κ → κ'} (hf : Function.Injective f) (key : κ) (xs : List (κ × M)) :
    total (f key) (xs.map fun x => (f x.1, x.2)) = total key xs := by
  induction xs with
  | nil => rfl
  | cons x xs ih => simp only [List.map_cons, total_cons, ih, hf.eq_iff]

/-- The tally of the images is the image of the tally, read backwards. -/
theorem tally_map {f : κ → κ'} (hf : StrictAnti f) (xs : List (κ × M)) :
    tally (xs.map fun x => (f x.1, x.2)) = mirror f (tally xs) := by
  have hirrefl : Std.Irrefl fun a b : κ' × M => a.1 < b.1 := ⟨fun a => lt_irrefl a.1⟩
  have hantisymm : Std.Antisymm fun a b : κ' × M => a.1 < b.1 :=
    ⟨fun a b hab hba => absurd hab (lt_asymm hba)⟩
  apply List.Pairwise.eq_of_mem_iff (sorted_tally _) (sorted_mirror hf (sorted_tally xs))
  rintro ⟨key, amount⟩
  rw [mem_tally, mirror, List.mem_reverse, List.map_map]
  constructor
  · rintro ⟨hkey, hamount⟩
    obtain ⟨x, hx, rfl⟩ := List.mem_map.mp hkey
    rw [Function.comp_apply, total_map hf.injective] at hamount
    exact List.mem_map.mpr ⟨(x.1, total x.1 xs),
      (mem_tally xs _).mpr ⟨List.mem_map.mpr ⟨x, hx, rfl⟩, rfl⟩, Prod.ext rfl hamount.symm⟩
  · intro hmem
    obtain ⟨x, hx, heq⟩ := List.mem_map.mp hmem
    obtain ⟨rfl, rfl⟩ := Prod.mk.inj heq
    obtain ⟨hkey, hamount⟩ := (mem_tally xs x).mp hx
    obtain ⟨z, hz, hzx⟩ := List.mem_map.mp hkey
    refine ⟨List.mem_map.mpr ⟨z, hz, ?_⟩, ?_⟩
    · rw [Function.comp_apply, hzx]
    · rw [total_map hf.injective, hamount]

end SortedTallies
