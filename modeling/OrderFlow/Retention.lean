import Mathlib.Data.List.AList
import Mathlib.Data.List.Perm.Basic
import Mathlib.Order.Lattice
import Mathlib.Tactic.ByContra

/-!
# Keeping the last of a sorted set of names

A finite map loses the first names of a sorted list. What is on the list and not among
the first stays, its last name first of all.
-/
namespace Retention

theorem mem_drop_iff {α : Type} {names : List α} (hnodup : names.Nodup) (n : Nat) {name : α} :
    name ∈ names.drop n ↔ name ∈ names ∧ name ∉ names.take n := by
  constructor
  · intro hmem
    exact ⟨List.mem_of_mem_drop hmem,
      fun htake => List.disjoint_take_drop hnodup (Nat.le_refl n) htake hmem⟩
  · rintro ⟨hmem, htake⟩
    rw [← List.take_append_drop n names] at hmem
    exact (List.mem_append.mp hmem).resolve_left htake

/-- The largest of the names is the last to go. -/
theorem max_notMem_take {α : Type} [LinearOrder α] {names : List α} (hsorted : names.Pairwise (· ≤ ·)) (hnodup : names.Nodup)
    {n : Nat} (hn : n < names.length) {top : α} (htop : ∀ name ∈ names, name ≤ top) :
    top ∉ names.take n := by
  intro hmem
  have hsplit := List.take_append_drop n names
  rw [← hsplit, List.pairwise_append] at hsorted
  have hlast : names[n] ∈ names.drop n := by
    rw [List.drop_eq_getElem_cons hn]
    exact List.mem_cons_self
  have heq : top = names[n] :=
    le_antisymm (hsorted.2.2 top hmem _ hlast) (htop _ (List.getElem_mem hn))
  exact List.disjoint_take_drop hnodup (Nat.le_refl n) hmem (heq ▸ hlast)

variable {κ : Type} [DecidableEq κ] {β : κ → Type}

def eraseAll (names : List κ) (files : AList β) : AList β :=
  names.foldl (fun files name => files.erase name) files

theorem eraseAll_cons (name : κ) (names : List κ) (files : AList β) :
    eraseAll (name :: names) files = eraseAll names (files.erase name) := rfl

theorem lookup_eraseAll (names : List κ) (files : AList β) (name : κ) :
    (eraseAll names files).lookup name = if name ∈ names then none else files.lookup name := by
  induction names generalizing files with
  | nil => simp [eraseAll]
  | cons first names ih =>
    rw [eraseAll_cons, ih]
    by_cases hfirst : name = first
    · subst hfirst
      simp [AList.lookup_erase]
    · simp [hfirst, AList.lookup_erase_ne hfirst]

theorem mem_eraseAll {names : List κ} {files : AList β} {name : κ} :
    name ∈ eraseAll names files ↔ name ∈ files ∧ name ∉ names := by
  rw [← AList.lookup_isSome, lookup_eraseAll, ← AList.lookup_isSome]
  by_cases h : name ∈ names <;> simp [h]

/-- The listed names that remain when the first `n` of them are erased. -/
theorem filter_keys_eraseAll {listed : κ → Bool} {names : List κ} {files : AList β}
    (hnames : names.Perm (files.keys.filter listed)) (n : Nat) :
    ((eraseAll (names.take n) files).keys.filter listed).Perm (names.drop n) := by
  have hnodup : names.Nodup := hnames.nodup_iff.mpr (files.keys_nodup.filter _)
  refine (List.perm_ext_iff_of_nodup ((AList.keys_nodup _).filter _)
    (hnodup.sublist (List.drop_sublist n names))).mpr fun name => ?_
  have hlisted : name ∈ names ↔ name ∈ files ∧ listed name = true := by
    rw [hnames.mem_iff, List.mem_filter, ← AList.mem_keys]
  rw [List.mem_filter, ← AList.mem_keys, mem_eraseAll, mem_drop_iff hnodup, hlisted, and_right_comm]

end Retention
