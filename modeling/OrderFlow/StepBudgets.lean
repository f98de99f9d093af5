import Mathlib.Data.List.Count

/-!
# Work that takes its own steps

A measure of the work left: no step raises it, and each of the steps that do the work
lowers it until nothing is left. However these are interleaved with the others, as many of
them as there was work at the start are enough.
-/
namespace StepBudgets

variable {σ α : Type} {step : σ → α → σ}

/-- The rules of a measure, for the steps that are allowed from the states with the
invariant: `own` says which of them do the work. -/
structure Budget (step : σ → α → σ) (inv : σ → Prop) (allowed : α → Prop) (own : α → Bool)
    (left : σ → Nat) : Prop where
  keep : ∀ s a, inv s → allowed a → inv (step s a)
  other : ∀ s a, inv s → allowed a → own a = false → left (step s a) ≤ left s
  spend : ∀ s a, inv s → allowed a → own a = true → left (step s a) ≤ left s - 1

variable {inv : σ → Prop} {allowed : α → Prop} {own : α → Bool} {left : σ → Nat}

theorem Budget.inv_run (h : Budget step inv allowed own left) {s : σ} (hs : inv s) {as : List α}
    (has : ∀ a ∈ as, allowed a) : inv (as.foldl step s) :=
  List.foldlRecOn as step hs fun t ht a ha => h.keep t a ht (has a ha)

theorem Budget.left_run (h : Budget step inv allowed own left) {s : σ} (hs : inv s) {as : List α}
    (has : ∀ a ∈ as, allowed a) : left (as.foldl step s) ≤ left s - as.countP own := by
  induction as generalizing s with
  | nil => simp
  | cons a as ih =>
    have ha : allowed a := has a List.mem_cons_self
    have hrest := ih (h.keep s a hs ha) fun b hb => has b (List.mem_cons_of_mem a hb)
    rw [List.foldl_cons]
    cases hown : own a with
    | true =>
      rw [List.countP_cons_of_pos hown]
      have hspend := h.spend s a hs ha hown
      omega
    | false =>
      rw [List.countP_cons_of_neg (by simp [hown])]
      have hother := h.other s a hs ha hown
      omega

/-- As many steps as there is work leave nothing to do. -/
theorem Budget.done (h : Budget step inv allowed own left) {s : σ} (hs : inv s) {as : List α}
    (has : ∀ a ∈ as, allowed a) (hcount : left s ≤ as.countP own) : left (as.foldl step s) = 0 := by
  have hrun := h.left_run hs has
  omega

end StepBudgets
