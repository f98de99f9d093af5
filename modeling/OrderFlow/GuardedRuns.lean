import Mathlib.Data.List.Infix
import Mathlib.Data.List.Induction

/-!
# Runs whose steps all meet a condition

A run takes a list of inputs step by step, and a guard says of a state and an input
whether the step is fine. What fine steps preserve holds in every state of a run of
fine steps. A step that may fail goes on from good states if it keeps them good.
-/
namespace GuardedRuns

variable {σ α : Type} {step : σ → α → σ} {fine : σ → α → Prop}

/-- Every step of the run from `s` is fine. -/
def Guarded (step : σ → α → σ) (fine : σ → α → Prop) : σ → List α → Prop
  | _, [] => True
  | s, a :: as => fine s a ∧ Guarded step fine (step s a) as

/-- What fine steps preserve holds in every state of the run. -/
theorem inv_of_guarded (inv : σ → Prop) (hstep : ∀ s a, inv s → fine s a → inv (step s a)) {s : σ}
    (h : inv s) {as bs : List α} (hguarded : Guarded step fine s as) (hbs : bs <+: as) :
    inv (bs.foldl step s) := by
  induction bs generalizing s as with
  | nil => exact h
  | cons b bs ih =>
    obtain ⟨rest, rfl⟩ := hbs
    exact ih (hstep s b h hguarded.1) hguarded.2 ⟨rest, rfl⟩

/-- A run stays good exactly if all its steps are fine, where a step from a good state is good
exactly if it is fine. -/
theorem prefixes_iff_guarded (inv good : σ → Prop) {as : List α}
    (hinv : ∀ s, ∀ a ∈ as, inv s → inv (step s a))
    (hgood : ∀ s, ∀ a ∈ as, inv s → good s → (good (step s a) ↔ fine s a)) {s : σ} (h : inv s)
    (hs : good s) :
    (∀ bs, bs <+: as → good (bs.foldl step s)) ↔ Guarded step fine s as := by
  induction as generalizing s with
  | nil => simp [Guarded, hs]
  | cons a as ih =>
    have hfirst := hgood s a List.mem_cons_self h hs
    have hrest := ih (s := step s a) (fun t b hb => hinv t b (List.mem_cons_of_mem a hb))
      (fun t b hb => hgood t b (List.mem_cons_of_mem a hb)) (hinv s a List.mem_cons_self h)
    rw [Guarded]
    constructor
    · intro hall
      have hstep : good (step s a) := hall [a] (by simp)
      refine ⟨hfirst.mp hstep, (hrest hstep).mp ?_⟩
      intro bs hbs
      exact hall (a :: bs) (List.cons_prefix_cons.mpr ⟨rfl, hbs⟩)
    · rintro ⟨hfine, hguarded⟩ bs hbs
      cases bs with
      | nil => exact hs
      | cons b bs =>
        obtain ⟨rfl, htail⟩ := List.cons_prefix_cons.mp hbs
        exact (hrest (hfirst.mpr hfine)).mpr hguarded bs htail

/-- What is bad once stays bad, so a run is good exactly if all its steps are fine. -/
theorem good_iff_guarded (inv good : σ → Prop) (hinv : ∀ s a, inv s → inv (step s a))
    (hgood : ∀ s a, inv s → (good (step s a) ↔ good s ∧ fine s a)) {s : σ} (h : inv s)
    (as : List α) : good (as.foldl step s) ↔ good s ∧ Guarded step fine s as := by
  induction as generalizing s with
  | nil => simp [Guarded]
  | cons a as ih => rw [List.foldl_cons, ih (hinv s a h), hgood s a h, Guarded, and_assoc]

/-- The run from `s` has taken the step `a` in a state with `start`, and every state since
has `stays`. -/
def Since (step : σ → α → σ) (s : σ) (start : σ → Prop) (a : α) (stays : σ → Prop)
    (as : List α) : Prop :=
  ∃ before after, as = before ++ a :: after ∧ start (before.foldl step s) ∧
    ∀ between, between <+: after → stays ((before ++ a :: between).foldl step s)

section Since

variable {start stays : σ → Prop} {s : σ} {a : α} {as : List α}

theorem since_begin (hstart : start (as.foldl step s)) (hstays : stays (step (as.foldl step s) a)) :
    Since step s start a stays (as ++ [a]) := by
  refine ⟨as, [], rfl, hstart, fun between hbetween => ?_⟩
  obtain rfl := List.prefix_nil.mp hbetween
  simpa using hstays

theorem since_snoc {b : α} (h : Since step s start a stays as)
    (hstays : stays ((as ++ [b]).foldl step s)) : Since step s start a stays (as ++ [b]) := by
  obtain ⟨before, after, rfl, hstart, hafter⟩ := h
  refine ⟨before, after ++ [b], by simp, hstart, fun between hbetween => ?_⟩
  rcases List.prefix_concat_iff.mp hbetween with rfl | hle
  · simpa using hstays
  · exact hafter between hle

/-- What holds now and not at first has held since a step that brought it about. -/
theorem exists_since (inv start stays : σ → Prop) (begins : α → Prop)
    (hstep : ∀ t b, inv t → inv (step t b))
    (henter : ∀ t b, inv t → ¬ stays t → stays (step t b) → start t ∧ begins b) (h : inv s)
    (hnot : ¬ stays s) (as : List α) (hnow : stays (as.foldl step s)) :
    ∃ b, begins b ∧ Since step s start b stays as := by
  induction as using List.reverseRecOn with
  | nil => exact absurd hnow hnot
  | append_singleton as a ih =>
    by_cases hbefore : stays (as.foldl step s)
    · obtain ⟨b, hb, hsince⟩ := ih hbefore
      exact ⟨b, hb, since_snoc hsince hnow⟩
    · have hinv : inv (as.foldl step s) := List.foldlRecOn as step h fun t ht b _ => hstep t b ht
      simp only [List.foldl_append, List.foldl_cons, List.foldl_nil] at hnow
      obtain ⟨hstart, ha⟩ := henter _ a hinv hbefore hnow
      exact ⟨a, ha, since_begin hstart hnow⟩

end Since

variable {partialStep : σ → α → Option σ}

/-- A step that goes on from every good state, to a good one. -/
theorem exists_foldlM (good : σ → Prop) {xs : List α}
    (hstep : ∀ s, good s → ∀ x ∈ xs, ∃ s', partialStep s x = some s' ∧ good s') {s : σ}
    (h : good s) : ∃ s', xs.foldlM partialStep s = some s' := by
  induction xs generalizing s with
  | nil => exact ⟨s, rfl⟩
  | cons x xs ih =>
    obtain ⟨s', hs', hgood⟩ := hstep s h x (by simp)
    rw [List.foldlM_cons, hs']
    exact ih (fun t ht y hy => hstep t ht y (List.mem_cons_of_mem x hy)) hgood

/-- What every step keeps that does not fail. -/
theorem inv_of_foldlM (inv : σ → Prop)
    (hstep : ∀ s x s', inv s → partialStep s x = some s' → inv s') {xs : List α} {s s' : σ}
    (h : inv s) (hrun : xs.foldlM partialStep s = some s') : inv s' := by
  induction xs generalizing s with
  | nil =>
    cases hrun
    exact h
  | cons x xs ih =>
    rw [List.foldlM_cons, Option.bind_eq_bind, Option.bind_eq_some_iff] at hrun
    obtain ⟨t, ht, hrest⟩ := hrun
    exact ih (hstep s x t h ht) hrest

end GuardedRuns
