import Mathlib.Data.List.Basic
import Mathlib.Data.List.Infix
import Mathlib.Data.List.TakeWhile

/-!
# Maximal runs of a list

The maximal runs of the elements with a property, from left to right. `runsFrom`
carries the run that is still open, as a scan does; the laws are about `runs`.
-/
namespace MaximalRuns

variable {α β : Type}

/-- A run that has ended, if there was one. -/
def emit : List α → List (List α)
  | [] => []
  | x :: xs => [x :: xs]

def runsFrom (p : α → Bool) : List α → List α → List (List α)
  | open_, [] => emit open_
  | open_, x :: xs => if p x then runsFrom p (open_ ++ [x]) xs else emit open_ ++ runsFrom p [] xs

def runs (p : α → Bool) (xs : List α) : List (List α) := runsFrom p [] xs

theorem emit_of_ne_nil {xs : List α} (h : xs ≠ []) : emit xs = [xs] := by
  cases xs with
  | nil => exact absurd rfl h
  | cons x xs => rfl

theorem mem_emit {xs run : List α} : run ∈ emit xs ↔ xs ≠ [] ∧ run = xs := by
  cases xs <;> simp [emit]

theorem emit_map (f : α → β) (xs : List α) : emit (xs.map f) = (emit xs).map (List.map f) := by
  cases xs <;> rfl

theorem emit_reverse (xs : List α) : emit xs.reverse = (emit xs).map List.reverse := by
  by_cases h : xs = []
  · subst h
    rfl
  · rw [emit_of_ne_nil h, emit_of_ne_nil (by simpa using h), List.map_singleton]

theorem runsFrom_of_all {p : α → Bool} {xs : List α} (h : ∀ x ∈ xs, p x = true) (open_ : List α) :
    runsFrom p open_ xs = emit (open_ ++ xs) := by
  induction xs generalizing open_ with
  | nil => simp [runsFrom]
  | cons x xs ih =>
    rw [runsFrom, if_pos (h x (by simp)), ih fun y hy => h y (by simp [hy])]
    simp

theorem runsFrom_append_break {p : α → Bool} {x : α} (hx : p x = false) (open_ xs ys : List α) :
    runsFrom p open_ (xs ++ x :: ys) = runsFrom p open_ xs ++ runs p ys := by
  induction xs generalizing open_ with
  | nil => simp [runsFrom, hx, runs]
  | cons y xs ih =>
    rw [List.cons_append, runsFrom, runsFrom]
    split
    · exact ih _
    · rw [ih, List.append_assoc]

/-- A list is one run, or a run cut short by an element without the property. -/
theorem split_at_break (p : α → Bool) (xs : List α) :
    (∀ x ∈ xs, p x = true) ∨
      ∃ first x rest, xs = first ++ x :: rest ∧ (∀ y ∈ first, p y = true) ∧ p x = false := by
  have hall : ∀ y ∈ xs.takeWhile p, p y = true := fun y hy => List.mem_takeWhile_imp hy
  cases hdrop : xs.dropWhile p with
  | nil =>
    left
    have hxs := List.takeWhile_append_dropWhile (p := p) (l := xs)
    rw [hdrop, List.append_nil] at hxs
    rw [hxs] at hall
    exact hall
  | cons x rest =>
    right
    refine ⟨xs.takeWhile p, x, rest, ?_, hall, ?_⟩
    · rw [← hdrop, List.takeWhile_append_dropWhile]
    · have := List.head_dropWhile_not p (l := xs) (by simp [hdrop])
      simpa [hdrop] using this

theorem runs_of_all {p : α → Bool} {xs : List α} (h : ∀ x ∈ xs, p x = true) :
    runs p xs = emit xs := by
  rw [runs, runsFrom_of_all h, List.nil_append]

theorem runs_append_break {p : α → Bool} {x : α} (hx : p x = false) (xs ys : List α) :
    runs p (xs ++ x :: ys) = runs p xs ++ runs p ys :=
  runsFrom_append_break hx [] xs ys

/-- The induction that goes from break to break. -/
theorem break_induction (p : α → Bool) {motive : List α → Prop}
    (all : ∀ xs, (∀ x ∈ xs, p x = true) → motive xs)
    (cut : ∀ first x rest, (∀ y ∈ first, p y = true) → p x = false → motive rest →
      motive (first ++ x :: rest)) (xs : List α) : motive xs := by
  induction hn : xs.length using Nat.strong_induction_on generalizing xs with
  | h n ih =>
    rcases split_at_break p xs with h | ⟨first, x, rest, rfl, hfirst, hx⟩
    · exact all xs h
    · refine cut first x rest hfirst hx (ih rest.length ?_ rest rfl)
      rw [← hn, List.length_append, List.length_cons]
      omega

theorem runs_reverse (p : α → Bool) (xs : List α) :
    runs p xs.reverse = ((runs p xs).map List.reverse).reverse := by
  induction xs using break_induction p with
  | all xs h =>
    rw [runs_of_all h, runs_of_all fun x hx => h x (List.mem_reverse.mp hx), emit_reverse]
    cases xs <;> rfl
  | cut first x rest hfirst hx ih =>
    have hsingle : ((emit first).map List.reverse).reverse = (emit first).map List.reverse := by
      cases first <;> rfl
    rw [List.reverse_append, List.reverse_cons, List.append_assoc, List.singleton_append,
      runs_append_break hx, runs_append_break hx, ih, runs_of_all hfirst,
      runs_of_all fun y hy => hfirst y (List.mem_reverse.mp hy), emit_reverse, List.map_append,
      List.reverse_append, hsingle]

theorem runsFrom_map (p : β → Bool) (f : α → β) (open_ xs : List α) :
    runsFrom p (open_.map f) (xs.map f) = (runsFrom (p ∘ f) open_ xs).map (List.map f) := by
  induction xs generalizing open_ with
  | nil => simp [runsFrom, emit_map]
  | cons x xs ih =>
    have hnil := ih []
    have hsnoc := ih (open_ ++ [x])
    rw [List.map_append, List.map_singleton] at hsnoc
    simp only [List.map_cons, runsFrom, Function.comp_apply]
    split
    · exact hsnoc
    · rw [List.map_nil] at hnil
      rw [hnil, List.map_append, emit_map]

theorem runs_map (p : β → Bool) (f : α → β) (xs : List α) :
    runs p (xs.map f) = (runs (p ∘ f) xs).map (List.map f) :=
  runsFrom_map p f [] xs

/-- A piece of a list with the property throughout, and no such element next to it. -/
structure IsRun (p : α → Bool) (xs run : List α) : Prop where
  ne_nil : run ≠ []
  all : ∀ x ∈ run, p x = true
  maximal : ∃ before after, xs = before ++ run ++ after ∧
    (∀ x ∈ before.getLast?, p x = false) ∧ ∀ x ∈ after.head?, p x = false

theorem IsRun.subset {p : α → Bool} {xs run : List α} (h : IsRun p xs run) : run ⊆ xs := by
  obtain ⟨before, after, rfl, -, -⟩ := h.maximal
  intro x hx
  simp [hx]

theorem isRun_of_mem_runs {p : α → Bool} {xs run : List α} (h : run ∈ runs p xs) :
    IsRun p xs run := by
  induction xs using break_induction p with
  | all xs hall =>
    rw [runs_of_all hall, mem_emit] at h
    obtain ⟨hne, rfl⟩ := h
    exact ⟨hne, hall, [], [], by simp, by simp, by simp⟩
  | cut first x rest hfirst hx ih =>
    rw [runs_append_break hx, runs_of_all hfirst, List.mem_append, mem_emit] at h
    rcases h with ⟨hne, rfl⟩ | h
    · exact ⟨hne, hfirst, [], x :: rest, by simp, by simp, by simp [hx]⟩
    · obtain ⟨hne, hall, before, after, rfl, hleft, hright⟩ := ih h
      refine ⟨hne, hall, first ++ x :: before, after, by simp, ?_, hright⟩
      intro y hy
      cases before with
      | nil =>
        obtain rfl : x = y := by simpa using hy
        exact hx
      | cons z before =>
        rw [List.getLast?_append_cons, List.getLast?_cons_cons] at hy
        exact hleft y hy

/-- A run is cut off on both sides, so nothing around it is of interest. -/
theorem mem_runs_of_isRun {p : α → Bool} {xs run : List α} (h : IsRun p xs run) :
    run ∈ runs p xs := by
  obtain ⟨before, after, rfl, hleft, hright⟩ := h.maximal
  have hafter : run ∈ runs p (run ++ after) := by
    cases after with
    | nil => simp [runs_of_all h.all, emit_of_ne_nil h.ne_nil]
    | cons z after =>
      rw [runs_append_break (hright z (by simp)), runs_of_all h.all, emit_of_ne_nil h.ne_nil]
      simp
  rw [List.append_assoc]
  cases before using List.reverseRecOn with
  | nil => exact hafter
  | append_singleton before y =>
    rw [List.append_assoc, List.singleton_append, runs_append_break (hleft y (by simp))]
    exact List.mem_append_right _ hafter

theorem mem_runs_iff {p : α → Bool} {xs run : List α} : run ∈ runs p xs ↔ IsRun p xs run :=
  ⟨isRun_of_mem_runs, mem_runs_of_isRun⟩

/-- A run is not empty, and a piece of the list with the property throughout. -/
theorem mem_runs {p : α → Bool} {xs run : List α} (h : run ∈ runs p xs) :
    run ≠ [] ∧ run <:+: xs ∧ ∀ x ∈ run, p x = true := by
  have hrun := isRun_of_mem_runs h
  obtain ⟨before, after, hxs, -, -⟩ := hrun.maximal
  exact ⟨hrun.ne_nil, ⟨before, after, hxs.symm⟩, hrun.all⟩

/-- In a sorted list an element without the property lies between any two runs. -/
theorem runs_separated {p : α → Bool} {R : α → α → Prop} {xs : List α} (h : xs.Pairwise R) :
    (runs p xs).Pairwise fun r s => ∃ x ∈ xs, (∀ y ∈ r, R y x) ∧ ∀ y ∈ s, R x y := by
  induction xs using break_induction p with
  | all xs hall =>
    rw [runs_of_all hall]
    cases xs <;> simp [emit]
  | cut first x rest hfirst hx ih =>
    obtain ⟨-, hrest, hacross⟩ := List.pairwise_append.mp h
    obtain ⟨hx', hrest⟩ := List.pairwise_cons.mp hrest
    rw [runs_append_break hx, runs_of_all hfirst, List.pairwise_append]
    refine ⟨by cases first <;> simp [emit], ?_, ?_⟩
    · refine (ih hrest).imp ?_
      rintro r s ⟨y, hy, hr, hs⟩
      exact ⟨y, by simp [hy], hr, hs⟩
    · intro r hr s hs
      obtain ⟨-, rfl⟩ := mem_emit.mp hr
      obtain ⟨-, hpiece, -⟩ := mem_runs hs
      exact ⟨x, by simp, fun y hy => hacross y hy x (by simp),
        fun y hy => hx' y (hpiece.subset hy)⟩

end MaximalRuns
