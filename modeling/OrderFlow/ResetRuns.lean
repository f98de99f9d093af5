import Mathlib.Data.List.Induction

/-!
# Engines that are fed and reset

An engine takes one item at a time and can be reset to the state it was built
in. What it has become is then decided by the items since the last reset.
-/
namespace ResetRuns

variable {α σ : Type}

inductive Call (α : Type) where
  | feed (x : α)
  | reset
  deriving DecidableEq, Repr

def Call.map {β : Type} (f : α → β) : Call α → Call β
  | .feed x => .feed (f x)
  | .reset => .reset

/-- The items so far since the last reset, after one more call. -/
def keep (fed : List α) : Call α → List α
  | .feed x => fed ++ [x]
  | .reset => []

/-- The items fed since the last reset. -/
def sinceReset (calls : List (Call α)) : List α := calls.foldl keep []

@[simp] theorem sinceReset_snoc (calls : List (Call α)) (call : Call α) :
    sinceReset (calls ++ [call]) = keep (sinceReset calls) call := by
  simp [sinceReset]

def act (feed : σ → α → σ) (reset : σ → σ) (s : σ) : Call α → σ
  | .feed x => feed s x
  | .reset => reset s

def run (feed : σ → α → σ) (reset : σ → σ) (new : σ) (calls : List (Call α)) : σ :=
  calls.foldl (act feed reset) new

/-- A run is the run of a new engine on what was fed since the last reset. -/
theorem run_eq_foldl {feed : σ → α → σ} {reset : σ → σ} {new : σ} (hreset : ∀ s, reset s = new)
    (calls : List (Call α)) : run feed reset new calls = (sinceReset calls).foldl feed new := by
  induction calls using List.reverseRecOn with
  | nil => rfl
  | append_singleton calls call ih =>
    have hrun : run feed reset new (calls ++ [call]) = act feed reset (run feed reset new calls) call := by
      simp [run]
    rw [hrun, sinceReset_snoc, ih]
    cases call with
    | feed x => simp [act, keep]
    | reset => exact hreset _

theorem sinceReset_map {β : Type} (f : α → β) (calls : List (Call α)) :
    sinceReset (calls.map (Call.map f)) = (sinceReset calls).map f := by
  induction calls using List.reverseRecOn with
  | nil => rfl
  | append_singleton calls call ih =>
    rw [List.map_append, List.map_singleton, sinceReset_snoc, sinceReset_snoc, ih]
    cases call with
    | feed x => simp [keep, Call.map]
    | reset => rfl

/-- Nothing is forgotten without a reset. -/
theorem sinceReset_feeds (xs : List α) : sinceReset (xs.map Call.feed) = xs := by
  induction xs using List.reverseRecOn with
  | nil => rfl
  | append_singleton xs x ih =>
    rw [List.map_append, List.map_singleton, sinceReset_snoc, ih]
    rfl

end ResetRuns
