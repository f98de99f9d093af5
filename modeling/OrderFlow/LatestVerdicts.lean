import Mathlib.Data.List.Induction

/-!
# The latest verdict on a stream

Each item of a stream is given a verdict, or none, in the light of the items before it. A
register that takes every verdict and keeps what it has where there is none holds the latest
verdict of its stream. `Latest` says what that is without a register.
-/
namespace LatestVerdicts

variable {α β : Type} (verdict : List α → α → Option β)

/-- No item of `after`, which comes behind `before`, is given a verdict. -/
def Silent (before after : List α) : Prop :=
  ∀ mid x rest, after = mid ++ x :: rest → verdict (before ++ mid) x = none

/-- The last item of the stream that is given a verdict is given `b`. -/
def Latest (xs : List α) (b : β) : Prop :=
  ∃ before x after, xs = before ++ x :: after ∧ verdict before x = some b ∧
    Silent verdict (before ++ [x]) after

/-- A register that takes each verdict and else stays as it is. -/
structure Holds {σ : Type} (step : σ → α → σ) (read : σ → β) (s : σ) : Prop where
  step : ∀ xs x, read (step (xs.foldl step s) x) = (verdict xs x).getD (read (xs.foldl step s))

theorem silent_nil (before : List α) : Silent verdict before [] := by
  intro mid x rest h
  simp at h

variable {verdict}

theorem silent_snoc {before after : List α} {x : α} :
    Silent verdict before (after ++ [x]) ↔
      Silent verdict before after ∧ verdict (before ++ after) x = none := by
  constructor
  · intro h
    refine ⟨fun mid y rest hsplit => ?_, h after x [] rfl⟩
    exact h mid y (rest ++ [x]) (by rw [hsplit]; simp)
  · rintro ⟨hbefore, hlast⟩ mid y rest hsplit
    rcases List.eq_nil_or_concat rest with rfl | ⟨rest, z, rfl⟩
    · obtain ⟨rfl, hy⟩ := List.append_inj' hsplit rfl
      obtain rfl : x = y := by simpa using hy
      exact hlast
    · have hsplit' : after ++ [x] = (mid ++ y :: rest) ++ [z] := by simpa using hsplit
      obtain ⟨hafter, -⟩ := List.append_inj' hsplit' rfl
      exact hbefore mid y rest hafter

theorem latest_snoc_some {xs : List α} {x : α} {b : β} (h : verdict xs x = some b) :
    Latest verdict (xs ++ [x]) b :=
  ⟨xs, x, [], rfl, h, silent_nil verdict _⟩

theorem latest_snoc_none {xs : List α} {x : α} {b : β} (h : Latest verdict xs b)
    (hx : verdict xs x = none) : Latest verdict (xs ++ [x]) b := by
  obtain ⟨before, y, after, rfl, hy, hsilent⟩ := h
  refine ⟨before, y, after ++ [x], by simp, hy, silent_snoc.mpr ⟨hsilent, ?_⟩⟩
  simpa using hx

/-- Such a register has the latest verdict, or what it had at first. -/
theorem latest_or_silent {σ : Type} {step : σ → α → σ} {read : σ → β} {s : σ}
    (h : Holds verdict step read s) (xs : List α) :
    Latest verdict xs (read (xs.foldl step s)) ∨
      Silent verdict [] xs ∧ read (xs.foldl step s) = read s := by
  induction xs using List.reverseRecOn with
  | nil => exact .inr ⟨silent_nil verdict [], rfl⟩
  | append_singleton xs x ih =>
    rw [List.foldl_append, List.foldl_cons, List.foldl_nil, h.step]
    cases hx : verdict xs x with
    | some b => exact .inl (latest_snoc_some hx)
    | none =>
      rw [Option.getD_none]
      rcases ih with hlatest | ⟨hsilent, hread⟩
      · exact .inl (latest_snoc_none hlatest hx)
      · exact .inr ⟨silent_snoc.mpr ⟨hsilent, hx⟩, hread⟩

end LatestVerdicts
