import Mathlib.Logic.Function.Iterate

/-!
# While loops

A loop with a test and a body, run for at most a given number of rounds. A
variant that every round lowers bounds the rounds; an invariant of the body holds
of the result; a weaker test runs on from where a stronger one stops; and a map
that commutes with the test and the body commutes with the loop.
-/
namespace WhileLoops

variable {σ τ : Type} {test : σ → Bool} {body : σ → σ}

/-- `while (test) body`, for at most `fuel` rounds. -/
def whileLoop (test : σ → Bool) (body : σ → σ) : Nat → σ → σ
  | 0, s => s
  | fuel + 1, s => if test s then whileLoop test body fuel (body s) else s

@[simp] theorem whileLoop_zero (s : σ) : whileLoop test body 0 s = s := rfl

theorem whileLoop_succ (fuel : Nat) (s : σ) :
    whileLoop test body (fuel + 1) s = if test s then whileLoop test body fuel (body s) else s := rfl

/-- The rounds a loop has made: the test held before each of them, and fails
after the last unless the fuel is spent. -/
structure Rounds (test : σ → Bool) (body : σ → σ) (s : σ) (rounds : Nat) (result : σ) : Prop where
  result_eq : result = body^[rounds] s
  tested : ∀ j < rounds, test (body^[j] s) = true

theorem whileLoop_rounds (test : σ → Bool) (body : σ → σ) (fuel : Nat) (s : σ) :
    ∃ rounds ≤ fuel, Rounds test body s rounds (whileLoop test body fuel s) := by
  induction fuel generalizing s with
  | zero => exact ⟨0, Nat.le_refl 0, rfl, fun j hj => absurd hj (Nat.not_lt_zero j)⟩
  | succ fuel ih =>
    by_cases hs : test s = true
    · obtain ⟨rounds, hle, hresult, htested⟩ := ih (body s)
      refine ⟨rounds + 1, Nat.succ_le_succ hle, ?_, ?_⟩
      · rw [whileLoop_succ, if_pos hs, hresult, Function.iterate_succ_apply]
      · intro j hj
        cases j with
        | zero => exact hs
        | succ j =>
          rw [Function.iterate_succ_apply]
          exact htested j (Nat.lt_of_succ_lt_succ hj)
    · refine ⟨0, Nat.zero_le _, ?_, fun j hj => absurd hj (Nat.not_lt_zero j)⟩
      rw [whileLoop_succ, if_neg hs, Function.iterate_zero_apply]

/-- Fuel for every unit of a variant is enough for the loop to end. -/
theorem whileLoop_ends (variant : σ → Nat)
    (hbody : ∀ s, test s = true → variant (body s) < variant s) {fuel : Nat} {s : σ}
    (hfuel : variant s ≤ fuel) : test (whileLoop test body fuel s) = false := by
  induction fuel generalizing s with
  | zero =>
    rw [whileLoop_zero, ← Bool.not_eq_true]
    intro hs
    have hlower := hbody s hs
    omega
  | succ fuel ih =>
    rw [whileLoop_succ]
    split
    · rename_i hs
      have hlower := hbody s hs
      apply ih
      omega
    · rename_i hs
      exact Bool.not_eq_true _ ▸ hs

theorem whileLoop_invariant (inv : σ → Prop)
    (hbody : ∀ s, test s = true → inv s → inv (body s)) (fuel : Nat) {s : σ} (h : inv s) :
    inv (whileLoop test body fuel s) := by
  induction fuel generalizing s with
  | zero => exact h
  | succ fuel ih =>
    rw [whileLoop_succ]
    split
    · rename_i hs
      exact ih (hbody s hs h)
    · exact h

/-- The loop of a weaker test runs on from where that of a stronger one stops:
what every round keeps from its start to its end, it keeps between the two. -/
theorem whileLoop_weaken {test' : σ → Bool} (himp : ∀ s, test s = true → test' s = true)
    (rel : σ → σ → Prop) (hrefl : ∀ s, rel s s) (htrans : ∀ r s t, rel r s → rel s t → rel r t)
    (hbody : ∀ s, test' s = true → rel s (body s)) (fuel : Nat) (s : σ) :
    rel (whileLoop test body fuel s) (whileLoop test' body fuel s) := by
  induction fuel generalizing s with
  | zero => exact hrefl s
  | succ fuel ih =>
    by_cases hs : test s = true
    · rw [whileLoop_succ, if_pos hs, whileLoop_succ, if_pos (himp s hs)]
      exact ih (body s)
    · rw [whileLoop_succ fuel s, if_neg hs]
      apply whileLoop_invariant (rel s)
      · intro t ht hst
        exact htrans s t (body t) hst (hbody t ht)
      · exact hrefl s

theorem whileLoop_map {test' : τ → Bool} {body' : τ → τ} (φ : σ → τ)
    (htest : ∀ s, test' (φ s) = test s) (hbody : ∀ s, body' (φ s) = φ (body s)) (fuel : Nat) (s : σ) :
    whileLoop test' body' fuel (φ s) = φ (whileLoop test body fuel s) := by
  induction fuel generalizing s with
  | zero => rfl
  | succ fuel ih =>
    rw [whileLoop_succ, whileLoop_succ, htest, hbody]
    split
    · exact ih (body s)
    · rfl

end WhileLoops
