import OrderFlow.OfeWorkerOverlap

/-!
# The run loops of a symbol worker

Controlling threads make run loops and never move them, a loop enters its body
through the head of its `while`, and between calls with the flag cleared none is
alive.
-/
namespace OfeWorkerLifecycle

variable {Thread : Type}

/-- No run loop is in its body. -/
def Resting (w : Worker Thread) : Prop := ∀ loop : Nat, w.loops[loop]? ≠ some .working

/-- Between calls, with the flag cleared, no run loop is alive. -/
theorem resting_of_idle {w : Worker Thread} (h : Phase w) (hidle : ∀ t, w.calls t = .idle)
    (hflag : w.running = false) : Resting w := by
  have hlive : OnlyLive w.loops none := by
    cases h with
    | quiet _ hagree hlive =>
      have hworker : w.worker = none := by simpa [hflag] using hagree.symm
      rwa [hworker] at hlive
    | starting t hstart =>
      rw [hidle t] at hstart
      exact hstart.elim
    | overlapped t _ hstart =>
      rw [hidle t] at hstart
      exact hstart.elim
    | stopping t _ hstop =>
      rw [hidle t] at hstop
      rcases hstop with hstop | hstop <;> cases hstop
    | ending _ _ _ _ _ hlive => exact hlive
  intro loop hworking
  cases hlive loop (.inr hworking)

theorem resting_of_prefix {w w' : Worker Thread} (h : w.loops <+: w'.loops) (hrest : Resting w') :
    Resting w := by
  intro loop hworking
  obtain ⟨hlt, -⟩ := List.getElem?_eq_some_iff.mp hworking
  refine hrest loop ?_
  rw [List.prefix_iff_getElem?.mp h loop hlt, ← List.getElem?_eq_getElem hlt]
  exact hworking

variable [DecidableEq Thread]

theorem loops_prefix_threadStep (w : Worker Thread) (thread : Thread) :
    w.loops <+: (threadStep w thread).loops := by
  cases hcall : w.calls thread with
  | idle =>
    simp only [threadStep, hcall]
    exact List.prefix_refl _
  | spawn =>
    simp only [threadStep, hcall]
    exact List.prefix_append _ _
  | join caller =>
    simp only [threadStep, hcall]
    split
    · exact List.prefix_refl _
    · split <;> exact List.prefix_refl _
  | assign loop | testJoinable caller | destroyThread =>
    simp only [threadStep, hcall]
    split <;> exact List.prefix_refl _

theorem threadStep_running (w : Worker Thread) (thread : Thread) :
    (threadStep w thread).running = w.running := by
  cases hcall : w.calls thread with
  | idle | spawn => simp only [threadStep, hcall]
  | join caller =>
    simp only [threadStep, hcall]
    split
    · rfl
    · split <;> rfl
  | assign loop | testJoinable caller | destroyThread =>
    simp only [threadStep, hcall]
    split <;> rfl

variable [Fintype Thread]

/-- No controlling thread moves a run loop. -/
theorem loops_prefix (w : Worker Thread) (action : Action Thread)
    (hnot : ∀ loop, action ≠ .loopStep loop) : w.loops <+: (step w action).loops := by
  unfold step
  split
  · cases action with
    | start thread =>
      dsimp only [setRunning]
      split
      · split <;> exact List.prefix_refl _
      · exact List.prefix_refl _
    | stop thread =>
      dsimp only [clearRunning]
      split <;> exact List.prefix_refl _
    | destroy thread =>
      dsimp only [clearRunning]
      split <;> exact List.prefix_refl _
    | threadStep thread => exact loops_prefix_threadStep w thread
    | loopStep loop => exact absurd rfl (hnot loop)
  · exact List.prefix_refl _

/-- A loop at the head of its `while` that stays out of its body. -/
theorem resting_of_loopStep {w : Worker Thread} {loop : Nat}
    (hloop : w.loops[loop]? ≠ some .working) (hrest : Resting (step w (.loopStep loop))) :
    Resting w := by
  intro other hother
  have hne : loop ≠ other := by
    rintro rfl
    exact hloop hother
  refine hrest other ?_
  unfold step
  split
  · dsimp only [loopStep]
    split
    · simpa [List.getElem?_set_ne hne] using hother
    · simpa [List.getElem?_set_ne hne] using hother
    · exact hother
  · exact hother

end OfeWorkerLifecycle
