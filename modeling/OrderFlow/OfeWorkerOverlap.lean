import OrderFlow.OfeWorkerLifecycle

/-!
# What `start` and `stop` need of each other

A call that has changed `running_` is in flight until it has brought `worker_`
into line with it. As long as no `start` sets the flag while a `stop` is in
flight, and no `stop` tests `worker_` while a `start` is, the flag and the thread
agree between calls, one run loop is alive at most, and the destructor finds
nothing to join. Every step that breaks this leads some run to `std::terminate`.
-/
namespace OfeWorkerLifecycle

variable {Thread : Type}

/-- In a `start`, between the compare-exchange and the end of the assignment. -/
def Call.Starting : Call → Prop
  | .spawn => True
  | .assign _ => True
  | _ => False

/-- In a `stop`, between the exchange and the end of the join. -/
def Call.Stopping : Call → Prop
  | .testJoinable _ => True
  | .join _ => True
  | _ => False

/-- In a `stop`, at the test of `worker_`. -/
def Call.Testing : Call → Prop
  | .testJoinable _ => True
  | _ => False

instance : DecidablePred Call.Starting
  | .spawn | .assign _ => .isTrue trivial
  | .idle | .testJoinable _ | .join _ | .destroyThread => .isFalse id

instance : DecidablePred Call.Stopping
  | .testJoinable _ | .join _ => .isTrue trivial
  | .idle | .spawn | .assign _ | .destroyThread => .isFalse id

instance : DecidablePred Call.Testing
  | .testJoinable _ => .isTrue trivial
  | .idle | .spawn | .assign _ | .join _ | .destroyThread => .isFalse id

theorem Call.Starting.busy {call : Call} (h : call.Starting) : call ≠ .idle := by
  rintro rfl
  exact h

theorem Call.Stopping.busy {call : Call} (h : call.Stopping) : call ≠ .idle := by
  rintro rfl
  exact h

theorem Call.Testing.stopping {call : Call} (h : call.Testing) : call.Stopping := by
  cases call with
  | testJoinable caller => trivial
  | idle | spawn | assign _ | join _ | destroyThread => exact h.elim

theorem Call.Starting.not_stopping {call : Call} (h : call.Starting) : ¬ call.Stopping := by
  cases call with
  | spawn | assign _ => exact id
  | idle | testJoinable _ | join _ | destroyThread => exact h.elim

/-- No `start` sets the flag while a `stop` is in flight, and no `stop` tests
`worker_` while a `start` is. -/
def Apart (w : Worker Thread) : Action Thread → Prop
  | .start thread =>
    w.calls thread = .idle → w.destroyed = false → w.running = false →
      ∀ other, ¬ (w.calls other).Stopping
  | .threadStep thread =>
    (w.calls thread).Testing → ∀ other, ¬ (w.calls other).Starting
  | _ => True

instance [Fintype Thread] (w : Worker Thread) : DecidablePred (Apart w)
  | .start thread =>
    inferInstanceAs (Decidable (w.calls thread = .idle → w.destroyed = false → w.running = false →
      ∀ other, ¬ (w.calls other).Stopping))
  | .threadStep thread =>
    inferInstanceAs (Decidable ((w.calls thread).Testing → ∀ other, ¬ (w.calls other).Starting))
  | .stop _ | .destroy _ | .loopStep _ => .isTrue trivial

/-- The loops that are not over are at most the one named. -/
def OnlyLive (loops : List Loop) (owner : Option Nat) : Prop :=
  ∀ loop, loops[loop]? = some .testing ∨ loops[loop]? = some .working → owner = some loop

/-- The loop of a thread made and not yet assigned. -/
def Call.made : Call → Option Nat
  | .assign loop => some loop
  | _ => none

/-- The states that calls which keep apart run through. -/
inductive Phase (w : Worker Thread) : Prop
  | quiet (hidle : ∀ t, w.calls t = .idle) (hflag : w.running = w.worker.isSome)
      (hlive : OnlyLive w.loops w.worker)
  | starting (thread : Thread) (hstart : (w.calls thread).Starting)
      (hothers : ∀ t, t ≠ thread → w.calls t = .idle) (hflag : w.running = true)
      (hworker : w.worker = none) (hlive : OnlyLive w.loops (w.calls thread).made)
      (halive : w.destroyed = false)
  | overlapped (thread stopper : Thread) (hstart : (w.calls thread).Starting)
      (hstop : w.calls stopper = .testJoinable .stop)
      (hothers : ∀ t, t ≠ thread → t ≠ stopper → w.calls t = .idle) (hflag : w.running = false)
      (hworker : w.worker = none) (hlive : OnlyLive w.loops (w.calls thread).made)
      (halive : w.destroyed = false)
  | stopping (stopper : Thread) (caller : Caller)
      (hstop : w.calls stopper = .testJoinable caller ∨ w.calls stopper = .join caller)
      (hothers : ∀ t, t ≠ stopper → w.calls t = .idle) (hflag : w.running = false)
      (loop : Nat) (hworker : w.worker = some loop) (hlive : OnlyLive w.loops (some loop))
      (hover : caller = .destructor → w.destroyed = true)
  | ending (thread : Thread) (hend : w.calls thread = .destroyThread)
      (hothers : ∀ t, t ≠ thread → w.calls t = .idle) (hflag : w.running = false)
      (hworker : w.worker = none) (hlive : OnlyLive w.loops none) (hover : w.destroyed = true)

structure Inv (w : Worker Thread) : Prop where
  phase : Phase w
  noFault : w.fault = none

theorem inv_newWorker : Inv (newWorker : Worker Thread) where
  phase := by
    refine .quiet (fun _ => rfl) rfl ?_
    intro loop hloop
    simp [newWorker] at hloop
  noFault := rfl

theorem onlyLive_spawn {loops : List Loop} (h : OnlyLive loops none) :
    OnlyLive (loops ++ [.testing]) (some loops.length) := by
  intro loop hloop
  by_cases hlt : loop < loops.length
  · rw [List.getElem?_append_left hlt] at hloop
    cases h loop hloop
  · by_cases heq : loop = loops.length
    · rw [heq]
    · have hnone : (loops ++ [Loop.testing])[loop]? = none := by
        rw [List.getElem?_eq_none_iff, List.length_append, List.length_singleton]
        omega
      simp [hnone] at hloop

/-- A loop that is over is not alive. -/
theorem onlyLive_exited {loops : List Loop} {owner : Nat} (h : OnlyLive loops (some owner))
    (hexited : loops[owner]? = some .exited) : OnlyLive loops none := by
  intro loop hloop
  obtain rfl : owner = loop := Option.some.inj (h loop hloop)
  simp [hexited] at hloop

/-- A step of a loop that is alive wakes no other. -/
theorem onlyLive_set {loops : List Loop} {owner : Option Nat} (h : OnlyLive loops owner)
    (loop : Nat) (next : Loop) (halive : loops[loop]? = some .testing ∨ loops[loop]? = some .working) :
    OnlyLive (loops.set loop next) owner := by
  intro other hother
  by_cases heq : loop = other
  · exact heq ▸ h loop halive
  · rw [List.getElem?_set_ne heq] at hother
    exact h other hother

theorem loopStep_loops (w : Worker Thread) (loop : Nat) :
    ∃ loops, loopStep w loop = { w with loops := loops } ∧
      ∀ owner, OnlyLive w.loops owner → OnlyLive loops owner := by
  unfold loopStep
  split
  · rename_i htesting
    exact ⟨_, rfl, fun owner h => onlyLive_set h loop _ (.inl htesting)⟩
  · rename_i hworking
    exact ⟨_, rfl, fun owner h => onlyLive_set h loop _ (.inr hworking)⟩
  · exact ⟨w.loops, rfl, fun owner h => h⟩

theorem inv_loopStep {w : Worker Thread} (h : Inv w) (loop : Nat) : Inv (loopStep w loop) := by
  obtain ⟨loops, heq, hloops⟩ := loopStep_loops w loop
  rw [heq]
  refine ⟨?_, h.noFault⟩
  cases h.phase with
  | quiet hidle hflag hlive => exact .quiet hidle hflag (hloops _ hlive)
  | starting thread hstart hothers hflag hworker hlive halive =>
    exact .starting thread hstart hothers hflag hworker (hloops _ hlive) halive
  | overlapped thread stopper hstart hstop hothers hflag hworker hlive halive =>
    exact .overlapped thread stopper hstart hstop hothers hflag hworker (hloops _ hlive) halive
  | stopping stopper caller hstop hothers hflag loop hworker hlive hover =>
    exact .stopping stopper caller hstop hothers hflag loop hworker (hloops _ hlive) hover
  | ending thread hend hothers hflag hworker hlive hover =>
    exact .ending thread hend hothers hflag hworker (hloops _ hlive) hover

/-- While a `start` is in flight, `worker_` holds no thread, and at most one
`stop` has cleared the flag since. -/
theorem phase_starting {w : Worker Thread} (h : Phase w) {thread : Thread}
    (hstart : (w.calls thread).Starting) :
    w.worker = none ∧ OnlyLive w.loops (w.calls thread).made ∧ w.destroyed = false ∧
      ((w.running = true ∧ ∀ t, t ≠ thread → w.calls t = .idle) ∨
        (w.running = false ∧ ∃ stopper, w.calls stopper = .testJoinable .stop ∧
          ∀ t, t ≠ thread → t ≠ stopper → w.calls t = .idle)) := by
  have hbusy := hstart.busy
  cases h with
  | quiet hidle hflag hlive => exact absurd (hidle thread) hbusy
  | starting t _ hothers hflag hworker hlive halive =>
    obtain rfl : thread = t := by_contra fun hne => hbusy (hothers thread hne)
    exact ⟨hworker, hlive, halive, .inl ⟨hflag, hothers⟩⟩
  | overlapped t stopper _ hstop hothers hflag hworker hlive halive =>
    have hne : thread ≠ stopper := by
      rintro rfl
      rw [hstop] at hstart
      exact hstart
    obtain rfl : thread = t := by_contra fun ht => hbusy (hothers thread ht hne)
    exact ⟨hworker, hlive, halive, .inr ⟨hflag, stopper, hstop, hothers⟩⟩
  | stopping stopper caller hstop hothers =>
    obtain rfl : thread = stopper := by_contra fun hne => hbusy (hothers thread hne)
    rcases hstop with hstop | hstop <;> rw [hstop] at hstart <;> exact hstart.elim
  | ending t hend hothers =>
    obtain rfl : thread = t := by_contra fun hne => hbusy (hothers thread hne)
    rw [hend] at hstart
    exact hstart.elim

/-- A `stop` in flight has a thread to join, or a `start` is in flight that has
yet to assign one. -/
theorem phase_stopping {w : Worker Thread} (h : Phase w) {stopper : Thread}
    (hstop : (w.calls stopper).Stopping) :
    (∃ starter, (w.calls starter).Starting ∧ w.calls stopper = .testJoinable .stop ∧
        (∀ t, t ≠ starter → t ≠ stopper → w.calls t = .idle) ∧ w.running = false) ∨
      (∃ caller loop, (w.calls stopper = .testJoinable caller ∨ w.calls stopper = .join caller) ∧
        (∀ t, t ≠ stopper → w.calls t = .idle) ∧ w.running = false ∧ w.worker = some loop ∧
        OnlyLive w.loops (some loop) ∧ (caller = .destructor → w.destroyed = true)) := by
  have hbusy := hstop.busy
  cases h with
  | quiet hidle hflag hlive => exact absurd (hidle stopper) hbusy
  | starting t hstart hothers =>
    obtain rfl : stopper = t := by_contra fun hne => hbusy (hothers stopper hne)
    exact absurd hstop hstart.not_stopping
  | overlapped t s hstart htest hothers hflag hworker hlive halive =>
    have hne : stopper ≠ t := by
      rintro rfl
      exact hstart.not_stopping hstop
    obtain rfl : stopper = s := by_contra fun hs => hbusy (hothers stopper hne hs)
    exact .inl ⟨t, hstart, htest, hothers, hflag⟩
  | stopping s caller hs hothers hflag loop hworker hlive hover =>
    obtain rfl : stopper = s := by_contra fun hne => hbusy (hothers stopper hne)
    exact .inr ⟨caller, loop, hs, hothers, hflag, hworker, hlive, hover⟩
  | ending t hend hothers =>
    obtain rfl : stopper = t := by_contra fun hne => hbusy (hothers stopper hne)
    rw [hend] at hstop
    exact hstop.elim

theorem phase_ending {w : Worker Thread} (h : Phase w) {thread : Thread}
    (hend : w.calls thread = .destroyThread) :
    (∀ t, t ≠ thread → w.calls t = .idle) ∧ w.running = false ∧ w.worker = none ∧
      OnlyLive w.loops none := by
  have hbusy : w.calls thread ≠ .idle := by
    rw [hend]
    exact Call.noConfusion
  cases h with
  | quiet hidle hflag hlive => exact absurd (hidle thread) hbusy
  | starting t hstart hothers =>
    obtain rfl : thread = t := by_contra fun hne => hbusy (hothers thread hne)
    rw [hend] at hstart
    exact hstart.elim
  | overlapped t s hstart htest hothers =>
    have ht : thread ≠ t := by
      rintro rfl
      rw [hend] at hstart
      exact hstart
    have hs : thread ≠ s := by
      rintro rfl
      rw [hend] at htest
      cases htest
    exact absurd (hothers thread ht hs) hbusy
  | stopping s caller hs hothers =>
    obtain rfl : thread = s := by_contra fun hne => hbusy (hothers thread hne)
    rcases hs with hs | hs <;> rw [hend] at hs <;> cases hs
  | ending t _ hothers hflag hworker hlive hover =>
    obtain rfl : thread = t := by_contra fun hne => hbusy (hothers thread hne)
    exact ⟨hothers, hflag, hworker, hlive⟩

section Steps

variable [DecidableEq Thread]

theorem update_others {calls : Thread → Call} {thread : Thread} (call : Call)
    (h : ∀ t, t ≠ thread → calls t = .idle) :
    ∀ t, t ≠ thread → Function.update calls thread call t = .idle := by
  intro t ht
  rw [Function.update_of_ne ht]
  exact h t ht

theorem update_idle {calls : Thread → Call} {thread : Thread}
    (h : ∀ t, t ≠ thread → calls t = .idle) :
    ∀ t, Function.update calls thread .idle t = .idle := by
  intro t
  by_cases ht : t = thread
  · rw [ht, Function.update_self]
  · rw [Function.update_of_ne ht]
    exact h t ht

/-- A `start` in flight moves on and is still in flight. -/
theorem inv_starting {w : Worker Thread} (h : Inv w) {thread : Thread}
    (hstart : (w.calls thread).Starting) (loops : List Loop) (call : Call) (hcall : call.Starting)
    (hlive : OnlyLive w.loops (w.calls thread).made → OnlyLive loops call.made) :
    Inv { w with
      loops := loops
      calls := Function.update w.calls thread call } := by
  obtain ⟨hworker, hmade, halive, hrest⟩ := phase_starting h.phase hstart
  refine ⟨?_, h.noFault⟩
  rcases hrest with ⟨hflag, hothers⟩ | ⟨hflag, stopper, hstop, hothers⟩
  · refine .starting thread ?_ (update_others call hothers) hflag hworker ?_ halive
    · simpa using hcall
    · simpa using hlive hmade
  · have hne : stopper ≠ thread := by
      rintro rfl
      rw [hstop] at hstart
      exact hstart
    refine .overlapped thread stopper ?_ ?_ ?_ hflag hworker ?_ halive
    · simpa using hcall
    · simpa [Function.update_of_ne hne] using hstop
    · intro t ht hs
      simpa [Function.update_of_ne ht] using hothers t ht hs
    · simpa using hlive hmade

theorem inv_assign {w : Worker Thread} (h : Inv w) {thread : Thread} {loop : Nat}
    (hcall : w.calls thread = .assign loop) : Inv (threadStep w thread) := by
  have hstart : (w.calls thread).Starting := by
    rw [hcall]
    trivial
  obtain ⟨hworker, hmade, halive, hrest⟩ := phase_starting h.phase hstart
  rw [hcall] at hmade
  simp only [threadStep, hcall, hworker]
  refine ⟨?_, h.noFault⟩
  rcases hrest with ⟨hflag, hothers⟩ | ⟨hflag, stopper, hstop, hothers⟩
  · exact .quiet (update_idle hothers) hflag hmade
  · have hne : stopper ≠ thread := by
      rintro rfl
      rw [hstop] at hcall
      cases hcall
    refine .stopping stopper .stop (.inl ?_) ?_ hflag loop rfl hmade (fun he => by cases he)
    · simpa [Function.update_of_ne hne] using hstop
    · intro t ht
      by_cases heq : t = thread
      · simp [heq]
      · simpa [Function.update_of_ne heq] using hothers t heq ht

/-- A `stop` that finds no `start` in flight finds a thread. -/
theorem inv_testJoinable {w : Worker Thread} (h : Inv w) {stopper : Thread} {caller : Caller}
    (hcall : w.calls stopper = .testJoinable caller)
    (hapart : ∀ other, ¬ (w.calls other).Starting) : Inv (threadStep w stopper) := by
  have hstop : (w.calls stopper).Stopping := by
    rw [hcall]
    trivial
  rcases phase_stopping h.phase hstop with
    ⟨starter, hstart, -⟩ | ⟨caller', loop, hwhere, hothers, hflag, hworker, hlive, hover⟩
  · exact absurd hstart (hapart starter)
  · obtain rfl : caller = caller' := by
      rw [hcall] at hwhere
      simpa using hwhere
    simp only [threadStep, hcall, hworker]
    refine ⟨.stopping stopper caller (.inr ?_) (update_others _ hothers) hflag loop rfl hlive
      hover, h.noFault⟩
    simp

theorem inv_join {w : Worker Thread} (h : Inv w) {stopper : Thread} {caller : Caller}
    (hcall : w.calls stopper = .join caller) : Inv (threadStep w stopper) := by
  have hstop : (w.calls stopper).Stopping := by
    rw [hcall]
    trivial
  rcases phase_stopping h.phase hstop with
    ⟨starter, -, htest, -⟩ | ⟨caller', loop, hwhere, hothers, hflag, hworker, hlive, hover⟩
  · rw [hcall] at htest
    cases htest
  · obtain rfl : caller = caller' := by
      rw [hcall] at hwhere
      simpa using hwhere
    simp only [threadStep, hcall, hworker]
    split
    · rename_i hexited
      have hnone := onlyLive_exited hlive hexited
      refine ⟨?_, h.noFault⟩
      cases caller with
      | stop => exact .quiet (update_idle hothers) hflag hnone
      | destructor =>
        refine .ending stopper ?_ (update_others _ hothers) hflag rfl hnone (hover rfl)
        simp [Caller.resume]
    · exact h

/-- Every step of a controlling thread that keeps apart keeps the invariant. -/
theorem inv_threadStep {w : Worker Thread} (h : Inv w) (thread : Thread)
    (hapart : Apart w (.threadStep thread)) : Inv (threadStep w thread) := by
  cases hcall : w.calls thread with
  | idle =>
    simp only [threadStep, hcall]
    exact h
  | spawn =>
    have hstart : (w.calls thread).Starting := by
      rw [hcall]
      trivial
    simp only [threadStep, hcall]
    refine inv_starting h hstart _ _ trivial fun hlive => ?_
    rw [hcall] at hlive
    exact onlyLive_spawn hlive
  | assign loop => exact inv_assign h hcall
  | testJoinable caller =>
    refine inv_testJoinable h hcall (hapart ?_)
    rw [hcall]
    trivial
  | join caller => exact inv_join h hcall
  | destroyThread =>
    obtain ⟨hothers, hflag, hworker, hlive⟩ := phase_ending h.phase hcall
    simp only [threadStep, hcall, hworker]
    exact ⟨.quiet (update_idle hothers) hflag hlive, h.noFault⟩

theorem inv_start {w : Worker Thread} (h : Inv w) (thread : Thread)
    (hapart : Apart w (.start thread)) (hidle : w.calls thread = .idle)
    (halive : w.destroyed = false) : Inv (setRunning w thread) := by
  unfold setRunning
  split
  · exact h
  · rename_i hrunning
    have hflag : w.running = false := by simpa using hrunning
    have hnone := hapart hidle halive hflag
    refine ⟨?_, h.noFault⟩
    cases h.phase with
    | quiet hall hagree hlive =>
      have hworker : w.worker = none := by simpa [hflag] using hagree.symm
      rw [hworker] at hlive
      refine .starting thread ?_ (update_others _ fun t _ => hall t) rfl hworker ?_ halive
      · simp [Call.Starting]
      · simpa [Call.made] using hlive
    | starting _ _ _ hset =>
      rw [hflag] at hset
      cases hset
    | overlapped _ stopper _ hstop =>
      have hfree := hnone stopper
      rw [hstop] at hfree
      exact absurd trivial hfree
    | stopping stopper caller hstop =>
      have hfree := hnone stopper
      rcases hstop with hstop | hstop <;> rw [hstop] at hfree <;> exact absurd trivial hfree
    | ending _ _ _ _ _ _ hover =>
      rw [halive] at hover
      cases hover

/-- An exchange that finds the flag cleared changes nothing. -/
theorem clearRunning_of_not_running {w : Worker Thread} {thread : Thread}
    (hidle : w.calls thread = .idle) (hflag : w.running = false) :
    clearRunning w thread .stop = w := by
  have hcalls : Function.update w.calls thread .idle = w.calls := by
    rw [← hidle]
    exact Function.update_eq_self _ _
  simp only [clearRunning, hflag, Caller.resume, Bool.false_eq_true, if_false, hcalls]
  rw [← hflag]

theorem inv_stop {w : Worker Thread} (h : Inv w) (thread : Thread) (hidle : w.calls thread = .idle)
    (halive : w.destroyed = false) : Inv (clearRunning w thread .stop) := by
  cases hflag : w.running with
  | false =>
    rw [clearRunning_of_not_running hidle hflag]
    exact h
  | true =>
    simp only [clearRunning, hflag, if_true]
    refine ⟨?_, h.noFault⟩
    cases h.phase with
    | quiet hall hagree hlive =>
      obtain ⟨loop, hworker⟩ : ∃ loop, w.worker = some loop :=
        Option.isSome_iff_exists.mp (hagree.symm.trans hflag)
      rw [hworker] at hlive
      refine .stopping thread .stop (.inl ?_) (update_others _ fun t _ => hall t) rfl loop hworker
        hlive (fun he => by cases he)
      simp
    | starting t hstart hothers _ hworker hlive _ =>
      have hne : t ≠ thread := by
        rintro rfl
        exact hstart.busy hidle
      refine .overlapped t thread ?_ ?_ ?_ rfl hworker ?_ halive
      · simpa [Function.update_of_ne hne] using hstart
      · simp
      · intro u hu hthread
        simpa [Function.update_of_ne hthread] using hothers u hu
      · simpa [Function.update_of_ne hne] using hlive
    | overlapped _ _ _ _ _ hset =>
      rw [hflag] at hset
      cases hset
    | stopping _ _ _ _ hset =>
      rw [hflag] at hset
      cases hset
    | ending _ _ _ hset =>
      rw [hflag] at hset
      cases hset

theorem inv_destroy {w : Worker Thread} (h : Inv w) (thread : Thread)
    (hall : ∀ t, w.calls t = .idle) :
    Inv { clearRunning w thread .destructor with destroyed := true } := by
  have hphase : w.running = w.worker.isSome ∧ OnlyLive w.loops w.worker := by
    cases h.phase with
    | quiet _ hagree hlive => exact ⟨hagree, hlive⟩
    | starting t hstart => exact absurd (hall t) hstart.busy
    | overlapped t _ hstart => exact absurd (hall t) hstart.busy
    | stopping t _ hstop =>
      rw [hall t] at hstop
      rcases hstop with hstop | hstop <;> cases hstop
    | ending t hend =>
      rw [hall t] at hend
      cases hend
  obtain ⟨hagree, hlive⟩ := hphase
  refine ⟨?_, h.noFault⟩
  cases hworker : w.worker with
  | none =>
    rw [hworker] at hagree hlive
    refine .ending thread ?_ (update_others _ fun t _ => hall t) rfl hworker hlive rfl
    simp [clearRunning, hagree, Caller.resume]
  | some loop =>
    rw [hworker] at hagree hlive
    refine .stopping thread .destructor (.inl ?_) (update_others _ fun t _ => hall t) rfl loop
      hworker hlive (fun _ => rfl)
    simp [clearRunning, hagree]

end Steps

section Runs

variable [DecidableEq Thread] [Fintype Thread]

theorem inv_step {w : Worker Thread} (h : Inv w) (action : Action Thread) (hapart : Apart w action) :
    Inv (step w action) := by
  unfold step
  rw [if_pos h.noFault]
  cases action with
  | start thread =>
    dsimp only
    split
    · rename_i hfree
      exact inv_start h thread hapart hfree.1 hfree.2
    · exact h
  | stop thread =>
    dsimp only
    split
    · rename_i hfree
      exact inv_stop h thread hfree.1 hfree.2
    · exact h
  | destroy thread =>
    dsimp only
    split
    · rename_i hfree
      exact inv_destroy h thread hfree.1
    · exact h
  | threadStep thread => exact inv_threadStep h thread hapart
  | loopStep loop => exact inv_loopStep h loop

def ApartRun : Worker Thread → List (Action Thread) → Prop
  | _, [] => True
  | w, action :: actions => Apart w action ∧ ApartRun (step w action) actions

instance : ∀ (actions : List (Action Thread)) (w : Worker Thread), Decidable (ApartRun w actions)
  | [], _ => .isTrue trivial
  | action :: actions, w =>
    haveI := instDecidableApartRun actions (step w action)
    inferInstanceAs (Decidable (Apart w action ∧ ApartRun (step w action) actions))

/-- The invariant holds after every run of calls that keep apart. -/
theorem inv_runFrom {w : Worker Thread} (h : Inv w) (actions : List (Action Thread))
    (hapart : ApartRun w actions) : Inv (runFrom w actions) := by
  induction actions generalizing w with
  | nil => exact h
  | cons action actions ih => exact ih (inv_step h action hapart.1) hapart.2

omit [DecidableEq Thread] [Fintype Thread] in
/-- A single controlling thread keeps apart from itself. -/
theorem apart_of_subsingleton [Subsingleton Thread] (w : Worker Thread) (action : Action Thread) :
    Apart w action := by
  cases action with
  | start thread =>
    intro hidle _ _ other
    rw [Subsingleton.elim other thread, hidle]
    exact id
  | threadStep thread =>
    intro htest other
    rw [Subsingleton.elim other thread]
    intro hstart
    exact hstart.not_stopping htest.stopping
  | stop _ | destroy _ | loopStep _ => trivial

/-- Neither `std::terminate` nor a failed join, and one run loop at most. -/
structure Safe (w : Worker Thread) : Prop where
  noFault : w.fault = none
  oneLoop : ∀ i j : Nat, w.loops[i]? = some .testing ∨ w.loops[i]? = some .working →
    w.loops[j]? = some .testing ∨ w.loops[j]? = some .working → i = j

omit [DecidableEq Thread] [Fintype Thread] in
theorem phase_onlyLive {w : Worker Thread} (h : Phase w) : ∃ owner, OnlyLive w.loops owner := by
  cases h with
  | quiet _ _ hlive => exact ⟨_, hlive⟩
  | starting _ _ _ _ _ hlive => exact ⟨_, hlive⟩
  | overlapped _ _ _ _ _ _ _ hlive => exact ⟨_, hlive⟩
  | stopping _ _ _ _ _ _ _ hlive => exact ⟨_, hlive⟩
  | ending _ _ _ _ _ hlive => exact ⟨_, hlive⟩

omit [DecidableEq Thread] [Fintype Thread] in
theorem safe_of_inv {w : Worker Thread} (h : Inv w) : Safe w where
  noFault := h.noFault
  oneLoop := by
    intro i j hi hj
    obtain ⟨owner, hlive⟩ := phase_onlyLive h.phase
    exact Option.some.inj ((hlive i hi).symm.trans (hlive j hj))

theorem step_threadStep {w : Worker Thread} (hfault : w.fault = none) (thread : Thread) :
    step w (.threadStep thread) = threadStep w thread := by
  simp only [step, hfault, if_true]

/-- Once its thread is made, a `start` assigns it, whatever `worker_` holds. -/
theorem assigned_over {w : Worker Thread} {thread : Thread} {loop : Nat} (hfault : w.fault = none)
    (hworker : w.worker = some loop) (hcall : w.calls thread = .spawn) :
    (runFrom w [.threadStep thread, .threadStep thread]).fault = some .assignedOver := by
  simp [runFrom, step, hfault, threadStep, hcall, hworker]

/-- A `start` in flight can run to its end. -/
theorem finish_start {w : Worker Thread} {thread : Thread} (hfault : w.fault = none)
    (hworker : w.worker = none) (hstart : (w.calls thread).Starting) :
    ∃ more loop loops, runFrom w more = { w with
      worker := some loop
      loops := loops
      calls := Function.update w.calls thread .idle } := by
  cases hcall : w.calls thread with
  | spawn =>
    refine ⟨[.threadStep thread, .threadStep thread], w.loops.length, w.loops ++ [.testing], ?_⟩
    simp [runFrom, step, hfault, threadStep, hcall, hworker]
  | assign loop =>
    refine ⟨[.threadStep thread], loop, w.loops, ?_⟩
    simp [runFrom, step, hfault, threadStep, hcall, hworker]
  | idle | testJoinable _ | join _ | destroyThread =>
    rw [hcall] at hstart
    exact hstart.elim

/-- The destructor finds the flag cleared, joins nothing and destroys the thread. -/
theorem destroyed_joinable {w : Worker Thread} {loop : Nat} (thread : Thread)
    (hfault : w.fault = none) (hworker : w.worker = some loop) (hflag : w.running = false)
    (halive : w.destroyed = false) (hall : ∀ t, w.calls t = .idle) :
    (runFrom w [.destroy thread, .threadStep thread]).fault = some .destroyedJoinable := by
  simp [runFrom, step, hfault, hall, halive, clearRunning, hflag, Caller.resume, threadStep, hworker]

omit [DecidableEq Thread] [Fintype Thread] in
theorem not_safe_of_fault {w : Worker Thread} {fault : Fault} (h : w.fault = some fault) :
    ¬ Safe w := by
  intro hsafe
  rw [hsafe.noFault] at h
  cases h

theorem runFrom_append (w : Worker Thread) (actions more : List (Action Thread)) :
    runFrom w (actions ++ more) = runFrom (runFrom w actions) more := List.foldl_append

/-- A `start` that sets the flag while a `stop` is in flight can assign its
thread over the one that has not been joined. -/
theorem start_breaks {w : Worker Thread} (h : Inv w) {thread stopper : Thread}
    (hidle : w.calls thread = .idle) (halive : w.destroyed = false) (hflag : w.running = false)
    (hstop : (w.calls stopper).Stopping) :
    ∃ more, ¬ Safe (runFrom (step w (.start thread)) more) := by
  have hset : step w (.start thread) = { w with
      running := true
      calls := Function.update w.calls thread .spawn } := by
    simp [step, h.noFault, hidle, halive, setRunning, hflag]
  have hspawn : (step w (.start thread)).calls thread = .spawn := by simp [hset]
  have hfault : (step w (.start thread)).fault = none := by simp [hset, h.noFault]
  rcases phase_stopping h.phase hstop with
    ⟨starter, hstart, -⟩ | ⟨caller, loop, -, -, -, hworker, -⟩
  · have hne : starter ≠ thread := by
      rintro rfl
      exact hstart.busy hidle
    have hworker : (step w (.start thread)).worker = none := by
      rw [hset]
      exact (phase_starting h.phase hstart).1
    have hstill : ((step w (.start thread)).calls starter).Starting := by
      simpa [hset, Function.update_of_ne hne] using hstart
    obtain ⟨more, loop, loops, hmore⟩ := finish_start hfault hworker hstill
    refine ⟨more ++ [.threadStep thread, .threadStep thread], ?_⟩
    rw [runFrom_append, hmore]
    refine not_safe_of_fault (assigned_over hfault rfl ?_)
    simpa [Function.update_of_ne hne.symm] using hspawn
  · refine ⟨[.threadStep thread, .threadStep thread], ?_⟩
    have hset' : (step w (.start thread)).worker = some loop := by
      rw [hset]
      exact hworker
    exact not_safe_of_fault (assigned_over hfault hset' hspawn)

/-- A `stop` that tests `worker_` while a `start` is in flight leaves a thread
that nothing joins. -/
theorem test_breaks {w : Worker Thread} (h : Inv w) {starter stopper : Thread}
    (htest : (w.calls stopper).Testing) (hstart : (w.calls starter).Starting) :
    ∃ more, ¬ Safe (runFrom (step w (.threadStep stopper)) more) := by
  have hne : stopper ≠ starter := by
    rintro rfl
    exact hstart.not_stopping htest.stopping
  have hbusy := htest.stopping.busy
  obtain ⟨hworker, -, halive, hrest⟩ := phase_starting h.phase hstart
  rcases hrest with ⟨-, hothers⟩ | ⟨hflag, stopper', hstop, hothers⟩
  · exact absurd (hothers stopper hne) hbusy
  · obtain rfl : stopper = stopper' := by_contra fun hs => hbusy (hothers stopper hne hs)
    have htested : step w (.threadStep stopper) = { w with
        calls := Function.update w.calls stopper .idle } := by
      simp [step_threadStep h.noFault, threadStep, hstop, hworker, Caller.resume]
    have hfault : (step w (.threadStep stopper)).fault = none := by simp [htested, h.noFault]
    have hstill : ((step w (.threadStep stopper)).calls starter).Starting := by
      simpa [htested, Function.update_of_ne hne.symm] using hstart
    obtain ⟨more, loop, loops, hmore⟩ := finish_start hfault (by rw [htested]; exact hworker) hstill
    refine ⟨more ++ [.destroy starter, .threadStep starter], ?_⟩
    rw [runFrom_append, hmore]
    refine not_safe_of_fault (destroyed_joinable starter hfault rfl ?_ ?_ ?_)
    · rw [htested]
      exact hflag
    · rw [htested]
      exact halive
    · intro t
      by_cases ht : t = starter
      · simp [ht]
      · by_cases hs : t = stopper
        · simp [htested, hs, Function.update_of_ne hne]
        · simpa [htested, Function.update_of_ne ht, Function.update_of_ne hs] using
            hothers t ht hs

/-- Runs of calls that keep apart are safe, and a step that does not keep apart
can be continued to a run that is not. -/
theorem run_safe (actions : List (Action Thread)) (h : ApartRun newWorker actions) :
    Safe (run actions) ∧
      ∀ action, ¬ Apart (run actions) action →
        ∃ more, ¬ Safe (run (actions ++ action :: more)) := by
  have hinv : Inv (run actions) := inv_runFrom inv_newWorker actions h
  refine ⟨safe_of_inv hinv, ?_⟩
  intro action hbreak
  have hmore : ∃ more, ¬ Safe (runFrom (step (run actions) action) more) := by
    cases action with
    | start thread =>
      simp only [Apart, Classical.not_imp, not_forall, not_not] at hbreak
      obtain ⟨hidle, halive, hflag, stopper, hstop⟩ := hbreak
      exact start_breaks hinv hidle halive hflag hstop
    | threadStep thread =>
      simp only [Apart, Classical.not_imp, not_forall, not_not] at hbreak
      obtain ⟨htest, starter, hstart⟩ := hbreak
      exact test_breaks hinv htest hstart
    | stop _ | destroy _ | loopStep _ => exact absurd trivial hbreak
  obtain ⟨more, hunsafe⟩ := hmore
  refine ⟨more, ?_⟩
  rw [run, runFrom_append]
  exact hunsafe

/-- The calls of two threads one after the other, and then the destructor. -/
theorem run_safe_inTurn :
    let actions : List (Action Bool) :=
      [.start false, .threadStep false, .threadStep false, .loopStep 0, .stop true,
        .threadStep true, .loopStep 0, .loopStep 0, .threadStep true, .start true,
        .threadStep true, .threadStep true, .destroy false, .threadStep false, .loopStep 1,
        .threadStep false, .threadStep false]
    Safe (run actions) ∧
      ∀ action, ¬ Apart (run actions) action →
        ∃ more, ¬ Safe (run (actions ++ action :: more)) := by
  intro actions
  exact run_safe actions (by decide)

/-- A `stop` between the exchange and the assignment of a `start` joins nothing,
and the destructor finds a joinable thread under a cleared flag. -/
theorem overlapped_stop_terminates :
    (run [.start false, .stop true, .threadStep true, .threadStep false, .threadStep false,
      .loopStep 0, .destroy false, .threadStep false] : Worker Bool).fault =
        some .destroyedJoinable := by
  decide

end Runs

end OfeWorkerLifecycle
