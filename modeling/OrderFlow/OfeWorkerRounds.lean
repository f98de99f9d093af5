import OrderFlow.OfeSymbolWorkerOnce

/-!
# A round of the run loop

The test of `running_`, a pop, the stages and the publication: eighteen steps at most. A
step of the loop goes on with its round, ends it, or finds no tick; no other thread
moves it. The thread in `worker_` runs as long as the flag is set.
-/
namespace OfeSymbolWorker

open OfeBars RingWindow
open OfeWorkerLifecycle (Worker OnlyLive)

/-- The loop is at its head or in its body. -/
def Live (w : Worker Unit) (loop : Nat) : Prop :=
  w.loops[loop]? = some .testing ∨ w.loops[loop]? = some .working

/-- The loop that `worker_` holds, or is about to. -/
def Owned (w : Worker Unit) (loop : Nat) : Prop :=
  w.worker = some loop ∨ (w.calls ()).made = some loop

/-- A thread that is owned has been made, and while the flag is set its loop is alive. -/
def Manned (w : Worker Unit) : Prop :=
  ∀ loop, Owned w loop → loop < w.loops.length ∧ (w.running = true → Live w loop)

/-- Between calls with the flag cleared there is no thread. -/
theorem worker_of_idle {w : Worker Unit} (h : OfeWorkerLifecycle.Phase w)
    (hidle : w.calls () = .idle) (hflag : w.running = false) : w.worker = none := by
  cases h with
  | quiet _ hagree _ => simpa [hflag] using hagree.symm
  | starting _ hstart => exact absurd hidle hstart.busy
  | overlapped _ _ hstart => exact absurd hidle hstart.busy
  | stopping _ _ hstop =>
    rcases hstop with hstop | hstop <;> rw [hidle] at hstop <;> cases hstop
  | ending _ _ _ _ hworker => exact hworker

theorem manned_of_owned {w w' : Worker Unit} (h : Manned w) (hloops : w'.loops = w.loops)
    (hrunning : w'.running = true → w.running = true)
    (howned : ∀ loop, Owned w' loop → Owned w loop) : Manned w' := by
  intro loop hloop
  obtain ⟨hmade, hlive⟩ := h loop (howned loop hloop)
  rw [hloops]
  refine ⟨hmade, fun hflag => ?_⟩
  rw [Live, hloops]
  exact hlive (hrunning hflag)

theorem manned_start {w : Worker Unit} (hinv : OfeWorkerLifecycle.Inv w) (h : Manned w)
    (hidle : w.calls () = .idle) : Manned (OfeWorkerLifecycle.setRunning w ()) := by
  unfold OfeWorkerLifecycle.setRunning
  split
  · exact h
  · rename_i hflag
    have hworker := worker_of_idle hinv.phase hidle (by simpa using hflag)
    intro loop hloop
    rcases hloop with hloop | hloop
    · rw [hworker] at hloop
      cases hloop
    · simp [OfeWorkerLifecycle.Call.made] at hloop

theorem manned_stop {w : Worker Unit} (h : Manned w) :
    Manned (OfeWorkerLifecycle.clearRunning w () .stop) := by
  refine manned_of_owned h rfl (fun hflag => by cases hflag) ?_
  intro loop hloop
  rcases hloop with hloop | hloop
  · exact .inl hloop
  · simp only [OfeWorkerLifecycle.clearRunning, Function.update_self] at hloop
    split at hloop <;> cases hloop

theorem manned_spawn {w : Worker Unit} (hinv : OfeWorkerLifecycle.Inv w)
    (hcall : w.calls () = .spawn) : Manned (OfeWorkerLifecycle.threadStep w ()) := by
  have hstarting : (w.calls ()).Starting := by
    rw [hcall]
    trivial
  obtain ⟨hworker, -⟩ := OfeWorkerLifecycle.phase_starting hinv.phase hstarting
  simp only [OfeWorkerLifecycle.threadStep, hcall]
  intro loop hloop
  rcases hloop with hloop | hloop
  · rw [hworker] at hloop
    cases hloop
  · simp only [Function.update_self, OfeWorkerLifecycle.Call.made, Option.some.injEq] at hloop
    subst hloop
    simp [Live]

theorem manned_threadStep {w : Worker Unit} (hinv : OfeWorkerLifecycle.Inv w) (h : Manned w) :
    Manned (OfeWorkerLifecycle.threadStep w ()) := by
  cases hcall : w.calls () with
  | spawn => exact manned_spawn hinv hcall
  | idle =>
    simp only [OfeWorkerLifecycle.threadStep, hcall]
    exact h
  | assign made =>
    simp only [OfeWorkerLifecycle.threadStep, hcall]
    split
    · exact h
    · refine manned_of_owned h rfl id fun loop hloop => .inr ?_
      simpa [Owned, OfeWorkerLifecycle.Call.made, hcall] using hloop
  | testJoinable caller =>
    simp only [OfeWorkerLifecycle.threadStep, hcall]
    split
    · refine manned_of_owned h rfl id fun loop hloop => ?_
      simpa [Owned, OfeWorkerLifecycle.Call.made, hcall] using hloop
    · refine manned_of_owned h rfl id fun loop hloop => ?_
      cases caller <;>
        simpa [Owned, OfeWorkerLifecycle.Call.made, OfeWorkerLifecycle.Caller.resume, hcall] using hloop
  | join caller =>
    simp only [OfeWorkerLifecycle.threadStep, hcall]
    split
    · exact h
    · split
      · intro loop hloop
        cases caller <;>
          simp [Owned, OfeWorkerLifecycle.Call.made, OfeWorkerLifecycle.Caller.resume] at hloop
      · exact h
  | destroyThread =>
    simp only [OfeWorkerLifecycle.threadStep, hcall]
    split
    · exact h
    · refine manned_of_owned h rfl id fun loop hloop => ?_
      simpa [Owned, OfeWorkerLifecycle.Call.made, hcall] using hloop

/-- While the flag is set no loop ends. -/
theorem manned_loopStep {w : Worker Unit} (h : Manned w) (moved : Nat) :
    Manned (OfeWorkerLifecycle.loopStep w moved) := by
  intro loop hloop
  unfold OfeWorkerLifecycle.loopStep at hloop ⊢
  split
  · rename_i htesting
    rw [htesting] at hloop
    obtain ⟨hmade, hlive⟩ := h loop hloop
    refine ⟨by simpa using hmade, fun hflag => ?_⟩
    have hflag' : w.running = true := hflag
    by_cases heq : moved = loop
    · subst heq
      simp [Live, hmade, hflag']
    · simpa [Live, List.getElem?_set_ne heq] using hlive hflag'
  · rename_i hworking
    rw [hworking] at hloop
    obtain ⟨hmade, hlive⟩ := h loop hloop
    refine ⟨by simpa using hmade, fun hflag => ?_⟩
    by_cases heq : moved = loop
    · subst heq
      simp [Live, hmade]
    · simpa [Live, List.getElem?_set_ne heq] using hlive hflag
  · rename_i hnot hnot'
    split at hloop
    · rename_i htesting
      exact absurd htesting hnot
    · rename_i hworking
      exact absurd hworking hnot'
    · exact h loop hloop

/-- The actions of a worker on its thread. -/
theorem manned_step {w : Worker Unit} (hinv : OfeWorkerLifecycle.Inv w) (h : Manned w)
    (action : OfeWorkerLifecycle.Action Unit) (hdestroy : action ≠ .destroy ()) :
    Manned (OfeWorkerLifecycle.step w action) := by
  simp only [OfeWorkerLifecycle.step, hinv.noFault, if_true]
  cases action with
  | start thread =>
    dsimp only
    split
    · rename_i hidle
      exact manned_start hinv h hidle.1
    · exact h
  | stop thread =>
    dsimp only
    split
    · exact manned_stop h
    · exact h
  | destroy thread => exact absurd rfl hdestroy
  | threadStep thread => exact manned_threadStep hinv h
  | loopStep loop => exact manned_loopStep h loop

def popLeft : OfeRingBuffer.Consumer UniversalTickRecord → Nat
  | .loadedTail _ _ => 16
  | .take _ _ => 15
  | .release _ _ _ => 14
  | _ => 17

/-- The steps of the loop from within its body to the end of it. -/
def bodyLeft (s : State) : Nat :=
  match s.body with
  | .popping => popLeft s.ingress.consumer
  | .stage index _ => stageCount - index + 2
  | .publish _ => 1

theorem bodyLeft_bounds (s : State) : 0 < bodyLeft s ∧ bodyLeft s ≤ 17 := by
  unfold bodyLeft popLeft stageCount
  split
  · split <;> omega
  · omega
  · omega

/-- The ticks that have passed the whole pipeline. -/
def passed (s : State) : Nat := s.ingress.popped.length - (current s.body).toList.length

/-- How many ticks the body of the loop may still take. -/
def mayPop : Body → Nat
  | .popping => 1
  | _ => 0

/-- What a step in the body of the loop does: it finds no tick, goes on with the round, or
ends it. -/
inductive BodyMove (s s' : State) (loop : Nat) : Prop
  | empty (hempty : s.ingress.popped = s.ingress.accepted) (hbody : s.body = .popping)
      (hlifecycle : s'.lifecycle = OfeWorkerLifecycle.step s.lifecycle (.loopStep loop))
      (hbody' : s'.body = .popping) (hpopped : s'.ingress.popped = s.ingress.popped)
  | within (hlifecycle : s'.lifecycle = s.lifecycle) (hleft : bodyLeft s = bodyLeft s' + 1)
      (hpassed : passed s' = passed s)
      (hpopped : s'.ingress.popped.length + mayPop s'.body = s.ingress.popped.length + mayPop s.body)
  | publish (hbody : mayPop s.body = 0) (hleft : bodyLeft s = 1)
      (hlifecycle : s'.lifecycle = OfeWorkerLifecycle.step s.lifecycle (.loopStep loop))
      (hbody' : s'.body = .popping) (hpassed : passed s' = passed s + 1)
      (hpopped : s'.ingress.popped = s.ingress.popped)

/-- A `try_pop` that has seen a tick finds it in its slot. -/
theorem take_finds {ingress : OfeRingBuffer.State UniversalTickRecord}
    (h : OfeRingBuffer.Inv ingressCapacity 0 ingress) {tail : UInt64}
    (hconsumer : ingress.consumer = .take .tryPop tail) :
    ∃ tick, ingress.ring.storage (OfeRingBuffer.slotIndex ingressCapacity tail) = some tick := by
  have hfault := (OfeRingBuffer.inv_consumerStep h).noFault
  cases hslot : ingress.ring.storage (OfeRingBuffer.slotIndex ingressCapacity tail) with
  | some tick => exact ⟨tick, rfl⟩
  | none => simp [OfeRingBuffer.consumerStep, hconsumer, hslot] at hfault

theorem bodyMove_popStep {config : Config} {s : State} (h : Inv config s) (loop : Nat)
    (hbody : s.body = .popping) : BodyMove s (popStep s loop) loop := by
  have htryPop := h.tryPop
  cases hconsumer : s.ingress.consumer with
  | idle =>
    simp only [popStep, OfeRingBuffer.step, hconsumer]
    refine .within rfl ?_ ?_ ?_
    · simp [bodyLeft, hbody, hconsumer, popLeft]
    · simp [passed]
    · rfl
  | looping =>
    rw [hconsumer] at htryPop
    exact htryPop.elim
  | loadedTail caller tail =>
    have htail : tail = s.ingress.ring.tail := by
      have hok := h.ingress.consumer
      rwa [hconsumer] at hok
    by_cases hempty : tail = s.ingress.ring.head
    · have hnone := (OfeRingBuffer.empty_iff h.ingress).mp (htail ▸ hempty)
      simp only [popStep, OfeRingBuffer.step, OfeRingBuffer.consumerStep, hconsumer, if_pos hempty]
      exact .empty hnone hbody rfl hbody rfl
    · simp only [popStep, OfeRingBuffer.step, OfeRingBuffer.consumerStep, hconsumer, if_neg hempty]
      refine .within rfl ?_ ?_ ?_
      · simp [bodyLeft, hbody, hconsumer, popLeft]
      · simp [passed]
      · rfl
  | take caller tail =>
    rw [hconsumer] at htryPop
    obtain rfl : caller = .tryPop := htryPop
    obtain ⟨tick, hslot⟩ := take_finds h.ingress hconsumer
    simp only [popStep, OfeRingBuffer.step, OfeRingBuffer.consumerStep, hconsumer, hslot]
    refine .within rfl ?_ ?_ ?_
    · simp [bodyLeft, hbody, hconsumer, popLeft]
    · simp [passed]
    · rfl
  | release caller tail tick =>
    simp only [popStep, OfeRingBuffer.step, OfeRingBuffer.consumerStep, hconsumer]
    refine .within rfl ?_ ?_ ?_
    · simp [bodyLeft, hbody, hconsumer, popLeft, stageCount]
    · simp [passed, current, hbody]
    · simp [mayPop, hbody]

theorem bodyMove {config : Config} {s : State} (h : Inv config s) (loop : Nat) :
    BodyMove s (bodyStep config s loop) loop := by
  cases hbody : s.body with
  | popping =>
    simp only [bodyStep, hbody]
    exact bodyMove_popStep h loop hbody
  | stage index tick =>
    simp only [bodyStep, hbody]
    split
    · rename_i hlt
      refine .within rfl ?_ ?_ ?_
      · simp only [bodyLeft, hbody]
        omega
      · simp [passed, current, hbody]
      · simp [mayPop, hbody]
    · rename_i hge
      refine .within rfl ?_ ?_ ?_
      · simp only [bodyLeft, hbody]
        omega
      · simp [passed, current, hbody]
      · simp [mayPop, hbody]
  | publish tick =>
    obtain ⟨done, hdone, -⟩ := h.trace
    simp only [bodyStep, hbody]
    refine .publish ?hbody ?hleft ?hlifecycle ?hbody' ?hpassed ?hpopped
    case hlifecycle => rfl
    case hbody' => rfl
    case hpopped => rfl
    case hbody => simp [mayPop, hbody]
    case hleft => simp [bodyLeft, hbody]
    case hpassed => simp [passed, current, hbody, hdone]

/-- The run loops and what they have in hand are the same. -/
structure SameWork (s s' : State) : Prop where
  loops : s'.lifecycle.loops = s.lifecycle.loops
  body : s'.body = s.body
  consumer : s'.ingress.consumer = s.ingress.consumer
  popped : s'.ingress.popped = s.ingress.popped

theorem SameWork.bodyLeft {s s' : State} (h : SameWork s s') : bodyLeft s' = bodyLeft s := by
  simp only [OfeSymbolWorker.bodyLeft, h.body, h.consumer]

theorem SameWork.passed {s s' : State} (h : SameWork s s') : passed s' = passed s := by
  simp only [OfeSymbolWorker.passed, h.body, h.popped]

theorem sameWork_submit (s : State) (action : OfeRingBuffer.Action UniversalTickRecord)
    (haction : action = .producerStep ∨ ∃ tick, action = .push tick) :
    SameWork s { s with ingress := OfeRingBuffer.step ingressCapacity s.ingress action } := by
  obtain ⟨hconsumer, hpopped⟩ := submit_frame s.ingress action haction
  exact ⟨rfl, rfl, hconsumer, hpopped⟩

/-- A loop that is not alive does not move. -/
theorem loopStep_dead (config : Config) {s : State} (hfault : s.lifecycle.fault = none) {loop : Nat}
    (hdead : ¬ Live s.lifecycle loop) : step config s (.loopStep loop) = s := by
  have hstill : OfeWorkerLifecycle.step s.lifecycle (.loopStep loop) = s.lifecycle := by
    simp only [OfeWorkerLifecycle.step, hfault, if_true, OfeWorkerLifecycle.loopStep]
    split
    · rename_i htesting
      exact absurd (.inl htesting) hdead
    · rename_i hworking
      exact absurd (.inr hworking) hdead
    · rfl
  simp only [step]
  split
  · rename_i hworking
    exact absurd (.inr hworking) hdead
  · rw [hstill]

theorem onlyLive_of_idle {w : Worker Unit} (h : OfeWorkerLifecycle.Phase w)
    (hidle : w.calls () = .idle) : OnlyLive w.loops w.worker := by
  cases h with
  | quiet _ _ hlive => exact hlive
  | starting _ hstart => exact absurd hidle hstart.busy
  | overlapped _ _ hstart => exact absurd hidle hstart.busy
  | stopping _ _ hstop =>
    rcases hstop with hstop | hstop <;> rw [hidle] at hstop <;> cases hstop
  | ending _ hend =>
    rw [hidle] at hend
    cases hend

theorem accepted_ingress (ingress : OfeRingBuffer.State UniversalTickRecord)
    (action : OfeRingBuffer.Action UniversalTickRecord) :
    ingress.accepted <+: (OfeRingBuffer.step ingressCapacity ingress action).accepted := by
  cases action with
  | producerStep =>
    simp only [OfeRingBuffer.step, OfeRingBuffer.producerStep]
    split
    · exact List.prefix_refl _
    · split <;> exact List.prefix_refl _
    · exact List.prefix_refl _
    · exact List.prefix_append _ _
  | consumerStep =>
    simp only [OfeRingBuffer.step, OfeRingBuffer.consumerStep]
    split
    · exact List.prefix_refl _
    · exact List.prefix_refl _
    · split <;> exact List.prefix_refl _
    · split <;> exact List.prefix_refl _
    · exact List.prefix_refl _
  | push _ | tryPop | clear =>
    simp only [OfeRingBuffer.step]
    split <;> exact List.prefix_refl _

/-- What has been accepted stays accepted. -/
theorem accepted_step (config : Config) (s : State) (action : Action) :
    s.ingress.accepted <+: (step config s action).ingress.accepted := by
  cases action with
  | start | stop | controlStep => exact List.prefix_refl _
  | submit tick => exact accepted_ingress _ _
  | submitStep => exact accepted_ingress _ _
  | loopStep loop =>
    simp only [step]
    split
    · unfold bodyStep
      split
      · unfold popStep
        split
        · exact accepted_ingress _ _
        · exact accepted_ingress _ _
        · dsimp only
          split <;> exact accepted_ingress _ _
      · split <;> exact List.prefix_refl _
      · exact List.prefix_refl _
    · exact List.prefix_refl _

/-- A step of a loop moves at most that loop. -/
theorem lifecycle_loopStep {config : Config} {s : State} (h : Inv config s) (loop : Nat) :
    (step config s (.loopStep loop)).lifecycle = s.lifecycle ∨
      (step config s (.loopStep loop)).lifecycle =
        OfeWorkerLifecycle.step s.lifecycle (.loopStep loop) := by
  simp only [step]
  split
  · cases bodyMove h loop with
    | empty _ _ hlifecycle => exact .inr hlifecycle
    | within hlifecycle => exact .inl hlifecycle
    | publish _ _ hlifecycle => exact .inr hlifecycle
  · exact .inr rfl

/-- What a step of a loop leaves of the rest. -/
theorem control_loopStep {config : Config} {s : State} (h : Inv config s) (loop : Nat) :
    (step config s (.loopStep loop)).lifecycle.calls = s.lifecycle.calls ∧
      (step config s (.loopStep loop)).lifecycle.running = s.lifecycle.running ∧
        (step config s (.loopStep loop)).lifecycle.worker = s.lifecycle.worker := by
  rcases lifecycle_loopStep h loop with hsame | hmoved
  · rw [hsame]
    exact ⟨rfl, rfl, rfl⟩
  · obtain ⟨loops, heq, -⟩ := OfeWorkerLifecycle.loopStep_loops s.lifecycle loop
    rw [hmoved]
    simp only [OfeWorkerLifecycle.step, h.lifecycle.noFault, if_true, heq]
    exact ⟨trivial, trivial, trivial⟩

theorem manned_action {config : Config} {s : State} (h : Inv config s) (hmanned : Manned s.lifecycle)
    (action : Action) : Manned (step config s action).lifecycle := by
  cases action with
  | start | stop | controlStep => exact manned_step h.lifecycle hmanned _ (by simp)
  | submit _ | submitStep => exact hmanned
  | loopStep loop =>
    rcases lifecycle_loopStep h loop with hsame | hmoved
    · rw [hsame]
      exact hmanned
    · rw [hmoved]
      exact manned_step h.lifecycle hmanned _ (by simp)

theorem manned_run (config : Config) (actions : List Action) :
    Manned (run config actions).lifecycle := by
  induction actions using List.reverseRecOn with
  | nil =>
    intro loop hloop
    rcases hloop with hloop | hloop <;> cases hloop
  | append_singleton actions action ih =>
    rw [run, List.foldl_append]
    exact manned_action (inv_run config actions) ih action

theorem destroyed_step (w : Worker Unit) (action : OfeWorkerLifecycle.Action Unit)
    (hdestroy : action ≠ .destroy ()) :
    (OfeWorkerLifecycle.step w action).destroyed = w.destroyed := by
  unfold OfeWorkerLifecycle.step
  split
  · cases action with
    | start thread =>
      dsimp only [OfeWorkerLifecycle.setRunning]
      split
      · split <;> rfl
      · rfl
    | stop thread =>
      dsimp only [OfeWorkerLifecycle.clearRunning]
      split <;> rfl
    | destroy thread => exact absurd rfl hdestroy
    | threadStep thread =>
      cases hcall : w.calls thread with
      | idle | spawn => simp only [OfeWorkerLifecycle.threadStep, hcall]
      | assign _ | testJoinable _ | destroyThread =>
        simp only [OfeWorkerLifecycle.threadStep, hcall]
        split <;> rfl
      | join caller =>
        simp only [OfeWorkerLifecycle.threadStep, hcall]
        split
        · rfl
        · split <;> rfl
    | loopStep loop =>
      dsimp only [OfeWorkerLifecycle.loopStep]
      split <;> rfl
  · rfl

/-- Nobody has called the destructor. -/
theorem destroyed_run (config : Config) (actions : List Action) :
    (run config actions).lifecycle.destroyed = false := by
  induction actions using List.reverseRecOn with
  | nil => rfl
  | append_singleton actions action ih =>
    rw [run, List.foldl_append]
    change (step config (run config actions) action).lifecycle.destroyed = false
    rw [← ih]
    cases action with
    | start | stop | controlStep => exact destroyed_step _ _ (by simp)
    | submit _ | submitStep => rfl
    | loopStep loop =>
      rcases lifecycle_loopStep (inv_run config actions) loop with hsame | hmoved
      · rw [hsame]
      · rw [hmoved]
        exact destroyed_step _ _ (by simp)

end OfeSymbolWorker
