import OrderFlow.SessionLogQueue
import Mathlib.Logic.Function.Iterate

/-!
# What the logger has queued it writes

Over every run: each record queued is written once and in order, one is dropped
only at a full queue, and no wakeup is lost. With no call in progress the IO thread
alone writes all that is left, and ends if the destructor waits for it.
-/
namespace SessionLogQueue

open Locks GuardedRuns

variable {ρ : Type}

structure Ledger (s : State ρ) : Prop where
  fifo : s.written ++ batch s.io ++ s.queue = accepted s.decided
  bounded : s.queue.length ≤ limit
  /-- The calls of a caller are decided in the order in which it made them. -/
  calls : ∀ id, ofCaller id (s.decided.map (·.1)) ++ pending (s.caller id) = ofCaller id s.called
  drops : ∀ id record, s.caller id = .push record →
    ((callerStep s id).decided = s.decided ++ [((id, record), false)] ↔ s.queue.length = limit)
  exclusive : ∀ thread other, inside s.caller s.io s.destructor thread = true →
    inside s.caller s.io s.destructor other = true → thread = other
  wakeup : s.io = .asleep → s.queue ≠ [] ∨ s.running = false →
    (∃ id, (s.caller id).waking = true) ∨ s.destructor.waking = true

theorem ledger_of_inv {s : State ρ} (h : Inv s) : Ledger s where
  fifo := h.fifo
  bounded := h.bounded
  calls := h.calls
  drops := by
    intro id record hpc
    have hbounded := h.bounded
    rw [callerStep, hpc]
    simp only [List.append_cancel_left_eq, List.cons.injEq, Prod.mk.injEq, decide_eq_false_iff_not,
      true_and, and_true]
    omega
  exclusive := fun _ _ => h.holder.unique
  wakeup := by
    intro hasleep hwork
    rcases hwork with hqueue | hstopped
    · exact .inl (h.waker hasleep hqueue)
    · have hrunning := h.running
      exact .inr (h.stopper hasleep (by simp_all))

/-- Any number of callers, in any interleaving with the IO thread and the destructor. -/
theorem run_ledger (actions : List (Action ρ)) : Ledger (run actions) :=
  ledger_of_inv (inv_run actions)

def fine (s : State ρ) : Action ρ → Prop
  | .enqueue _ _ => s.destructor = .idle
  | .destroy => ∀ id, s.caller id = .idle
  | _ => True

structure Quiet (s : State ρ) : Prop where
  inv : Inv s
  callers : s.destructor ≠ .idle → ∀ id, s.caller id = .idle
  emptied : s.io = .finished → s.queue = []

theorem quiet_initial : Quiet (initial : State ρ) where
  inv := inv_initial
  callers := fun h => absurd rfl h
  emptied := fun h => by cases h

theorem callerStep_idle {s : State ρ} {id : Nat} (h : s.caller id = .idle) : callerStep s id = s := by
  rw [callerStep, h]

theorem callerStep_same (s : State ρ) (id : Nat) :
    (callerStep s id).destructor = s.destructor ∧
      ((callerStep s id).io = .finished → s.io = .finished) := by
  rw [callerStep]
  split
  case h_2 => split <;> exact ⟨rfl, fun h => h⟩
  case h_5 => exact ⟨rfl, notified_eq_finished.mp⟩
  all_goals exact ⟨rfl, fun h => h⟩

/-- The loop ends on an empty queue. -/
theorem ioStep_finished {s : State ρ} (h : (ioStep s).io = .finished) :
    (ioStep s).queue = s.queue ∧ (s.queue = [] ∨ s.io = .finished) := by
  rw [ioStep] at h ⊢
  split at h
  case h_9 hio =>
    cases hqueue : s.queue with
    | nil => simp
    | cons record rest => simp [hqueue] at h
  case h_10 hio => exact ⟨rfl, .inr hio⟩
  case h_3 hio => cases hio.symm.trans h
  case h_1 hio =>
    split at h
    · cases h
    · cases hio.symm.trans h
  all_goals
    first
    | cases h
    | split at h <;> cases h

theorem ioStep_same (s : State ρ) : (ioStep s).caller = s.caller ∧
    (ioStep s).destructor = s.destructor ∧ (ioStep s).decided = s.decided := by
  rw [ioStep]
  split <;> try exact ⟨rfl, rfl, rfl⟩
  all_goals split <;> exact ⟨rfl, rfl, rfl⟩

theorem destructorStep_same (s : State ρ) : (destructorStep s).caller = s.caller ∧
    (destructorStep s).queue = s.queue ∧ ((destructorStep s).io = .finished → s.io = .finished) ∧
      (s.destructor = .idle → (destructorStep s).destructor = .idle) := by
  rw [destructorStep]
  split
  case h_5 hd => exact ⟨rfl, rfl, notified_eq_finished.mp, fun he => by cases hd.symm.trans he⟩
  case h_2 hd => split <;> exact ⟨rfl, rfl, id, fun he => by cases hd.symm.trans he⟩
  case h_6 hd => split <;> exact ⟨rfl, rfl, id, fun he => by cases hd.symm.trans he⟩
  all_goals
    rename_i hd
    exact ⟨rfl, rfl, id, fun he => by cases hd.symm.trans he <;> assumption⟩

/-- After the loop has ended no call is in progress. -/
theorem Quiet.idle_of_finished {s : State ρ} (h : Quiet s) (hio : s.io = .finished) (id : Nat) :
    s.caller id = .idle := by
  have hstopped := h.inv.leaving (by rw [hio]; rfl)
  apply h.callers
  intro hd
  rw [hd] at hstopped
  cases hstopped

theorem quiet_step {s : State ρ} (h : Quiet s) {action : Action ρ} (hfine : fine s action) :
    Quiet (step s action) := by
  have hinv := inv_step h.inv action
  cases action with
  | enqueue id record =>
    have hidle : s.destructor = .idle := hfine
    simp only [step] at hinv ⊢
    split
    case h_1 hpc =>
      rw [hpc] at hinv
      exact ⟨hinv, fun hd => absurd hidle hd, h.emptied⟩
    case h_2 => exact h
  | callerStep id =>
    obtain ⟨hdestructor, hfinished⟩ := callerStep_same s id
    refine ⟨hinv, fun hd => ?_, fun hio => ?_⟩
    · simp only [step, hdestructor] at hd
      have hidle := h.callers hd
      simpa only [step, callerStep_idle (hidle id)] using hidle
    · have hidle := h.idle_of_finished (hfinished hio) id
      simpa only [step, callerStep_idle hidle] using h.emptied (hfinished hio)
  | ioStep =>
    obtain ⟨hcaller, hdestructor, -⟩ := ioStep_same s
    refine ⟨hinv, fun hd => ?_, fun hio => ?_⟩
    · simp only [step, hcaller, hdestructor] at hd ⊢
      exact h.callers hd
    · obtain ⟨hqueue, hend⟩ := ioStep_finished hio
      simp only [step, hqueue]
      exact hend.elim id h.emptied
  | wakeup => exact ⟨hinv, h.callers, fun hio => h.emptied (notified_eq_finished.mp hio)⟩
  | destroy =>
    simp only [step] at hinv ⊢
    split
    case isTrue hd =>
      rw [if_pos hd] at hinv
      exact ⟨hinv, fun _ => hfine, h.emptied⟩
    case isFalse => exact h
  | destructorStep =>
    obtain ⟨hcaller, hqueue, hio, hidle⟩ := destructorStep_same s
    refine ⟨hinv, fun hd => ?_, fun hfinished => ?_⟩
    · simp only [step, hcaller] at hd ⊢
      exact h.callers fun he => hd (hidle he)
    · simp only [step, hqueue]
      exact h.emptied (hio hfinished)

theorem quiet_run {actions : List (Action ρ)} (h : Guarded step fine initial actions) :
    Quiet (run actions) :=
  inv_of_guarded Quiet (fun _ _ hquiet hfine => quiet_step hquiet hfine) quiet_initial h
    (List.prefix_refl actions)

/-- What the destructor leaves behind is written. -/
theorem Quiet.complete {s : State ρ} (h : Quiet s) (hd : s.destructor = .finished) :
    s.written = accepted s.decided ∧ ∀ id, ofCaller id (s.decided.map (·.1)) = ofCaller id s.called := by
  have hio := h.inv.joined hd
  have hfifo := h.inv.fifo
  rw [hio, h.emptied hio] at hfifo
  refine ⟨by simpa [batch] using hfifo, fun id => ?_⟩
  have hcalls := h.inv.calls id
  rw [h.idle_of_finished hio id] at hcalls
  simpa [pending] using hcalls

/-- No call is in progress, and the destructor has not begun or waits for the loop. -/
structure Alone (s : State ρ) : Prop where
  quiet : Quiet s
  callers : ∀ id, s.caller id = .idle
  outside : s.destructor.inside = false
  silent : s.destructor.waking = false

theorem alone_ioStep {s : State ρ} (h : Alone s) : Alone (ioStep s) := by
  obtain ⟨hcaller, hdestructor, -⟩ := ioStep_same s
  have hfine : fine s .ioStep := trivial
  refine ⟨quiet_step h.quiet hfine, ?_, ?_, ?_⟩
  · rw [hcaller]
    exact h.callers
  · rw [hdestructor]
    exact h.outside
  · rw [hdestructor]
    exact h.silent

/-- Nobody else holds the mutex. -/
theorem Alone.free {s : State ρ} (h : Alone s) (hio : s.io.inside = false) : s.mutex = none := by
  cases hmutex : s.mutex with
  | none => rfl
  | some thread =>
    have hinside := (h.quiet.inv.holder thread).mp hmutex
    cases thread with
    | caller id => simp [inside, h.callers id, Caller.inside] at hinside
    | io => simp [inside, hio] at hinside
    | destructor => simp [inside, h.outside] at hinside

/-- Nothing is left to write, and the loop sleeps or has ended. -/
def Settled (s : State ρ) : Prop :=
  s.queue = [] ∧ s.io = if s.running then .asleep else .finished

/-- A sleeping loop has nothing to do. -/
theorem settled_asleep {s : State ρ} (h : Alone s) (hio : s.io = .asleep) : Settled s := by
  have hinv := h.quiet.inv
  have hqueue : s.queue = [] := by
    by_contra hwork
    obtain ⟨id, hwaking⟩ := hinv.waker hio hwork
    simp [h.callers id, Caller.waking] at hwaking
  have hrunning : s.running = true := by
    rw [hinv.running]
    cases hstopped : s.destructor.stopped with
    | false => rfl
    | true => exact absurd (hinv.stopper hio hstopped) (by simp [h.silent])
  exact ⟨hqueue, by rw [hio, hrunning]; rfl⟩

theorem settled_finished {s : State ρ} (h : Alone s) (hio : s.io = .finished) : Settled s := by
  have hstopped := h.quiet.inv.leaving (by rw [hio]; rfl)
  have hrunning := h.quiet.inv.running
  rw [hstopped] at hrunning
  exact ⟨h.quiet.emptied hio, by rw [hio, hrunning]; rfl⟩

/-- The steps of a further round, for a queue that has filled up behind the batch. -/
def again : List ρ → Nat
  | [] => 0
  | _ :: queue => queue.length + 11

/-- A bound on the steps to go. -/
def work (s : State ρ) : Nat :=
  match s.io with
  | .lock => if !s.queue.isEmpty || !s.running then s.queue.length + 9 else 3
  | .test => if !s.queue.isEmpty || !s.running then s.queue.length + 8 else 2
  | .swap => s.queue.length + 7
  | .unlock batch => batch.length + 6 + again s.queue
  | .drain batch => batch.length + 5 + again s.queue
  | .readRunning => 4 + again s.queue
  | .readQueue => 3 + again s.queue
  | .asleep => 0
  | .finished => 0

theorem work_le (s : State ρ) : work s ≤ (batch s.io).length + s.queue.length + 16 := by
  have hagain : again s.queue ≤ s.queue.length + 10 := by
    cases s.queue <;> simp [again]
  cases hio : s.io <;> simp only [work, hio, batch, List.length_nil] <;> (try split) <;> omega

/-- Each step of the loop leaves less to do, until it settles. -/
theorem work_ioStep {s : State ρ} (h : Alone s) : work (ioStep s) < work s ∨ Settled s := by
  cases hio : s.io with
  | lock =>
    have hfree := h.free (by rw [hio]; rfl)
    left
    simp only [ioStep, hio, hfree, work, if_true]
    split <;> omega
  | test =>
    left
    by_cases hready : (!s.queue.isEmpty || !s.running) = true
    · simp [ioStep, hio, work, hready]
    · simp [ioStep, hio, work, hready]
  | asleep => exact .inr (settled_asleep h hio)
  | swap => exact .inl (by simp [ioStep, hio, work, again])
  | unlock batch => exact .inl (by simp [ioStep, hio, work])
  | drain batch =>
    left
    cases batch with
    | nil => simp [ioStep, hio, work]
    | cons record batch => simp [ioStep, hio, work]
  | readRunning =>
    left
    cases hrun : s.running <;> cases hqueue : s.queue <;>
      (simp [ioStep, hio, work, again, hrun, hqueue]; try omega)
  | readQueue =>
    left
    cases hqueue : s.queue with
    | nil => simp [ioStep, hio, work, again, hqueue]
    | cons record rest =>
      simp [ioStep, hio, work, again, hqueue]
      omega
  | finished => exact .inr (settled_finished h hio)

/-- Within the bound the loop settles, having written all that was queued. -/
theorem settles {n : Nat} {s : State ρ} (h : Alone s) (hn : work s ≤ n) :
    ∃ k, k ≤ n ∧ Alone (ioStep^[k] s) ∧ Settled (ioStep^[k] s) ∧
      (ioStep^[k] s).decided = s.decided ∧ (ioStep^[k] s).destructor = s.destructor := by
  induction n generalizing s with
  | zero =>
    obtain hless | hsettled := work_ioStep h
    · omega
    · exact ⟨0, Nat.le_refl 0, h, hsettled, rfl, rfl⟩
  | succ n ih =>
    obtain hless | hsettled := work_ioStep h
    · obtain ⟨-, hdestructor, hdecided⟩ := ioStep_same s
      obtain ⟨k, hk, halone, hsettled, hd, hdest⟩ := ih (alone_ioStep h) (by omega)
      exact ⟨k + 1, by omega, halone, hsettled, hd.trans hdecided, hdest.trans hdestructor⟩
    · exact ⟨0, Nat.zero_le _, h, hsettled, rfl, rfl⟩

theorem Settled.written {s : State ρ} (hinv : Inv s) (h : Settled s) :
    s.written = accepted s.decided := by
  have hfifo := hinv.fifo
  obtain ⟨hqueue, hio⟩ := h
  rw [hqueue, hio] at hfifo
  cases hrun : s.running <;> simpa [hrun, batch] using hfifo

/-- A join that finds the loop ended returns. -/
theorem Settled.joins {s : State ρ} (hinv : Inv s) (h : Settled s) (hd : s.destructor = .join) :
    (destructorStep s).destructor = .finished := by
  have hrunning := hinv.running
  rw [hd] at hrunning
  obtain ⟨-, hio⟩ := h
  have hstopped : s.running = false := hrunning
  rw [hstopped] at hio
  simp [destructorStep, hd, hio]

/-- The destructor returns only when every record queued has been written and every call has
been decided. Until then, whenever no call is in progress, the IO thread by itself writes all
that has been queued, in a number of steps that the records left bound, and lets a waiting
destructor return. -/
theorem run_drains {actions : List (Action ρ)} (h : Guarded step fine initial actions) :
    ((run actions).destructor = .finished →
      (run actions).written = accepted (run actions).decided ∧
        ∀ id, ofCaller id ((run actions).decided.map (·.1)) = ofCaller id (run actions).called) ∧
    ((∀ id, (run actions).caller id = .idle) →
      (run actions).destructor.inside = false → (run actions).destructor.waking = false →
      ∃ k, k ≤ (batch (run actions).io).length + (run actions).queue.length + 16 ∧
        (ioStep^[k] (run actions)).written = accepted (run actions).decided ∧
        ((run actions).destructor = .join →
          (destructorStep (ioStep^[k] (run actions))).destructor = .finished)) := by
  have hquiet := quiet_run h
  refine ⟨hquiet.complete, fun hcallers houtside hsilent => ?_⟩
  obtain ⟨k, hk, halone, hsettled, hdecided, hdestructor⟩ :=
    settles ⟨hquiet, hcallers, houtside, hsilent⟩ (work_le _)
  have hinv := halone.quiet.inv
  refine ⟨k, hk, ?_, fun hjoin => hsettled.joins hinv (hdestructor.trans hjoin)⟩
  rw [hsettled.written hinv, hdecided]

/-- One record, logged before the destruction begins. -/
def shutdown : List (Action Char) :=
  [.enqueue 0 'a', .callerStep 0, .callerStep 0, .callerStep 0, .callerStep 0, .destroy,
    .destructorStep, .destructorStep, .destructorStep, .destructorStep]

theorem shutdown_drains :
    ∃ k, k ≤ 17 ∧ (ioStep^[k] (run shutdown)).written = ['a'] ∧
      (destructorStep (ioStep^[k] (run shutdown))).destructor = .finished := by
  have hcallers : ∀ id, (run shutdown).caller id = .idle := by
    intro id
    by_cases hid : id = 0 <;> simp [run, shutdown, step, callerStep, destructorStep, initial, hid]
  have hguarded : Guarded step fine initial shutdown := by
    simp [Guarded, shutdown, step, fine, callerStep, initial]
  obtain ⟨k, hk, hwritten, hjoin⟩ := (run_drains hguarded).2 hcallers rfl rfl
  exact ⟨k, hk, hwritten, hjoin rfl⟩

end SessionLogQueue
