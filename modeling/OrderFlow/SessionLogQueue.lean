import OrderFlow.GuardedRuns
import OrderFlow.Locks
import Mathlib.Logic.Function.Basic

/-!
# The queue of the `session1` logger

`LoggerImpl` takes records from any number of callers through one mutex and one
condition variable, and its IO thread swaps the queue out and writes the batch.
A run is a list of actions in any order: calls, single steps of the callers, of
the IO thread and of the destructor, and spurious wakeups. `called` and `decided`
record the calls of `enqueue` begun and the calls whose record was queued or
dropped, and `written` what `write_record` was given.
-/
namespace SessionLogQueue

open Locks

variable {ρ : Type}

/-- The next step of an `enqueue` in progress. -/
inductive Caller (ρ : Type) where
  | idle
  | lock (record : ρ)
  | push (record : ρ)
  | unlock
  | notify
  deriving DecidableEq, Repr

/-- The next step of `io_loop`. A wakeup inside `cv_.wait` takes the mutex and tests
the predicate again, as the top of the loop does. -/
inductive Io (ρ : Type) where
  | lock
  | test
  | asleep
  | swap
  | unlock (batch : List ρ)
  | drain (batch : List ρ)
  | readRunning
  | readQueue
  | finished
  deriving DecidableEq, Repr

inductive Destructor where
  | idle | lock | stop | unlock | notify | join | finished
  deriving DecidableEq, Repr

inductive Thread where
  | caller (id : Nat)
  | io
  | destructor
  deriving DecidableEq, Repr

structure State (ρ : Type) where
  queue : List ρ
  running : Bool
  mutex : Option Thread
  caller : Nat → Caller ρ
  io : Io ρ
  destructor : Destructor
  called : List (Nat × ρ)
  decided : List ((Nat × ρ) × Bool)
  written : List ρ

inductive Action (ρ : Type) where
  | enqueue (id : Nat) (record : ρ)
  | callerStep (id : Nat)
  | ioStep
  | wakeup
  | destroy
  | destructorStep
  deriving DecidableEq, Repr

/-- The size from which `enqueue` drops. -/
def limit : Nat := 65536

/-- `cv_.notify_one()`; only the IO thread waits. -/
def notified : Io ρ → Io ρ
  | .asleep => .lock
  | pc => pc

def callerStep (s : State ρ) (id : Nat) : State ρ :=
  match s.caller id with
  | .idle => s
  | .lock record =>
    if s.mutex = none then
      { s with mutex := some (.caller id), caller := Function.update s.caller id (.push record) }
    else s
  | .push record =>
    { s with
      queue := if s.queue.length < limit then s.queue ++ [record] else s.queue
      caller := Function.update s.caller id .unlock
      decided := s.decided ++ [((id, record), decide (s.queue.length < limit))] }
  | .unlock => { s with mutex := none, caller := Function.update s.caller id .notify }
  | .notify => { s with io := notified s.io, caller := Function.update s.caller id .idle }

def ioStep (s : State ρ) : State ρ :=
  match s.io with
  | .lock => if s.mutex = none then { s with mutex := some .io, io := .test } else s
  | .test =>
    if !s.queue.isEmpty || !s.running then { s with io := .swap }
    else { s with mutex := none, io := .asleep }
  | .asleep => s
  | .swap => { s with queue := [], io := .unlock s.queue }
  | .unlock batch => { s with mutex := none, io := .drain batch }
  | .drain [] => { s with io := .readRunning }
  | .drain (record :: batch) => { s with io := .drain batch, written := s.written ++ [record] }
  -- The test that ends the loop holds no lock.
  | .readRunning => { s with io := if s.running then .lock else .readQueue }
  | .readQueue => { s with io := if s.queue.isEmpty then .finished else .lock }
  | .finished => s

def destructorStep (s : State ρ) : State ρ :=
  match s.destructor with
  | .idle => s
  | .lock => if s.mutex = none then { s with mutex := some .destructor, destructor := .stop } else s
  | .stop => { s with running := false, destructor := .unlock }
  | .unlock => { s with mutex := none, destructor := .notify }
  | .notify => { s with io := notified s.io, destructor := .join }
  | .join =>
    match s.io with
    | .finished => { s with destructor := .finished }
    | _ => s
  | .finished => s

/-- A caller that is busy starts no call, and the object is destroyed once. -/
def step (s : State ρ) : Action ρ → State ρ
  | .enqueue id record =>
    match s.caller id with
    | .idle =>
      { s with
        caller := Function.update s.caller id (.lock record)
        called := s.called ++ [(id, record)] }
    | _ => s
  | .callerStep id => callerStep s id
  | .ioStep => ioStep s
  | .wakeup => { s with io := notified s.io }
  | .destroy => if s.destructor = .idle then { s with destructor := .lock } else s
  | .destructorStep => destructorStep s

/-- What the constructor leaves. -/
def initial : State ρ := ⟨[], true, none, fun _ => .idle, .lock, .idle, [], [], []⟩

def run (actions : List (Action ρ)) : State ρ := actions.foldl step initial

/-- Records swapped out and not yet written. -/
def batch : Io ρ → List ρ
  | .unlock batch => batch
  | .drain batch => batch
  | _ => []

/-- The record of a call not yet decided. -/
def pending : Caller ρ → List ρ
  | .lock record => [record]
  | .push record => [record]
  | _ => []

/-- The records that were queued, in order. -/
def accepted (decided : List ((Nat × ρ) × Bool)) : List ρ :=
  (decided.filter (·.2)).map (·.1.2)

/-- The records of one caller, in order. -/
def ofCaller (id : Nat) (calls : List (Nat × ρ)) : List ρ :=
  (calls.filter (·.1 = id)).map (·.2)

theorem ofCaller_snoc_self (id : Nat) (calls : List (Nat × ρ)) (record : ρ) :
    ofCaller id (calls ++ [(id, record)]) = ofCaller id calls ++ [record] := by
  simp [ofCaller]

theorem ofCaller_snoc_other {id other : Nat} (h : other ≠ id) (calls : List (Nat × ρ)) (record : ρ) :
    ofCaller id (calls ++ [(other, record)]) = ofCaller id calls := by
  simp [ofCaller, h]

/-- Where a caller must hold the mutex. -/
def Caller.inside : Caller ρ → Bool
  | .push _ => true
  | .unlock => true
  | _ => false

def Io.inside : Io ρ → Bool
  | .test => true
  | .swap => true
  | .unlock _ => true
  | _ => false

def Destructor.inside : Destructor → Bool
  | .stop => true
  | .unlock => true
  | _ => false

def inside (caller : Nat → Caller ρ) (io : Io ρ) (destructor : Destructor) : Thread → Bool
  | .caller id => (caller id).inside
  | .io => io.inside
  | .destructor => destructor.inside

/-- The caller is about to notify the IO thread. -/
def Caller.waking : Caller ρ → Bool
  | .unlock => true
  | .notify => true
  | _ => false

def Destructor.waking : Destructor → Bool
  | .unlock => true
  | .notify => true
  | _ => false

/-- The destructor has ended the loop. -/
def Destructor.stopped : Destructor → Bool
  | .idle => false
  | .lock => false
  | .stop => false
  | _ => true

/-- The loop has seen `running_` false. -/
def Io.leaving : Io ρ → Bool
  | .readQueue => true
  | .finished => true
  | _ => false

structure Inv (s : State ρ) : Prop where
  holder : Exclusive s.mutex (inside s.caller s.io s.destructor)
  fifo : s.written ++ batch s.io ++ s.queue = accepted s.decided
  bounded : s.queue.length ≤ limit
  calls : ∀ id, ofCaller id (s.decided.map (·.1)) ++ pending (s.caller id) = ofCaller id s.called
  waker : s.io = .asleep → s.queue ≠ [] → ∃ id, (s.caller id).waking = true
  stopper : s.io = .asleep → s.destructor.stopped = true → s.destructor.waking = true
  running : s.running = !s.destructor.stopped
  leaving : s.io.leaving = true → s.destructor.stopped = true
  joined : s.destructor = .finished → s.io = .finished

theorem inv_initial : Inv (initial : State ρ) where
  holder := by
    intro thread
    cases thread <;> simp [initial, inside, Caller.inside, Io.inside, Destructor.inside]
  fifo := rfl
  bounded := by simp [initial]
  calls := by
    intro id
    rfl
  waker := by
    intro h
    cases h
  stopper := by
    intro h
    cases h
  running := rfl
  leaving := by
    intro h
    cases h
  joined := by
    intro h
    cases h

theorem inside_update_self (caller : Nat → Caller ρ) (io : Io ρ) (destructor : Destructor) (id : Nat)
    (pc : Caller ρ) :
    inside (Function.update caller id pc) io destructor (.caller id) = pc.inside := by
  simp [inside]

theorem inside_update_of_ne (caller : Nat → Caller ρ) (io : Io ρ) (destructor : Destructor)
    (id : Nat) (pc : Caller ρ) (thread : Thread) (h : thread ≠ .caller id) :
    inside (Function.update caller id pc) io destructor thread =
      inside caller io destructor thread := by
  cases thread with
  | caller other =>
    have hother : other ≠ id := fun he => h (he ▸ rfl)
    simp [inside, Function.update_of_ne hother]
  | io => rfl
  | destructor => rfl

/-- A move that neither enters nor leaves the guarded code. -/
theorem inside_update (caller : Nat → Caller ρ) (io : Io ρ) (destructor : Destructor)
    {id : Nat} {pc : Caller ρ} (h : pc.inside = (caller id).inside) (thread : Thread) :
    inside (Function.update caller id pc) io destructor thread =
      inside caller io destructor thread := by
  by_cases hthread : thread = .caller id
  · subst hthread
    rw [inside_update_self, h]
    rfl
  · exact inside_update_of_ne caller io destructor id pc thread hthread

theorem waking_update {caller : Nat → Caller ρ} {id : Nat} (pc : Caller ρ)
    (hid : (caller id).waking = false) (h : ∃ other, (caller other).waking = true) :
    ∃ other, (Function.update caller id pc other).waking = true := by
  obtain ⟨other, hother⟩ := h
  have hne : other ≠ id := by
    intro he
    subst he
    simp [hid] at hother
  exact ⟨other, by rw [Function.update_of_ne hne, hother]⟩

theorem waking_self (caller : Nat → Caller ρ) (id : Nat) {pc : Caller ρ} (h : pc.waking = true) :
    ∃ other, (Function.update caller id pc other).waking = true :=
  ⟨id, by rw [Function.update_self, h]⟩

/-- The calls of every caller, when one of them goes on. -/
theorem calls_update {s : State ρ} (h : Inv s) {id : Nat} {pc : Caller ρ}
    (hpending : pending pc = pending (s.caller id)) (other : Nat) :
    ofCaller other (s.decided.map (·.1)) ++ pending (Function.update s.caller id pc other) =
      ofCaller other s.called := by
  by_cases hother : other = id
  · subst hother
    rw [Function.update_self, hpending]
    exact h.calls other
  · rw [Function.update_of_ne hother]
    exact h.calls other

theorem accepted_snoc (decided : List ((Nat × ρ) × Bool)) (call : Nat × ρ) (kept : Bool) :
    accepted (decided ++ [(call, kept)]) = accepted decided ++ if kept then [call.2] else [] := by
  cases kept <;> simp [accepted]

@[simp] theorem notified_ne_asleep (io : Io ρ) : notified io ≠ .asleep := by
  cases io <;> simp [notified]

@[simp] theorem batch_notified (io : Io ρ) : batch (notified io) = batch io := by
  cases io <;> rfl

@[simp] theorem inside_notified (io : Io ρ) : (notified io).inside = io.inside := by
  cases io <;> rfl

@[simp] theorem leaving_notified (io : Io ρ) : (notified io).leaving = io.leaving := by
  cases io <;> rfl

theorem notified_eq_finished {io : Io ρ} : notified io = .finished ↔ io = .finished := by
  cases io <;> simp [notified]

/-- A notification wakes the IO thread or does nothing. -/
theorem inv_notified {s : State ρ} (h : Inv s) : Inv { s with io := notified s.io } where
  holder := h.holder.move fun thread => by cases thread <;> simp [inside]
  fifo := by simpa using h.fifo
  bounded := h.bounded
  calls := h.calls
  waker := fun hasleep => absurd hasleep (notified_ne_asleep _)
  stopper := fun hasleep => absurd hasleep (notified_ne_asleep _)
  running := h.running
  leaving := by simpa using h.leaving
  joined := fun hd => notified_eq_finished.mpr (h.joined hd)

/-- The record goes to the end of the queue, or the queue is full. -/
theorem inv_push {s : State ρ} (h : Inv s) {id : Nat} {record : ρ}
    (hpc : s.caller id = .push record) :
    Inv { s with
      queue := if s.queue.length < limit then s.queue ++ [record] else s.queue
      caller := Function.update s.caller id .unlock
      decided := s.decided ++ [((id, record), decide (s.queue.length < limit))] } where
  holder := h.holder.move (inside_update _ _ _ (by rw [hpc]; rfl))
  fifo := by
    have hfifo := h.fifo
    rw [accepted_snoc, ← hfifo]
    by_cases hroom : s.queue.length < limit <;> simp [hroom]
  bounded := by
    have hbounded := h.bounded
    dsimp only
    split
    · rw [List.length_append, List.length_singleton]
      omega
    · exact hbounded
  calls := by
    intro other
    have hcalls := h.calls other
    dsimp only
    rw [List.map_append, List.map_singleton]
    by_cases hother : other = id
    · subst hother
      rw [hpc] at hcalls
      rw [Function.update_self, ofCaller_snoc_self]
      simpa [pending] using hcalls
    · rw [Function.update_of_ne hother, ofCaller_snoc_other (Ne.symm hother)]
      exact hcalls
  waker := fun _ _ => waking_self _ _ rfl
  stopper := h.stopper
  running := h.running
  leaving := h.leaving
  joined := h.joined

theorem inv_callerStep {s : State ρ} (h : Inv s) (id : Nat) : Inv (callerStep s id) := by
  rw [callerStep]
  split
  case h_1 hpc => exact h
  case h_2 record hpc =>
    split
    case isTrue hfree =>
      have hholder := h.holder
      rw [hfree] at hholder
      exact {
        h with
        holder := hholder.take (inside_update_self _ _ _ _ _)
          (inside_update_of_ne s.caller s.io s.destructor id _)
        calls := calls_update h (by rw [hpc]; rfl)
        waker := fun hasleep hqueue =>
          waking_update _ (by rw [hpc]; rfl) (h.waker hasleep hqueue) }
    case isFalse => exact h
  case h_3 record hpc => exact inv_push h hpc
  case h_4 hpc =>
    exact {
      h with
      holder := h.holder.leave (.caller id) (by simp [inside, hpc, Caller.inside])
        (inside_update_self _ _ _ _ _) (inside_update_of_ne s.caller s.io s.destructor id _)
      calls := calls_update h (by rw [hpc]; rfl)
      waker := fun _ _ => waking_self _ _ rfl }
  case h_5 hpc =>
    have hnotified := inv_notified h
    exact {
      hnotified with
      holder := hnotified.holder.move (inside_update _ _ _ (by rw [hpc]; rfl))
      calls := calls_update hnotified (by rw [hpc]; rfl)
      waker := fun hasleep => absurd hasleep (notified_ne_asleep _) }

theorem inside_io_of_ne (caller : Nat → Caller ρ) (io io' : Io ρ) (destructor : Destructor)
    (thread : Thread) (h : thread ≠ .io) :
    inside caller io' destructor thread = inside caller io destructor thread := by
  cases thread with
  | io => exact absurd rfl h
  | _ => rfl

/-- The IO thread moves on without the mutex, or keeps it. -/
theorem inv_io {s : State ρ} (h : Inv s) {io : Io ρ} (hbatch : batch io = batch s.io)
    (hinside : io.inside = s.io.inside) (hawake : io ≠ .asleep)
    (hleaving : io.leaving = true → s.destructor.stopped = true)
    (hjoined : s.io = .finished → io = .finished) : Inv { s with io := io } where
  holder := h.holder.move fun thread => by
    cases thread with
    | io => exact hinside
    | _ => rfl
  fifo := by
    have hfifo := h.fifo
    rw [← hbatch] at hfifo
    exact hfifo
  bounded := h.bounded
  calls := h.calls
  waker := fun hasleep => absurd hasleep hawake
  stopper := fun hasleep => absurd hasleep hawake
  running := h.running
  leaving := hleaving
  joined := fun hd => hjoined (h.joined hd)

/-- The IO thread moves on in its loop, with or without the mutex. -/
theorem inv_awake {s : State ρ} (h : Inv s) {mutex : Option Thread} {io : Io ρ}
    {queue written : List ρ} (hholder : Exclusive mutex (inside s.caller io s.destructor))
    (hfifo : written ++ batch io ++ queue = accepted s.decided) (hbounded : queue.length ≤ limit)
    (hawake : io ≠ .asleep) (hstays : io.leaving = false) (hgoes : s.io ≠ .finished) :
    Inv { s with
      mutex := mutex
      io := io
      queue := queue
      written := written } :=
  { h with
    holder := hholder
    fifo := hfifo
    bounded := hbounded
    waker := fun hasleep => absurd hasleep hawake
    stopper := fun hasleep => absurd hasleep hawake
    leaving := fun hleaving => by
      rw [hstays] at hleaving
      cases hleaving
    joined := fun hd => absurd (h.joined hd) hgoes }

/-- The IO thread waits only while there is nothing to write and nobody has stopped it. -/
theorem inv_sleep {s : State ρ} (h : Inv s) (hio : s.io = .test)
    (hidle : ¬ (!s.queue.isEmpty || !s.running) = true) :
    Inv { s with
      mutex := none
      io := .asleep } := by
  have hrunning := h.running
  have hfifo := h.fifo
  rw [hio] at hfifo
  simp only [Bool.or_eq_true, not_or, Bool.not_eq_true] at hidle
  exact {
    h with
    holder := h.holder.leave .io (by simp [inside, hio, Io.inside]) rfl
      (inside_io_of_ne s.caller s.io .asleep s.destructor)
    fifo := hfifo
    waker := fun _ hqueue => by simp_all
    stopper := fun _ hstopped => by simp_all
    leaving := fun hleaving => by cases hleaving
    joined := fun hd => by cases hio.symm.trans (h.joined hd) }

theorem inv_ioStep {s : State ρ} (h : Inv s) : Inv (ioStep s) := by
  have hholder := h.holder
  have hfifo := h.fifo
  rw [ioStep]
  split
  case h_1 hio =>
    split
    case isTrue hfree =>
      rw [hfree] at hholder
      rw [hio] at hfifo
      exact inv_awake h (hholder.take rfl (inside_io_of_ne s.caller s.io .test s.destructor)) hfifo
        h.bounded (by simp) rfl (by simp [hio])
    case isFalse => exact h
  case h_2 hio =>
    split
    case isTrue hready =>
      exact inv_io h (by rw [hio]; rfl) (by rw [hio]; rfl) (by simp) (by simp [Io.leaving])
        (by simp [hio])
    case isFalse hidle => exact inv_sleep h hio hidle
  case h_3 hio => exact h
  case h_4 hio =>
    rw [hio] at hfifo
    refine inv_awake h ?_ (by simpa [batch] using hfifo) (Nat.zero_le _) (by simp) rfl (by simp [hio])
    exact hholder.move fun thread => by cases thread <;> simp [inside, hio, Io.inside]
  case h_5 pending hio =>
    rw [hio] at hfifo
    refine inv_awake h ?_ hfifo h.bounded (by simp) rfl (by simp [hio])
    exact hholder.leave .io (by simp [inside, hio, Io.inside]) rfl
      (inside_io_of_ne s.caller s.io (.drain pending) s.destructor)
  case h_6 hio =>
    exact inv_io h (by rw [hio]; rfl) (by rw [hio]; rfl) (by simp) (by simp [Io.leaving])
      (by simp [hio])
  case h_7 record rest hio =>
    rw [hio] at hfifo
    refine inv_awake h ?_ (by simpa [batch] using hfifo) h.bounded (by simp) rfl (by simp [hio])
    exact hholder.move fun thread => by cases thread <;> simp [inside, hio, Io.inside]
  case h_8 hio =>
    have hrunning := h.running
    have hmoves : ∀ io : Io ρ, batch io = [] → io.inside = false → io ≠ .asleep →
        (io.leaving = true → s.destructor.stopped = true) → Inv { s with io := io } :=
      fun io hbatch hinside hawake hleaving =>
        inv_io h (by rw [hbatch, hio]; rfl) (by rw [hinside, hio]; rfl) hawake hleaving
          (by simp [hio])
    split
    case isTrue hrun => exact hmoves .lock rfl rfl (by simp) (by simp [Io.leaving])
    case isFalse hrun => exact hmoves .readQueue rfl rfl (by simp) (fun _ => by simp_all)
  case h_9 hio =>
    have hstopped := h.leaving (by rw [hio]; rfl)
    split
    · exact inv_io h (by rw [hio]; rfl) (by rw [hio]; rfl) (by simp) (fun _ => hstopped)
        (by simp [hio])
    · exact inv_io h (by rw [hio]; rfl) (by rw [hio]; rfl) (by simp) (fun _ => hstopped)
        (by simp [hio])
  case h_10 hio => exact h

theorem inside_destructor_of_ne (caller : Nat → Caller ρ) (io : Io ρ)
    (destructor destructor' : Destructor) (thread : Thread) (h : thread ≠ .destructor) :
    inside caller io destructor' thread = inside caller io destructor thread := by
  cases thread with
  | destructor => exact absurd rfl h
  | _ => rfl

theorem inv_destructorStep {s : State ρ} (h : Inv s) : Inv (destructorStep s) := by
  have hholder := h.holder
  have hrunning := h.running
  rw [destructorStep]
  split
  case h_1 hd => exact h
  case h_2 hd =>
    rw [hd] at hrunning
    split
    case isTrue hfree =>
      rw [hfree] at hholder
      have hleaving := h.leaving
      rw [hd] at hleaving
      exact {
        h with
        holder := hholder.take rfl (inside_destructor_of_ne s.caller s.io s.destructor .stop)
        stopper := fun _ hstopped => by cases hstopped
        running := hrunning
        leaving := hleaving
        joined := fun he => by cases he }
    case isFalse => exact h
  case h_3 hd =>
    exact {
      h with
      holder := hholder.move fun thread => by
        cases thread <;> simp [inside, hd, Destructor.inside]
      stopper := fun _ _ => rfl
      running := rfl
      leaving := fun _ => rfl
      joined := fun he => by cases he }
  case h_4 hd =>
    rw [hd] at hrunning
    exact {
      h with
      holder := hholder.leave .destructor (by simp [inside, hd, Destructor.inside]) rfl
        (inside_destructor_of_ne s.caller s.io s.destructor .notify)
      stopper := fun _ _ => rfl
      running := hrunning
      leaving := fun _ => rfl
      joined := fun he => by cases he }
  case h_5 hd =>
    rw [hd] at hrunning
    have hnotified := inv_notified h
    exact {
      hnotified with
      holder := hnotified.holder.move fun thread => by
        cases thread <;> simp [inside, hd, Destructor.inside]
      stopper := fun hasleep => absurd hasleep (notified_ne_asleep _)
      running := hrunning
      leaving := fun _ => rfl
      joined := fun he => by cases he }
  case h_6 hd =>
    rw [hd] at hrunning
    split
    case h_1 hio =>
      exact {
        h with
        holder := hholder.move fun thread => by
          cases thread <;> simp [inside, hd, Destructor.inside]
        stopper := fun hasleep => by cases hio.symm.trans hasleep
        running := hrunning
        leaving := fun _ => rfl
        joined := fun _ => hio }
    case h_2 => exact h
  case h_7 hd => exact h

/-- Every step of every thread keeps the invariant. -/
theorem inv_step {s : State ρ} (h : Inv s) (action : Action ρ) : Inv (step s action) := by
  cases action with
  | enqueue id record =>
    simp only [step]
    split
    case h_1 hpc =>
      exact {
        h with
        holder := h.holder.move (inside_update _ _ _ (by rw [hpc]; rfl))
        calls := by
          intro other
          have hcalls := h.calls other
          dsimp only
          by_cases hother : other = id
          · subst hother
            rw [hpc] at hcalls
            rw [Function.update_self, ofCaller_snoc_self, ← hcalls]
            simp [pending]
          · rw [Function.update_of_ne hother, ofCaller_snoc_other (Ne.symm hother)]
            exact hcalls
        waker := fun hasleep hqueue =>
          waking_update _ (by rw [hpc]; rfl) (h.waker hasleep hqueue) }
    case h_2 => exact h
  | callerStep id => exact inv_callerStep h id
  | ioStep => exact inv_ioStep h
  | wakeup => exact inv_notified h
  | destroy =>
    simp only [step]
    split
    case isTrue hd =>
      have hrunning := h.running
      have hleaving := h.leaving
      rw [hd] at hrunning hleaving
      exact {
        h with
        holder := h.holder.move fun thread => by
          cases thread <;> simp [inside, hd, Destructor.inside]
        stopper := fun _ hstopped => by cases hstopped
        running := hrunning
        leaving := hleaving
        joined := fun he => by cases he }
    case isFalse => exact h
  | destructorStep => exact inv_destructorStep h

theorem inv_run (actions : List (Action ρ)) : Inv (run actions) :=
  List.foldlRecOn actions step inv_initial fun _ h action _ => inv_step h action

end SessionLogQueue
