import OrderFlow.SessionRingBuffer
import OrderFlow.SessionTypes

/-!
# The tick router of `session1` under concurrent routing

Any number of adapter threads call `route`, which holds only a shared lock, so
their pushes into one ring buffer interleave step by step with each other and
with the pops of the buffer's worker. The ring buffer is written for a single
producer: two overlapping pushes read one tail, and a tick is lost.

The registered symbols do not change while adapters route. The counters of the
router are added to in the step in which the call returns; no step reads them.
-/
namespace SessionTickRouter

open RingWindow SessionRingBuffer SessionTypes

variable {Thread Buffer : Type} [DecidableEq Thread] [DecidableEq Buffer]

/-- A call of `route` in progress. `seen` is the number of ticks the buffer had
accepted when the push loaded its tail. -/
inductive Route (Buffer : Type) where
  | idle
  | pushing (buffer : Buffer) (pc : PushPc UniversalTickRecord) (seen : Nat)
  deriving DecidableEq, Repr

/-- `accepted` has the ticks for which `route` returned `true`, `popped` those a
worker has taken out. -/
structure State (Thread Buffer : Type) where
  rings : Buffer → SPSCRingBuffer UniversalTickRecord
  adapters : Thread → Route Buffer
  workers : Buffer → Option (PopPc UniversalTickRecord)
  accepted : Buffer → List UniversalTickRecord
  popped : Buffer → List UniversalTickRecord
  ticksRouted : Nat
  ticksDropped : Nat
  ticksUnknown : Nat

inductive Action (Thread Buffer : Type) where
  | route (thread : Thread) (tick : UniversalTickRecord)
  | adapterStep (thread : Thread)
  | tryPop (buffer : Buffer)
  | workerStep (buffer : Buffer)

/-- The tick of a push that has only its tail left to store. -/
def storing (buffer : Buffer) : Route Buffer → Option UniversalTickRecord
  | .pushing b (.storeTail item _) _ => if b = buffer then some item else none
  | _ => none

/-- A push remembers the count it has seen from the load of its tail on. -/
def nextSeen (count seen : Nat) : PushPc UniversalTickRecord → Nat
  | .loadTail _ => count
  | _ => seen

def adapterStep (capacity : Capacity) (s : State Thread Buffer) (thread : Thread) :
    State Thread Buffer :=
  match s.adapters thread with
  | .idle => s
  | .pushing buffer pc seen =>
    match tryPushStep capacity (s.rings buffer) pc with
    | (ring, .running pc') =>
      { s with
        rings := Function.update s.rings buffer ring
        adapters := Function.update s.adapters thread
          (.pushing buffer pc' (nextSeen (s.accepted buffer).length seen pc)) }
    | (ring, .returned true) =>
      { s with
        rings := Function.update s.rings buffer ring
        adapters := Function.update s.adapters thread .idle
        accepted := Function.update s.accepted buffer
          (s.accepted buffer ++ (storing buffer (s.adapters thread)).toList)
        ticksRouted := s.ticksRouted + 1 }
    | (ring, .returned false) =>
      { s with
        rings := Function.update s.rings buffer ring
        adapters := Function.update s.adapters thread .idle
        ticksDropped := s.ticksDropped + 1 }

def workerStep (capacity : Capacity) (s : State Thread Buffer) (buffer : Buffer) :
    State Thread Buffer :=
  match s.workers buffer with
  | none => s
  | some pc =>
    match tryPopStep capacity (s.rings buffer) pc with
    | (ring, .running pc') =>
      { s with
        rings := Function.update s.rings buffer ring
        workers := Function.update s.workers buffer (some pc') }
    | (ring, .returned item) =>
      { s with
        rings := Function.update s.rings buffer ring
        workers := Function.update s.workers buffer none
        popped := Function.update s.popped buffer (s.popped buffer ++ item.toList) }

/-- `symbolMap` is the registry; a thread that is busy starts no call. -/
def step (capacity : Capacity) (symbolMap : UInt32 → Option Buffer) (s : State Thread Buffer) :
    Action Thread Buffer → State Thread Buffer
  | .route thread tick =>
    match s.adapters thread with
    | .idle =>
      match symbolMap tick.symbolId with
      | none => { s with ticksUnknown := s.ticksUnknown + 1 }
      | some buffer =>
        { s with adapters := Function.update s.adapters thread (.pushing buffer (.loadTail tick) 0) }
    | .pushing _ _ _ => s
  | .adapterStep thread => adapterStep capacity s thread
  | .tryPop buffer =>
    match s.workers buffer with
    | none => { s with workers := Function.update s.workers buffer (some .loadHead) }
    | some _ => s
  | .workerStep buffer => workerStep capacity s buffer

def initial (slots : Nat → UniversalTickRecord) : State Thread Buffer :=
  ⟨fun _ => newBuffer slots, fun _ => .idle, fun _ => none, fun _ => [], fun _ => [], 0, 0, 0⟩

def run (capacity : Capacity) (symbolMap : UInt32 → Option Buffer)
    (slots : Nat → UniversalTickRecord) (actions : List (Action Thread Buffer)) :
    State Thread Buffer :=
  actions.foldl (step capacity symbolMap) (initial slots)

/-- Every tick that was routed is still in its buffer, or has been popped once. -/
def NoLoss (capacity : Capacity) (s : State Thread Buffer) : Prop :=
  ∀ buffer, s.accepted buffer = s.popped buffer ++ held capacity (s.rings buffer)

/-- A push that is about to write its slot is disturbed if another push has
stored the tail since this one loaded it, or has written and is about to store. -/
def Undisturbed (s : State Thread Buffer) : Action Thread Buffer → Prop
  | .adapterStep thread =>
    match s.adapters thread with
    | .pushing buffer (.writeSlot _ _) seen =>
      seen = (s.accepted buffer).length ∧ ∀ other, storing buffer (s.adapters other) = none
    | _ => True
  | _ => True

def UndisturbedRun (capacity : Capacity) (symbolMap : UInt32 → Option Buffer) :
    State Thread Buffer → List (Action Thread Buffer) → Prop
  | _, [] => True
  | s, action :: actions =>
    Undisturbed s action ∧ UndisturbedRun capacity symbolMap (step capacity symbolMap s action) actions

/-- At most one thread has written a value into the buffer and not stored the tail. -/
inductive Storing (threads : Thread → Option UniversalTickRecord) :
    List UniversalTickRecord → Prop
  | nobody : (∀ thread, threads thread = none) → Storing threads []
  | only (thread : Thread) (item : UniversalTickRecord) : threads thread = some item →
      (∀ other, other ≠ thread → threads other = none) → Storing threads [item]

/-- What the program point of a push implies about a buffer that has accepted
`count` ticks. The tail it loaded is that of an earlier count, and the room it
found is there if no push has ended since. -/
def PushOk (capacity : Capacity) (tail : UInt64) (count room seen : Nat) :
    PushPc UniversalTickRecord → Prop
  | .loadTail _ => True
  | .loadHead _ t => seen ≤ count ∧ t = capacity.index seen
  | .countDrop => True
  | .writeSlot _ t => seen ≤ count ∧ t = capacity.index seen ∧ (seen = count → count + 1 < room)
  | .storeTail _ t => t = tail

structure BufferInv (capacity : Capacity) (s : State Thread Buffer) (buffer : Buffer) : Prop where
  buffered : ∃ written, Storing (fun thread => storing buffer (s.adapters thread)) written ∧
    Buffered capacity (s.rings buffer) (s.accepted buffer) (s.popped buffer) written
  push : ∀ thread pc seen, s.adapters thread = .pushing buffer pc seen →
    PushOk capacity (s.rings buffer).tail (s.accepted buffer).length
      ((s.popped buffer).length + capacity.size) seen pc
  pop : ∀ pc, s.workers buffer = some pc →
    PopOk (s.rings buffer).head (s.accepted buffer)[(s.popped buffer).length]? pc

def Inv (capacity : Capacity) (s : State Thread Buffer) : Prop :=
  ∀ buffer, BufferInv capacity s buffer

omit [DecidableEq Thread] in
theorem inv_initial (capacity : Capacity) (slots : Nat → UniversalTickRecord) :
    Inv capacity (initial slots : State Thread Buffer) := by
  intro buffer
  refine ⟨⟨[], .nobody fun _ => rfl, buffered_new capacity slots⟩, ?_, ?_⟩
  · intro thread pc seen h
    cases h
  · intro pc h
    cases h

theorem storing_other {buffer b : Buffer} (hne : buffer ≠ b) (pc : PushPc UniversalTickRecord)
    (seen : Nat) : storing b (.pushing buffer pc seen) = none := by
  cases pc <;> simp [storing, hne]

theorem pushOk_room {capacity : Capacity} {tail : UInt64} {count room room' seen : Nat}
    {pc : PushPc UniversalTickRecord} (h : PushOk capacity tail count room seen pc)
    (hle : room ≤ room') : PushOk capacity tail count room' seen pc := by
  cases pc with
  | writeSlot item t => exact ⟨h.1, h.2.1, fun hc => Nat.lt_of_lt_of_le (h.2.2 hc) hle⟩
  | _ => exact h

/-- The other pushes into a buffer when one of them stores the tail: what they
have seen is from before. -/
theorem pushOk_stored {capacity : Capacity} {tail tail' : UInt64} {count room room' seen : Nat}
    {pc : PushPc UniversalTickRecord} (h : PushOk capacity tail count room seen pc)
    (hnot : ∀ item t, pc ≠ .storeTail item t) : PushOk capacity tail' (count + 1) room' seen pc := by
  cases pc with
  | loadTail item => trivial
  | loadHead item t => exact ⟨Nat.le_succ_of_le h.1, h.2⟩
  | countDrop => trivial
  | writeSlot item t =>
    have hle := h.1
    exact ⟨Nat.le_succ_of_le h.1, h.2.1, fun hc => by omega⟩
  | storeTail item t => exact absurd rfl (hnot item t)

/-- One thread moves on without changing what is in the buffer. -/
theorem bufferInv_move {capacity : Capacity} {s s' : State Thread Buffer} {buffer : Buffer}
    (thread : Thread) (h : BufferInv capacity s buffer)
    (hring : ∃ dropped, s'.rings buffer = { s.rings buffer with dropped := dropped })
    (haccepted : s'.accepted buffer = s.accepted buffer)
    (hpopped : s'.popped buffer = s.popped buffer)
    (hworkers : s'.workers buffer = s.workers buffer)
    (hothers : ∀ other, other ≠ thread → s'.adapters other = s.adapters other)
    (hstoring : storing buffer (s'.adapters thread) = storing buffer (s.adapters thread))
    (hpush : ∀ pc seen, s'.adapters thread = .pushing buffer pc seen →
      PushOk capacity (s.rings buffer).tail (s.accepted buffer).length
        ((s.popped buffer).length + capacity.size) seen pc) :
    BufferInv capacity s' buffer := by
  obtain ⟨dropped, hring⟩ := hring
  obtain ⟨written, hwritten, hbuf⟩ := h.buffered
  have hsame : (fun t => storing buffer (s'.adapters t)) = fun t => storing buffer (s.adapters t) := by
    funext t
    by_cases ht : t = thread
    · rw [ht, hstoring]
    · rw [hothers t ht]
  constructor
  case buffered =>
    rw [hsame, hring, haccepted, hpopped]
    exact ⟨written, hwritten, buffered_countDrop hbuf dropped⟩
  case push =>
    intro t pc seen ht
    rw [hring, haccepted, hpopped]
    by_cases hthread : t = thread
    · exact hpush pc seen (hthread ▸ ht)
    · exact h.push t pc seen (hothers t hthread ▸ ht)
  case pop =>
    intro pc hpc
    rw [hring, haccepted, hpopped]
    exact h.pop pc (hworkers ▸ hpc)

/-- A step of a push touches its own thread and its own buffer. -/
theorem adapterStep_frame (capacity : Capacity) {s : State Thread Buffer} {buffer : Buffer}
    {thread : Thread} {pc : PushPc UniversalTickRecord} {seen : Nat}
    (hthread : s.adapters thread = .pushing buffer pc seen) :
    (adapterStep capacity s thread).popped = s.popped ∧
      (adapterStep capacity s thread).workers = s.workers ∧
      (∀ b, b ≠ buffer → (adapterStep capacity s thread).rings b = s.rings b ∧
        (adapterStep capacity s thread).accepted b = s.accepted b) ∧
      (∀ other, other ≠ thread → (adapterStep capacity s thread).adapters other = s.adapters other) ∧
      ((adapterStep capacity s thread).adapters thread = .idle ∨
        ∃ pc' seen', (adapterStep capacity s thread).adapters thread = .pushing buffer pc' seen') := by
  simp only [adapterStep, hthread]
  split
  · refine ⟨rfl, rfl, fun b hb => ⟨Function.update_of_ne hb _ _, rfl⟩,
      fun other ho => Function.update_of_ne ho _ _, .inr ⟨_, _, Function.update_self _ _ _⟩⟩
  · refine ⟨rfl, rfl, fun b hb => ⟨Function.update_of_ne hb _ _, Function.update_of_ne hb _ _⟩,
      fun other ho => Function.update_of_ne ho _ _, .inl (Function.update_self _ _ _)⟩
  · refine ⟨rfl, rfl, fun b hb => ⟨Function.update_of_ne hb _ _, rfl⟩,
      fun other ho => Function.update_of_ne ho _ _, .inl (Function.update_self _ _ _)⟩

/-- A push into another buffer does not concern this one. -/
theorem bufferInv_other {capacity : Capacity} {s : State Thread Buffer} {b buffer : Buffer}
    {thread : Thread} {pc : PushPc UniversalTickRecord} {seen : Nat}
    (h : BufferInv capacity s b) (hne : b ≠ buffer)
    (hthread : s.adapters thread = .pushing buffer pc seen) :
    BufferInv capacity (adapterStep capacity s thread) b := by
  obtain ⟨hpopped, hworkers, hbuffers, hothers, hroute⟩ := adapterStep_frame capacity hthread
  apply bufferInv_move thread h ⟨(s.rings b).dropped, (hbuffers b hne).1⟩ (hbuffers b hne).2
    (by rw [hpopped]) (by rw [hworkers]) hothers
  · rw [hthread, storing_other hne.symm]
    rcases hroute with hroute | ⟨pc', seen', hroute⟩
    · rw [hroute]
      rfl
    · rw [hroute, storing_other hne.symm]
  · intro pc' seen' hpc
    rcases hroute with hroute | ⟨pc'', seen'', hroute⟩ <;> rw [hroute] at hpc <;> cases hpc
    exact absurd rfl hne

/-- The step that loads the head decides between a drop and a write. -/
theorem loadHead_cases (capacity : Capacity) (b : SPSCRingBuffer UniversalTickRecord)
    (item : UniversalTickRecord) (t : UInt64) :
    (advance capacity t = b.head ∧
        tryPushStep capacity b (.loadHead item t) = (b, .running .countDrop)) ∨
      (advance capacity t ≠ b.head ∧
        tryPushStep capacity b (.loadHead item t) = (b, .running (.writeSlot item t))) := by
  by_cases hfull : advance capacity t = b.head
  · exact .inl ⟨hfull, by simp [tryPushStep, hfull]⟩
  · exact .inr ⟨hfull, by simp [tryPushStep, hfull]⟩

theorem bufferInv_writeSlot {capacity : Capacity} {s : State Thread Buffer} {buffer : Buffer}
    {thread : Thread} {item : UniversalTickRecord} {t : UInt64} {seen : Nat}
    (h : BufferInv capacity s buffer)
    (hthread : s.adapters thread = .pushing buffer (.writeSlot item t) seen)
    (hu : Undisturbed s (.adapterStep thread)) :
    BufferInv capacity (adapterStep capacity s thread) buffer := by
  obtain ⟨hseen, hnobody⟩ : seen = (s.accepted buffer).length ∧
      ∀ other, storing buffer (s.adapters other) = none := by
    simpa only [Undisturbed, hthread] using hu
  obtain ⟨written, hwritten, hbuf⟩ := h.buffered
  obtain ⟨-, hindex, hroom⟩ := h.push thread _ seen hthread
  have htail : t = (s.rings buffer).tail := by rw [hbuf.tail, ← hseen, hindex]
  have hnil : written = [] := by
    cases hwritten with
    | nobody _ => rfl
    | only other value hvalue _ => rw [hnobody other] at hvalue; cases hvalue
  subst hnil htail
  have hstep : adapterStep capacity s thread =
      { s with
        rings := Function.update s.rings buffer { s.rings buffer with
          slots := Function.update (s.rings buffer).slots (s.rings buffer).tail.toNat item }
        adapters := Function.update s.adapters thread
          (.pushing buffer (.storeTail item (s.rings buffer).tail) seen) } := by
    simp [adapterStep, hthread, tryPushStep, nextSeen]
  rw [hstep]
  constructor
  case buffered =>
    refine ⟨[item], .only thread item (by simp [storing]) ?_, ?_⟩
    · intro other hother
      simpa [Function.update_of_ne hother] using hnobody other
    · simpa using buffered_writeSlot hbuf item (hroom hseen)
  case push =>
    intro other pc seen' hpc
    by_cases hother : other = thread
    · subst hother
      simp only [Function.update_self, Route.pushing.injEq, true_and] at hpc
      obtain ⟨rfl, rfl⟩ := hpc
      simp [PushOk]
    · simp only [Function.update_of_ne hother] at hpc
      simpa using h.push other pc seen' hpc
  case pop =>
    intro pc hpc
    simpa using h.pop pc hpc

theorem bufferInv_storeTail {capacity : Capacity} {s : State Thread Buffer} {buffer : Buffer}
    {thread : Thread} {item : UniversalTickRecord} {t : UInt64} {seen : Nat}
    (h : BufferInv capacity s buffer)
    (hthread : s.adapters thread = .pushing buffer (.storeTail item t) seen) :
    BufferInv capacity (adapterStep capacity s thread) buffer := by
  obtain ⟨written, hwritten, hbuf⟩ := h.buffered
  obtain rfl : t = (s.rings buffer).tail := h.push thread _ seen hthread
  have hmine : storing buffer (s.adapters thread) = some item := by simp [hthread, storing]
  have hsole : written = [item] ∧ ∀ other, other ≠ thread → storing buffer (s.adapters other) = none := by
    cases hwritten with
    | nobody hnone => rw [hnone thread] at hmine; cases hmine
    | only other value hvalue hothers =>
      have heq : thread = other := by
        by_contra hne
        rw [hothers thread hne] at hmine
        cases hmine
      subst heq
      rw [hmine] at hvalue
      cases hvalue
      exact ⟨rfl, hothers⟩
  obtain ⟨rfl, hothers⟩ := hsole
  have hstep : adapterStep capacity s thread =
      { s with
        rings := Function.update s.rings buffer
          { s.rings buffer with tail := advance capacity (s.rings buffer).tail }
        adapters := Function.update s.adapters thread .idle
        accepted := Function.update s.accepted buffer (s.accepted buffer ++ [item])
        ticksRouted := s.ticksRouted + 1 } := by
    simp [adapterStep, hthread, tryPushStep, storing]
  rw [hstep]
  constructor
  case buffered =>
    refine ⟨[], .nobody fun other => ?_, ?_⟩
    · by_cases hother : other = thread
      · simp [hother, storing]
      · simpa [Function.update_of_ne hother] using hothers other hother
    · simpa using buffered_storeTail hbuf
  case push =>
    intro other pc seen' hpc
    by_cases hother : other = thread
    · simp [hother] at hpc
    · simp only [Function.update_of_ne hother] at hpc
      have hquiet : ∀ value t, pc ≠ .storeTail value t := by
        rintro value t rfl
        have := hothers other hother
        simp [hpc, storing] at this
      simpa using pushOk_stored (h.push other pc seen' hpc) hquiet
  case pop =>
    intro pc hpc
    simpa using popOk_append (h.pop pc hpc) item

/-- A step that only looks at the buffer moves its push on. -/
theorem bufferInv_running {capacity : Capacity} {s : State Thread Buffer} {b : Buffer}
    {thread : Thread} {pc pc' : PushPc UniversalTickRecord} {seen : Nat}
    (h : BufferInv capacity s b) (hthread : s.adapters thread = .pushing b pc seen)
    (hstep : tryPushStep capacity (s.rings b) pc = (s.rings b, .running pc'))
    (hstoring : ∀ seen', storing b (.pushing b pc' seen') = storing b (.pushing b pc seen))
    (hpush : PushOk capacity (s.rings b).tail (s.accepted b).length
      ((s.popped b).length + capacity.size) (nextSeen (s.accepted b).length seen pc) pc') :
    BufferInv capacity (adapterStep capacity s thread) b := by
  have hnext : adapterStep capacity s thread =
      { s with
        adapters := Function.update s.adapters thread
          (.pushing b pc' (nextSeen (s.accepted b).length seen pc)) } := by
    simp [adapterStep, hthread, hstep]
  rw [hnext]
  refine bufferInv_move (s := s) thread h ⟨(s.rings b).dropped, rfl⟩ rfl rfl rfl ?_ ?_ ?_
  · exact fun other hother => Function.update_of_ne hother _ _
  · simp only [hthread, Function.update_self, hstoring]
  · intro next seen' hpc
    simp only [Function.update_self, Route.pushing.injEq] at hpc
    obtain ⟨-, rfl, rfl⟩ := hpc
    exact hpush

/-- An undisturbed step of an adapter thread. -/
theorem inv_adapterStep {capacity : Capacity} {s : State Thread Buffer} (h : Inv capacity s)
    (thread : Thread) (hu : Undisturbed s (.adapterStep thread)) :
    Inv capacity (adapterStep capacity s thread) := by
  cases hthread : s.adapters thread with
  | idle =>
    have hstep : adapterStep capacity s thread = s := by simp [adapterStep, hthread]
    rwa [hstep]
  | pushing buffer pc seen =>
    intro b
    by_cases hne : b ≠ buffer
    · exact bufferInv_other (h b) hne hthread
    obtain rfl : b = buffer := not_not.mp hne
    have hbuffer := h b
    have hpush := hbuffer.push thread pc seen hthread
    obtain ⟨written, -, hbuf⟩ := hbuffer.buffered
    cases pc with
    | loadTail item =>
      exact bufferInv_running hbuffer hthread rfl (fun _ => rfl) ⟨Nat.le_refl _, hbuf.tail⟩
    | loadHead item t =>
      have hroom := hbuf.room
      rcases loadHead_cases capacity (s.rings b) item t with ⟨hfull, hstep⟩ | ⟨hfull, hstep⟩
      · exact bufferInv_running hbuffer hthread hstep (fun _ => rfl) trivial
      · refine bufferInv_running hbuffer hthread hstep (fun _ => rfl)
          ⟨hpush.1, hpush.2, fun hseen => ?_⟩
        have hcurrent : seen = (s.accepted b).length := hseen
        have htail : t = (s.rings b).tail := by rw [hbuf.tail, ← hcurrent, hpush.2]
        have hnotFull := mt (advance_tail_iff hbuf).mpr (htail ▸ hfull)
        omega
    | countDrop =>
      obtain ⟨hpopped, hworkers, -, hothers, -⟩ := adapterStep_frame capacity hthread
      apply bufferInv_move thread hbuffer ⟨(s.rings b).dropped + 1, ?_⟩ ?_
        (by rw [hpopped]) (by rw [hworkers]) hothers
      · simp [adapterStep, hthread, tryPushStep, storing]
      · intro pc' seen' hpc
        simp [adapterStep, hthread, tryPushStep] at hpc
      · simp [adapterStep, hthread, tryPushStep]
      · simp [adapterStep, hthread, tryPushStep]
    | writeSlot item t => exact bufferInv_writeSlot hbuffer hthread hu
    | storeTail item t => exact bufferInv_storeTail hbuffer hthread

omit [DecidableEq Thread] in
/-- The worker's steps need no condition. -/
theorem inv_workerStep {capacity : Capacity} {s : State Thread Buffer} (h : Inv capacity s)
    (buffer : Buffer) : Inv capacity (workerStep capacity s buffer) := by
  cases hworker : s.workers buffer with
  | none =>
    have hstep : workerStep capacity s buffer = s := by simp [workerStep, hworker]
    rwa [hstep]
  | some pc =>
    intro b
    obtain ⟨written, hwritten, hbuf⟩ := (h buffer).buffered
    have hpop := (h buffer).pop pc hworker
    simp only [workerStep, hworker]
    by_cases hne : b ≠ buffer
    · have hb := h b
      split <;> exact ⟨by simpa [hne] using hb.buffered, by simpa [hne] using hb.push,
        by simpa [hne] using hb.pop⟩
    obtain rfl : b = buffer := not_not.mp hne
    split
    · rename_i ring pc' hstep
      obtain ⟨rfl, hpc⟩ := tryPopStep_running hbuf hpop hstep
      refine ⟨?_, ?_, ?_⟩
      · simpa using (h b).buffered
      · simpa using (h b).push
      · intro pc'' hpc''
        simp only [Function.update_self, Option.some.injEq] at hpc''
        subst hpc''
        simpa using hpc
    · rename_i ring item hstep
      obtain ⟨htail, -, hbuf'⟩ := tryPopStep_returned hbuf hpop hstep
      refine ⟨⟨written, by simpa using hwritten, by simpa using hbuf'⟩, ?_, ?_⟩
      · intro thread pc' seen hpc
        simp only [Function.update_self, htail]
        exact pushOk_room ((h b).push thread pc' seen hpc) (by simp)
      · intro pc'' hpc''
        simp at hpc''

theorem inv_step {capacity : Capacity} {symbolMap : UInt32 → Option Buffer}
    {s : State Thread Buffer} (h : Inv capacity s) (action : Action Thread Buffer)
    (hu : Undisturbed s action) : Inv capacity (step capacity symbolMap s action) := by
  cases action with
  | route thread tick =>
    simp only [step]
    split
    · rename_i hidle
      split
      · exact fun b => ⟨(h b).buffered, (h b).push, (h b).pop⟩
      · rename_i buffer hbuffer
        intro b
        refine bufferInv_move (s := s) thread (h b) ⟨(s.rings b).dropped, rfl⟩ rfl rfl
          rfl ?_ ?_ ?_
        · intro other hother
          exact Function.update_of_ne hother _ _
        · simp [hidle, storing]
        · intro pc seen hpc
          simp only [Function.update_self, Route.pushing.injEq] at hpc
          obtain ⟨-, rfl, -⟩ := hpc
          trivial
    · exact h
  | adapterStep thread => exact inv_adapterStep h thread hu
  | tryPop buffer =>
    simp only [step]
    split
    · intro b
      refine ⟨(h b).buffered, (h b).push, ?_⟩
      intro pc hpc
      by_cases hb : b = buffer
      · subst hb
        simp only [Function.update_self, Option.some.injEq] at hpc
        subst hpc
        trivial
      · simp only [Function.update_of_ne hb] at hpc
        exact (h b).pop pc hpc
    · exact h
  | workerStep buffer => exact inv_workerStep h buffer

theorem inv_foldl {capacity : Capacity} {symbolMap : UInt32 → Option Buffer}
    {s : State Thread Buffer} (h : Inv capacity s) (actions : List (Action Thread Buffer))
    (hu : UndisturbedRun capacity symbolMap s actions) :
    Inv capacity (actions.foldl (step capacity symbolMap) s) := by
  induction actions generalizing s with
  | nil => exact h
  | cons action actions ih => exact ih (inv_step h action hu.1) hu.2

omit [DecidableEq Thread] in
theorem noLoss_of_inv {capacity : Capacity} {s : State Thread Buffer} (h : Inv capacity s) :
    NoLoss capacity s := by
  intro buffer
  obtain ⟨written, -, hbuf⟩ := (h buffer).buffered
  obtain ⟨rest, hrest⟩ := hbuf.fifo
  rw [held_eq hbuf, ← hrest, List.drop_left]

theorem undisturbedRun_init {capacity : Capacity} {symbolMap : UInt32 → Option Buffer}
    {s : State Thread Buffer} {first rest : List (Action Thread Buffer)}
    (hu : UndisturbedRun capacity symbolMap s (first ++ rest)) :
    UndisturbedRun capacity symbolMap s first := by
  induction first generalizing s with
  | nil => trivial
  | cons action first ih => exact ⟨hu.1, ih hu.2⟩

/-- Runs in which no push is disturbed lose nothing, in any state on the way. -/
theorem undisturbed_noLoss (capacity : Capacity) (symbolMap : UInt32 → Option Buffer)
    (slots : Nat → UniversalTickRecord) (actions : List (Action Thread Buffer))
    (hu : UndisturbedRun capacity symbolMap (initial slots) actions)
    (seen : List (Action Thread Buffer)) (hseen : seen <+: actions) :
    NoLoss capacity (run capacity symbolMap slots seen) := by
  obtain ⟨rest, rfl⟩ := hseen
  exact noLoss_of_inv (inv_foldl (inv_initial capacity slots) seen (undisturbedRun_init hu))

/-- The capacity of `TickRingBuffer`. -/
def tickRingCapacity : Capacity where
  value := 16384
  pos := by decide
  single := by decide
  large := by decide

/-- A trade of one contract in the symbol 7. -/
def oneContract : UniversalTickRecord := ⟨0, 100, 1, 7, .ask, .trade⟩

def onlySymbol (symbolId : UInt32) : Option Unit := if symbolId = 7 then some () else none

/-- Two adapter threads push at once. Both load the tail before either stores it. -/
def overlap : List (Action Bool Unit) :=
  [.route true oneContract, .route false oneContract,
    .adapterStep true, .adapterStep false, .adapterStep true, .adapterStep false,
    .adapterStep true, .adapterStep false, .adapterStep true, .adapterStep false]

/-- Both pushes have returned `true` and the buffer holds one tick. -/
theorem overlap_loses :
    ¬ NoLoss tickRingCapacity (run tickRingCapacity onlySymbol (fun _ => oneContract) overlap) := by
  intro h
  have hlength := congrArg List.length (h ())
  revert hlength
  decide +kernel

/-- Two threads push in turn and the worker pops. -/
def turns : List (Action Bool Unit) :=
  [.route true oneContract, .adapterStep true, .adapterStep true, .adapterStep true,
    .adapterStep true, .route false oneContract, .adapterStep false, .adapterStep false,
    .adapterStep false, .adapterStep false, .tryPop (), .workerStep (), .workerStep ()]

theorem undisturbed_noLoss_turns :
    NoLoss tickRingCapacity (run tickRingCapacity onlySymbol (fun _ => oneContract) turns) := by
  have hfirst : advance tickRingCapacity 0 = 1 := by decide
  have hsecond : advance tickRingCapacity 1 = 2 := by decide
  refine undisturbed_noLoss _ _ _ _ ?_ _ (List.prefix_refl _)
  simp [turns, UndisturbedRun, Undisturbed, step, adapterStep, initial, newBuffer, onlySymbol,
    oneContract, tryPushStep, nextSeen, storing, hfirst, hsecond]

end SessionTickRouter
