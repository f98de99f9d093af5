import OrderFlow.AtomicObjects
import OrderFlow.SessionRingBufferSpsc

/-!
# The ring buffer of `session1` is an atomic bounded queue

One slot is given up, so the queue holds `capacity - 1` values. A push that finds the
buffer full takes effect there and returns a step later, when it has counted the drop;
all other calls return where they take effect.
-/
namespace SessionRingBufferSpsc

open RingWindow SessionRingBuffer AtomicObjects

variable {α : Type}

abbrev QueueEvent (α : Type) := Event Party (QueueOp α) (QueueResult α)

/-- The calls and returns of one step. A peek shows what the pointer it returns points at. -/
def events (capacity : Capacity) (s : State α) : Action α → List (QueueEvent α)
  | .push _ item =>
    match s.producer with
    | none => [.call .producer (.push item)]
    | some _ => []
  | .tryPop =>
    match s.consumer with
    | .idle => [.call .consumer .pop]
    | _ => []
  | .peek =>
    match s.consumer with
    | .idle => [.call .consumer .peek]
    | _ => []
  | .producerStep =>
    match s.producer with
    | none => []
    | some pc =>
      match (tryPushStep capacity s.ring pc).2 with
      | .running _ => []
      | .returned ok => [.ret .producer (.pushed ok)]
  | .consumerStep =>
    match s.consumer with
    | .idle => []
    | .popping pc =>
      match (tryPopStep capacity s.ring pc).2 with
      | .running _ => []
      | .returned item => [.ret .consumer (.popped item)]
    | .peeking pc =>
      match peekStep s.ring pc with
      | .running _ => []
      | .returned index => [.ret .consumer (.peeked (index.map s.ring.slots))]

def history (capacity : Capacity) (slots : Nat → α) (actions : List (Action α)) :
    List (QueueEvent α) :=
  trace (step capacity) (events capacity) (initial slots) actions

def producerPhase : Option (PushPc α) → Phase (QueueOp α) (QueueResult α)
  | none => .idle
  | some (.loadTail item) => .called (.push item)
  | some (.loadHead item _) => .called (.push item)
  | some .countDrop => .done (.pushed false)
  | some (.writeSlot item _) => .called (.push item)
  | some (.storeTail item _) => .called (.push item)

def consumerPhase : Consumer α → Phase (QueueOp α) (QueueResult α)
  | .idle => .idle
  | .popping _ => .called .pop
  | .peeking _ => .called .peek

/-- What the buffer is as a queue. -/
def abstraction (s : State α) : AtomicObjects.State Party (List α) (QueueOp α) (QueueResult α) :=
  ⟨s.accepted.drop s.popped.length, pair (producerPhase s.producer) (consumerPhase s.consumer)⟩

/-- A step of which the queue sees nothing. -/
theorem steps_nil {bound : Nat} {s s' : State α} (h : abstraction s' = abstraction s) :
    Steps (boundedQueue bound) (abstraction s) [] (abstraction s') := by
  rw [h]
  exact .nil _

theorem follow_producer {capacity : Capacity} {s : State α} (h : Inv capacity s) :
    Steps (boundedQueue (capacity.size - 1)) (abstraction s) (events capacity s .producerStep)
      (abstraction (producerStep capacity s)) := by
  have hsize := capacity.size_pos
  have hbuf := h.buffered
  have hle := hbuf.fifo.length_le
  have hprod := h.producer
  obtain ⟨ring, producer, consumer, accepted, popped, refused, peeked⟩ := s
  dsimp only at hbuf hle hprod
  cases producer with
  | none => exact .nil _
  | some pc =>
    cases pc with
    | loadTail item => exact steps_nil rfl
    | loadHead item t =>
      obtain rfl : t = ring.tail := hprod
      by_cases hfull : advance capacity ring.tail = ring.head
      · have hcount := (advance_tail_iff hbuf).mp hfull
        have hbound : capacity.size - 1 ≤ (accepted.drop popped.length).length := by
          rw [List.length_drop]
          omega
        simp only [events, producerStep, tryPushStep, hfull, if_true]
        exact producer_acts (apply_push_full hbound item)
      · simp only [events, producerStep, tryPushStep, hfull, if_false]
        exact steps_nil rfl
    | countDrop => exact producer_returns
    | writeSlot item t => exact steps_nil rfl
    | storeTail item t =>
      have hroom := hbuf.room
      simp only [written, List.length_singleton] at hroom
      have hspace : (accepted.drop popped.length).length < capacity.size - 1 := by
        rw [List.length_drop]
        omega
      have happly := apply_push hspace item
      rw [← List.drop_append_of_le_length hle] at happly
      exact producer_answers happly

theorem follow_consumer {capacity : Capacity} {s : State α} (h : Inv capacity s) :
    Steps (boundedQueue (capacity.size - 1)) (abstraction s) (events capacity s .consumerStep)
      (abstraction (consumerStep capacity s)) := by
  have hbuf := h.buffered
  have hcons := h.consumer
  have hempty := head_eq_tail_iff hbuf
  have hle := hbuf.fifo.length_le
  obtain ⟨ring, producer, consumer, accepted, popped, refused, peeked⟩ := s
  dsimp only at hbuf hcons hempty hle
  cases consumer with
  | idle => exact .nil _
  | popping pc =>
    cases pc with
    | loadHead => exact steps_nil rfl
    | loadTail hd =>
      obtain rfl : hd = ring.head := hcons
      by_cases heq : ring.head = ring.tail
      · have hnone : accepted.drop popped.length = [] := by rw [hempty.mp heq, List.drop_length]
        simp only [events, consumerStep, tryPopStep, heq, if_true, Option.toList_none,
          List.append_nil]
        exact consumer_answers (by simp [hnone, boundedQueue])
      · simp only [events, consumerStep, tryPopStep, heq, if_false]
        exact steps_nil rfl
    | readSlot hd => exact steps_nil rfl
    | storeHead hd item =>
      obtain ⟨-, hfront⟩ := hcons
      obtain ⟨hlt, hvalue⟩ := List.getElem?_eq_some_iff.mp hfront
      have hdrop : accepted.drop popped.length = item :: accepted.drop (popped.length + 1) := by
        rw [List.drop_eq_getElem_cons hlt, hvalue]
      have happly : (boundedQueue (capacity.size - 1)).apply (accepted.drop popped.length) .pop =
          (accepted.drop (popped ++ [item]).length, .popped (some item)) := by
        simp [hdrop, boundedQueue]
      exact consumer_answers happly
  | peeking pc =>
    cases pc with
    | loadHead => exact steps_nil rfl
    | loadTail hd =>
      obtain rfl : hd = ring.head := hcons
      by_cases heq : ring.head = ring.tail
      · have hnone : accepted.drop popped.length = [] := by rw [hempty.mp heq, List.drop_length]
        simp only [events, consumerStep, peekStep, heq, if_true]
        exact consumer_answers (by simp [hnone, boundedQueue])
      · have hlt : popped.length < accepted.length := by
          have hne := mt hempty.mpr heq
          exact length_lt_of_prefix_ne hbuf.fifo hne
        have hfront : (accepted.drop popped.length).head? = some (ring.slots ring.head.toNat) := by
          rw [buffered_front hbuf hlt, List.head?_drop, List.getElem?_eq_getElem hlt]
        simp only [events, consumerStep, peekStep, heq, if_false]
        exact consumer_answers (by simp [hfront, boundedQueue])

/-- The queue follows every step of either thread. -/
theorem follow_step {capacity : Capacity} {s : State α} (h : Inv capacity s) (action : Action α) :
    Steps (boundedQueue (capacity.size - 1)) (abstraction s) (events capacity s action)
      (abstraction (step capacity s action)) := by
  cases action with
  | push overload item =>
    obtain ⟨ring, producer, consumer, accepted, popped, refused, peeked⟩ := s
    cases producer with
    | none => exact producer_calls (QueueOp.push item)
    | some pc => exact .nil _
  | tryPop =>
    obtain ⟨ring, producer, consumer, accepted, popped, refused, peeked⟩ := s
    cases consumer with
    | idle => exact consumer_calls QueueOp.pop
    | _ => exact .nil _
  | peek =>
    obtain ⟨ring, producer, consumer, accepted, popped, refused, peeked⟩ := s
    cases consumer with
    | idle => exact consumer_calls QueueOp.peek
    | _ => exact .nil _
  | producerStep => exact follow_producer h
  | consumerStep => exact follow_consumer h

/-- For every capacity and every interleaving of one producer with one consumer, the history is
one of the atomic queue, and what the queue holds in the end is what has been pushed and not
popped. -/
theorem run_follows_spsc (capacity : Capacity) (slots : Nat → α) (actions : List (Action α)) :
    Steps (boundedQueue (capacity.size - 1)) (State.start []) (history capacity slots actions)
      (abstraction (run capacity slots actions)) := by
  have hstart : (State.start [] : AtomicObjects.State Party (List α) (QueueOp α) (QueueResult α)) =
      abstraction (initial slots) := by
    refine congrArg (AtomicObjects.State.mk []) ?_
    funext party
    cases party <;> rfl
  obtain ⟨t', hsteps, hinv, rfl⟩ :=
    follow (fun s t => Inv capacity s ∧ t = abstraction s)
      (fun s t a ⟨hinv, ht⟩ => ⟨abstraction (step capacity s a), ht ▸ follow_step hinv a,
        inv_step hinv a, rfl⟩)
      ⟨inv_initial capacity slots, hstart⟩ actions
  exact hsteps

end SessionRingBufferSpsc
