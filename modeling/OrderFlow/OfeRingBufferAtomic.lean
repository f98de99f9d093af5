import OrderFlow.AtomicObjects
import OrderFlow.OfeRingBufferFifo

/-!
# The ring buffer of `include/ofe` is an atomic bounded queue

Every history of calls and returns, under every interleaving of the single steps, is
one of a queue of `capacity` values whose operations take effect at one moment. A push
and a pop take effect where they publish their counter, or where they find the buffer
full or empty. `clear` is a caller of `try_pop`.
-/
namespace OfeRingBuffer

open RingWindow AtomicObjects

variable {α : Type}

abbrev QueueEvent (α : Type) := Event Party (QueueOp α) (QueueResult α)

/-- The calls and returns of one step. -/
def events (capacity : PowerOfTwo) (s : State α) : Action α → List (QueueEvent α)
  | .push value =>
    match s.producer with
    | .idle => [.call .producer (.push value)]
    | _ => []
  | .tryPop =>
    match s.consumer with
    | .idle => [.call .consumer .pop]
    | _ => []
  | .clear => []
  | .producerStep =>
    match s.producer with
    | .loadedHead _ head =>
      if head - s.ring.tail ≥ capacity.value then [.ret .producer (.pushed false)] else []
    | .publish _ _ => [.ret .producer (.pushed true)]
    | _ => []
  | .consumerStep =>
    match s.consumer with
    | .looping => [.call .consumer .pop]
    | .loadedTail _ tail => if tail = s.ring.head then [.ret .consumer (.popped none)] else []
    | .release _ _ value => [.ret .consumer (.popped (some value))]
    | _ => []

def history (capacity : PowerOfTwo) (start : UInt64) (actions : List (Action α)) :
    List (QueueEvent α) :=
  trace (step capacity) (events capacity) (initial start) actions

def producerPhase : Producer α → Phase (QueueOp α) (QueueResult α)
  | .idle => .idle
  | .loadedHead value _ => .called (.push value)
  | .construct value _ => .called (.push value)
  | .publish value _ => .called (.push value)

def consumerPhase : Consumer α → Phase (QueueOp α) (QueueResult α)
  | .idle => .idle
  | .looping => .idle
  | .loadedTail _ _ => .called .pop
  | .take _ _ => .called .pop
  | .release _ _ _ => .called .pop

/-- What the buffer is as a queue. -/
def abstraction (s : State α) : AtomicObjects.State Party (List α) (QueueOp α) (QueueResult α) :=
  ⟨s.accepted.drop s.popped.length, pair (producerPhase s.producer) (consumerPhase s.consumer)⟩

/-- A step of which the queue sees nothing. -/
theorem steps_nil {capacity : PowerOfTwo} {s s' : State α} (h : abstraction s' = abstraction s) :
    Steps (boundedQueue capacity.size) (abstraction s) [] (abstraction s') := by
  rw [h]
  exact .nil _

theorem follow_producer {capacity : PowerOfTwo} {start : UInt64} {s : State α}
    (h : Inv capacity start s) :
    Steps (boundedQueue capacity.size) (abstraction s) (events capacity s .producerStep)
      (abstraction (producerStep capacity s)) := by
  have hle := h.fifo.length_le
  have hfull := full_iff h
  obtain ⟨ring, producer, consumer, accepted, popped, fault⟩ := s
  dsimp only at hle hfull
  cases producer with
  | idle => exact .nil _
  | loadedHead value head =>
    obtain rfl : head = ring.head := h.producer
    simp only [events, producerStep]
    split
    case isTrue hrefused =>
      have hcount := hfull.mp hrefused
      have hbound : capacity.size ≤ (accepted.drop popped.length).length := by
        rw [List.length_drop]
        omega
      exact producer_answers (apply_push_full hbound value)
    case isFalse => exact steps_nil rfl
  | construct value head => exact steps_nil rfl
  | publish value head =>
    obtain ⟨-, hroom⟩ := h.producer
    dsimp only at hroom
    have hspace : (accepted.drop popped.length).length < capacity.size := by
      rw [List.length_drop]
      omega
    have happly := apply_push hspace value
    rw [← List.drop_append_of_le_length hle] at happly
    exact producer_answers happly

theorem follow_consumer {capacity : PowerOfTwo} {start : UInt64} {s : State α}
    (h : Inv capacity start s) :
    Steps (boundedQueue capacity.size) (abstraction s) (events capacity s .consumerStep)
      (abstraction (consumerStep capacity s)) := by
  have hempty := empty_iff h
  obtain ⟨ring, producer, consumer, accepted, popped, fault⟩ := s
  dsimp only at hempty
  cases consumer with
  | idle => exact .nil _
  | looping =>
    exact consumer_calls QueueOp.pop
  | loadedTail caller tail =>
    obtain rfl : tail = ring.tail := h.consumer
    simp only [events, consumerStep]
    split
    case isTrue hrefused =>
      have hnone : accepted.drop popped.length = [] := by
        rw [hempty.mp hrefused, List.drop_length]
      exact consumer_answers (by simp [hnone, boundedQueue])
    case isFalse => exact steps_nil rfl
  | take caller tail =>
    simp only [events, consumerStep]
    split <;> exact steps_nil rfl
  | release caller tail value =>
    obtain ⟨-, hfront⟩ := h.consumer
    obtain ⟨hlt, hvalue⟩ := List.getElem?_eq_some_iff.mp hfront
    have hdrop : accepted.drop popped.length = value :: accepted.drop (popped.length + 1) := by
      rw [List.drop_eq_getElem_cons hlt, hvalue]
    have hidle : consumerPhase (caller.resume : Consumer α) = .idle := by
      cases caller <;> rfl
    have happly : (boundedQueue capacity.size).apply (accepted.drop popped.length) .pop =
        (accepted.drop (popped ++ [value]).length, .popped (some value)) := by
      simp [hdrop, boundedQueue]
    simp only [consumerStep, abstraction, hidle]
    exact consumer_answers happly

/-- The queue follows every step of either thread. -/
theorem follow_step {capacity : PowerOfTwo} {start : UInt64} {s : State α}
    (h : Inv capacity start s) (action : Action α) :
    Steps (boundedQueue capacity.size) (abstraction s) (events capacity s action)
      (abstraction (step capacity s action)) := by
  cases action with
  | push value =>
    obtain ⟨ring, producer, consumer, accepted, popped, fault⟩ := s
    cases producer with
    | idle => exact producer_calls (QueueOp.push value)
    | _ => exact .nil _
  | tryPop =>
    obtain ⟨ring, producer, consumer, accepted, popped, fault⟩ := s
    cases consumer with
    | idle => exact consumer_calls QueueOp.pop
    | _ => exact .nil _
  | clear =>
    obtain ⟨ring, producer, consumer, accepted, popped, fault⟩ := s
    cases consumer with
    | idle => exact steps_nil rfl
    | _ => exact .nil _
  | producerStep => exact follow_producer h
  | consumerStep => exact follow_consumer h

/-- For every power-of-two capacity, every start of the counters and every interleaving, the
history is one of the atomic queue, and what the queue holds in the end is what has been
published and not released. -/
theorem run_follows_queue (capacity : PowerOfTwo) (start : UInt64) (actions : List (Action α)) :
    Steps (boundedQueue capacity.size) (State.start []) (history capacity start actions)
      (abstraction (run capacity start actions)) := by
  have hstart : (State.start [] : AtomicObjects.State Party (List α) (QueueOp α) (QueueResult α)) =
      abstraction (initial start) := by
    refine congrArg (AtomicObjects.State.mk []) ?_
    funext party
    cases party <;> rfl
  obtain ⟨t', hsteps, hinv, rfl⟩ :=
    follow (fun s t => Inv capacity start s ∧ t = abstraction s)
      (fun s t a ⟨hinv, ht⟩ => ⟨abstraction (step capacity s a), ht ▸ follow_step hinv a,
        inv_step hinv a, rfl⟩)
      ⟨inv_initial capacity start, hstart⟩ actions
  exact hsteps

end OfeRingBuffer
