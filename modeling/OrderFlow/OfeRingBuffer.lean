import OrderFlow.RingWindow

/-!
# The ring buffer of `include/ofe` under every interleaving

One producer and one consumer share the two free-running counters and the
storage of `RingBuffer`. Each atomic load, atomic store, construction and
move-and-destroy is one step; a run is a list of actions, one for each step
and one for each call, in any order. `accepted` and `popped` record the calls
that returned `true`, and `fault` that a live slot was constructed or a dead one
read or destroyed.
-/
namespace OfeRingBuffer

open RingWindow

variable {α : Type}

/-- `none` is storage in which no object lives. -/
structure RingBuffer (α : Type) where
  storage : Nat → Option α
  head : UInt64
  tail : UInt64

/-- Where the producer stands in `emplace`. -/
inductive Producer (α : Type) where
  | idle
  | loadedHead (value : α) (head : UInt64)
  | construct (value : α) (head : UInt64)
  | publish (value : α) (head : UInt64)
  deriving DecidableEq, Repr

inductive Caller where
  | tryPop | clear
  deriving DecidableEq, Repr

/-- Where the consumer stands in `try_pop`, called by itself or from the loop
of `clear`; `looping` is the head of that loop. -/
inductive Consumer (α : Type) where
  | idle
  | looping
  | loadedTail (caller : Caller) (tail : UInt64)
  | take (caller : Caller) (tail : UInt64)
  | release (caller : Caller) (tail : UInt64) (value : α)
  deriving DecidableEq, Repr

/-- Where a successful pop returns to. -/
def Caller.resume : Caller → Consumer α
  | .tryPop => .idle
  | .clear => .looping

structure State (α : Type) where
  ring : RingBuffer α
  producer : Producer α
  consumer : Consumer α
  accepted : List α
  popped : List α
  fault : Bool

/-- `push` is a call of `emplace`; both forms of `try_push` are one. -/
inductive Action (α : Type) where
  | push (value : α)
  | tryPop
  | clear
  | producerStep
  | consumerStep
  deriving DecidableEq, Repr

/-- `slot_ptr(counter & mask_)`. -/
def slotIndex (capacity : PowerOfTwo) (counter : UInt64) : Nat :=
  (counter &&& (capacity.value - 1)).toNat

/-- `emplace`, from one shared access to the next. -/
def producerStep (capacity : PowerOfTwo) (s : State α) : State α :=
  match s.producer with
  | .idle => s
  | .loadedHead value head =>
    if head - s.ring.tail ≥ capacity.value then { s with producer := .idle }
    else { s with producer := .construct value head }
  | .construct value head =>
    let index := slotIndex capacity head
    { s with
      ring := { s.ring with storage := Function.update s.ring.storage index (some value) }
      producer := .publish value head
      fault := s.fault || (s.ring.storage index).isSome }
  | .publish value head =>
    { s with
      ring := { s.ring with head := head + 1 }
      producer := .idle
      accepted := s.accepted ++ [value] }

/-- `try_pop` and the loop of `clear`, from one shared access to the next. -/
def consumerStep (capacity : PowerOfTwo) (s : State α) : State α :=
  match s.consumer with
  | .idle => s
  | .looping => { s with consumer := .loadedTail .clear s.ring.tail }
  | .loadedTail caller tail =>
    if tail = s.ring.head then { s with consumer := .idle }
    else { s with consumer := .take caller tail }
  | .take caller tail =>
    let index := slotIndex capacity tail
    match s.ring.storage index with
    | none => { s with fault := true }
    | some value =>
      { s with
        ring := { s.ring with storage := Function.update s.ring.storage index none }
        consumer := .release caller tail value }
  | .release caller tail value =>
    { s with
      ring := { s.ring with tail := tail + 1 }
      consumer := caller.resume
      popped := s.popped ++ [value] }

/-- A call starts with its first load; a thread that is busy starts none. -/
def step (capacity : PowerOfTwo) (s : State α) : Action α → State α
  | .push value =>
    match s.producer with
    | .idle => { s with producer := .loadedHead value s.ring.head }
    | _ => s
  | .tryPop =>
    match s.consumer with
    | .idle => { s with consumer := .loadedTail .tryPop s.ring.tail }
    | _ => s
  | .clear =>
    match s.consumer with
    | .idle => { s with consumer := .looping }
    | _ => s
  | .producerStep => producerStep capacity s
  | .consumerStep => consumerStep capacity s

/-- Both counters start at the same word, and nothing lives in the storage. -/
def initial (start : UInt64) : State α :=
  ⟨⟨fun _ => none, start, start⟩, .idle, .idle, [], [], false⟩

def run (capacity : PowerOfTwo) (start : UInt64) (actions : List (Action α)) : State α :=
  actions.foldl (step capacity) (initial start)

/-- The loop of `clear_unsafe` from a cursor on: the slots it destroys, each
with what it held, and the storage it leaves. -/
def clearFrom (capacity : PowerOfTwo) (head cursor : UInt64) (storage : Nat → Option α) :
    List (Nat × Option α) × (Nat → Option α) :=
  if h : cursor ≠ head then
    let index := slotIndex capacity cursor
    let rest := clearFrom capacity head (cursor + 1) (Function.update storage index none)
    ((index, storage index) :: rest.1, rest.2)
  else ([], storage)
termination_by (head - cursor).toNat
decreasing_by
  have hne : cursor.toNat ≠ head.toNat := fun he => h (UInt64.toNat_inj.mp he)
  have := cursor.toNat_lt
  have := head.toNat_lt
  simp only [UInt64.toNat_sub, UInt64.toNat_add, UInt64.toNat_one]
  omega

/-- The destructor. -/
def clearUnsafe (capacity : PowerOfTwo) (ring : RingBuffer α) :
    List (Nat × Option α) × (Nat → Option α) :=
  clearFrom capacity ring.head ring.tail ring.storage

end OfeRingBuffer
