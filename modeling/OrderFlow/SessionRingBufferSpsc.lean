import OrderFlow.GuardedRuns
import OrderFlow.SessionRingBuffer

/-!
# One producer, one consumer

The system the `session1` ring buffer is written for. A run is a list of actions
in any order: calls of either thread and single steps of either thread. The
buffer loses nothing, counts every refused push, and a peeked pointer stays good
until the consumer's next `try_pop` has returned.
-/
namespace SessionRingBufferSpsc

open GuardedRuns RingWindow SessionRingBuffer

variable {α : Type}

inductive Consumer (α : Type) where
  | idle
  | popping (pc : PopPc α)
  | peeking (pc : PeekPc)
  deriving DecidableEq, Repr

inductive Overload where
  | copy | move
  deriving DecidableEq, Repr

inductive Action (α : Type) where
  | push (overload : Overload) (item : α)
  | tryPop
  | peek
  | producerStep
  | consumerStep
  deriving DecidableEq, Repr

/-- `accepted`, `popped` and `refused` record what the calls returned. `peeked` is
the last pointer a peek has returned since the last `try_pop`, with the value it
pointed at. -/
structure State (α : Type) where
  ring : SPSCRingBuffer α
  producer : Option (PushPc α)
  consumer : Consumer α
  accepted : List α
  popped : List α
  refused : Nat
  peeked : Option (Nat × α)

/-- A value in its slot, about to be published. -/
def written : Option (PushPc α) → List α
  | some (.storeTail item _) => [item]
  | _ => []

def producerStep (capacity : Capacity) (s : State α) : State α :=
  match s.producer with
  | none => s
  | some pc =>
    match tryPushStep capacity s.ring pc with
    | (ring, .running pc) => { s with ring := ring, producer := some pc }
    | (ring, .returned true) =>
      { s with ring := ring, producer := none, accepted := s.accepted ++ written s.producer }
    | (ring, .returned false) => { s with ring := ring, producer := none, refused := s.refused + 1 }

def consumerStep (capacity : Capacity) (s : State α) : State α :=
  match s.consumer with
  | .idle => s
  | .popping pc =>
    match tryPopStep capacity s.ring pc with
    | (ring, .running pc) => { s with ring := ring, consumer := .popping pc }
    | (ring, .returned item) =>
      { s with ring := ring, consumer := .idle, popped := s.popped ++ item.toList, peeked := none }
  | .peeking pc =>
    match peekStep s.ring pc with
    | .running pc => { s with consumer := .peeking pc }
    | .returned none => { s with consumer := .idle }
    | .returned (some index) =>
      { s with consumer := .idle, peeked := some (index, s.ring.slots index) }

/-- A thread that is busy starts no call. -/
def step (capacity : Capacity) (s : State α) : Action α → State α
  | .push _ item =>
    match s.producer with
    | none => { s with producer := some (.loadTail item) }
    | some _ => s
  | .tryPop =>
    match s.consumer with
    | .idle => { s with consumer := .popping .loadHead }
    | _ => s
  | .peek =>
    match s.consumer with
    | .idle => { s with consumer := .peeking .loadHead }
    | _ => s
  | .producerStep => producerStep capacity s
  | .consumerStep => consumerStep capacity s

def initial (slots : Nat → α) : State α := ⟨newBuffer slots, none, .idle, [], [], 0, none⟩

def run (capacity : Capacity) (slots : Nat → α) (actions : List (Action α)) : State α :=
  actions.foldl (step capacity) (initial slots)

/-- What the producer's program point implies; its own counter cannot be stale. -/
def ProducerOk (tail : UInt64) (room : Prop) : Option (PushPc α) → Prop
  | none => True
  | some (.loadTail _) => True
  | some (.loadHead _ t) => t = tail
  | some .countDrop => True
  | some (.writeSlot _ t) => t = tail ∧ room
  | some (.storeTail _ t) => t = tail

def ConsumerOk (head : UInt64) (front : Option α) : Consumer α → Prop
  | .idle => True
  | .popping pc => PopOk head front pc
  | .peeking .loadHead => True
  | .peeking (.loadTail h) => h = head

structure Inv (capacity : Capacity) (s : State α) : Prop where
  buffered : Buffered capacity s.ring s.accepted s.popped (written s.producer)
  producer : ProducerOk s.ring.tail (s.accepted.length + 1 < s.popped.length + capacity.size)
    s.producer
  consumer : ConsumerOk s.ring.head s.accepted[s.popped.length]? s.consumer
  peeked : ∀ index value, s.peeked = some (index, value) →
    index = s.ring.head.toNat ∧ s.accepted[s.popped.length]? = some value
  dropped : s.ring.dropped = s.refused

theorem inv_initial (capacity : Capacity) (slots : Nat → α) : Inv capacity (initial slots) where
  buffered := buffered_new capacity slots
  producer := trivial
  consumer := trivial
  peeked := by
    intro index value h
    cases h
  dropped := rfl

theorem consumerOk_append {head : UInt64} {accepted popped : List α} {consumer : Consumer α}
    (h : ConsumerOk head accepted[popped.length]? consumer) (item : α) :
    ConsumerOk head (accepted ++ [item])[popped.length]? consumer := by
  cases consumer with
  | idle => trivial
  | popping pc =>
    have hpop : PopOk head accepted[popped.length]? pc := h
    exact popOk_append hpop item
  | peeking pc => cases pc <;> exact h

/-- Room found by the producer is not taken away by a pop. -/
theorem producerOk_mono {tail : UInt64} {room room' : Prop} {producer : Option (PushPc α)}
    (h : ProducerOk tail room producer) (himp : room → room') : ProducerOk tail room' producer := by
  cases producer with
  | none => trivial
  | some pc =>
    cases pc with
    | writeSlot item t => exact ⟨h.1, himp h.2⟩
    | _ => exact h

theorem inv_producerStep {capacity : Capacity} {s : State α} (h : Inv capacity s) :
    Inv capacity (producerStep capacity s) := by
  obtain ⟨ring, producer, consumer, accepted, popped, refused, peeked⟩ := s
  have hbuf := h.buffered
  have hprod := h.producer
  dsimp only at hbuf hprod
  cases producer with
  | none => exact h
  | some pc =>
    cases pc with
    | loadTail item => exact ⟨hbuf, rfl, h.consumer, h.peeked, h.dropped⟩
    | loadHead item t =>
      simp only [producerStep, tryPushStep]
      split
      · rename_i heq
        split at heq <;> cases heq
        · exact ⟨hbuf, trivial, h.consumer, h.peeked, h.dropped⟩
        · rename_i hnot
          refine ⟨hbuf, ⟨hprod, ?_⟩, h.consumer, h.peeked, h.dropped⟩
          have ht : t = ring.tail := hprod
          have hfull := mt (advance_tail_iff hbuf).mpr (ht ▸ hnot)
          have hroom := hbuf.room
          simp only [written, List.length_nil] at hroom
          dsimp only
          omega
      · rename_i heq
        split at heq <;> cases heq
      · rename_i heq
        split at heq <;> cases heq
    | countDrop =>
      have hcount : ring.dropped = refused := h.dropped
      exact ⟨buffered_countDrop hbuf _, trivial, h.consumer, h.peeked, congrArg (· + 1) hcount⟩
    | writeSlot item t =>
      obtain ⟨rfl, hroom⟩ := hprod
      exact ⟨buffered_writeSlot hbuf item hroom, rfl, h.consumer, h.peeked, h.dropped⟩
    | storeTail item t =>
      obtain rfl : t = ring.tail := hprod
      refine ⟨buffered_storeTail hbuf, trivial, consumerOk_append h.consumer item, ?_, h.dropped⟩
      intro index value hpeek
      obtain ⟨hindex, hvalue⟩ := h.peeked index value hpeek
      exact ⟨hindex, front_append hvalue item⟩

theorem inv_consumerStep {capacity : Capacity} {s : State α} (h : Inv capacity s) :
    Inv capacity (consumerStep capacity s) := by
  obtain ⟨ring, producer, consumer, accepted, popped, refused, peeked⟩ := s
  have hbuf := h.buffered
  have hcons := h.consumer
  dsimp only at hbuf hcons
  cases consumer with
  | idle => exact h
  | popping pc =>
    simp only [consumerStep]
    split
    · rename_i ring' pc' hstep
      obtain ⟨rfl, hpc⟩ := tryPopStep_running hbuf hcons hstep
      exact ⟨hbuf, h.producer, hpc, h.peeked, h.dropped⟩
    · rename_i ring' item hstep
      obtain ⟨htail, hdropped, hbuf'⟩ := tryPopStep_returned hbuf hcons hstep
      refine ⟨hbuf', ?_, trivial, (fun _ _ hp => by cases hp), hdropped.trans h.dropped⟩
      dsimp only
      rw [htail, List.length_append]
      exact producerOk_mono h.producer fun hroom => Nat.lt_of_lt_of_le hroom (by dsimp only; omega)
  | peeking pc =>
    cases pc with
    | loadHead => exact ⟨hbuf, h.producer, rfl, h.peeked, h.dropped⟩
    | loadTail hd =>
      obtain rfl : hd = ring.head := hcons
      by_cases heq : ring.head = ring.tail
      · have hstep : consumerStep capacity
            ⟨ring, producer, .peeking (.loadTail ring.head), accepted, popped, refused, peeked⟩ =
            ⟨ring, producer, .idle, accepted, popped, refused, peeked⟩ := by
          simp [consumerStep, peekStep, heq]
        rw [hstep]
        exact ⟨hbuf, h.producer, trivial, h.peeked, h.dropped⟩
      · have hstep : consumerStep capacity
            ⟨ring, producer, .peeking (.loadTail ring.head), accepted, popped, refused, peeked⟩ =
            ⟨ring, producer, .idle, accepted, popped, refused,
              some (ring.head.toNat, ring.slots ring.head.toNat)⟩ := by
          simp [consumerStep, peekStep, heq]
        rw [hstep]
        refine ⟨hbuf, h.producer, trivial, fun index value hp => ?_, h.dropped⟩
        cases hp
        exact ⟨rfl, front_of_head_ne hbuf heq⟩

/-- Every step of either thread keeps the invariant. -/
theorem inv_step {capacity : Capacity} {s : State α} (h : Inv capacity s) (action : Action α) :
    Inv capacity (step capacity s action) := by
  cases action with
  | push overload item =>
    simp only [step]
    split
    · rename_i hidle
      have hbuf := h.buffered
      rw [hidle] at hbuf
      exact ⟨hbuf, trivial, h.consumer, h.peeked, h.dropped⟩
    · exact h
  | tryPop =>
    simp only [step]
    split
    · exact ⟨h.buffered, h.producer, trivial, h.peeked, h.dropped⟩
    · exact h
  | peek =>
    simp only [step]
    split
    · exact ⟨h.buffered, h.producer, trivial, h.peeked, h.dropped⟩
    · exact h
  | producerStep => exact inv_producerStep h
  | consumerStep => exact inv_consumerStep h

theorem inv_run (capacity : Capacity) (slots : Nat → α) (actions : List (Action α)) :
    Inv capacity (run capacity slots actions) :=
  List.foldlRecOn actions (step capacity) (inv_initial capacity slots)
    fun _ h action _ => inv_step h action

/-- The steps of a push before it writes its slot. A push that counts a drop takes
no others. -/
def writes : PushPc α → Bool
  | .writeSlot _ _ => true
  | .storeTail _ _ => true
  | _ => false

/-- The item a push still carries; it lets go of it when it finds the buffer full. -/
def inHand : Option (PushPc α) → Option α
  | some (.loadTail item) => some item
  | some (.loadHead item _) => some item
  | some (.writeSlot item _) => some item
  | some (.storeTail item _) => some item
  | _ => none

/-- The producer is in a call that has written nothing. -/
def Quiet (s : State α) : Prop := ∃ pc, s.producer = some pc ∧ writes pc = false

/-- The producer is about to read the head, and `capacity - 1` values are held. -/
def ReadsFull (capacity : Capacity) (s : State α) : Prop :=
  (∃ item t, s.producer = some (.loadHead item t)) ∧
    s.accepted.length - s.popped.length = capacity.size - 1

section Calls

variable (capacity : Capacity) (slots : Nat → α) (actions : List (Action α))

/-- The producer's call was made with `item`. -/
def CalledWith (item : α) : Prop :=
  ∃ overload, Since (step capacity) (initial slots) (fun s => s.producer = none)
    (.push overload item) (fun s => inHand s.producer = some item) actions

/-- The producer's call has written nothing since it began. -/
def CalledQuietly : Prop :=
  ∃ overload item, Since (step capacity) (initial slots) (fun s => s.producer = none)
    (.push overload item) Quiet actions

/-- The producer's call read the head while `capacity - 1` values were held, and has only
its drop left to count. -/
def ReadFull : Prop :=
  Since (step capacity) (initial slots) (ReadsFull capacity) .producerStep
    (fun s => s.producer = some .countDrop) actions

end Calls

theorem producer_of_other {capacity : Capacity} {s : State α} {action : Action α}
    (hpush : ∀ overload item, action ≠ .push overload item) (hstep : action ≠ .producerStep) :
    (step capacity s action).producer = s.producer := by
  cases action with
  | push overload item => exact absurd rfl (hpush overload item)
  | producerStep => exact absurd rfl hstep
  | tryPop =>
    simp only [step]
    split <;> rfl
  | peek =>
    simp only [step]
    split <;> rfl
  | consumerStep =>
    simp only [step, consumerStep]
    split
    · rfl
    · split <;> rfl
    · split <;> rfl

/-- All that a step can do to the producer's call. -/
theorem producer_cases (capacity : Capacity) (s : State α) (action : Action α) :
    (step capacity s action).producer = s.producer ∨
      (∃ overload item, s.producer = none ∧ action = .push overload item ∧
        (step capacity s action).producer = some (.loadTail item)) ∨
      ∃ pc, s.producer = some pc ∧ action = .producerStep ∧
        (step capacity s action).producer =
          match (tryPushStep capacity s.ring pc).2 with
          | .running pc => some pc
          | .returned _ => none := by
  by_cases hpush : ∃ overload item, action = .push overload item
  · obtain ⟨overload, item, rfl⟩ := hpush
    cases hp : s.producer with
    | none => exact .inr (.inl ⟨overload, item, rfl, rfl, by simp only [step, hp]⟩)
    | some pc => exact .inl (by simp only [step, hp])
  · by_cases hstep : action = .producerStep
    · subst hstep
      cases hp : s.producer with
      | none => exact .inl (by simp only [step, producerStep, hp])
      | some pc =>
        refine .inr (.inr ⟨pc, rfl, rfl, ?_⟩)
        simp only [step, producerStep, hp]
        rcases tryPushStep capacity s.ring pc with ⟨ring, pc' | ok⟩
        · rfl
        · cases ok <;> rfl
    · exact .inl (producer_of_other (fun overload item h => hpush ⟨overload, item, h⟩) hstep)

theorem inHand_tryPushStep {capacity : Capacity} {ring : SPSCRingBuffer α} {pc pc' : PushPc α}
    (hstep : (tryPushStep capacity ring pc).2 = .running pc') {item : α}
    (hitem : inHand (some pc') = some item) : inHand (some pc) = some item := by
  cases pc with
  | loadHead value t =>
    simp only [tryPushStep] at hstep
    split at hstep <;> cases hstep
    · cases hitem
    · exact hitem
  | loadTail value =>
    cases hstep
    exact hitem
  | countDrop => cases hstep
  | writeSlot value t =>
    cases hstep
    exact hitem
  | storeTail value t => cases hstep

theorem writes_tryPushStep {capacity : Capacity} {ring : SPSCRingBuffer α} {pc pc' : PushPc α}
    (hstep : (tryPushStep capacity ring pc).2 = .running pc') (hquiet : writes pc' = false) :
    writes pc = false := by
  cases pc with
  | loadHead value t => rfl
  | loadTail value => rfl
  | countDrop => rfl
  | writeSlot value t =>
    cases hstep
    cases hquiet
  | storeTail value t => cases hstep

theorem countDrop_tryPushStep {capacity : Capacity} {ring : SPSCRingBuffer α} {pc : PushPc α}
    (hstep : (tryPushStep capacity ring pc).2 = .running .countDrop) :
    ∃ item t, pc = .loadHead item t ∧ advance capacity t = ring.head := by
  cases pc with
  | loadHead item t =>
    simp only [tryPushStep] at hstep
    split at hstep
    · rename_i hfull
      exact ⟨item, t, rfl, hfull⟩
    · cases hstep
  | _ => cases hstep

section Begins

variable {capacity : Capacity} {s : State α} {action : Action α}

/-- Only a push takes an item in hand. -/
theorem inHand_begins {item : α} (hnot : inHand s.producer ≠ some item)
    (hnow : inHand (step capacity s action).producer = some item) :
    s.producer = none ∧ ∃ overload, action = .push overload item := by
  rcases producer_cases capacity s action with hsame | ⟨overload, value, hidle, rfl, hbegun⟩ |
    ⟨pc, hpc, rfl, hnext⟩
  · rw [hsame] at hnow
    exact absurd hnow hnot
  · rw [hbegun] at hnow
    obtain rfl : value = item := Option.some.inj hnow
    exact ⟨hidle, overload, rfl⟩
  · rw [hnext] at hnow
    split at hnow
    · rename_i hrunning
      rw [hpc] at hnot
      exact absurd (inHand_tryPushStep hrunning hnow) hnot
    · cases hnow

/-- A call that has written does not become quiet again. -/
theorem quiet_begins (hnot : ¬ Quiet s) (hnow : Quiet (step capacity s action)) :
    s.producer = none ∧ ∃ overload item, action = .push overload item := by
  rcases producer_cases capacity s action with hsame | ⟨overload, item, hidle, rfl, -⟩ |
    ⟨pc, hpc, rfl, hnext⟩
  · rw [Quiet, hsame] at hnow
    exact absurd hnow hnot
  · exact ⟨hidle, overload, item, rfl⟩
  · obtain ⟨pc', hpc', hquiet⟩ := hnow
    rw [hnext] at hpc'
    split at hpc'
    · rename_i hrunning
      cases hpc'
      exact absurd ⟨pc, hpc, writes_tryPushStep hrunning hquiet⟩ hnot
    · cases hpc'

/-- A drop is due only where the head was read with the buffer full. -/
theorem countDrop_begins (h : Inv capacity s) (hnot : s.producer ≠ some .countDrop)
    (hnow : (step capacity s action).producer = some .countDrop) :
    ReadsFull capacity s ∧ action = .producerStep := by
  rcases producer_cases capacity s action with hsame | ⟨overload, item, -, rfl, hbegun⟩ |
    ⟨pc, hpc, rfl, hnext⟩
  · rw [hsame] at hnow
    exact absurd hnow hnot
  · rw [hbegun] at hnow
    cases hnow
  · rw [hnext] at hnow
    split at hnow
    · rename_i hrunning
      cases hnow
      obtain ⟨item, t, rfl, hfull⟩ := countDrop_tryPushStep hrunning
      have hprod := h.producer
      rw [hpc] at hprod
      obtain rfl : t = s.ring.tail := hprod
      have hlength := (advance_tail_iff h.buffered).mp hfull
      exact ⟨⟨⟨item, _, hpc⟩, by omega⟩, rfl⟩
    · cases hnow

end Begins

section Calls

variable {capacity : Capacity} {slots : Nat → α} {actions : List (Action α)}

theorem calledWith_run {item : α} (h : inHand (run capacity slots actions).producer = some item) :
    CalledWith capacity slots actions item := by
  obtain ⟨_, ⟨overload, rfl⟩, hsince⟩ := exists_since (fun _ => True)
    (fun s : State α => s.producer = none) (fun s => inHand s.producer = some item)
    (fun action => ∃ overload, action = .push overload item) (fun _ _ _ => trivial)
    (fun _ _ _ => inHand_begins) trivial (by rintro ⟨⟩) actions h
  exact ⟨overload, hsince⟩

theorem calledQuietly_run (h : Quiet (run capacity slots actions)) :
    CalledQuietly capacity slots actions := by
  obtain ⟨_, ⟨overload, item, rfl⟩, hsince⟩ := exists_since (fun _ => True)
    (fun s : State α => s.producer = none) Quiet
    (fun action => ∃ overload item, action = .push overload item) (fun _ _ _ => trivial)
    (fun _ _ _ => quiet_begins) trivial (by rintro ⟨_, ⟨⟩, _⟩) actions h
  exact ⟨overload, item, hsince⟩

theorem readFull_run (h : (run capacity slots actions).producer = some .countDrop) :
    ReadFull capacity slots actions := by
  obtain ⟨_, rfl, hsince⟩ := exists_since (Inv capacity) (ReadsFull capacity)
    (fun s : State α => s.producer = some .countDrop) (· = .producerStep)
    (fun _ action hs => inv_step hs action) (fun _ _ => countDrop_begins)
    (inv_initial capacity slots) (by rintro ⟨⟩) actions h
  exact hsince

end Calls

section Returns

variable {capacity : Capacity} {s : State α}

/-- A push returns `true` as it stores the tail behind its item. -/
theorem push_accepts {pc : PushPc α} (hpc : s.producer = some pc)
    (hret : (tryPushStep capacity s.ring pc).2 = .returned true) :
    ∃ item, inHand s.producer = some item ∧
      (producerStep capacity s).accepted = s.accepted ++ [item] := by
  cases pc with
  | loadHead item t =>
    simp only [tryPushStep] at hret
    split at hret <;> cases hret
  | storeTail item t =>
    refine ⟨item, by rw [hpc]; rfl, ?_⟩
    simp only [producerStep, hpc, tryPushStep, written]
  | _ => cases hret

theorem push_refuses {pc : PushPc α}
    (hret : (tryPushStep capacity s.ring pc).2 = .returned false) : pc = .countDrop := by
  cases pc with
  | loadHead item t =>
    simp only [tryPushStep] at hret
    split at hret <;> cases hret
  | countDrop => rfl
  | _ => cases hret

/-- A pop returns the value at the front, and none only if there is none. -/
theorem pop_returns (h : Inv capacity s) {pc : PopPc α} (hpc : s.consumer = .popping pc)
    {item : Option α} (hret : (tryPopStep capacity s.ring pc).2 = .returned item) :
    item = s.accepted[s.popped.length]? ∧
      (consumerStep capacity s).popped = s.popped ++ item.toList := by
  have hcons := h.consumer
  rw [hpc] at hcons
  refine ⟨?_, ?_⟩
  · cases pc with
    | loadTail hd =>
      obtain rfl : hd = s.ring.head := hcons
      simp only [tryPopStep] at hret
      split at hret <;> cases hret
      rename_i heq
      have hsame := (head_eq_tail_iff h.buffered).mp heq
      simp [hsame]
    | storeHead hd value =>
      cases hret
      exact hcons.2.symm
    | _ => cases hret
  · simp only [consumerStep, hpc]
    rcases hstep : tryPopStep capacity s.ring pc with ⟨ring, pc' | value⟩
    · rw [hstep] at hret
      cases hret
    · rw [hstep] at hret
      cases hret
      rfl

end Returns

/-- The state `s` the actions have led to has lost nothing. What the calls return is what
`tryPushStep` and `tryPopStep` return at their next access. -/
structure Lossless (capacity : Capacity) (slots : Nat → α) (actions : List (Action α))
    (s : State α) : Prop where
  fifo : s.popped <+: s.accepted
  bounded : s.accepted.length - s.popped.length ≤ capacity.size - 1
  accepts : ∀ pc, s.producer = some pc → (tryPushStep capacity s.ring pc).2 = .returned true →
    ∃ item, CalledWith capacity slots actions item ∧
      (producerStep capacity s).accepted = s.accepted ++ [item]
  refuses : ∀ pc, s.producer = some pc → (tryPushStep capacity s.ring pc).2 = .returned false →
    ReadFull capacity slots actions ∧ CalledQuietly capacity slots actions ∧
      (producerStep capacity s).refused = s.refused + 1 ∧
      (producerStep capacity s).accepted = s.accepted
  dropped : s.ring.dropped = s.refused
  silent : ∀ pc, s.producer = some pc → writes pc = false →
    (producerStep capacity s).ring = { s.ring with dropped := (producerStep capacity s).ring.dropped }
  pops : ∀ pc item, s.consumer = .popping pc →
    (tryPopStep capacity s.ring pc).2 = .returned item →
      item = s.accepted[s.popped.length]? ∧
        (consumerStep capacity s).popped = s.popped ++ item.toList
  peekedValue : ∀ index value, s.peeked = some (index, value) → s.ring.slots index = value
  peekedPops : ∀ index value, s.peeked = some (index, value) → ∀ pc item,
    s.consumer = .popping pc → (tryPopStep capacity s.ring pc).2 = .returned item →
      item = some value
  size : sizeApprox capacity s.ring = s.accepted.length - s.popped.length
  emptyIff : empty s.ring = true ↔ s.accepted.length - s.popped.length = 0
  fullIff : full capacity s.ring = true ↔ s.accepted.length - s.popped.length = capacity.size - 1

/-- For every power-of-two capacity from 64 on, both overloads and every
interleaving of one producer with one consumer. -/
theorem run_lossless (capacity : Capacity) (slots : Nat → α) (actions : List (Action α)) :
    Lossless capacity slots actions (run capacity slots actions) := by
  have h := inv_run capacity slots actions
  generalize hs : run capacity slots actions = s at h
  have hbuf := h.buffered
  have hle := hbuf.fifo.length_le
  have hroom := hbuf.room
  have hfull : advance capacity s.ring.tail = s.ring.head ↔
      s.accepted.length - s.popped.length = capacity.size - 1 := by
    rw [advance_tail_iff hbuf]
    have := capacity.size_pos
    omega
  have hempty : s.ring.head = s.ring.tail ↔ s.accepted.length - s.popped.length = 0 := by
    rw [head_eq_tail_iff hbuf]
    constructor
    · intro he
      simp [he]
    · intro hz
      exact hbuf.fifo.eq_of_length (by omega)
  constructor
  case fifo => exact hbuf.fifo
  case bounded => omega
  case accepts =>
    intro pc hpc hret
    obtain ⟨item, hitem, haccepted⟩ := push_accepts hpc hret
    exact ⟨item, calledWith_run (hs.symm ▸ hitem), haccepted⟩
  case refuses =>
    intro pc hpc hret
    obtain rfl := push_refuses hret
    have hquiet : Quiet s := ⟨_, hpc, rfl⟩
    refine ⟨readFull_run (hs.symm ▸ hpc), calledQuietly_run (hs.symm ▸ hquiet), ?_, ?_⟩ <;>
      simp only [producerStep, hpc, tryPushStep]
  case dropped => exact h.dropped
  case silent =>
    intro pc hp hquiet
    cases pc <;> simp only [writes, Bool.true_eq_false] at hquiet <;>
      simp only [producerStep, hp, tryPushStep]
    split <;> rename_i heq <;> split at heq <;> cases heq <;> rfl
  case peekedValue =>
    intro index value hp
    obtain ⟨rfl, hvalue⟩ := h.peeked index value hp
    obtain ⟨hlt, rfl⟩ := List.getElem?_eq_some_iff.mp hvalue
    exact buffered_front hbuf hlt
  case pops => exact fun pc item hpc hret => pop_returns h hpc hret
  case peekedPops =>
    intro index value hp pc item hpc hret
    obtain ⟨-, hvalue⟩ := h.peeked index value hp
    exact (pop_returns h hpc hret).1.trans hvalue
  case size => exact sizeApprox_eq hbuf
  case emptyIff => simpa [empty] using hempty
  case fullIff => simpa [full] using hfull

end SessionRingBufferSpsc
