import OrderFlow.OfeRingBuffer

/-!
# The ring buffer of `include/ofe` is a bounded FIFO

The invariant relates both counters to the numbers of accepted and popped
values, and the live slots to the window between them, at every program point of
both threads. A loaded counter of the thread's own is still current; a loaded
counter of the other thread is stale, and only errs towards refusing.
-/
namespace OfeRingBuffer

open RingWindow

variable {α : Type}

/-- A value constructed but not yet published. -/
def pending : Producer α → List α
  | .publish value _ => [value]
  | _ => []

/-- Whether a slot has been emptied whose release is still to come. -/
def taken : Consumer α → Nat
  | .release _ _ _ => 1
  | _ => 0

@[simp] theorem taken_resume (caller : Caller) : taken (caller.resume : Consumer α) = 0 := by
  cases caller <;> rfl

/-- What the producer's program point implies; `room` says that the buffer is
not full. -/
def ProducerOk (head : UInt64) (room : Prop) : Producer α → Prop
  | .idle => True
  | .loadedHead _ h => h = head
  | .construct _ h => h = head ∧ room
  | .publish _ h => h = head ∧ room

def ConsumerOk (tail : UInt64) (front : Option α) : Consumer α → Prop
  | .idle => True
  | .looping => True
  | .loadedTail _ t => t = tail
  | .take _ t => t = tail ∧ front ≠ none
  | .release _ t value => t = tail ∧ front = some value

structure Inv (capacity : PowerOfTwo) (start : UInt64) (s : State α) : Prop where
  head : s.ring.head = UInt64.ofNat (start.toNat + s.accepted.length)
  tail : s.ring.tail = UInt64.ofNat (start.toNat + s.popped.length)
  fifo : s.popped <+: s.accepted
  bounded : s.accepted.length ≤ s.popped.length + capacity.size
  holds : Holds capacity.size start.toNat s.ring.storage (s.accepted ++ pending s.producer)
    (s.popped.length + taken s.consumer)
  live : LiveWithin capacity.size start.toNat s.ring.storage (s.popped.length + taken s.consumer)
    (s.accepted ++ pending s.producer).length
  producer : ProducerOk s.ring.head (s.accepted.length < s.popped.length + capacity.size) s.producer
  consumer : ConsumerOk s.ring.tail s.accepted[s.popped.length]? s.consumer
  noFault : s.fault = false

theorem inv_initial (capacity : PowerOfTwo) (start : UInt64) :
    Inv capacity start (initial start : State α) where
  head := by simp [initial]
  tail := by simp [initial]
  fifo := List.prefix_refl _
  bounded := by simp [initial]
  holds := holds_nil _ _ _ _
  live := by
    intro j x hj
    simp [initial] at hj
  producer := trivial
  consumer := trivial
  noFault := rfl

/-- The distance of the counters is the number of values in the buffer. -/
theorem toNat_head_sub_tail {capacity : PowerOfTwo} {start : UInt64} {s : State α}
    (h : Inv capacity start s) :
    (s.ring.head - s.ring.tail).toNat = s.accepted.length - s.popped.length := by
  have hle := h.fifo.length_le
  have hbound := h.bounded
  have hsize := capacity.size_lt
  rw [h.head, h.tail, toNat_ofNat_sub (by omega) (by omega)]
  omega

/-- The test of `emplace` succeeds exactly on a full buffer. -/
theorem full_iff {capacity : PowerOfTwo} {start : UInt64} {s : State α}
    (h : Inv capacity start s) :
    s.ring.head - s.ring.tail ≥ capacity.value ↔
      s.accepted.length = s.popped.length + capacity.size := by
  have hle := h.fifo.length_le
  have hbound := h.bounded
  rw [ge_iff_le, UInt64.le_iff_toNat_le, toNat_head_sub_tail h]
  unfold PowerOfTwo.size at hbound ⊢
  omega

/-- The test of `try_pop` succeeds exactly on an empty buffer. -/
theorem empty_iff {capacity : PowerOfTwo} {start : UInt64} {s : State α}
    (h : Inv capacity start s) : s.ring.tail = s.ring.head ↔ s.popped = s.accepted := by
  have hle := h.fifo.length_le
  have hbound := h.bounded
  have hsize := capacity.size_lt
  constructor
  · intro heq
    rw [h.head, h.tail] at heq
    have hlen := ofNat_inj_of_near (by omega) (by omega) heq
    exact h.fifo.eq_of_length (by omega)
  · intro heq
    rw [h.head, h.tail, heq]

theorem slotIndex_ofNat (capacity : PowerOfTwo) (base i : Nat) :
    slotIndex capacity (UInt64.ofNat (base + i)) = slot capacity.size base i :=
  capacity.mask_ofNat base i

/-- A pop in progress has taken a value that was accepted. -/
theorem length_add_taken_le {tail : UInt64} {accepted popped : List α} {consumer : Consumer α}
    (hle : popped.length ≤ accepted.length)
    (h : ConsumerOk tail accepted[popped.length]? consumer) :
    popped.length + taken consumer ≤ accepted.length := by
  cases consumer with
  | release caller t value =>
    obtain ⟨hlt, -⟩ := List.getElem?_eq_some_iff.mp h.2
    exact hlt
  | _ => exact hle

/-- A push in progress has found room for its value. -/
theorem length_pending_le {head : UInt64} {accepted : List α} {bound : Nat} {producer : Producer α}
    (hle : accepted.length ≤ bound) (h : ProducerOk head (accepted.length < bound) producer) :
    (accepted ++ pending producer).length ≤ bound := by
  cases producer with
  | publish value t =>
    rw [pending, List.length_append, List.length_singleton]
    exact h.2
  | _ => simpa [pending] using hle

theorem consumerOk_append {tail : UInt64} {accepted popped : List α} {consumer : Consumer α}
    (h : ConsumerOk tail accepted[popped.length]? consumer) (item : α) :
    ConsumerOk tail (accepted ++ [item])[popped.length]? consumer := by
  cases consumer with
  | take caller t =>
    obtain ⟨value, hvalue⟩ := Option.ne_none_iff_exists'.mp h.2
    exact ⟨h.1, by simp [front_append hvalue]⟩
  | release caller t value => exact ⟨h.1, front_append h.2 item⟩
  | _ => exact h

theorem producerOk_mono {head : UInt64} {room room' : Prop} {producer : Producer α}
    (h : ProducerOk head room producer) (himp : room → room') : ProducerOk head room' producer := by
  cases producer with
  | construct value t => exact ⟨h.1, himp h.2⟩
  | publish value t => exact ⟨h.1, himp h.2⟩
  | _ => exact h

theorem inv_producerStep {capacity : PowerOfTwo} {start : UInt64} {s : State α}
    (h : Inv capacity start s) : Inv capacity start (producerStep capacity s) := by
  obtain ⟨ring, producer, consumer, accepted, popped, fault⟩ := s
  cases producer with
  | idle => exact h
  | loadedHead value head =>
    have hhead : head = ring.head := h.producer
    simp only [producerStep]
    split
    · exact { h with producer := trivial }
    · rename_i hroom
      have hfull := full_iff h
      have hbound := h.bounded
      dsimp only at hfull hbound
      rw [← hhead] at hfull
      refine { h with producer := ⟨hhead, ?_⟩ }
      show accepted.length < popped.length + capacity.size
      have hne := mt hfull.mpr hroom
      omega
  | construct value head =>
    obtain ⟨hhead, hroom⟩ := h.producer
    dsimp only at hhead hroom
    have hslot : slotIndex capacity head = slot capacity.size start.toNat accepted.length := by
      rw [hhead, h.head]
      exact slotIndex_ofNat _ _ _
    have hholds := h.holds
    have hlive := h.live
    simp only [pending, List.append_nil] at hholds hlive
    have hdead := dead_behind hlive (by omega)
    have hle : popped.length + taken consumer ≤ accepted.length :=
      length_add_taken_le h.fifo.length_le h.consumer
    refine ⟨h.head, h.tail, h.fifo, h.bounded, ?_, ?_, ⟨hhead, hroom⟩, h.consumer, ?_⟩
    · simpa only [producerStep, hslot, pending] using holds_write hholds (by omega) value
    · simpa only [producerStep, hslot, pending, List.length_append, List.length_singleton] using
        liveWithin_write hlive hle value
    · have hnone : ring.storage (slot capacity.size start.toNat accepted.length) = none := hdead
      simp [producerStep, hslot, hnone, h.noFault]
  | publish value head =>
    obtain ⟨hhead, hroom⟩ := h.producer
    dsimp only at hhead hroom
    have hpre : popped <+: accepted := h.fifo
    have hword : ring.head = UInt64.ofNat (start.toNat + accepted.length) := h.head
    refine ⟨?_, h.tail, hpre.trans (List.prefix_append _ _), ?_, ?_, ?_, trivial,
      consumerOk_append h.consumer value, h.noFault⟩
    · simp only [producerStep, hhead, hword, ofNat_add_one, List.length_append,
        List.length_singleton, Nat.add_assoc]
    · simp only [producerStep, List.length_append, List.length_singleton]
      omega
    · simpa only [producerStep, pending, List.append_nil] using h.holds
    · simpa only [producerStep, pending, List.append_nil] using h.live

theorem inv_consumerStep {capacity : PowerOfTwo} {start : UInt64} {s : State α}
    (h : Inv capacity start s) : Inv capacity start (consumerStep capacity s) := by
  obtain ⟨ring, producer, consumer, accepted, popped, fault⟩ := s
  have hpre : popped <+: accepted := h.fifo
  cases consumer with
  | idle => exact h
  | looping => exact { h with consumer := rfl }
  | loadedTail caller tail =>
    have htail : tail = ring.tail := h.consumer
    simp only [consumerStep]
    split
    · exact { h with consumer := trivial }
    · rename_i hne
      have hlt := length_lt_of_prefix_ne hpre fun he => hne (htail.trans ((empty_iff h).mpr he))
      exact { h with consumer := ⟨htail, by simpa using hlt⟩ }
  | take caller tail =>
    obtain ⟨htail, hfront⟩ := h.consumer
    dsimp only at htail hfront
    have hlt : popped.length < accepted.length := by simpa using hfront
    have hholds := h.holds
    have hlive := h.live
    simp only [taken, Nat.add_zero] at hholds hlive
    have hslot : slotIndex capacity tail = slot capacity.size start.toNat popped.length := by
      rw [htail, h.tail]
      exact slotIndex_ofNat _ _ _
    have hcell := holds_front hholds (by rw [List.length_append]; omega)
    rw [List.getElem_append_left hlt] at hcell
    have hroom : (accepted ++ pending producer).length ≤ popped.length + capacity.size :=
      length_pending_le h.bounded h.producer
    have hstep : consumerStep capacity ⟨ring, producer, .take caller tail, accepted, popped, fault⟩ =
        ⟨⟨Function.update ring.storage (slot capacity.size start.toNat popped.length) none,
            ring.head, ring.tail⟩,
          producer, .release caller tail accepted[popped.length], accepted, popped, fault⟩ := by
      simp [consumerStep, hslot, hcell]
    rw [hstep]
    refine ⟨h.head, h.tail, h.fifo, h.bounded, ?_, ?_, h.producer, ⟨htail, by simp [hlt]⟩, h.noFault⟩
    · exact holds_drop hholds hroom none
    · exact liveWithin_clear hlive
  | release caller tail value =>
    obtain ⟨htail, hfront⟩ := h.consumer
    dsimp only at htail hfront
    have hholds := h.holds
    have hlive := h.live
    have hbound := h.bounded
    dsimp only at hbound
    simp only [taken] at hholds hlive
    have hword : ring.tail = UInt64.ofNat (start.toNat + popped.length) := h.tail
    have hlength : (popped ++ [value]).length = popped.length + 1 := by simp
    refine ⟨h.head, ?_, snoc_front hpre hfront, ?_, ?_, ?_, ?_, ?_, h.noFault⟩
    · simp only [consumerStep, htail, hword, ofNat_add_one, List.length_append,
        List.length_singleton, Nat.add_assoc]
    · simp only [consumerStep, List.length_append, List.length_singleton]
      omega
    · simpa only [consumerStep, taken_resume, List.length_append, List.length_singleton, Nat.add_zero]
        using hholds
    · simpa only [consumerStep, taken_resume, List.length_append, List.length_singleton, Nat.add_zero]
        using hlive
    · refine producerOk_mono h.producer fun hroom => Nat.lt_of_lt_of_le hroom ?_
      dsimp only [consumerStep]
      omega
    · cases caller <;> trivial

/-- Every step of either thread keeps the invariant. -/
theorem inv_step {capacity : PowerOfTwo} {start : UInt64} {s : State α}
    (h : Inv capacity start s) (action : Action α) : Inv capacity start (step capacity s action) := by
  cases action with
  | push value =>
    simp only [step]
    split
    · rename_i hidle
      refine { h with producer := rfl, holds := ?_, live := ?_ }
      · simpa [hidle, pending] using h.holds
      · simpa [hidle, pending] using h.live
    · exact h
  | tryPop =>
    simp only [step]
    split
    · rename_i hidle
      refine { h with consumer := rfl, holds := ?_, live := ?_ }
      · simpa [hidle, taken] using h.holds
      · simpa [hidle, taken] using h.live
    · exact h
  | clear =>
    simp only [step]
    split
    · rename_i hidle
      refine { h with consumer := trivial, holds := ?_, live := ?_ }
      · simpa [hidle, taken] using h.holds
      · simpa [hidle, taken] using h.live
    · exact h
  | producerStep => exact inv_producerStep h
  | consumerStep => exact inv_consumerStep h

/-- The invariant holds after every run. -/
theorem inv_run (capacity : PowerOfTwo) (start : UInt64) (actions : List (Action α)) :
    Inv capacity start (run capacity start actions) :=
  List.foldlRecOn actions (step capacity) (inv_initial capacity start)
    fun _ h action _ => inv_step h action

/-- The destructor's loop destroys the window it is given, front to back, and
leaves nothing alive. -/
theorem clearFrom_window (capacity : PowerOfTwo) (base : Nat) (xs : List α) (lo : Nat)
    (storage : Nat → Option α) (hle : lo ≤ xs.length) (hroom : xs.length ≤ lo + capacity.size)
    (hholds : Holds capacity.size base storage xs lo)
    (hlive : LiveWithin capacity.size base storage lo xs.length) :
    (clearFrom capacity (UInt64.ofNat (base + xs.length)) (UInt64.ofNat (base + lo)) storage).1.map
        Prod.snd = (xs.drop lo).map some ∧
      ∀ j, (clearFrom capacity (UInt64.ofNat (base + xs.length)) (UInt64.ofNat (base + lo))
        storage).2 j = none := by
  induction hd : xs.length - lo generalizing lo storage with
  | zero =>
    obtain rfl : lo = xs.length := by omega
    unfold clearFrom
    simpa using dead_of_empty hlive
  | succ d ih =>
    have hlt : lo < xs.length := by omega
    have hsize := capacity.size_lt
    have hne : UInt64.ofNat (base + lo) ≠ UInt64.ofNat (base + xs.length) := by
      intro he
      have := ofNat_inj_of_near (by omega) (by omega) he
      omega
    have hrest := ih (lo + 1) (Function.update storage (slot capacity.size base lo) none)
      (by omega) (by omega) (holds_drop hholds hroom none) (liveWithin_clear hlive) (by omega)
    unfold clearFrom
    rw [dif_pos hne]
    simp only [slotIndex_ofNat, ofNat_add_one, Nat.add_assoc, List.map_cons, hrest.1,
      holds_front hholds hlt]
    exact ⟨by rw [List.drop_eq_getElem_cons hlt, List.map_cons], hrest.2⟩

/-- The value of the `emplace` in progress. -/
def inHand : Producer α → Option α
  | .idle => none
  | .loadedHead value _ => some value
  | .construct value _ => some value
  | .publish value _ => some value

/-- Who has called the `try_pop` in progress. -/
def popping : Consumer α → Option Caller
  | .idle => none
  | .looping => none
  | .loadedTail caller _ => some caller
  | .take caller _ => some caller
  | .release caller _ _ => some caller

/-- The shared accesses a call still makes at most. -/
def producerLeft : Producer α → Nat
  | .idle => 0
  | .loadedHead _ _ => 3
  | .construct _ _ => 2
  | .publish _ _ => 1

def consumerLeft : Consumer α → Nat
  | .idle => 0
  | .looping => 0
  | .loadedTail _ _ => 3
  | .take _ _ => 2
  | .release _ _ _ => 1

/-- What the producer's next access does to its push: the push goes on, returns `true`
or returns `false`. -/
inductive Pushes (capacity : PowerOfTwo) (s next : State α) (value : α) : Prop where
  | goesOn : inHand next.producer = some value → next.accepted = s.accepted →
      producerLeft next.producer < producerLeft s.producer → Pushes capacity s next value
  | accepted : next.producer = .idle → next.accepted = s.accepted ++ [value] →
      Pushes capacity s next value
  | refused : next.producer = .idle → next.accepted = s.accepted →
      s.accepted.length = s.popped.length + capacity.size → Pushes capacity s next value

/-- What the consumer's next access does to its pop: the pop goes on, returns the value at
the front or finds nothing, which also ends a `clear`. -/
inductive Pops (s next : State α) (caller : Caller) : Prop where
  | goesOn : popping next.consumer = some caller → next.popped = s.popped →
      consumerLeft next.consumer < consumerLeft s.consumer → Pops s next caller
  | popped (value : α) : next.consumer = caller.resume →
      s.accepted[s.popped.length]? = some value → next.popped = s.popped ++ [value] →
      Pops s next caller
  | refused : next.consumer = .idle → next.popped = s.popped → s.popped = s.accepted →
      Pops s next caller

theorem pushes_producerStep {capacity : PowerOfTwo} {start : UInt64} {s : State α}
    (h : Inv capacity start s) {value : α} (hvalue : inHand s.producer = some value) :
    Pushes capacity s (producerStep capacity s) value := by
  have hprod := h.producer
  have hiff := full_iff h
  obtain ⟨ring, producer, consumer, accepted, popped, fault⟩ := s
  cases producer with
  | idle => cases hvalue
  | loadedHead item head =>
    obtain rfl : item = value := Option.some.inj hvalue
    obtain rfl : head = ring.head := hprod
    simp only [producerStep]
    split
    · rename_i hfull
      exact .refused rfl rfl (hiff.mp hfull)
    · exact .goesOn rfl rfl (Nat.lt_succ_self 2)
  | construct item head =>
    obtain rfl : item = value := Option.some.inj hvalue
    exact .goesOn rfl rfl (Nat.lt_succ_self 1)
  | publish item head =>
    obtain rfl : item = value := Option.some.inj hvalue
    exact .accepted rfl rfl

theorem pops_consumerStep {capacity : PowerOfTwo} {start : UInt64} {s : State α}
    (h : Inv capacity start s) {caller : Caller} (hcaller : popping s.consumer = some caller) :
    Pops s (consumerStep capacity s) caller := by
  have hcons := h.consumer
  have hiff := empty_iff h
  have hnext := (inv_consumerStep h).noFault
  obtain ⟨ring, producer, consumer, accepted, popped, fault⟩ := s
  cases consumer with
  | idle => cases hcaller
  | looping => cases hcaller
  | loadedTail called tail =>
    obtain rfl : called = caller := Option.some.inj hcaller
    obtain rfl : tail = ring.tail := hcons
    simp only [consumerStep]
    split
    · rename_i hempty
      exact .refused rfl rfl (hiff.mp hempty)
    · exact .goesOn rfl rfl (Nat.lt_succ_self 2)
  | take called tail =>
    obtain rfl : called = caller := Option.some.inj hcaller
    -- a dead slot would raise the fault that no step raises
    cases hslot : ring.storage (slotIndex capacity tail) with
    | none => simp [consumerStep, hslot] at hnext
    | some value =>
      have hstep : (consumerStep capacity
          ⟨ring, producer, .take called tail, accepted, popped, fault⟩) =
          ⟨{ ring with storage := Function.update ring.storage (slotIndex capacity tail) none },
            producer, .release called tail value, accepted, popped, fault⟩ := by
        simp [consumerStep, hslot]
      rw [hstep]
      exact .goesOn rfl rfl (Nat.lt_succ_self 1)
  | release called tail value =>
    obtain rfl : called = caller := Option.some.inj hcaller
    exact .popped value rfl hcons.2 rfl

/-- What a step does to the producer's call and to the values accepted. -/
def PushMoves (capacity : PowerOfTwo) (s : State α) (action : Action α) : Prop :=
  let next := step capacity s action
  match action, inHand s.producer with
  | .push value, none => inHand next.producer = some value ∧ next.accepted = s.accepted
  | .producerStep, some value => Pushes capacity s next value
  | _, _ => next.producer = s.producer ∧ next.accepted = s.accepted

/-- What a step does to the consumer's call and to the values popped. -/
def PopMoves (capacity : PowerOfTwo) (s : State α) (action : Action α) : Prop :=
  let next := step capacity s action
  match action, s.consumer with
  | .tryPop, .idle => popping next.consumer = some .tryPop ∧ next.popped = s.popped
  | .clear, .idle => next.consumer = .looping ∧ next.popped = s.popped
  | .consumerStep, .looping => popping next.consumer = some .clear ∧ next.popped = s.popped
  | .consumerStep, .loadedTail caller _ => Pops s next caller
  | .consumerStep, .take caller _ => Pops s next caller
  | .consumerStep, .release caller _ _ => Pops s next caller
  | _, _ => next.consumer = s.consumer ∧ next.popped = s.popped

theorem producer_consumerStep (capacity : PowerOfTwo) (s : State α) :
    (consumerStep capacity s).producer = s.producer ∧
      (consumerStep capacity s).accepted = s.accepted := by
  obtain ⟨ring, producer, consumer, accepted, popped, fault⟩ := s
  cases consumer with
  | loadedTail caller tail =>
    simp only [consumerStep]
    split <;> exact ⟨rfl, rfl⟩
  | take caller tail =>
    simp only [consumerStep]
    split <;> exact ⟨rfl, rfl⟩
  | _ => exact ⟨rfl, rfl⟩

theorem consumer_producerStep (capacity : PowerOfTwo) (s : State α) :
    (producerStep capacity s).consumer = s.consumer ∧
      (producerStep capacity s).popped = s.popped := by
  obtain ⟨ring, producer, consumer, accepted, popped, fault⟩ := s
  cases producer with
  | loadedHead value head =>
    simp only [producerStep]
    split <;> exact ⟨rfl, rfl⟩
  | _ => exact ⟨rfl, rfl⟩

theorem pushMoves_of_inv {capacity : PowerOfTwo} {start : UInt64} {s : State α}
    (h : Inv capacity start s) (action : Action α) : PushMoves capacity s action := by
  cases action with
  | push value => cases hp : s.producer <;> simp [PushMoves, step, hp, inHand]
  | tryPop => cases hc : s.consumer <;> simp [PushMoves, step, hc]
  | clear => cases hc : s.consumer <;> simp [PushMoves, step, hc]
  | producerStep =>
    cases hvalue : inHand s.producer with
    | none => cases hp : s.producer <;> simp_all [PushMoves, step, producerStep, inHand]
    | some value =>
      simp only [PushMoves, hvalue]
      exact pushes_producerStep h hvalue
  | consumerStep => exact producer_consumerStep capacity s

theorem popMoves_of_inv {capacity : PowerOfTwo} {start : UInt64} {s : State α}
    (h : Inv capacity start s) (action : Action α) : PopMoves capacity s action := by
  cases action with
  | push value => cases hp : s.producer <;> simp [PopMoves, step, hp]
  | tryPop => cases hc : s.consumer <;> simp [PopMoves, step, hc, popping]
  | clear => cases hc : s.consumer <;> simp [PopMoves, step, hc]
  | producerStep => exact consumer_producerStep capacity s
  | consumerStep =>
    have hpops : ∀ caller, popping s.consumer = some caller →
        Pops s (consumerStep capacity s) caller := fun _ => pops_consumerStep h
    cases hc : s.consumer with
    | idle => simp [PopMoves, step, consumerStep, hc]
    | looping => simp [PopMoves, step, consumerStep, hc, popping]
    | loadedTail caller tail =>
      simp only [PopMoves, hc]
      exact hpops caller (by rw [hc]; rfl)
    | take caller tail =>
      simp only [PopMoves, hc]
      exact hpops caller (by rw [hc]; rfl)
    | release caller tail value =>
      simp only [PopMoves, hc]
      exact hpops caller (by rw [hc]; rfl)

/-- A buffer of at most `capacity` values, first in, first out. The logs grow by what the
calls return, and a call returns after at most three accesses. -/
structure BoundedFifo (capacity : PowerOfTwo) (s : State α) : Prop where
  fifo : s.popped <+: s.accepted
  noFault : s.fault = false
  bounded : (s.ring.head - s.ring.tail).toNat ≤ capacity.size
  pushes : ∀ action, PushMoves capacity s action
  pops : ∀ action, PopMoves capacity s action
  destructor : s.producer = .idle → s.consumer = .idle →
    (clearUnsafe capacity s.ring).1.map Prod.snd =
        (s.accepted.drop s.popped.length).map some ∧
      ∀ index, (clearUnsafe capacity s.ring).2 index = none

theorem boundedFifo_of_inv {capacity : PowerOfTwo} {start : UInt64} {s : State α}
    (h : Inv capacity start s) : BoundedFifo capacity s where
  fifo := h.fifo
  noFault := h.noFault
  bounded := by
    have hbound := h.bounded
    rw [toNat_head_sub_tail h]
    omega
  pushes := pushMoves_of_inv h
  pops := popMoves_of_inv h
  destructor := by
    intro hp hc
    have hholds := h.holds
    have hlive := h.live
    rw [hp, hc] at hholds hlive
    simp only [pending, taken, List.append_nil, Nat.add_zero] at hholds hlive
    unfold clearUnsafe
    rw [h.head, h.tail]
    exact clearFrom_window capacity start.toNat s.accepted s.popped.length s.ring.storage
      h.fifo.length_le h.bounded hholds hlive

/-- For every power-of-two capacity, every start of the counters and every
interleaving of one producer with one consumer. -/
theorem run_boundedFifo (capacity : PowerOfTwo) (start : UInt64) (actions : List (Action α)) :
    BoundedFifo capacity (run capacity start actions) :=
  boundedFifo_of_inv (inv_run capacity start actions)

end OfeRingBuffer
