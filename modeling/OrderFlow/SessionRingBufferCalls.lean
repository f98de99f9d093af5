import OrderFlow.SessionRingBufferSpsc

/-!
# Single steps and whole calls

A ring that sees only whole `try_push` and `try_pop` calls keeps in step with one that a
producer and a consumer work on access by access. A push takes effect where it finds
the buffer full or stores the tail, a pop where it returns.
-/
namespace SessionRingBufferSpsc

open RingWindow SessionRingBuffer

variable {α : Type}

/-- The drop of a push that has found the buffer full and has not counted it. -/
def uncounted : Option (PushPc α) → Nat
  | some .countDrop => 1
  | _ => 0

/-- The ring of whole calls holds what the ring of the two threads holds. -/
structure InStep (capacity : Capacity) (s : State α) (ring : SPSCRingBuffer α) : Prop where
  inv : Inv capacity s
  buffered : Buffered capacity ring s.accepted s.popped []
  dropped : ring.dropped = s.refused + uncounted s.producer

/-- The push that takes effect with the producer's next access. -/
def takesEffect (capacity : Capacity) (ring : SPSCRingBuffer α) : PushPc α → Option (α × Bool)
  | .loadHead item currentTail =>
    if advance capacity currentTail = ring.head then some (item, false) else none
  | .storeTail item _ => some (item, true)
  | _ => none

theorem inStep_initial (capacity : Capacity) (slots : Nat → α) :
    InStep capacity (initial slots) (newBuffer slots) :=
  ⟨inv_initial capacity slots, buffered_new capacity slots, rfl⟩

theorem inStep_push {capacity : Capacity} {s : State α} {ring : SPSCRingBuffer α}
    (h : InStep capacity s ring) (hidle : s.producer = none) (item : α) :
    InStep capacity { s with producer := some (.loadTail item) } ring := by
  have hstep := inv_step h.inv (.push .copy item)
  simp only [step, hidle] at hstep
  refine ⟨hstep, h.buffered, ?_⟩
  have hdropped := h.dropped
  rw [hidle] at hdropped
  exact hdropped

theorem inStep_tryPop {capacity : Capacity} {s : State α} {ring : SPSCRingBuffer α}
    (h : InStep capacity s ring) (hidle : s.consumer = .idle) :
    InStep capacity { s with consumer := .popping .loadHead } ring := by
  have hstep := inv_step h.inv .tryPop
  simp only [step, hidle] at hstep
  exact ⟨hstep, h.buffered, h.dropped⟩

/-- Both rings are full at once. -/
theorem tryPush_full {capacity : Capacity} {ring : SPSCRingBuffer α} {accepted popped : List α}
    (h : Buffered capacity ring accepted popped [])
    (hfull : accepted.length + 1 = popped.length + capacity.size) (item : α) :
    tryPush capacity ring item = ({ ring with dropped := ring.dropped + 1 }, false) := by
  have htest := (advance_tail_iff h).mpr hfull
  simp [tryPush, htest]

theorem tryPush_room {capacity : Capacity} {ring : SPSCRingBuffer α} {accepted popped : List α}
    (h : Buffered capacity ring accepted popped [])
    (hroom : accepted.length + 1 < popped.length + capacity.size) (item : α) :
    (tryPush capacity ring item).2 = true ∧
      (tryPush capacity ring item).1.dropped = ring.dropped := by
  have htest : advance capacity ring.tail ≠ ring.head := by
    intro hfull
    have hlength := (advance_tail_iff h).mp hfull
    omega
  simp [tryPush, htest]

/-- The producer's next access, and the whole call if it takes effect with it. -/
theorem inStep_producerStep {capacity : Capacity} {s : State α} {ring : SPSCRingBuffer α}
    {pc : PushPc α} (h : InStep capacity s ring) (hpc : s.producer = some pc) :
    match takesEffect capacity s.ring pc with
    | none => InStep capacity (producerStep capacity s) ring
    | some (item, ok) =>
      (tryPush capacity ring item).2 = ok ∧
        InStep capacity (producerStep capacity s) (tryPush capacity ring item).1 := by
  have hinv := inv_producerStep h.inv
  have hbuf := h.inv.buffered
  have hprod := h.inv.producer
  have hring := h.buffered
  have hdropped := h.dropped
  obtain ⟨sring, producer, consumer, accepted, popped, refused, peeked⟩ := s
  obtain rfl : producer = some pc := hpc
  cases pc with
  | loadTail item => exact ⟨hinv, hring, hdropped⟩
  | loadHead item t =>
    obtain rfl : t = sring.tail := hprod
    by_cases hfull : advance capacity sring.tail = sring.head
    · have hlength := (advance_tail_iff hbuf).mp hfull
      have hpush := tryPush_full hring hlength item
      simp only [producerStep, tryPushStep, hfull, if_true] at hinv ⊢
      simp only [takesEffect, hfull, if_true, hpush]
      exact ⟨trivial, hinv, buffered_countDrop hring _, congrArg (· + 1) hdropped⟩
    · simp only [producerStep, tryPushStep, hfull, if_false] at hinv ⊢
      simp only [takesEffect, hfull, if_false]
      exact ⟨hinv, hring, hdropped⟩
  | countDrop => exact ⟨hinv, hring, hdropped⟩
  | writeSlot item t => exact ⟨hinv, hring, hdropped⟩
  | storeTail item t =>
    have hroom : accepted.length + 1 < popped.length + capacity.size := hbuf.room
    obtain ⟨hok, hsame⟩ := tryPush_room hring hroom item
    have hpushed := buffered_tryPush hring item
    rw [hok] at hpushed
    exact ⟨hok, hinv, hpushed, hsame.trans hdropped⟩

theorem tryPop_empty {capacity : Capacity} {ring : SPSCRingBuffer α} {accepted popped : List α}
    (h : Buffered capacity ring accepted popped []) (hempty : popped = accepted) :
    tryPop capacity ring = (ring, none) := by
  have htest := (head_eq_tail_iff h).mpr hempty
  simp [tryPop, htest]

theorem tryPop_front {capacity : Capacity} {ring : SPSCRingBuffer α} {accepted popped : List α}
    (h : Buffered capacity ring accepted popped []) {item : α}
    (hfront : accepted[popped.length]? = some item) :
    (tryPop capacity ring).2 = some item ∧ (tryPop capacity ring).1.dropped = ring.dropped := by
  obtain ⟨hlt, rfl⟩ := List.getElem?_eq_some_iff.mp hfront
  have htest : ring.head ≠ ring.tail := by
    intro heq
    have hempty := (head_eq_tail_iff h).mp heq
    rw [hempty] at hlt
    exact absurd hlt (Nat.lt_irrefl _)
  simp [tryPop, htest, buffered_front h hlt]

/-- The consumer's next access, and the whole call if it returns with it. -/
theorem inStep_consumerStep {capacity : Capacity} {s : State α} {ring : SPSCRingBuffer α}
    {pc : PopPc α} (h : InStep capacity s ring) (hpc : s.consumer = .popping pc) :
    match (tryPopStep capacity s.ring pc).2 with
    | .running _ => InStep capacity (consumerStep capacity s) ring
    | .returned item =>
      (tryPop capacity ring).2 = item ∧
        InStep capacity (consumerStep capacity s) (tryPop capacity ring).1 := by
  have hinv := inv_consumerStep h.inv
  have hbuf := h.inv.buffered
  have hcons := h.inv.consumer
  have hring := h.buffered
  have hdropped := h.dropped
  obtain ⟨sring, producer, consumer, accepted, popped, refused, peeked⟩ := s
  obtain rfl : consumer = .popping pc := hpc
  cases pc with
  | loadHead => exact ⟨hinv, hring, hdropped⟩
  | loadTail hd =>
    obtain rfl : hd = sring.head := hcons
    by_cases hsame : sring.head = sring.tail
    · have hempty := (head_eq_tail_iff hbuf).mp hsame
      have hpop := tryPop_empty hring hempty
      simp only [consumerStep, tryPopStep, hsame, if_true] at hinv ⊢
      simp only [hpop]
      refine ⟨trivial, hinv, ?_, hdropped⟩
      simpa using hring
    · simp only [consumerStep, tryPopStep, hsame, if_false] at hinv ⊢
      exact ⟨hinv, hring, hdropped⟩
  | readSlot hd => exact ⟨hinv, hring, hdropped⟩
  | storeHead hd item =>
    obtain ⟨-, hfront⟩ := hcons
    obtain ⟨hitem, hsame⟩ := tryPop_front hring hfront
    have hpopped := buffered_tryPop hring
    rw [hitem] at hpopped
    exact ⟨hitem, hinv, hpopped, hsame.trans hdropped⟩

/-- What both rings hold. -/
theorem held_inStep {capacity : Capacity} {s : State α} {ring : SPSCRingBuffer α}
    (h : InStep capacity s ring) : held capacity ring = held capacity s.ring := by
  rw [held_eq h.buffered, held_eq h.inv.buffered]

end SessionRingBufferSpsc
