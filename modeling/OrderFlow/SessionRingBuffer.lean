import OrderFlow.RingWindow

/-!
# The ring buffer of `session1`

`SPSCRingBuffer` keeps reduced counters and gives up one slot, so that equal
counters mean an empty buffer. `try_push`, `try_pop` and `peek` are given step by
step, from one shared access to the next, for whatever system of threads calls
them. `Buffered` relates the shared words to the values pushed and popped so far,
and each kind of step has one lemma about it.

A move out of a slot leaves the value in place, as for the trivially copyable
tick record, the only type the buffer is instantiated with.
-/
namespace SessionRingBuffer

open RingWindow

variable {α : Type}

/-- The two static assertions on the template parameter. -/
structure Capacity extends PowerOfTwo where
  large : 64 ≤ value

structure SPSCRingBuffer (α : Type) where
  slots : Nat → α
  head : UInt64
  tail : UInt64
  dropped : Nat

/-- What the constructor leaves, whatever the storage holds. -/
def newBuffer (slots : Nat → α) : SPSCRingBuffer α := ⟨slots, 0, 0, 0⟩

/-- `(index + 1) & MASK`. -/
def advance (capacity : Capacity) (index : UInt64) : UInt64 := (index + 1) &&& (capacity.value - 1)

/-- The next shared access of a `try_push` in progress. Both overloads run the
same steps. -/
inductive PushPc (α : Type) where
  | loadTail (item : α)
  | loadHead (item : α) (currentTail : UInt64)
  | countDrop
  | writeSlot (item : α) (currentTail : UInt64)
  | storeTail (item : α) (currentTail : UInt64)
  deriving DecidableEq, Repr

inductive PopPc (α : Type) where
  | loadHead
  | loadTail (currentHead : UInt64)
  | readSlot (currentHead : UInt64)
  | storeHead (currentHead : UInt64) (item : α)
  deriving DecidableEq, Repr

inductive PeekPc where
  | loadHead
  | loadTail (currentHead : UInt64)
  deriving DecidableEq, Repr

/-- A call goes on, or has returned. -/
inductive Progress (pc result : Type) where
  | running (pc : pc)
  | returned (result : result)
  deriving DecidableEq, Repr

def tryPushStep (capacity : Capacity) (b : SPSCRingBuffer α) :
    PushPc α → SPSCRingBuffer α × Progress (PushPc α) Bool
  | .loadTail item => (b, .running (.loadHead item b.tail))
  | .loadHead item currentTail =>
    if advance capacity currentTail = b.head then (b, .running .countDrop)
    else (b, .running (.writeSlot item currentTail))
  | .countDrop => ({ b with dropped := b.dropped + 1 }, .returned false)
  | .writeSlot item currentTail =>
    ({ b with slots := Function.update b.slots currentTail.toNat item },
      .running (.storeTail item currentTail))
  | .storeTail _ currentTail => ({ b with tail := advance capacity currentTail }, .returned true)

def tryPopStep (capacity : Capacity) (b : SPSCRingBuffer α) :
    PopPc α → SPSCRingBuffer α × Progress (PopPc α) (Option α)
  | .loadHead => (b, .running (.loadTail b.head))
  | .loadTail currentHead =>
    if currentHead = b.tail then (b, .returned none) else (b, .running (.readSlot currentHead))
  | .readSlot currentHead => (b, .running (.storeHead currentHead (b.slots currentHead.toNat)))
  | .storeHead currentHead item =>
    ({ b with head := advance capacity currentHead }, .returned (some item))

/-- A peek returns a pointer, here the index of the slot it points at. -/
def peekStep (b : SPSCRingBuffer α) : PeekPc → Progress PeekPc (Option Nat)
  | .loadHead => .running (.loadTail b.head)
  | .loadTail currentHead =>
    if currentHead = b.tail then .returned none else .returned (some currentHead.toNat)

def sizeApprox (capacity : Capacity) (b : SPSCRingBuffer α) : Nat :=
  ((b.tail - b.head) &&& (capacity.value - 1)).toNat

def empty (b : SPSCRingBuffer α) : Bool := decide (b.head = b.tail)

def full (capacity : Capacity) (b : SPSCRingBuffer α) : Bool :=
  decide (advance capacity b.tail = b.head)

/-- The values from head to tail. -/
def held (capacity : Capacity) (b : SPSCRingBuffer α) : List α :=
  (List.range (sizeApprox capacity b)).map fun i => b.slots ((b.head.toNat + i) % capacity.size)

def cells (b : SPSCRingBuffer α) : Nat → Option α := fun i => some (b.slots i)

/-- The counters stand for the numbers of values pushed and popped, and the slots
between them hold the values still to be popped; `written` is a value in its slot
whose tail is still to be stored. -/
structure Buffered (capacity : Capacity) (b : SPSCRingBuffer α)
    (accepted popped written : List α) : Prop where
  head : b.head = capacity.index popped.length
  tail : b.tail = capacity.index accepted.length
  fifo : popped <+: accepted
  room : accepted.length + written.length < popped.length + capacity.size
  holds : Holds capacity.size 0 (cells b) (accepted ++ written) popped.length

theorem cells_write (b : SPSCRingBuffer α) (i : Nat) (item : α) :
    cells { b with slots := Function.update b.slots i item } =
      Function.update (cells b) i (some item) := by
  funext j
  by_cases h : j = i <;> simp [cells, h]

theorem buffered_new (capacity : Capacity) (slots : Nat → α) :
    Buffered capacity (newBuffer slots) [] [] [] where
  head := by simp [newBuffer, PowerOfTwo.index]
  tail := by simp [newBuffer, PowerOfTwo.index]
  fifo := List.prefix_refl _
  room := by simpa using capacity.size_pos
  holds := holds_nil _ _ _ _

/-- The test of `try_push` succeeds exactly on a full buffer. -/
theorem advance_tail_iff {capacity : Capacity} {b : SPSCRingBuffer α} {accepted popped : List α}
    {written : List α} (h : Buffered capacity b accepted popped written) :
    advance capacity b.tail = b.head ↔ accepted.length + 1 = popped.length + capacity.size := by
  have hle := h.fifo.length_le
  have hroom := h.room
  rw [advance, h.tail, h.head, capacity.index_succ]
  exact capacity.index_eq_of_revolution (by omega) (by omega)

/-- The test of `try_pop` and `peek` succeeds exactly on an empty buffer. -/
theorem head_eq_tail_iff {capacity : Capacity} {b : SPSCRingBuffer α} {accepted popped : List α}
    {written : List α} (h : Buffered capacity b accepted popped written) :
    b.head = b.tail ↔ popped = accepted := by
  have hle := h.fifo.length_le
  have hroom := h.room
  rw [h.head, h.tail, capacity.index_inj hle (by omega)]
  exact ⟨fun he => h.fifo.eq_of_length he, fun he => he ▸ rfl⟩

theorem sizeApprox_eq {capacity : Capacity} {b : SPSCRingBuffer α} {accepted popped : List α}
    {written : List α} (h : Buffered capacity b accepted popped written) :
    sizeApprox capacity b = accepted.length - popped.length := by
  have hroom := h.room
  rw [sizeApprox, h.head, h.tail, capacity.mask_sub_index h.fifo.length_le (by omega)]

theorem buffered_front {capacity : Capacity} {b : SPSCRingBuffer α} {accepted popped : List α}
    {written : List α} (h : Buffered capacity b accepted popped written)
    (hlt : popped.length < accepted.length) :
    b.slots b.head.toNat = accepted[popped.length] := by
  have hcell := holds_front h.holds (by rw [List.length_append]; omega)
  rw [List.getElem_append_left hlt] at hcell
  rw [h.head, capacity.toNat_index_slot]
  exact Option.some.inj hcell

/-- The values held are those pushed and not yet popped. -/
theorem held_eq {capacity : Capacity} {b : SPSCRingBuffer α} {accepted popped : List α}
    {written : List α} (h : Buffered capacity b accepted popped written) :
    held capacity b = accepted.drop popped.length := by
  have hle := h.fifo.length_le
  apply List.ext_getElem
  · simp [held, sizeApprox_eq h]
  · intro i hi hi'
    have hlt : popped.length + i < accepted.length := by
      rw [List.length_drop] at hi'
      omega
    have hslot : (b.head.toNat + i) % capacity.size = slot capacity.size 0 (popped.length + i) := by
      rw [h.head, capacity.toNat_index, Nat.mod_add_mod, slot, Nat.zero_add]
    have hcell := h.holds (popped.length + i) (by omega) (by rw [List.length_append]; omega)
    rw [List.getElem?_append_left hlt, List.getElem?_eq_getElem hlt] at hcell
    simp only [held, List.getElem_map, List.getElem_range, List.getElem_drop, hslot]
    exact Option.some.inj hcell

theorem buffered_countDrop {capacity : Capacity} {b : SPSCRingBuffer α} {accepted popped : List α}
    {written : List α} (h : Buffered capacity b accepted popped written) (dropped : Nat) :
    Buffered capacity { b with dropped := dropped } accepted popped written :=
  ⟨h.head, h.tail, h.fifo, h.room, h.holds⟩

/-- A write at the current tail, with room for it. -/
theorem buffered_writeSlot {capacity : Capacity} {b : SPSCRingBuffer α} {accepted popped : List α}
    (h : Buffered capacity b accepted popped []) (item : α)
    (hroom : accepted.length + 1 < popped.length + capacity.size) :
    Buffered capacity { b with slots := Function.update b.slots b.tail.toNat item }
      accepted popped [item] := by
  refine ⟨h.head, h.tail, h.fifo, hroom, ?_⟩
  have hholds := h.holds
  rw [List.append_nil] at hholds
  rw [cells_write, h.tail, capacity.toNat_index_slot]
  exact holds_write hholds (by omega) item

/-- The store that publishes a written value. -/
theorem buffered_storeTail {capacity : Capacity} {b : SPSCRingBuffer α} {accepted popped : List α}
    {item : α} (h : Buffered capacity b accepted popped [item]) :
    Buffered capacity { b with tail := advance capacity b.tail } (accepted ++ [item]) popped [] := by
  refine ⟨h.head, ?_, h.fifo.trans (List.prefix_append _ _), ?_, ?_⟩
  · simp only [advance, h.tail, capacity.index_succ, List.length_append, List.length_singleton]
  · have hroom := h.room
    simpa using hroom
  · rw [List.append_nil]
    exact h.holds

/-- The store that frees the front slot. -/
theorem buffered_storeHead {capacity : Capacity} {b : SPSCRingBuffer α} {accepted popped : List α}
    {written : List α} {item : α} (h : Buffered capacity b accepted popped written)
    (hfront : accepted[popped.length]? = some item) :
    Buffered capacity { b with head := advance capacity b.head } accepted (popped ++ [item])
      written := by
  have hlength : (popped ++ [item]).length = popped.length + 1 := by simp
  have hroom := h.room
  refine ⟨?_, h.tail, snoc_front h.fifo hfront, by omega, ?_⟩
  · rw [hlength, ← capacity.index_succ, ← h.head, advance]
  · rw [hlength]
    exact holds_mono h.holds (Nat.le_succ _)

/-- What the program point of a pop implies, `front` being the next value: its own
counter cannot be stale. -/
def PopOk (head : UInt64) (front : Option α) : PopPc α → Prop
  | .loadHead => True
  | .loadTail h => h = head
  | .readSlot h => h = head ∧ front ≠ none
  | .storeHead h item => h = head ∧ front = some item

theorem popOk_append {head : UInt64} {accepted popped : List α} {pc : PopPc α}
    (h : PopOk head accepted[popped.length]? pc) (item : α) :
    PopOk head (accepted ++ [item])[popped.length]? pc := by
  cases pc with
  | loadHead => trivial
  | loadTail h' => exact h
  | readSlot h' =>
    obtain ⟨value, hvalue⟩ := Option.ne_none_iff_exists'.mp h.2
    exact ⟨h.1, by simp [front_append hvalue]⟩
  | storeHead h' value => exact ⟨h.1, front_append h.2 item⟩

/-- A consumer that sees different counters has a value to take. -/
theorem front_of_head_ne {capacity : Capacity} {b : SPSCRingBuffer α} {accepted popped : List α}
    {written : List α} (h : Buffered capacity b accepted popped written) (hne : b.head ≠ b.tail) :
    accepted[popped.length]? = some (b.slots b.head.toNat) := by
  have hlt : popped.length < accepted.length :=
    length_lt_of_prefix_ne h.fifo (mt (head_eq_tail_iff h).mpr hne)
  rw [List.getElem?_eq_getElem hlt, buffered_front h hlt]

theorem tryPopStep_running {capacity : Capacity} {b b' : SPSCRingBuffer α}
    {accepted popped : List α} {written : List α} {pc pc' : PopPc α}
    (h : Buffered capacity b accepted popped written)
    (hpc : PopOk b.head accepted[popped.length]? pc)
    (hstep : tryPopStep capacity b pc = (b', .running pc')) :
    b' = b ∧ PopOk b.head accepted[popped.length]? pc' := by
  cases pc with
  | loadHead =>
    cases hstep
    exact ⟨rfl, rfl⟩
  | loadTail hd =>
    obtain rfl : hd = b.head := hpc
    rw [tryPopStep] at hstep
    split at hstep <;> cases hstep
    rename_i hne
    exact ⟨rfl, rfl, by simp [front_of_head_ne h hne]⟩
  | readSlot hd =>
    obtain ⟨rfl, hfront⟩ := hpc
    cases hstep
    have hlt : popped.length < accepted.length := by simpa using hfront
    exact ⟨rfl, rfl, by rw [List.getElem?_eq_getElem hlt, buffered_front h hlt]⟩
  | storeHead hd item => cases hstep

theorem tryPopStep_returned {capacity : Capacity} {b b' : SPSCRingBuffer α}
    {accepted popped : List α} {written : List α} {pc : PopPc α} {item : Option α}
    (h : Buffered capacity b accepted popped written)
    (hpc : PopOk b.head accepted[popped.length]? pc)
    (hstep : tryPopStep capacity b pc = (b', .returned item)) :
    b'.tail = b.tail ∧ b'.dropped = b.dropped ∧
      Buffered capacity b' accepted (popped ++ item.toList) written := by
  cases pc with
  | loadHead => cases hstep
  | loadTail hd =>
    rw [tryPopStep] at hstep
    split at hstep <;> cases hstep
    exact ⟨rfl, rfl, by simpa using h⟩
  | readSlot hd => cases hstep
  | storeHead hd value =>
    obtain ⟨rfl, hfront⟩ := hpc
    cases hstep
    exact ⟨rfl, rfl, buffered_storeHead h hfront⟩

/-- A `try_push` with nothing else running. -/
def tryPush (capacity : Capacity) (b : SPSCRingBuffer α) (item : α) : SPSCRingBuffer α × Bool :=
  if advance capacity b.tail = b.head then ({ b with dropped := b.dropped + 1 }, false)
  else
    ({ b with
        slots := Function.update b.slots b.tail.toNat item
        tail := advance capacity b.tail }, true)

/-- A `try_pop` with nothing else running. -/
def tryPop (capacity : Capacity) (b : SPSCRingBuffer α) : SPSCRingBuffer α × Option α :=
  if b.head = b.tail then (b, none)
  else ({ b with head := advance capacity b.head }, some (b.slots b.head.toNat))

def pushSteps (capacity : Capacity) :
    Nat → SPSCRingBuffer α × Progress (PushPc α) Bool → SPSCRingBuffer α × Progress (PushPc α) Bool
  | n + 1, (b, .running pc) => pushSteps capacity n (tryPushStep capacity b pc)
  | _, at_ => at_

def popSteps (capacity : Capacity) :
    Nat → SPSCRingBuffer α × Progress (PopPc α) (Option α) →
      SPSCRingBuffer α × Progress (PopPc α) (Option α)
  | n + 1, (b, .running pc) => popSteps capacity n (tryPopStep capacity b pc)
  | _, at_ => at_

/-- A push that is not interrupted returns within four steps. -/
theorem pushSteps_eq_tryPush (capacity : Capacity) (b : SPSCRingBuffer α) (item : α) :
    pushSteps capacity 4 (b, .running (.loadTail item)) =
      ((tryPush capacity b item).1, .returned (tryPush capacity b item).2) := by
  by_cases hfull : advance capacity b.tail = b.head
  · simp [pushSteps, tryPushStep, tryPush, hfull]
  · simp [pushSteps, tryPushStep, tryPush, hfull]

/-- A pop that is not interrupted returns within four steps. -/
theorem popSteps_eq_tryPop (capacity : Capacity) (b : SPSCRingBuffer α) :
    popSteps capacity 4 (b, .running .loadHead) =
      ((tryPop capacity b).1, .returned (tryPop capacity b).2) := by
  by_cases hempty : b.head = b.tail
  · simp [popSteps, tryPopStep, tryPop, hempty]
  · simp [popSteps, tryPopStep, tryPop, hempty]

theorem buffered_tryPush {capacity : Capacity} {b : SPSCRingBuffer α} {accepted popped : List α}
    (h : Buffered capacity b accepted popped []) (item : α) :
    Buffered capacity (tryPush capacity b item).1
      (accepted ++ if (tryPush capacity b item).2 then [item] else []) popped [] := by
  have hroom := h.room
  simp only [List.length_nil, Nat.add_zero] at hroom
  by_cases hfull : advance capacity b.tail = b.head
  · simpa [tryPush, hfull] using buffered_countDrop h (b.dropped + 1)
  · have hspace : accepted.length + 1 < popped.length + capacity.size := by
      have hne := mt (advance_tail_iff h).mpr hfull
      omega
    simpa [tryPush, hfull] using buffered_storeTail (buffered_writeSlot h item hspace)

theorem buffered_tryPop {capacity : Capacity} {b : SPSCRingBuffer α} {accepted popped : List α}
    (h : Buffered capacity b accepted popped []) :
    Buffered capacity (tryPop capacity b).1 accepted (popped ++ (tryPop capacity b).2.toList) [] := by
  by_cases hempty : b.head = b.tail
  · simpa [tryPop, hempty] using h
  · simpa [tryPop, hempty] using buffered_storeHead h (front_of_head_ne h hempty)

end SessionRingBuffer
