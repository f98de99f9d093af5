import OrderFlow.GuardedRuns
import OrderFlow.OfeRingBufferFifo

/-!
# The size that a third thread reads

`size_approx` loads the two counters one after the other, in an order that the language
leaves open, and subtracts them. Between the loads either counter may move on any distance.
A tail loaded late may have overtaken the head, and a head loaded late may be more than a
capacity ahead of the tail.
-/
namespace OfeRingBuffer

open GuardedRuns RingWindow

variable {α : Type}

inductive LoadOrder where
  | headFirst | tailFirst
  deriving DecidableEq, Repr

/-- Where the observer stands in `size_approx`: the counter it has loaded, and beside it how
many values had been accepted, or popped, at that time. -/
inductive Observer where
  | idle
  | loadedHead (head : UInt64) (accepted : Nat)
  | loadedTail (tail : UInt64) (popped : Nat)
  deriving DecidableEq, Repr

/-- A value that was returned, the number of values accepted when the head was loaded, and of
those popped when the tail was. -/
structure Reading where
  size : UInt64
  accepted : Nat
  popped : Nat
  deriving DecidableEq, Repr

structure Watched (α : Type) where
  buffer : State α
  observer : Observer
  readings : List Reading

inductive WatchAction (α : Type) where
  | buffer (action : Action α)
  | sizeApprox (order : LoadOrder)
  | observerStep
  deriving DecidableEq, Repr

/-- The second load of `size_approx`, and its return. -/
def observerStep (w : Watched α) : Watched α :=
  match w.observer with
  | .idle => w
  | .loadedHead head accepted =>
    { w with
      observer := .idle
      readings := w.readings ++
        [⟨head - w.buffer.ring.tail, accepted, w.buffer.popped.length⟩] }
  | .loadedTail tail popped =>
    { w with
      observer := .idle
      readings := w.readings ++
        [⟨w.buffer.ring.head - tail, w.buffer.accepted.length, popped⟩] }

/-- A call of `size_approx` starts with its first load. -/
def watchStep (capacity : PowerOfTwo) (w : Watched α) : WatchAction α → Watched α
  | .buffer action => { w with buffer := step capacity w.buffer action }
  | .sizeApprox order =>
    match w.observer with
    | .idle =>
      { w with
        observer :=
          match order with
          | .headFirst => .loadedHead w.buffer.ring.head w.buffer.accepted.length
          | .tailFirst => .loadedTail w.buffer.ring.tail w.buffer.popped.length }
    | _ => w
  | .observerStep => observerStep w

def watchInitial (start : UInt64) : Watched α := ⟨initial start, .idle, []⟩

def watch (capacity : PowerOfTwo) (start : UInt64) (actions : List (WatchAction α)) : Watched α :=
  actions.foldl (watchStep capacity) (watchInitial start)

/-- A reading of at most the capacity, whose subtraction has not wrapped. -/
structure InBounds (capacity : PowerOfTwo) (reading : Reading) : Prop where
  within : reading.size ≤ capacity.value
  noWrap : reading.size.toNat + reading.popped = reading.accepted

/-- Of a second load: no more values have been popped since the first one than there were in the
buffer, or no more have been accepted than there was room for. -/
def InTime (capacity : PowerOfTwo) (w : Watched α) : WatchAction α → Prop
  | .observerStep =>
    match w.observer with
    | .idle => True
    | .loadedHead _ accepted => w.buffer.popped.length ≤ accepted
    | .loadedTail _ popped => w.buffer.accepted.length ≤ popped + capacity.size
  | _ => True

theorem inBounds_iff (capacity : PowerOfTwo) (base accepted popped : Nat) :
    InBounds capacity ⟨UInt64.ofNat (base + accepted) - UInt64.ofNat (base + popped),
        accepted, popped⟩ ↔
      popped ≤ accepted ∧ accepted ≤ popped + capacity.size := by
  have hsize := capacity.size_lt
  have hvalue : capacity.value.toNat = capacity.size := rfl
  constructor
  · rintro ⟨hwithin, hwrap⟩
    rw [UInt64.le_iff_toNat_le, hvalue] at hwithin
    dsimp only at hwithin hwrap
    omega
  · rintro ⟨hle, hroom⟩
    have hsub : (UInt64.ofNat (base + accepted) - UInt64.ofNat (base + popped)).toNat =
        accepted - popped := by
      rw [toNat_ofNat_sub (by omega) (by omega)]
      omega
    constructor
    · rw [UInt64.le_iff_toNat_le, hvalue]
      dsimp only
      omega
    · dsimp only
      omega

/-- The values accepted and popped only grow. -/
theorem step_grows (capacity : PowerOfTwo) (s : State α) (action : Action α) :
    s.accepted.length ≤ (step capacity s action).accepted.length ∧
      s.popped.length ≤ (step capacity s action).popped.length := by
  cases action with
  | push value =>
    simp only [step]
    split <;> exact ⟨Nat.le_refl _, Nat.le_refl _⟩
  | tryPop =>
    simp only [step]
    split <;> exact ⟨Nat.le_refl _, Nat.le_refl _⟩
  | clear =>
    simp only [step]
    split <;> exact ⟨Nat.le_refl _, Nat.le_refl _⟩
  | producerStep =>
    simp only [step, producerStep]
    split
    · exact ⟨Nat.le_refl _, Nat.le_refl _⟩
    · split <;> exact ⟨Nat.le_refl _, Nat.le_refl _⟩
    · exact ⟨Nat.le_refl _, Nat.le_refl _⟩
    · simp
  | consumerStep =>
    simp only [step, consumerStep]
    split
    · exact ⟨Nat.le_refl _, Nat.le_refl _⟩
    · exact ⟨Nat.le_refl _, Nat.le_refl _⟩
    · split <;> exact ⟨Nat.le_refl _, Nat.le_refl _⟩
    · split <;> exact ⟨Nat.le_refl _, Nat.le_refl _⟩
    · simp

/-- What the first load has seen, in terms of the buffer as it is now. -/
def ObserverOk (capacity : PowerOfTwo) (start : UInt64) (s : State α) : Observer → Prop
  | .idle => True
  | .loadedHead head accepted =>
    head = UInt64.ofNat (start.toNat + accepted) ∧ accepted ≤ s.popped.length + capacity.size
  | .loadedTail tail popped =>
    tail = UInt64.ofNat (start.toNat + popped) ∧ popped ≤ s.accepted.length

structure WatchInv (capacity : PowerOfTwo) (start : UInt64) (w : Watched α) : Prop where
  buffer : Inv capacity start w.buffer
  observer : ObserverOk capacity start w.buffer w.observer

theorem watchInv_initial (capacity : PowerOfTwo) (start : UInt64) :
    WatchInv capacity start (watchInitial start : Watched α) :=
  ⟨inv_initial capacity start, trivial⟩

theorem watchInv_step {capacity : PowerOfTwo} {start : UInt64} (w : Watched α)
    (action : WatchAction α) (h : WatchInv capacity start w) :
    WatchInv capacity start (watchStep capacity w action) := by
  obtain ⟨buffer, observer, readings⟩ := w
  obtain ⟨hbuffer, hobserver⟩ := h
  dsimp only at hbuffer hobserver
  cases action with
  | buffer action =>
    obtain ⟨haccepted, hpopped⟩ := step_grows capacity buffer action
    refine ⟨inv_step hbuffer action, ?_⟩
    cases observer with
    | idle => trivial
    | loadedHead head accepted =>
      obtain ⟨hhead, hroom⟩ := hobserver
      exact ⟨hhead, Nat.le_trans hroom (Nat.add_le_add_right hpopped _)⟩
    | loadedTail tail popped =>
      obtain ⟨htail, hle⟩ := hobserver
      exact ⟨htail, Nat.le_trans hle haccepted⟩
  | sizeApprox order =>
    cases observer with
    | idle =>
      refine ⟨hbuffer, ?_⟩
      cases order with
      | headFirst => exact ⟨hbuffer.head, hbuffer.bounded⟩
      | tailFirst => exact ⟨hbuffer.tail, hbuffer.fifo.length_le⟩
    | loadedHead head accepted => exact ⟨hbuffer, hobserver⟩
    | loadedTail tail popped => exact ⟨hbuffer, hobserver⟩
  | observerStep =>
    cases observer with
    | idle => exact ⟨hbuffer, hobserver⟩
    | loadedHead head accepted => exact ⟨hbuffer, trivial⟩
    | loadedTail tail popped => exact ⟨hbuffer, trivial⟩

/-- One step: a second load in time, and no other one, returns a reading in bounds. -/
theorem readings_step_iff {capacity : PowerOfTwo} {start : UInt64} (w : Watched α)
    (action : WatchAction α) (h : WatchInv capacity start w) :
    (∀ reading ∈ (watchStep capacity w action).readings, InBounds capacity reading) ↔
      (∀ reading ∈ w.readings, InBounds capacity reading) ∧ InTime capacity w action := by
  obtain ⟨buffer, observer, readings⟩ := w
  obtain ⟨hbuffer, hobserver⟩ := h
  dsimp only at hbuffer hobserver
  cases action with
  | buffer action => simp [watchStep, InTime]
  | sizeApprox order => cases observer <;> simp [watchStep, InTime]
  | observerStep =>
    cases observer with
    | idle => simp [watchStep, observerStep, InTime]
    | loadedHead head accepted =>
      obtain ⟨rfl, hroom⟩ := hobserver
      have hreading := inBounds_iff capacity start.toNat accepted buffer.popped.length
      rw [← hbuffer.tail] at hreading
      simp only [watchStep, observerStep, InTime, List.forall_mem_append, List.forall_mem_singleton,
        hreading, hroom, and_true]
    | loadedTail tail popped =>
      obtain ⟨rfl, hle⟩ := hobserver
      have hreading := inBounds_iff capacity start.toNat buffer.accepted.length popped
      rw [← hbuffer.head] at hreading
      simp only [watchStep, observerStep, InTime, List.forall_mem_append, List.forall_mem_singleton,
        hreading, hle, true_and]

/-- In a run of producer, consumer and observer every reading is in bounds exactly if every
second load comes in time. -/
theorem sizeApprox_inBounds_iff (capacity : PowerOfTwo) (start : UInt64)
    (actions : List (WatchAction α)) :
    (∀ reading ∈ (watch capacity start actions).readings, InBounds capacity reading) ↔
      Guarded (watchStep capacity) (InTime capacity) (watchInitial start) actions := by
  have hiff := good_iff_guarded (WatchInv capacity start)
    (fun w : Watched α => ∀ reading ∈ w.readings, InBounds capacity reading) watchInv_step
    readings_step_iff (watchInv_initial capacity start) actions
  rw [watch, hiff]
  simp [watchInitial]

/-- A push and a pop, from the first access to the last. -/
def wholePush : List (WatchAction Nat) :=
  [.buffer (.push 0), .buffer .producerStep, .buffer .producerStep, .buffer .producerStep]

def wholePop : List (WatchAction Nat) :=
  [.buffer .tryPop, .buffer .consumerStep, .buffer .consumerStep, .buffer .consumerStep]

/-- One value goes through a buffer for one between the loads of head and tail, or two go in
and one comes out between those of tail and head. -/
theorem sizeApprox_outOfBounds :
    ¬ (∀ reading ∈ (watch ⟨1, by decide, by decide⟩ 0
        (.sizeApprox .headFirst :: wholePush ++ wholePop ++ [.observerStep])).readings,
          reading.size ≤ 1) ∧
      ¬ ∀ reading ∈ (watch ⟨1, by decide, by decide⟩ 0
        (.sizeApprox .tailFirst :: wholePush ++ wholePop ++ wholePush ++ [.observerStep])).readings,
          reading.size ≤ 1 := by
  constructor <;> decide +kernel

end OfeRingBuffer
