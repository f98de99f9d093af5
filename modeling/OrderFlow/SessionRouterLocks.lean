import OrderFlow.Locks
import OrderFlow.SessionRingBuffer
import OrderFlow.SessionTypes
import Mathlib.Data.List.AList

/-!
# The registry lock of the `session1` tick router

`route` and `active_symbols` hold the registry mutex shared, `register_symbol` and
`unregister_symbol` hold it alone. Any number of threads call them in any interleaving
of single steps, and each buffer has a worker that pops it. A push in progress is into a
buffer that is registered for its tick, so a buffer taken out of the registry is not
touched from the return of `unregister_symbol` on.
-/
namespace SessionRouterLocks

open Locks RingWindow SessionRingBuffer SessionTypes

variable {Thread Buffer : Type} [DecidableEq Thread]

/-- Where a thread stands in a call of the router. -/
inductive Call (Buffer : Type) where
  | idle
  | routeLock (tick : UniversalTickRecord)
  | find (tick : UniversalTickRecord)
  | push (tick : UniversalTickRecord) (buffer : Buffer) (pc : PushPc UniversalTickRecord)
  | countRouted
  | countDropped
  | countUnknown
  | registerLock (symbolId : UInt32) (buffer : Buffer)
  | insert (symbolId : UInt32) (buffer : Buffer)
  | unregisterLock (symbolId : UInt32)
  | erase (symbolId : UInt32)
  | activeLock
  | readSize
  | unlockShared
  | unlock

structure State (Thread Buffer : Type) where
  lock : RwLock Thread
  symbolMap : AList fun _ : UInt32 => Buffer
  rings : Buffer → SPSCRingBuffer UniversalTickRecord
  calls : Thread → Call Buffer
  workers : Buffer → Option (PopPc UniversalTickRecord)
  ticksRouted : Nat
  ticksDropped : Nat
  ticksUnknown : Nat

/-- A symbol registered with a null pointer is refused before the lock. -/
inductive Action (Thread Buffer : Type) where
  | route (thread : Thread) (tick : UniversalTickRecord)
  | registerSymbol (thread : Thread) (symbolId : UInt32) (buffer : Option Buffer)
  | unregisterSymbol (thread : Thread) (symbolId : UInt32)
  | activeSymbols (thread : Thread)
  | threadStep (thread : Thread)
  | tryPop (buffer : Buffer)
  | workerStep (buffer : Buffer)

def State.goto (s : State Thread Buffer) (thread : Thread) (call : Call Buffer) :
    State Thread Buffer :=
  { s with calls := Function.update s.calls thread call }

/-- `std::shared_lock`. -/
def State.lockShared (s : State Thread Buffer) (thread : Thread) (call : Call Buffer) :
    State Thread Buffer :=
  if s.lock.writer = none then
    { s.goto thread call with lock := { s.lock with readers := thread :: s.lock.readers } }
  else s

/-- `std::unique_lock`. -/
def State.lockUnique (s : State Thread Buffer) (thread : Thread) (call : Call Buffer) :
    State Thread Buffer :=
  if s.lock.writer = none ∧ s.lock.readers = [] then
    { s.goto thread call with lock := { s.lock with writer := some thread } }
  else s

section Steps

variable [DecidableEq Buffer]

def threadStep (capacity : Capacity) (maxSymbols : UInt32) (s : State Thread Buffer)
    (thread : Thread) : State Thread Buffer :=
  match s.calls thread with
  | .idle => s
  | .routeLock tick => s.lockShared thread (.find tick)
  | .find tick =>
    match s.symbolMap.lookup tick.symbolId with
    | none => s.goto thread .countUnknown
    | some buffer => s.goto thread (.push tick buffer (.loadTail tick))
  | .push tick buffer pc =>
    match tryPushStep capacity (s.rings buffer) pc with
    | (ring, .running pc') =>
      { s.goto thread (.push tick buffer pc') with rings := Function.update s.rings buffer ring }
    | (ring, .returned true) =>
      { s.goto thread .countRouted with rings := Function.update s.rings buffer ring }
    | (ring, .returned false) =>
      { s.goto thread .countDropped with rings := Function.update s.rings buffer ring }
  | .countRouted => { s.goto thread .unlockShared with ticksRouted := s.ticksRouted + 1 }
  | .countDropped => { s.goto thread .unlockShared with ticksDropped := s.ticksDropped + 1 }
  | .countUnknown => { s.goto thread .unlockShared with ticksUnknown := s.ticksUnknown + 1 }
  | .registerLock symbolId buffer => s.lockUnique thread (.insert symbolId buffer)
  | .insert symbolId buffer =>
    if s.symbolMap.keys.length ≥ maxSymbols.toNat then s.goto thread .unlock
    else { s.goto thread .unlock with symbolMap := s.symbolMap.insert symbolId buffer }
  | .unregisterLock symbolId => s.lockUnique thread (.erase symbolId)
  | .erase symbolId => { s.goto thread .unlock with symbolMap := s.symbolMap.erase symbolId }
  | .activeLock => s.lockShared thread .readSize
  | .readSize => s.goto thread .unlockShared
  | .unlockShared =>
    { s.goto thread .idle with lock := { s.lock with readers := s.lock.readers.erase thread } }
  | .unlock => { s.goto thread .idle with lock := { s.lock with writer := none } }

def workerStep (capacity : Capacity) (s : State Thread Buffer) (buffer : Buffer) :
    State Thread Buffer :=
  match s.workers buffer with
  | none => s
  | some pc =>
    match tryPopStep capacity (s.rings buffer) pc with
    | (ring, .running pc') =>
      { s with
        rings := Function.update s.rings buffer ring
        workers := Function.update s.workers buffer (some pc') }
    | (ring, .returned _) =>
      { s with
        rings := Function.update s.rings buffer ring
        workers := Function.update s.workers buffer none }

/-- A thread that is busy starts no call. -/
def State.start (s : State Thread Buffer) (thread : Thread) (call : Call Buffer) :
    State Thread Buffer :=
  match s.calls thread with
  | .idle => s.goto thread call
  | _ => s

def step (capacity : Capacity) (maxSymbols : UInt32) (s : State Thread Buffer) :
    Action Thread Buffer → State Thread Buffer
  | .route thread tick => s.start thread (.routeLock tick)
  | .registerSymbol _ _ none => s
  | .registerSymbol thread symbolId (some buffer) => s.start thread (.registerLock symbolId buffer)
  | .unregisterSymbol thread symbolId => s.start thread (.unregisterLock symbolId)
  | .activeSymbols thread => s.start thread .activeLock
  | .threadStep thread => threadStep capacity maxSymbols s thread
  | .tryPop buffer =>
    match s.workers buffer with
    | none => { s with workers := Function.update s.workers buffer (some .loadHead) }
    | some _ => s
  | .workerStep buffer => workerStep capacity s buffer

def initial (slots : Buffer → Nat → UniversalTickRecord) : State Thread Buffer :=
  ⟨⟨none, []⟩, ∅, fun buffer => newBuffer (slots buffer), fun _ => .idle, fun _ => none, 0, 0, 0⟩

def run (capacity : Capacity) (maxSymbols : UInt32) (slots : Buffer → Nat → UniversalTickRecord)
    (actions : List (Action Thread Buffer)) : State Thread Buffer :=
  actions.foldl (step capacity maxSymbols) (initial slots)

end Steps

/-- How the thread must hold the lock. -/
def Call.mode : Call Buffer → Option Mode
  | .find _ => some .shared
  | .push _ _ _ => some .shared
  | .countRouted => some .shared
  | .countDropped => some .shared
  | .countUnknown => some .shared
  | .readSize => some .shared
  | .unlockShared => some .shared
  | .insert _ _ => some .exclusive
  | .erase _ => some .exclusive
  | .unlock => some .exclusive
  | _ => none

structure Inv (maxSymbols : UInt32) (s : State Thread Buffer) : Prop where
  guards : Guards s.lock fun thread => (s.calls thread).mode
  registered : ∀ thread tick buffer pc, s.calls thread = .push tick buffer pc →
    s.symbolMap.lookup tick.symbolId = some buffer
  limited : s.symbolMap.keys.length ≤ maxSymbols.toNat

omit [DecidableEq Thread] in
theorem inv_initial (maxSymbols : UInt32) (slots : Buffer → Nat → UniversalTickRecord) :
    Inv maxSymbols (initial slots : State Thread Buffer) where
  guards := by
    constructor <;> simp [initial, Call.mode]
  registered := by
    intro thread tick buffer pc h
    cases h
  limited := Nat.zero_le _

theorem mode_update_of_ne (calls : Thread → Call Buffer) (thread : Thread) (call : Call Buffer)
    (other : Thread) (h : other ≠ thread) :
    (Function.update calls thread call other).mode = (calls other).mode := by
  rw [Function.update_of_ne h]

/-- A move that keeps the lock, or does without it. -/
theorem mode_update {calls : Thread → Call Buffer} {thread : Thread} {call : Call Buffer}
    (h : call.mode = (calls thread).mode) (other : Thread) :
    (Function.update calls thread call other).mode = (calls other).mode := by
  by_cases hother : other = thread
  · subst hother
    rw [Function.update_self, h]
  · exact mode_update_of_ne calls thread call other hother

/-- The registry is as it was, and the thread is in no push that was not registered before. -/
theorem registered_update {maxSymbols : UInt32} {s : State Thread Buffer} (h : Inv maxSymbols s)
    {thread : Thread} {call : Call Buffer}
    (hcall : ∀ tick buffer pc, call = .push tick buffer pc →
      s.symbolMap.lookup tick.symbolId = some buffer) :
    ∀ other tick buffer pc, Function.update s.calls thread call other = .push tick buffer pc →
      s.symbolMap.lookup tick.symbolId = some buffer := by
  intro other tick buffer pc hpush
  by_cases hother : other = thread
  · subst hother
    rw [Function.update_self] at hpush
    exact hcall tick buffer pc hpush
  · rw [Function.update_of_ne hother] at hpush
    exact h.registered other tick buffer pc hpush

/-- While a writer changes the registry, nobody is in a push. -/
theorem registered_writer {maxSymbols : UInt32} {s : State Thread Buffer} (h : Inv maxSymbols s)
    {thread : Thread} {call : Call Buffer} (hwriter : (s.calls thread).mode = some .exclusive)
    (hcall : call.mode = some .exclusive) (symbolMap : AList fun _ : UInt32 => Buffer) :
    ∀ other tick buffer pc, Function.update s.calls thread call other = .push tick buffer pc →
      symbolMap.lookup tick.symbolId = some buffer := by
  intro other tick buffer pc hpush
  by_cases hother : other = thread
  · subst hother
    rw [Function.update_self] at hpush
    rw [hpush] at hcall
    cases hcall
  · rw [Function.update_of_ne hother] at hpush
    have hmode : (s.calls other).mode ≠ none := by simp [hpush, Call.mode]
    exact absurd (h.guards.writer_alone hwriter hmode) hother

/-- A thread moves on, and neither the lock nor the registry changes. -/
theorem inv_moved {maxSymbols : UInt32} {s s' : State Thread Buffer} (h : Inv maxSymbols s)
    (thread : Thread) (call : Call Buffer) (hmode : call.mode = (s.calls thread).mode)
    (hcall : ∀ tick buffer pc, call = .push tick buffer pc →
      s.symbolMap.lookup tick.symbolId = some buffer)
    (hcalls : s'.calls = Function.update s.calls thread call) (hlock : s'.lock = s.lock)
    (hmap : s'.symbolMap = s.symbolMap) : Inv maxSymbols s' where
  guards := by
    rw [hlock, hcalls]
    exact h.guards.move (mode_update hmode)
  registered := by
    rw [hmap, hcalls]
    exact registered_update h hcall
  limited := by
    rw [hmap]
    exact h.limited

theorem inv_lockShared {maxSymbols : UInt32} {s : State Thread Buffer} (h : Inv maxSymbols s)
    {thread : Thread} {call : Call Buffer} (hout : (s.calls thread).mode = none)
    (hmode : call.mode = some .shared) (hcall : ∀ tick buffer pc, call ≠ .push tick buffer pc) :
    Inv maxSymbols (s.lockShared thread call) := by
  rw [State.lockShared]
  split
  · rename_i hfree
    exact ⟨h.guards.share hfree hout (by simp [State.goto, hmode])
      (mode_update_of_ne s.calls thread call),
      registered_update h fun tick buffer pc he => absurd he (hcall tick buffer pc), h.limited⟩
  · exact h

theorem inv_lockUnique {maxSymbols : UInt32} {s : State Thread Buffer} (h : Inv maxSymbols s)
    {thread : Thread} {call : Call Buffer} (hmode : call.mode = some .exclusive) :
    Inv maxSymbols (s.lockUnique thread call) := by
  rw [State.lockUnique]
  split
  · rename_i hfree
    refine ⟨h.guards.own hfree.1 hfree.2 (by simp [State.goto, hmode])
      (mode_update_of_ne s.calls thread call), registered_update h ?_, h.limited⟩
    intro tick buffer pc he
    rw [he] at hmode
    cases hmode
  · exact h

theorem length_keys_erase_le (symbolMap : AList fun _ : UInt32 => Buffer) (symbolId : UInt32) :
    (symbolMap.erase symbolId).keys.length ≤ symbolMap.keys.length := by
  rw [AList.keys_erase]
  exact List.length_erase_le

theorem length_keys_insert_le (symbolMap : AList fun _ : UInt32 => Buffer) (symbolId : UInt32)
    (buffer : Buffer) :
    (symbolMap.insert symbolId buffer).keys.length ≤ symbolMap.keys.length + 1 := by
  rw [AList.keys_insert, List.length_cons]
  exact Nat.succ_le_succ List.length_erase_le

theorem inv_start {maxSymbols : UInt32} {s : State Thread Buffer} (h : Inv maxSymbols s)
    (thread : Thread) {call : Call Buffer} (hmode : call.mode = none) :
    Inv maxSymbols (s.start thread call) := by
  rw [State.start]
  split
  case h_1 hidle =>
    refine inv_moved h thread call (by rw [hmode, hidle]; rfl) ?_ rfl rfl rfl
    intro tick buffer pc he
    rw [he] at hmode
    cases hmode
  case h_2 => exact h

section Steps

variable [DecidableEq Buffer]

theorem inv_threadStep {capacity : Capacity} {maxSymbols : UInt32} {s : State Thread Buffer}
    (h : Inv maxSymbols s) (thread : Thread) :
    Inv maxSymbols (threadStep capacity maxSymbols s thread) := by
  rw [threadStep]
  split
  case h_1 hcall => exact h
  case h_2 tick hcall => exact inv_lockShared h (by rw [hcall]; rfl) rfl (fun _ _ _ => by simp)
  case h_3 tick hcall =>
    split
    case h_1 =>
      exact inv_moved h thread .countUnknown (by rw [hcall]; rfl) (fun _ _ _ he => by cases he)
        rfl rfl rfl
    case h_2 buffer hlookup =>
      refine inv_moved h thread (.push tick buffer (.loadTail tick)) (by rw [hcall]; rfl) ?_
        rfl rfl rfl
      intro tick' buffer' pc he
      cases he
      exact hlookup
  case h_4 tick buffer pc hcall =>
    have hlookup := h.registered thread tick buffer pc hcall
    split
    case h_1 ring pc' hstep =>
      refine inv_moved h thread (.push tick buffer pc') (by rw [hcall]; rfl) ?_ rfl rfl rfl
      intro tick' buffer' pc'' he
      cases he
      exact hlookup
    case h_2 ring hstep =>
      exact inv_moved h thread .countRouted (by rw [hcall]; rfl) (fun _ _ _ he => by cases he)
        rfl rfl rfl
    case h_3 ring hstep =>
      exact inv_moved h thread .countDropped (by rw [hcall]; rfl) (fun _ _ _ he => by cases he)
        rfl rfl rfl
  case h_8 symbolId buffer hcall => exact inv_lockUnique h rfl
  case h_9 symbolId buffer hcall =>
    split
    case isTrue =>
      exact inv_moved h thread .unlock (by rw [hcall]; rfl) (fun _ _ _ he => by cases he)
        rfl rfl rfl
    case isFalse hroom =>
      refine ⟨h.guards.move (mode_update (by rw [hcall]; rfl)),
        registered_writer h (by rw [hcall]; rfl) rfl _, ?_⟩
      have hlength := length_keys_insert_le s.symbolMap symbolId buffer
      exact hlength.trans (by omega)
  case h_10 symbolId hcall => exact inv_lockUnique h rfl
  case h_11 symbolId hcall =>
    exact ⟨h.guards.move (mode_update (by rw [hcall]; rfl)),
      registered_writer h (by rw [hcall]; rfl) rfl _,
      (length_keys_erase_le s.symbolMap symbolId).trans h.limited⟩
  case h_12 hcall => exact inv_lockShared h (by rw [hcall]; rfl) rfl (fun _ _ _ => by simp)
  case h_14 hcall =>
    exact ⟨h.guards.unshare thread (by simp [hcall, Call.mode]) (by simp [State.goto, Call.mode])
      (mode_update_of_ne s.calls thread .idle),
      registered_update h (fun _ _ _ he => by cases he), h.limited⟩
  case h_15 hcall =>
    exact ⟨h.guards.disown thread (by simp [hcall, Call.mode]) (by simp [State.goto, Call.mode])
      (mode_update_of_ne s.calls thread .idle),
      registered_update h (fun _ _ _ he => by cases he), h.limited⟩
  all_goals
    rename_i hcall
    exact inv_moved h thread .unlockShared (by rw [hcall]; rfl) (fun _ _ _ he => by cases he)
      rfl rfl rfl

omit [DecidableEq Thread] in
/-- The workers only see their rings. -/
theorem workerStep_same (capacity : Capacity) (s : State Thread Buffer) (buffer : Buffer) :
    (workerStep capacity s buffer).lock = s.lock ∧
      (workerStep capacity s buffer).symbolMap = s.symbolMap ∧
        (workerStep capacity s buffer).calls = s.calls := by
  rw [workerStep]
  split
  · exact ⟨rfl, rfl, rfl⟩
  · split <;> exact ⟨rfl, rfl, rfl⟩

/-- Every step of every thread keeps the invariant. -/
theorem inv_step {capacity : Capacity} {maxSymbols : UInt32} {s : State Thread Buffer}
    (h : Inv maxSymbols s) (action : Action Thread Buffer) :
    Inv maxSymbols (step capacity maxSymbols s action) := by
  cases action with
  | route thread tick => exact inv_start h thread rfl
  | registerSymbol thread symbolId buffer =>
    cases buffer with
    | none => exact h
    | some buffer => exact inv_start h thread rfl
  | unregisterSymbol thread symbolId => exact inv_start h thread rfl
  | activeSymbols thread => exact inv_start h thread rfl
  | threadStep thread => exact inv_threadStep h thread
  | tryPop buffer =>
    simp only [step]
    split
    · exact ⟨h.guards, h.registered, h.limited⟩
    · exact h
  | workerStep buffer =>
    obtain ⟨hlock, hmap, hcalls⟩ := workerStep_same capacity s buffer
    exact ⟨by simpa only [step, hlock, hcalls] using h.guards,
      by simpa only [step, hcalls, hmap] using h.registered,
      by simpa only [step, hmap] using h.limited⟩

theorem inv_run (capacity : Capacity) (maxSymbols : UInt32)
    (slots : Buffer → Nat → UniversalTickRecord) (actions : List (Action Thread Buffer)) :
    Inv maxSymbols (run capacity maxSymbols slots actions) :=
  List.foldlRecOn actions (step capacity maxSymbols) (inv_initial maxSymbols slots)
    fun _ h action _ => inv_step h action

end Steps

end SessionRouterLocks
