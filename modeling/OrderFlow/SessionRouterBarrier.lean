import OrderFlow.SessionRouterLocks

/-!
# What the registry lock gives

The registry is never changed while another thread reads it, a push goes into a buffer
registered for its tick, and the callers cannot block each other for good. A buffer that
has been taken out of the registry is left alone until somebody registers it again.
-/
namespace SessionRouterLocks

open Locks RingWindow SessionRingBuffer SessionTypes

variable {Thread Buffer : Type} [DecidableEq Thread]

/-- A bound on the steps a call still takes, waiting apart. -/
def Call.left : Call Buffer → Nat
  | .idle => 0
  | .routeLock _ => 8
  | .find _ => 7
  | .push _ _ (.loadTail _) => 6
  | .push _ _ (.loadHead _ _) => 5
  | .push _ _ (.writeSlot _ _) => 4
  | .push _ _ (.storeTail _ _) => 3
  | .push _ _ .countDrop => 3
  | .countRouted => 2
  | .countDropped => 2
  | .countUnknown => 2
  | .registerLock _ _ => 3
  | .insert _ _ => 2
  | .unregisterLock _ => 3
  | .erase _ => 2
  | .activeLock => 3
  | .readSize => 2
  | .unlockShared => 1
  | .unlock => 1

theorem left_lockShared {s : State Thread Buffer} {thread : Thread} (call : Call Buffer)
    (hfree : s.lock.writer = none) (hcall : call.left < (s.calls thread).left) :
    ((s.lockShared thread call).calls thread).left < (s.calls thread).left := by
  simpa [State.lockShared, hfree, State.goto] using hcall

theorem left_lockUnique {s : State Thread Buffer} {thread : Thread} (call : Call Buffer)
    (hfree : s.lock.writer = none) (hreaders : s.lock.readers = [])
    (hcall : call.left < (s.calls thread).left) :
    ((s.lockUnique thread call).calls thread).left < (s.calls thread).left := by
  simpa [State.lockUnique, hfree, hreaders, State.goto] using hcall

theorem left_push (capacity : Capacity) (ring : SPSCRingBuffer UniversalTickRecord)
    (tick : UniversalTickRecord) (buffer : Buffer) (pc : PushPc UniversalTickRecord) :
    match (tryPushStep capacity ring pc).2 with
    | .running pc' => (Call.push tick buffer pc').left < (Call.push tick buffer pc).left
    | .returned _ => 2 < (Call.push tick buffer pc).left := by
  cases pc with
  | loadHead item t =>
    by_cases hfull : advance capacity t = ring.head <;> simp [tryPushStep, hfull, Call.left]
  | _ => simp [tryPushStep, Call.left]

section Steps

variable [DecidableEq Buffer]

/-- A thread that has the lock is not held up. -/
theorem left_threadStep {capacity : Capacity} {maxSymbols : UInt32} {s : State Thread Buffer}
    {thread : Thread} (h : (s.calls thread).mode ≠ none) :
    ((threadStep capacity maxSymbols s thread).calls thread).left < (s.calls thread).left := by
  cases hcall : s.calls thread with
  | push tick buffer pc =>
    have hleft := left_push capacity (s.rings buffer) tick buffer pc
    rw [threadStep, hcall]
    dsimp only
    split <;> rename_i heq <;> rw [heq] at hleft <;> simpa [State.goto, Call.left] using hleft
  | find tick =>
    rw [threadStep, hcall]
    dsimp only
    split <;> simp [State.goto, Call.left]
  | insert symbolId buffer =>
    rw [threadStep, hcall]
    dsimp only
    split <;> simp [State.goto, Call.left]
  | idle => simp [hcall, Call.mode] at h
  | routeLock tick => simp [hcall, Call.mode] at h
  | registerLock symbolId buffer => simp [hcall, Call.mode] at h
  | unregisterLock symbolId => simp [hcall, Call.mode] at h
  | activeLock => simp [hcall, Call.mode] at h
  | _ => simp [threadStep, hcall, State.goto, Call.left]

theorem calls_threadStep_of_ne (capacity : Capacity) (maxSymbols : UInt32) (s : State Thread Buffer)
    {thread other : Thread} (h : other ≠ thread) :
    (threadStep capacity maxSymbols s thread).calls other = s.calls other := by
  rw [threadStep]
  split
  case h_2 => rw [State.lockShared]; split <;> simp [State.goto, h]
  case h_3 => split <;> simp [State.goto, h]
  case h_4 => split <;> simp [State.goto, h]
  case h_8 => rw [State.lockUnique]; split <;> simp [State.goto, h]
  case h_9 => split <;> simp [State.goto, h]
  case h_10 => rw [State.lockUnique]; split <;> simp [State.goto, h]
  case h_12 => rw [State.lockShared]; split <;> simp [State.goto, h]
  all_goals simp [State.goto, h]

/-- If a thread is in a call, there is one that can go on. -/
theorem exists_left_lt {capacity : Capacity} {maxSymbols : UInt32} {s : State Thread Buffer}
    (h : Inv maxSymbols s) {busy : Thread} (hbusy : s.calls busy ≠ .idle) :
    ∃ thread, ((threadStep capacity maxSymbols s thread).calls thread).left <
      (s.calls thread).left := by
  cases hwriter : s.lock.writer with
  | some thread =>
    have hmode := (h.guards.writer thread).mp hwriter
    exact ⟨thread, left_threadStep (by simp [hmode])⟩
  | none =>
    cases hreaders : s.lock.readers with
    | cons thread readers =>
      have hmode := (h.guards.readers thread).mp (by simp [hreaders])
      exact ⟨thread, left_threadStep (by simp [hmode])⟩
    | nil =>
      -- The lock is free, so whoever is in a call takes the step it waits for.
      refine ⟨busy, ?_⟩
      by_cases hmode : (s.calls busy).mode = none
      · cases hcall : s.calls busy with
        | idle => exact absurd hcall hbusy
        | routeLock tick =>
          have hgoes := left_lockShared (.find tick) hwriter (by rw [hcall]; simp [Call.left])
          simpa [threadStep, hcall] using hgoes
        | registerLock symbolId buffer =>
          have hgoes := left_lockUnique (.insert symbolId buffer) hwriter hreaders
            (by rw [hcall]; simp [Call.left])
          simpa [threadStep, hcall] using hgoes
        | unregisterLock symbolId =>
          have hgoes := left_lockUnique (.erase symbolId) hwriter hreaders
            (by rw [hcall]; simp [Call.left])
          simpa [threadStep, hcall] using hgoes
        | activeLock =>
          have hgoes := left_lockShared .readSize hwriter (by rw [hcall]; simp [Call.left])
          simpa [threadStep, hcall] using hgoes
        | _ => simp [hcall, Call.mode] at hmode
      · exact left_threadStep hmode

structure RegistrySafe (capacity : Capacity) (maxSymbols : UInt32) (s : State Thread Buffer) :
    Prop where
  /-- Who changes the registry is alone in it. -/
  exclusive : ∀ thread other, (s.calls thread).mode = some .exclusive →
    (s.calls other).mode ≠ none → other = thread
  registered : ∀ thread tick buffer pc, s.calls thread = .push tick buffer pc →
    s.symbolMap.lookup tick.symbolId = some buffer
  limited : s.symbolMap.keys.length ≤ maxSymbols.toNat
  /-- With the lock a call returns within seven steps of its own thread. -/
  unhindered : ∀ thread, (s.calls thread).mode ≠ none →
    ((threadStep capacity maxSymbols s thread).calls thread).left < (s.calls thread).left
  steady : ∀ thread other, other ≠ thread →
    (threadStep capacity maxSymbols s thread).calls other = s.calls other
  live : ∀ busy, s.calls busy ≠ .idle → ∃ thread,
    ((threadStep capacity maxSymbols s thread).calls thread).left < (s.calls thread).left

/-- For any number of threads and buffers, and every interleaving of their steps. -/
theorem run_registrySafe (capacity : Capacity) (maxSymbols : UInt32)
    (slots : Buffer → Nat → UniversalTickRecord) (actions : List (Action Thread Buffer)) :
    RegistrySafe capacity maxSymbols (run capacity maxSymbols slots actions) := by
  have h := inv_run capacity maxSymbols slots actions
  constructor
  case exclusive => exact fun thread other hwriter => h.guards.writer_alone hwriter
  case registered => exact h.registered
  case limited => exact h.limited
  case unhindered => exact fun thread => left_threadStep
  case steady => exact fun thread other => calls_threadStep_of_ne capacity maxSymbols _
  case live => exact fun busy => exists_left_lt h

/-- Nobody has the buffer registered or is about to register it. -/
structure Released (buffer : Buffer) (s : State Thread Buffer) : Prop where
  unregistered : ∀ symbolId, s.symbolMap.lookup symbolId ≠ some buffer
  unclaimed : ∀ thread symbolId, s.calls thread ≠ .registerLock symbolId buffer ∧
    s.calls thread ≠ .insert symbolId buffer

/-- The actions that bring the buffer into use: a new registration, and its worker's. -/
def uses (buffer : Buffer) : Action Thread Buffer → Prop
  | .registerSymbol _ _ registered => registered = some buffer
  | .workerStep popped => popped = buffer
  | _ => False

omit [DecidableEq Buffer] in
theorem released_moved {buffer : Buffer} {s s' : State Thread Buffer} (h : Released buffer s)
    (thread : Thread) (call : Call Buffer)
    (hcall : ∀ symbolId, call ≠ .registerLock symbolId buffer ∧ call ≠ .insert symbolId buffer)
    (hcalls : s'.calls = Function.update s.calls thread call)
    (hmap : ∀ symbolId, s'.symbolMap.lookup symbolId = some buffer →
      s.symbolMap.lookup symbolId = some buffer) : Released buffer s' where
  unregistered := fun symbolId he => h.unregistered symbolId (hmap symbolId he)
  unclaimed := by
    intro other symbolId
    rw [hcalls]
    by_cases hother : other = thread
    · subst hother
      rw [Function.update_self]
      exact hcall symbolId
    · rw [Function.update_of_ne hother]
      exact h.unclaimed other symbolId

omit [DecidableEq Buffer] in
theorem released_lockShared {buffer : Buffer} {s : State Thread Buffer} (h : Released buffer s)
    (thread : Thread) (call : Call Buffer)
    (hcall : ∀ symbolId, call ≠ .registerLock symbolId buffer ∧ call ≠ .insert symbolId buffer) :
    Released buffer (s.lockShared thread call) := by
  rw [State.lockShared]
  split
  · exact released_moved h thread call hcall rfl fun _ he => he
  · exact h

omit [DecidableEq Buffer] in
theorem released_lockUnique {buffer : Buffer} {s : State Thread Buffer} (h : Released buffer s)
    (thread : Thread) (call : Call Buffer)
    (hcall : ∀ symbolId, call ≠ .registerLock symbolId buffer ∧ call ≠ .insert symbolId buffer) :
    Released buffer (s.lockUnique thread call) := by
  rw [State.lockUnique]
  split
  · exact released_moved h thread call hcall rfl fun _ he => he
  · exact h

theorem released_threadStep {capacity : Capacity} {maxSymbols : UInt32} {buffer : Buffer}
    {s : State Thread Buffer} (h : Released buffer s) (thread : Thread) :
    Released buffer (threadStep capacity maxSymbols s thread) := by
  rw [threadStep]
  split
  case h_1 hcall => exact h
  case h_2 tick hcall => exact released_lockShared h thread _ (by simp)
  case h_3 tick hcall =>
    split <;> exact released_moved h thread _ (by simp) rfl fun _ he => he
  case h_4 tick target pc hcall =>
    split <;> exact released_moved h thread _ (by simp) rfl fun _ he => he
  case h_8 symbolId other hcall =>
    have hother := (h.unclaimed thread symbolId).1
    rw [hcall] at hother
    exact released_lockUnique h thread _ (by simp_all)
  case h_9 symbolId other hcall =>
    have hother : other ≠ buffer := by
      rintro rfl
      exact (h.unclaimed thread symbolId).2 hcall
    split
    · exact released_moved h thread _ (by simp) rfl fun _ he => he
    · refine released_moved h thread _ (by simp) rfl fun symbolId' he => ?_
      by_cases hid : symbolId' = symbolId
      · subst hid
        rw [AList.lookup_insert] at he
        exact absurd (Option.some.inj he) hother
      · rwa [AList.lookup_insert_ne hid] at he
  case h_10 symbolId hcall => exact released_lockUnique h thread _ (by simp)
  case h_11 symbolId hcall =>
    refine released_moved h thread _ (by simp) rfl fun symbolId' he => ?_
    by_cases hid : symbolId' = symbolId
    · subst hid
      rw [AList.lookup_erase] at he
      cases he
    · rwa [AList.lookup_erase_ne hid] at he
  case h_12 hcall => exact released_lockShared h thread _ (by simp)
  all_goals exact released_moved h thread _ (by simp) rfl fun _ he => he

/-- A push changes the ring of a registered buffer, and nothing else in the router changes one. -/
theorem rings_threadStep {capacity : Capacity} {maxSymbols : UInt32} {buffer : Buffer}
    {s : State Thread Buffer} (h : Inv maxSymbols s)
    (hgone : ∀ symbolId, s.symbolMap.lookup symbolId ≠ some buffer) (thread : Thread) :
    (threadStep capacity maxSymbols s thread).rings buffer = s.rings buffer := by
  rw [threadStep]
  split
  case h_2 => rw [State.lockShared]; split <;> rfl
  case h_3 => split <;> rfl
  case h_4 tick target pc hcall =>
    have htarget : buffer ≠ target := by
      rintro rfl
      exact hgone tick.symbolId (h.registered thread tick buffer pc hcall)
    split <;> simp [htarget]
  case h_8 => rw [State.lockUnique]; split <;> rfl
  case h_9 => split <;> rfl
  case h_10 => rw [State.lockUnique]; split <;> rfl
  case h_12 => rw [State.lockShared]; split <;> rfl
  all_goals rfl

omit [DecidableEq Buffer] in
theorem released_start {buffer : Buffer} {s : State Thread Buffer} (h : Released buffer s)
    (thread : Thread) (call : Call Buffer)
    (hcall : ∀ symbolId, call ≠ .registerLock symbolId buffer ∧ call ≠ .insert symbolId buffer) :
    Released buffer (s.start thread call) ∧ (s.start thread call).rings buffer = s.rings buffer := by
  rw [State.start]
  split
  · exact ⟨released_moved h thread call hcall rfl fun _ he => he, rfl⟩
  · exact ⟨h, rfl⟩

theorem released_step {capacity : Capacity} {maxSymbols : UInt32} {buffer : Buffer}
    {s : State Thread Buffer} (hinv : Inv maxSymbols s) (h : Released buffer s)
    {action : Action Thread Buffer} (haction : ¬ uses buffer action) :
    Released buffer (step capacity maxSymbols s action) ∧
      (step capacity maxSymbols s action).rings buffer = s.rings buffer := by
  cases action with
  | route thread tick => exact released_start h thread _ (by simp)
  | registerSymbol thread symbolId registered =>
    cases registered with
    | none => exact ⟨h, rfl⟩
    | some other =>
      have hother : other ≠ buffer := fun he => haction (congrArg some he)
      exact released_start h thread _ (by simp [hother])
  | unregisterSymbol thread symbolId => exact released_start h thread _ (by simp)
  | activeSymbols thread => exact released_start h thread _ (by simp)
  | threadStep thread =>
    exact ⟨released_threadStep h thread, rings_threadStep hinv h.unregistered thread⟩
  | tryPop popped =>
    simp only [step]
    split
    · exact ⟨⟨h.unregistered, h.unclaimed⟩, rfl⟩
    · exact ⟨h, rfl⟩
  | workerStep popped =>
    have hpopped : buffer ≠ popped := fun he => haction he.symm
    obtain ⟨-, hmap, hcalls⟩ := workerStep_same capacity s popped
    refine ⟨⟨?_, ?_⟩, ?_⟩
    · simpa only [step, hmap] using h.unregistered
    · simpa only [step, hcalls] using h.unclaimed
    · simp only [step, workerStep]
      split
      · rfl
      · split <;> simp [hpopped]

/-- From the time at which nobody has a buffer registered or is about to, until somebody calls
`register_symbol` with it, no push is in progress in it, and without its worker's steps it
stays as it is. -/
theorem released_untouched {capacity : Capacity} {maxSymbols : UInt32}
    {slots : Buffer → Nat → UniversalTickRecord} {actions : List (Action Thread Buffer)}
    {buffer : Buffer} (h : Released buffer (run capacity maxSymbols slots actions))
    {later : List (Action Thread Buffer)} (hlater : ∀ action ∈ later, ¬ uses buffer action) :
    (run capacity maxSymbols slots (actions ++ later)).rings buffer =
        (run capacity maxSymbols slots actions).rings buffer ∧
      ∀ thread tick pc,
        (run capacity maxSymbols slots (actions ++ later)).calls thread ≠ .push tick buffer pc := by
  have hruns : Released buffer (run capacity maxSymbols slots (actions ++ later)) ∧
      (run capacity maxSymbols slots (actions ++ later)).rings buffer =
        (run capacity maxSymbols slots actions).rings buffer := by
    induction later using List.reverseRecOn with
    | nil => simpa using h
    | append_singleton later action ih =>
      obtain ⟨hreleased, hrings⟩ := ih fun a ha => hlater a (List.mem_append_left _ ha)
      have hinv := inv_run capacity maxSymbols slots (actions ++ later)
      have hunused : ¬ uses buffer action := hlater action (by simp)
      have hstep : Released buffer (step capacity maxSymbols
          (run capacity maxSymbols slots (actions ++ later)) action) ∧ _ :=
        released_step hinv hreleased hunused
      rw [run, ← List.append_assoc, List.foldl_append]
      exact ⟨hstep.1, hstep.2.trans hrings⟩
  refine ⟨hruns.2, fun thread tick pc hpush => ?_⟩
  have hinv := inv_run capacity maxSymbols slots (actions ++ later)
  exact hruns.1.unregistered tick.symbolId (hinv.registered thread tick buffer pc hpush)

end Steps

def sixtyFour : Capacity := ⟨⟨64, by decide, by decide⟩, by decide⟩

def quote : UniversalTickRecord := ⟨0, 100, 1, 7, .ask, .trade⟩

/-- A symbol registered and taken out again. -/
def registerUnregister : List (Action Unit Unit) :=
  [.registerSymbol () 7 (some ()), .threadStep (), .threadStep (), .threadStep (),
    .unregisterSymbol () 7, .threadStep (), .threadStep (), .threadStep ()]

theorem released_untouched_route :
    ((run sixtyFour 4 (fun _ _ => quote) (registerUnregister ++ [.route () quote, .threadStep (),
        .threadStep ()])).rings ()).tail = 0 := by
  have hreleased : Released () (run sixtyFour 4 (fun _ _ => quote) registerUnregister) := by
    constructor
    · intro symbolId
      have hmap : (run sixtyFour 4 (fun _ _ => quote) registerUnregister).symbolMap = ∅ := rfl
      rw [hmap]
      simp
    · simp [run, registerUnregister, step, threadStep, State.start, State.goto, State.lockUnique,
        initial]
  have hlater : ∀ action ∈ [Action.route () quote, .threadStep (), .threadStep ()],
      ¬ uses () action := by simp [uses]
  have huntouched := (released_untouched hreleased hlater).1
  rw [huntouched]
  simp [run, registerUnregister, step, threadStep, State.start, State.goto, State.lockUnique,
    initial, newBuffer]

end SessionRouterLocks
