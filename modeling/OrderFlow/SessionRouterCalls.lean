import OrderFlow.AtomicObjects
import OrderFlow.SessionRingBufferCalls
import OrderFlow.SessionRouterLocks
import OrderFlow.SessionSymbolRegistry

/-!
# The locked router and the router of whole calls

`SessionSymbolRegistry` has the `session1` router with calls that happen one at a time.
Threads that call the locked router side by side get the same answers, each call taking
effect at one moment between its call and its return, as long as no two of them push
into one buffer at once. The counters of the locked router lag behind by the calls that
have still to count themselves.
-/
namespace SessionRouterLocks

open RingWindow SessionRingBuffer SessionTypes AtomicObjects
open SessionRingBufferSpsc (InStep takesEffect uncounted)
open SessionSymbolRegistry (System TickRouter newTickRouter)

variable {Thread Buffer : Type} [DecidableEq Thread] [DecidableEq Buffer]

inductive RouterOp (Buffer : Type) where
  | call (call : SessionSymbolRegistry.Call Buffer)
  | activeSymbols

inductive Answer where
  | registered (result : Bool)
  | unregistered
  | routed (result : Bool)
  | popped (result : Option UniversalTickRecord)
  | active (count : UInt32)
  deriving DecidableEq, Repr

/-- What the caller gets to see. -/
def answerOf : SessionSymbolRegistry.Event Buffer → Answer
  | .registered _ _ result => .registered result
  | .unregistered _ => .unregistered
  | .routed _ _ result => .routed result
  | .popped _ result => .popped result

/-- The router of whole calls as an object that answers one call at a time. -/
def wholeCalls (capacity : Capacity) : SequentialObject (System Buffer) (RouterOp Buffer) Answer where
  apply
    | system, .call call => ((system.call capacity call).1, answerOf (system.call capacity call).2)
    | system, .activeSymbols => (system, .active system.router.activeSymbols)

/-- The locked router, with what each thread that has answered is about to return. -/
structure Recorded (Thread Buffer : Type) where
  state : State Thread Buffer
  results : Thread → Answer

/-- What a thread's next step makes its answer. -/
def resultOf (maxSymbols : UInt32) (s : State Thread Buffer) (thread : Thread) : Option Answer :=
  match s.calls thread with
  | .countRouted => some (.routed true)
  | .countDropped => some (.routed false)
  | .countUnknown => some (.routed false)
  | .insert _ _ => some (.registered (decide (s.symbolMap.keys.length < maxSymbols.toNat)))
  | .erase _ => some .unregistered
  | .readSize => some (.active (UInt32.ofNat s.symbolMap.keys.length))
  | _ => none

def Recorded.step (capacity : Capacity) (maxSymbols : UInt32) (r : Recorded Thread Buffer)
    (action : Action Thread Buffer) : Recorded Thread Buffer where
  state := SessionRouterLocks.step capacity maxSymbols r.state action
  results :=
    match action with
    | .threadStep thread =>
      Function.update r.results thread
        ((resultOf maxSymbols r.state thread).getD (r.results thread))
    | _ => r.results

abbrev RouterEvent (Thread Buffer : Type) : Type :=
  AtomicObjects.Event (Thread ⊕ Buffer) (RouterOp Buffer) Answer

/-- A thread that is busy calls nothing. -/
def callEvent (s : State Thread Buffer) (thread : Thread) (op : RouterOp Buffer) :
    List (RouterEvent Thread Buffer) :=
  match s.calls thread with
  | .idle => [.call (.inl thread) op]
  | _ => []

/-- The calls and returns of one step. The worker of a buffer is a thread of its own. -/
def events (capacity : Capacity) (r : Recorded Thread Buffer) :
    Action Thread Buffer → List (RouterEvent Thread Buffer)
  | .route thread tick => callEvent r.state thread (.call (.route tick))
  | .registerSymbol thread symbolId none =>
    match r.state.calls thread with
    | .idle =>
      [.call (.inl thread) (.call (.registerSymbol symbolId none)),
        .ret (.inl thread) (.registered false)]
    | _ => []
  | .registerSymbol thread symbolId (some buffer) =>
    callEvent r.state thread (.call (.registerSymbol symbolId (some buffer)))
  | .unregisterSymbol thread symbolId =>
    callEvent r.state thread (.call (.unregisterSymbol symbolId))
  | .activeSymbols thread => callEvent r.state thread .activeSymbols
  | .threadStep thread =>
    match r.state.calls thread with
    | .unlockShared => [.ret (.inl thread) (r.results thread)]
    | .unlock => [.ret (.inl thread) (r.results thread)]
    | _ => []
  | .tryPop buffer =>
    match r.state.workers buffer with
    | none => [.call (.inr buffer) (.call (.tryPop buffer))]
    | some _ => []
  | .workerStep buffer =>
    match r.state.workers buffer with
    | none => []
    | some pc =>
      match (tryPopStep capacity (r.state.rings buffer) pc).2 with
      | .running _ => []
      | .returned item => [.ret (.inr buffer) (.popped item)]

def Recorded.initial (slots : Buffer → Nat → UniversalTickRecord) : Recorded Thread Buffer :=
  ⟨SessionRouterLocks.initial slots, fun _ => .unregistered⟩

def history (capacity : Capacity) (maxSymbols : UInt32)
    (slots : Buffer → Nat → UniversalTickRecord) (actions : List (Action Thread Buffer)) :
    List (RouterEvent Thread Buffer) :=
  trace (Recorded.step capacity maxSymbols) (events capacity) (Recorded.initial slots) actions

def recorded (capacity : Capacity) (maxSymbols : UInt32)
    (slots : Buffer → Nat → UniversalTickRecord) (actions : List (Action Thread Buffer)) :
    Recorded Thread Buffer :=
  actions.foldl (Recorded.step capacity maxSymbols) (Recorded.initial slots)

theorem recorded_state (capacity : Capacity) (maxSymbols : UInt32)
    (slots : Buffer → Nat → UniversalTickRecord) (actions : List (Action Thread Buffer)) :
    (recorded capacity maxSymbols slots actions).state = run capacity maxSymbols slots actions := by
  rw [recorded, run]
  exact (List.foldl_hom Recorded.state (fun _ _ => rfl)).symm

def Call.phase (result : Answer) : Call Buffer → Phase (RouterOp Buffer) Answer
  | .idle => .idle
  | .routeLock tick => .called (.call (.route tick))
  | .find tick => .called (.call (.route tick))
  | .push _ _ .countDrop => .done (.routed false)
  | .push tick _ _ => .called (.call (.route tick))
  | .countRouted => .done (.routed true)
  | .countDropped => .done (.routed false)
  | .countUnknown => .done (.routed false)
  | .registerLock symbolId buffer => .called (.call (.registerSymbol symbolId (some buffer)))
  | .insert symbolId buffer => .called (.call (.registerSymbol symbolId (some buffer)))
  | .unregisterLock symbolId => .called (.call (.unregisterSymbol symbolId))
  | .erase symbolId => .called (.call (.unregisterSymbol symbolId))
  | .activeLock => .called .activeSymbols
  | .readSize => .called .activeSymbols
  | .unlockShared => .done result
  | .unlock => .done result

def workerPhase (buffer : Buffer) :
    Option (PopPc UniversalTickRecord) → Phase (RouterOp Buffer) Answer
  | none => .idle
  | some _ => .called (.call (.tryPop buffer))

def phases (r : Recorded Thread Buffer) : Thread ⊕ Buffer → Phase (RouterOp Buffer) Answer
  | .inl thread => (r.state.calls thread).phase (r.results thread)
  | .inr buffer => workerPhase buffer (r.state.workers buffer)

inductive Tally where
  | routed | dropped | unknown
  deriving DecidableEq, Repr

def State.tally (s : State Thread Buffer) : Tally → Nat
  | .routed => s.ticksRouted
  | .dropped => s.ticksDropped
  | .unknown => s.ticksUnknown

def tallyOf (router : TickRouter Buffer) : Tally → Nat
  | .routed => router.ticksRouted
  | .dropped => router.ticksDropped
  | .unknown => router.ticksUnknown

/-- The counter that a route has answered by and not yet counted itself in. -/
def Call.owes : Call Buffer → Option Tally
  | .push _ _ .countDrop => some .dropped
  | .countRouted => some .routed
  | .countDropped => some .dropped
  | .countUnknown => some .unknown
  | _ => none

def Call.owesTo (tally : Tally) (call : Call Buffer) : Bool := decide (call.owes = some tally)

/-- Only threads that have the lock owe anything. -/
def State.owed (s : State Thread Buffer) (tally : Tally) : Nat :=
  s.lock.readers.countP fun thread => (s.calls thread).owesTo tally

/-- The push of a call into the buffer, with its tick. -/
def Call.pushInto (buffer : Buffer) :
    Call Buffer → Option (UniversalTickRecord × PushPc UniversalTickRecord)
  | .push tick target pc => if target = buffer then some (tick, pc) else none
  | _ => none

/-- A push that has still to take effect has its tick in hand. -/
def Carries (tick : UniversalTickRecord) : PushPc UniversalTickRecord → Prop
  | .loadTail item => item = tick
  | .loadHead item _ => item = tick
  | .countDrop => True
  | .writeSlot item _ => item = tick
  | .storeTail item _ => item = tick

/-- The only push there is, if there is one. -/
inductive Sole (pushes : Thread → Option (UniversalTickRecord × PushPc UniversalTickRecord)) :
    Option (PushPc UniversalTickRecord) → Prop
  | nobody (hnone : ∀ thread, pushes thread = none) : Sole pushes none
  | only (thread : Thread) (tick : UniversalTickRecord) (pc : PushPc UniversalTickRecord)
      (hpush : pushes thread = some (tick, pc)) (hcarries : Carries tick pc)
      (hothers : ∀ other, other ≠ thread → pushes other = none) : Sole pushes (some pc)

/-- A buffer as one producer and one consumer have it. -/
def spsc (s : State Thread Buffer) (buffer : Buffer)
    (producer : Option (PushPc UniversalTickRecord)) (accepted popped : List UniversalTickRecord)
    (refused : Nat) : SessionRingBufferSpsc.State UniversalTickRecord :=
  ⟨s.rings buffer, producer, (s.workers buffer).elim .idle .popping, accepted, popped, refused,
    none⟩

def RingInStep (capacity : Capacity) (s : State Thread Buffer) (buffer : Buffer)
    (ring : SPSCRingBuffer UniversalTickRecord) : Prop :=
  ∃ producer accepted popped refused,
    Sole (fun thread => (s.calls thread).pushInto buffer) producer ∧
      InStep capacity (spsc s buffer producer accepted popped refused) ring

structure Matches (capacity : Capacity) (maxSymbols : UInt32) (s : State Thread Buffer)
    (system : System Buffer) : Prop where
  bound : system.router.maxSymbols = maxSymbols
  symbolMap : system.router.symbolMap = s.symbolMap
  tallies : ∀ tally, tallyOf system.router tally = s.tally tally + s.owed tally
  rings : ∀ buffer, RingInStep capacity s buffer (system.rings buffer)

/-- Nobody else is in a push into the buffer that a thread is about to push into. -/
def Alone (s : State Thread Buffer) : Action Thread Buffer → Prop
  | .threadStep thread => ∀ tick buffer, s.calls thread = .find tick →
      s.symbolMap.lookup tick.symbolId = some buffer →
      ∀ other, (s.calls other).pushInto buffer = none
  | _ => True

theorem pushInto_update (calls : Thread → Call Buffer) (thread : Thread) (call : Call Buffer)
    (buffer : Buffer) :
    (fun other => (Function.update calls thread call other).pushInto buffer) =
      Function.update (fun other => (calls other).pushInto buffer) thread (call.pushInto buffer) := by
  funext other
  by_cases hother : other = thread
  · subst hother
    simp
  · simp [hother]

omit [DecidableEq Thread] in
/-- A thread that is in a push is the one that pushes. -/
theorem sole_of_push {pushes : Thread → Option (UniversalTickRecord × PushPc UniversalTickRecord)}
    {producer : Option (PushPc UniversalTickRecord)} (h : Sole pushes producer) {thread : Thread}
    {tick : UniversalTickRecord} {pc : PushPc UniversalTickRecord}
    (hpush : pushes thread = some (tick, pc)) :
    producer = some pc ∧ Carries tick pc ∧ ∀ other, other ≠ thread → pushes other = none := by
  cases h with
  | nobody hnone =>
    rw [hnone thread] at hpush
    cases hpush
  | only first tick' pc' hfirst hcarries hothers =>
    have hthread : thread = first := by
      by_contra hne
      rw [hothers thread hne] at hpush
      cases hpush
    subst hthread
    rw [hfirst] at hpush
    cases hpush
    exact ⟨rfl, hcarries, hothers⟩

theorem sole_update {pushes : Thread → Option (UniversalTickRecord × PushPc UniversalTickRecord)}
    {thread : Thread} {tick : UniversalTickRecord} {pc : PushPc UniversalTickRecord}
    (hothers : ∀ other, other ≠ thread → pushes other = none) (hcarries : Carries tick pc) :
    Sole (Function.update pushes thread (some (tick, pc))) (some pc) := by
  refine .only thread tick pc (Function.update_self ..) hcarries fun other hother => ?_
  rw [Function.update_of_ne hother]
  exact hothers other hother

theorem sole_leave {pushes : Thread → Option (UniversalTickRecord × PushPc UniversalTickRecord)}
    {thread : Thread} (hothers : ∀ other, other ≠ thread → pushes other = none) :
    Sole (Function.update pushes thread none) none := by
  refine .nobody fun other => ?_
  by_cases hother : other = thread
  · subst hother
    exact Function.update_self ..
  · rw [Function.update_of_ne hother]
    exact hothers other hother

/-- Where a push is after its next access. -/
def afterPush (capacity : Capacity) (ring : SPSCRingBuffer UniversalTickRecord)
    (tick : UniversalTickRecord) (buffer : Buffer) (pc : PushPc UniversalTickRecord) :
    Call Buffer :=
  match (tryPushStep capacity ring pc).2 with
  | .running pc' => .push tick buffer pc'
  | .returned true => .countRouted
  | .returned false => .countDropped

theorem threadStep_push (capacity : Capacity) (maxSymbols : UInt32) {s : State Thread Buffer}
    {thread : Thread} {tick : UniversalTickRecord} {buffer : Buffer}
    {pc : PushPc UniversalTickRecord} (hcall : s.calls thread = .push tick buffer pc) :
    threadStep capacity maxSymbols s thread =
      { s.goto thread (afterPush capacity (s.rings buffer) tick buffer pc) with
        rings := Function.update s.rings buffer (tryPushStep capacity (s.rings buffer) pc).1 } := by
  rw [threadStep, hcall, afterPush]
  dsimp only
  split <;> rename_i hstep <;> rw [hstep]

omit [DecidableEq Buffer] in
/-- A push takes effect by answering, and owes the counter from there on. -/
theorem afterPush_effect (capacity : Capacity) (ring : SPSCRingBuffer UniversalTickRecord)
    (tick : UniversalTickRecord) (buffer : Buffer) (pc : PushPc UniversalTickRecord)
    (result : Answer) :
    match takesEffect capacity ring pc with
    | none =>
      (afterPush capacity ring tick buffer pc).owes = (Call.push tick buffer pc).owes ∧
        (afterPush capacity ring tick buffer pc).phase result =
          (Call.push tick buffer pc).phase result
    | some (_, ok) =>
      (Call.push tick buffer pc).owes = none ∧
        (afterPush capacity ring tick buffer pc).owes = some (if ok then .routed else .dropped) ∧
          (Call.push tick buffer pc).phase result = .called (.call (.route tick)) ∧
            (afterPush capacity ring tick buffer pc).phase result = .done (.routed ok) := by
  cases pc with
  | loadHead item t =>
    by_cases hfull : advance capacity t = ring.head
    · simp [takesEffect, afterPush, tryPushStep, hfull, Call.owes, Call.phase]
    · simp [takesEffect, afterPush, tryPushStep, hfull, Call.owes, Call.phase]
  | _ => simp [takesEffect, afterPush, tryPushStep, Call.owes, Call.phase]

theorem carries_takesEffect {capacity : Capacity} {ring : SPSCRingBuffer UniversalTickRecord}
    {tick item : UniversalTickRecord} {pc : PushPc UniversalTickRecord} {ok : Bool}
    (h : Carries tick pc) (heffect : takesEffect capacity ring pc = some (item, ok)) :
    item = tick := by
  cases pc with
  | loadHead item' t =>
    rw [takesEffect] at heffect
    split at heffect <;> cases heffect
    exact h
  | storeTail item' t =>
    cases heffect
    exact h
  | _ => cases heffect

theorem carries_tryPushStep {capacity : Capacity} {ring ring' : SPSCRingBuffer UniversalTickRecord}
    {tick : UniversalTickRecord} {pc pc' : PushPc UniversalTickRecord} (h : Carries tick pc)
    (hstep : tryPushStep capacity ring pc = (ring', .running pc')) : Carries tick pc' := by
  cases pc with
  | loadHead item t =>
    rw [tryPushStep] at hstep
    split at hstep <;> cases hstep
    · trivial
    · exact h
  | loadTail item =>
    cases hstep
    exact h
  | writeSlot item t =>
    cases hstep
    exact h
  | countDrop => cases hstep
  | storeTail item t => cases hstep

omit [DecidableEq Thread] in
/-- A step that the buffer has no part in. -/
theorem ringInStep_move {capacity : Capacity} {s s' : State Thread Buffer} {buffer : Buffer}
    {ring : SPSCRingBuffer UniversalTickRecord} (h : RingInStep capacity s buffer ring)
    (hrings : s'.rings buffer = s.rings buffer) (hworkers : s'.workers buffer = s.workers buffer)
    (hpush : ∀ thread, (s'.calls thread).pushInto buffer = (s.calls thread).pushInto buffer) :
    RingInStep capacity s' buffer ring := by
  obtain ⟨producer, accepted, popped, refused, hsole, hstep⟩ := h
  refine ⟨producer, accepted, popped, refused, ?_, ?_⟩
  · rwa [funext hpush]
  · rwa [spsc, hrings, hworkers]

/-- The producer's step of a buffer is the step of the thread that pushes into it. -/
theorem spsc_push (capacity : Capacity) (maxSymbols : UInt32) {s : State Thread Buffer}
    {thread : Thread} {tick : UniversalTickRecord} {buffer : Buffer}
    {pc : PushPc UniversalTickRecord} (hcall : s.calls thread = .push tick buffer pc)
    {producer : Option (PushPc UniversalTickRecord)}
    (hsole : Sole (fun thread => (s.calls thread).pushInto buffer) producer)
    (accepted popped : List UniversalTickRecord) (refused : Nat) :
    Carries tick pc ∧ producer = some pc ∧ ∃ producer' accepted' refused',
      Sole (fun other => ((threadStep capacity maxSymbols s thread).calls other).pushInto buffer)
          producer' ∧
        SessionRingBufferSpsc.producerStep capacity
            (spsc s buffer (some pc) accepted popped refused) =
          spsc (threadStep capacity maxSymbols s thread) buffer producer' accepted' popped
            refused' := by
  have hpush : (s.calls thread).pushInto buffer = some (tick, pc) := by
    simp [hcall, Call.pushInto]
  obtain ⟨hproducer, hcarries, hothers⟩ := sole_of_push hsole hpush
  refine ⟨hcarries, hproducer, ?_⟩
  rw [threadStep_push capacity maxSymbols hcall]
  simp only [State.goto, pushInto_update, afterPush, spsc, SessionRingBufferSpsc.producerStep,
    Function.update_self]
  cases hstep : tryPushStep capacity (s.rings buffer) pc with
  | mk ring' progress =>
    cases progress with
    | running pc' =>
      refine ⟨some pc', accepted, refused, ?_, rfl⟩
      have hnext : (Call.push tick buffer pc').pushInto buffer = some (tick, pc') := by
        simp [Call.pushInto]
      rw [hnext]
      exact sole_update hothers (carries_tryPushStep hcarries hstep)
    | returned ok =>
      cases ok with
      | true => exact ⟨none, _, refused, sole_leave hothers, rfl⟩
      | false => exact ⟨none, accepted, _, sole_leave hothers, rfl⟩

omit [DecidableEq Thread] in
theorem afterPush_elsewhere (capacity : Capacity) (ring : SPSCRingBuffer UniversalTickRecord)
    (tick : UniversalTickRecord) {buffer other : Buffer} (hne : buffer ≠ other)
    (pc : PushPc UniversalTickRecord) :
    (afterPush capacity ring tick buffer pc).pushInto other = none := by
  rw [afterPush]
  split <;> simp [Call.pushInto, hne]

/-- A push leaves the other buffers alone. -/
theorem ringInStep_elsewhere (capacity : Capacity) (maxSymbols : UInt32) {s : State Thread Buffer}
    {thread : Thread} {tick : UniversalTickRecord} {buffer other : Buffer}
    {pc : PushPc UniversalTickRecord} {ring : SPSCRingBuffer UniversalTickRecord}
    (hcall : s.calls thread = .push tick buffer pc) (hne : other ≠ buffer)
    (h : RingInStep capacity s other ring) :
    RingInStep capacity (threadStep capacity maxSymbols s thread) other ring := by
  rw [threadStep_push capacity maxSymbols hcall]
  refine ringInStep_move h (Function.update_of_ne hne ..) rfl fun mover => ?_
  by_cases hmover : mover = thread
  · subst hmover
    have hbefore : (Call.push tick buffer pc).pushInto other = none := by
      simp [Call.pushInto, hne.symm]
    simp [State.goto, hcall, hbefore, afterPush_elsewhere capacity _ tick hne.symm pc]
  · simp [State.goto, hmover]

theorem ringInStep_push (capacity : Capacity) (maxSymbols : UInt32) {s : State Thread Buffer}
    {thread : Thread} {tick : UniversalTickRecord} {buffer : Buffer}
    {pc : PushPc UniversalTickRecord} {ring : SPSCRingBuffer UniversalTickRecord}
    (hcall : s.calls thread = .push tick buffer pc) (h : RingInStep capacity s buffer ring) :
    match takesEffect capacity (s.rings buffer) pc with
    | none => RingInStep capacity (threadStep capacity maxSymbols s thread) buffer ring
    | some (_, ok) =>
      (tryPush capacity ring tick).2 = ok ∧
        RingInStep capacity (threadStep capacity maxSymbols s thread) buffer
          (tryPush capacity ring tick).1 := by
  obtain ⟨producer, accepted, popped, refused, hsole, hin⟩ := h
  obtain ⟨hcarries, rfl, producer', accepted', refused', hsole', hnext⟩ :=
    spsc_push capacity maxSymbols hcall hsole accepted popped refused
  have hstep := SessionRingBufferSpsc.inStep_producerStep hin rfl
  rw [hnext] at hstep
  split
  · rename_i hnone
    rw [show takesEffect capacity (spsc s buffer (some pc) accepted popped refused).ring pc = none
      from hnone] at hstep
    exact ⟨producer', accepted', popped, refused', hsole', hstep⟩
  · rename_i item ok hsome
    obtain rfl := carries_takesEffect hcarries hsome
    rw [show takesEffect capacity (spsc s buffer (some pc) accepted popped refused).ring pc =
      some (item, ok) from hsome] at hstep
    exact ⟨hstep.1, producer', accepted', popped, refused', hsole', hstep.2⟩

end SessionRouterLocks
