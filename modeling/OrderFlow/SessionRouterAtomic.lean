import OrderFlow.SessionRouterBarrier
import OrderFlow.SessionRouterSteps

/-!
# Each call of the locked router takes effect at one moment

The router of whole calls follows every interleaving in which no thread starts to push
into a buffer beside another: it is called and answers in the same order, and holds the
same in its registry and its rings.
-/
namespace SessionRouterLocks

open RingWindow SessionRingBuffer SessionTypes AtomicObjects
open SessionRingBufferSpsc (InStep)
open SessionSymbolRegistry (System newTickRouter)

variable {Thread Buffer : Type} [DecidableEq Thread] [DecidableEq Buffer]

section Follow

variable {capacity : Capacity} {maxSymbols : UInt32} {r : Recorded Thread Buffer}
  {system : System Buffer} {thread : Thread}

/-- A call that is made by a thread with nothing else to do. -/
theorem followed_start (h : Matches capacity maxSymbols r.state system)
    {action : Action Thread Buffer} (call : Call Buffer) (op : RouterOp Buffer)
    (hstep : step capacity maxSymbols r.state action = r.state.start thread call)
    (hresults : (r.step capacity maxSymbols action).results = r.results)
    (hevents : events capacity r action = callEvent r.state thread op)
    (hphase : call.phase (r.results thread) = .called op) (howes : call.owes = none)
    (hpush : ∀ buffer, call.pushInto buffer = none) :
    Followed capacity maxSymbols r system action := by
  have hstate : (r.step capacity maxSymbols action).state = r.state.start thread call := hstep
  refine ⟨system, ?_, ?_⟩
  · rw [hevents, callEvent]
    cases hcall : r.state.calls thread with
    | idle =>
      have hphases : phases (r.step capacity maxSymbols action) =
          Function.update (phases r) (.inl thread) (.called op) := by
        rw [← hphase, ← congrFun hresults thread]
        refine phases_move ?_ ?_ fun other _ => congrFun hresults other
        · rw [hstate, State.start, hcall]
          rfl
        · rw [hstate, State.start, hcall]
          rfl
      have hidle : phases r (.inl thread) = .idle := by
        rw [phases, hcall]
        rfl
      rw [hphases]
      exact .call (Sum.inl thread) op hidle (.nil _)
    | _ =>
      rw [phases_same (by rw [hstate, State.start, hcall]) hresults]
      exact .nil _
  · rw [hstep, State.start]
    split
    · rename_i hidle
      exact matches_lock h call r.state.lock (owed_same (by rw [hidle, howes]; rfl))
        fun buffer => by rw [hpush, hidle]; rfl
    · exact h

/-- A null pointer is refused at once. -/
theorem followed_nullBuffer (h : Matches capacity maxSymbols r.state system) (symbolId : UInt32) :
    Followed capacity maxSymbols r system (.registerSymbol thread symbolId none) := by
  refine ⟨system, ?_, h⟩
  have hsame : phases (r.step capacity maxSymbols (.registerSymbol thread symbolId none)) =
      phases r := rfl
  rw [hsame]
  simp only [events]
  split
  · rename_i hidle
    have hphase : phases r (.inl thread) = .idle := by
      rw [phases, hidle]
      rfl
    refine .call (Sum.inl thread) (RouterOp.call (.registerSymbol symbolId none)) hphase
      (.act (Sum.inl thread) (RouterOp.call (.registerSymbol symbolId none))
        (Function.update_self ..)
        (.ret (Sum.inl thread) (Answer.registered false) (Function.update_self ..) ?_))
    rw [Function.update_idem, Function.update_idem, ← hphase, Function.update_eq_self]
    exact .nil _
  · exact .nil _

theorem followed_tryPop (h : Matches capacity maxSymbols r.state system) (buffer : Buffer) :
    Followed capacity maxSymbols r system (.tryPop buffer) := by
  cases hworker : r.state.workers buffer with
  | none =>
    have hstep : step capacity maxSymbols r.state (.tryPop buffer) =
        { r.state with workers := Function.update r.state.workers buffer (some .loadHead) } := by
      simp only [step, hworker]
    have hstate : (r.step capacity maxSymbols (.tryPop buffer)).state = _ := hstep
    have hphases : phases (r.step capacity maxSymbols (.tryPop buffer)) =
        Function.update (phases r) (.inr buffer) (workerPhase buffer (some .loadHead)) :=
      phases_worker (by rw [hstate]) (by rw [hstate]) rfl
    have hidle : phases r (.inr buffer) = .idle := by
      rw [phases, hworker]
      rfl
    refine ⟨system, ?_, ?_⟩
    · rw [hphases]
      simp only [events, hworker]
      exact .call (Sum.inr buffer) (RouterOp.call (.tryPop buffer)) hidle (.nil _)
    · rw [hstep]
      refine ⟨h.bound, h.symbolMap, fun tally => ?_, fun other => ?_⟩
      · rw [h.tallies tally]
        cases tally <;> rfl
      · obtain ⟨producer, accepted, popped, refused, hsole, hin⟩ := h.rings other
        refine ⟨producer, accepted, popped, refused, hsole, ?_⟩
        by_cases hother : other = buffer
        · subst hother
          have hidle : (spsc r.state other producer accepted popped refused).consumer = .idle := by
            simp [spsc, hworker]
          have hstarted := SessionRingBufferSpsc.inStep_tryPop hin hidle
          simpa [spsc] using hstarted
        · simpa [spsc, hother] using hin
  | some pc =>
    have hstep : step capacity maxSymbols r.state (.tryPop buffer) = r.state := by
      simp only [step, hworker]
    refine ⟨system, ?_, by rw [hstep]; exact h⟩
    have hstate : (r.step capacity maxSymbols (.tryPop buffer)).state = r.state := hstep
    rw [phases_same hstate rfl]
    simp only [events, hworker]
    exact .nil _

omit [DecidableEq Thread] in
/-- The worker's step is the consumer's step of its buffer. -/
theorem spsc_worker {s : State Thread Buffer} {buffer : Buffer} {pc : PopPc UniversalTickRecord}
    (hworker : s.workers buffer = some pc) (producer : Option (PushPc UniversalTickRecord))
    (accepted popped : List UniversalTickRecord) (refused : Nat) :
    ∃ popped', SessionRingBufferSpsc.consumerStep capacity
        (spsc s buffer producer accepted popped refused) =
      spsc (workerStep capacity s buffer) buffer producer accepted popped' refused := by
  rw [workerStep, hworker]
  simp only [spsc, SessionRingBufferSpsc.consumerStep, hworker, Option.elim_some]
  cases hstep : tryPopStep capacity (s.rings buffer) pc with
  | mk ring progress =>
    cases progress with
    | running pc' => exact ⟨popped, by simp⟩
    | returned item => exact ⟨popped ++ item.toList, by simp⟩

omit [DecidableEq Thread] in
/-- The worker of a buffer leaves the other buffers alone. -/
theorem workerStep_elsewhere (capacity : Capacity) (s : State Thread Buffer) {buffer other : Buffer}
    (hne : other ≠ buffer) :
    (workerStep capacity s buffer).rings other = s.rings other ∧
      (workerStep capacity s buffer).workers other = s.workers other := by
  rw [workerStep]
  split
  · exact ⟨rfl, rfl⟩
  · split <;> simp [hne]

omit [DecidableEq Thread] in
theorem matches_worker {s : State Thread Buffer} (h : Matches capacity maxSymbols s system)
    {buffer : Buffer} {system' : System Buffer} (hrouter : system'.router = system.router)
    (hothers : ∀ other, other ≠ buffer → system'.rings other = system.rings other)
    (hring : RingInStep capacity (workerStep capacity s buffer) buffer (system'.rings buffer)) :
    Matches capacity maxSymbols (workerStep capacity s buffer) system' := by
  obtain ⟨hlock, hmap, hcalls⟩ := workerStep_same capacity s buffer
  refine ⟨by rw [hrouter]; exact h.bound, by rw [hrouter, hmap]; exact h.symbolMap,
    fun tally => ?_, fun other => ?_⟩
  · have howed : (workerStep capacity s buffer).owed tally = s.owed tally := by
      rw [State.owed, State.owed, hlock, hcalls]
    have htally : (workerStep capacity s buffer).tally tally = s.tally tally := by
      rw [workerStep]
      split
      · rfl
      · split <;> cases tally <;> rfl
    rw [hrouter, howed, htally]
    exact h.tallies tally
  · by_cases hother : other = buffer
    · subst hother
      exact hring
    · obtain ⟨hrings, hworkers⟩ := workerStep_elsewhere capacity s hother
      rw [hothers other hother]
      exact ringInStep_move (h.rings other) hrings hworkers fun thread => by rw [hcalls]

theorem followed_workerStep (h : Matches capacity maxSymbols r.state system) (buffer : Buffer) :
    Followed capacity maxSymbols r system (.workerStep buffer) := by
  have hstate : (r.step capacity maxSymbols (.workerStep buffer)).state =
      workerStep capacity r.state buffer := rfl
  cases hworker : r.state.workers buffer with
  | none =>
    have hstep : workerStep capacity r.state buffer = r.state := by rw [workerStep, hworker]
    refine ⟨system, ?_, by rw [step, hstep]; exact h⟩
    rw [phases_same (hstate.trans hstep) rfl]
    simp only [events, hworker]
    exact .nil _
  | some pc =>
    obtain ⟨producer, accepted, popped, refused, hsole, hin⟩ := h.rings buffer
    obtain ⟨popped', hnext⟩ := spsc_worker hworker producer accepted popped refused
    have hpopping : (spsc r.state buffer producer accepted popped refused).consumer =
        .popping pc := by simp [spsc, hworker]
    have hring := SessionRingBufferSpsc.inStep_consumerStep hin hpopping
    rw [hnext] at hring
    have hcalled : phases r (.inr buffer) = .called (.call (.tryPop buffer)) := by
      rw [phases, hworker]
      rfl
    have hcalls : (r.step capacity maxSymbols (.workerStep buffer)).state.calls =
        r.state.calls := by
      rw [hstate]
      exact (workerStep_same capacity r.state buffer).2.2
    have hsole' : Sole (fun thread =>
        ((workerStep capacity r.state buffer).calls thread).pushInto buffer) producer := by
      rw [(workerStep_same capacity r.state buffer).2.2]
      exact hsole
    cases hstep : tryPopStep capacity (r.state.rings buffer) pc with
    | mk ring progress =>
      have hprogress : (tryPopStep capacity
          (spsc r.state buffer producer accepted popped refused).ring pc).2 = progress :=
        congrArg Prod.snd hstep
      rw [hprogress] at hring
      cases progress with
      | running pc' =>
        have hworkers : (workerStep capacity r.state buffer).workers =
            Function.update r.state.workers buffer (some pc') := by
          rw [workerStep, hworker]
          simp only [hstep]
        refine ⟨system, ?_, matches_worker h rfl (fun _ _ => rfl)
          ⟨producer, accepted, popped', refused, hsole', hring⟩⟩
        rw [phases_worker hcalls hworkers rfl]
        simp only [events, hworker, hstep]
        have hsame : workerPhase buffer (some pc') = phases r (.inr buffer) := hcalled.symm
        rw [hsame, Function.update_eq_self]
        exact .nil _
      | returned item =>
        have hworkers : (workerStep capacity r.state buffer).workers =
            Function.update r.state.workers buffer none := by
          rw [workerStep, hworker]
          simp only [hstep]
        obtain ⟨hitem, hin'⟩ := hring
        refine ⟨{ system with
          rings := Function.update system.rings buffer
            (tryPop capacity (system.rings buffer)).1 }, ?_, matches_worker h rfl ?_ ?_⟩
        · rw [phases_worker hcalls hworkers rfl]
          simp only [events, hworker, hstep]
          refine .act (Sum.inr buffer) (RouterOp.call (.tryPop buffer)) hcalled
            (.ret (Sum.inr buffer) (Answer.popped item) ?_ ?_)
          · simp [wholeCalls, System.call, answerOf, hitem]
          · rw [Function.update_idem]
            exact .nil _
        · exact fun other hother => Function.update_of_ne hother ..
        · have hkept : RingInStep capacity (workerStep capacity r.state buffer) buffer
              (tryPop capacity (system.rings buffer)).1 :=
            ⟨producer, accepted, popped', refused, hsole', hin'⟩
          simpa using hkept

/-- The router of whole calls follows every step that starts no push beside another. -/
theorem followed_step (hinv : Inv maxSymbols r.state)
    (h : Matches capacity maxSymbols r.state system) {action : Action Thread Buffer}
    (halone : Alone r.state action) : Followed capacity maxSymbols r system action := by
  cases action with
  | route thread tick =>
    exact followed_start h (.routeLock tick) (.call (.route tick)) rfl rfl rfl rfl rfl
      fun _ => rfl
  | registerSymbol thread symbolId buffer =>
    cases buffer with
    | none => exact followed_nullBuffer h symbolId
    | some buffer =>
      exact followed_start h (.registerLock symbolId buffer)
        (.call (.registerSymbol symbolId (some buffer))) rfl rfl rfl rfl rfl fun _ => rfl
  | unregisterSymbol thread symbolId =>
    exact followed_start h (.unregisterLock symbolId) (.call (.unregisterSymbol symbolId)) rfl rfl
      rfl rfl rfl fun _ => rfl
  | activeSymbols thread =>
    exact followed_start h .activeLock .activeSymbols rfl rfl rfl rfl rfl fun _ => rfl
  | threadStep thread => exact followed_threadStep hinv h halone
  | tryPop buffer => exact followed_tryPop h buffer
  | workerStep buffer => exact followed_workerStep h buffer

end Follow

/-- The router of whole calls before the first call. -/
def wholeStart (maxSymbols : UInt32) (slots : Buffer → Nat → UniversalTickRecord) : System Buffer :=
  ⟨newTickRouter maxSymbols, fun buffer => newBuffer (slots buffer)⟩

omit [DecidableEq Thread] in
theorem matches_initial (capacity : Capacity) (maxSymbols : UInt32)
    (slots : Buffer → Nat → UniversalTickRecord) :
    Matches capacity maxSymbols (initial slots : State Thread Buffer)
      (wholeStart maxSymbols slots) where
  bound := rfl
  symbolMap := rfl
  tallies := by
    intro tally
    cases tally <;> rfl
  rings := fun buffer =>
    ⟨none, [], [], 0, .nobody fun _ => rfl,
      SessionRingBufferSpsc.inStep_initial capacity (slots buffer)⟩

theorem along_recorded {capacity : Capacity} {maxSymbols : UInt32} {r : Recorded Thread Buffer}
    {actions : List (Action Thread Buffer)}
    (h : Along (step capacity maxSymbols) Alone r.state actions) :
    Along (Recorded.step capacity maxSymbols) (fun r action => Alone r.state action) r actions := by
  induction actions generalizing r with
  | nil => trivial
  | cons action actions ih => exact ⟨h.1, ih h.2⟩

/-- From any state that the two routers have in common. -/
theorem followed_run {capacity : Capacity} {maxSymbols : UInt32} {r : Recorded Thread Buffer}
    {system : System Buffer} (hinv : Inv maxSymbols r.state)
    (h : Matches capacity maxSymbols r.state system) {actions : List (Action Thread Buffer)}
    (halone : Along (step capacity maxSymbols) Alone r.state actions) :
    ∃ system', Steps (wholeCalls capacity) ⟨system, phases r⟩
        (trace (Recorded.step capacity maxSymbols) (events capacity) r actions)
        ⟨system', phases (actions.foldl (Recorded.step capacity maxSymbols) r)⟩ ∧
      Matches capacity maxSymbols (actions.foldl (Recorded.step capacity maxSymbols) r).state
        system' := by
  let start : AtomicObjects.State (Thread ⊕ Buffer) (System Buffer) (RouterOp Buffer) Answer :=
    ⟨system, phases r⟩
  have hstart : Inv maxSymbols r.state ∧ start.phase = phases r ∧
      Matches capacity maxSymbols r.state start.object := ⟨hinv, rfl, h⟩
  obtain ⟨⟨system', phase⟩, hsteps, -, hphase, hmatches⟩ :=
    follow_along (fun r t => Inv maxSymbols r.state ∧ t.phase = phases r ∧
        Matches capacity maxSymbols r.state t.object)
      (fun r t action halone ⟨hinv, hphase, hmatches⟩ => by
        obtain ⟨system', hsteps, hmatches'⟩ := followed_step hinv hmatches halone
        rw [← hphase] at hsteps
        exact ⟨_, hsteps, inv_step hinv action, rfl, hmatches'⟩)
      hstart (along_recorded halone)
  obtain rfl : phase = phases (actions.foldl (Recorded.step capacity maxSymbols) r) := hphase
  exact ⟨system', hsteps, hmatches⟩

omit [DecidableEq Thread] [DecidableEq Buffer] in
theorem phases_initial (maxSymbols : UInt32) (slots : Buffer → Nat → UniversalTickRecord) :
    (⟨wholeStart maxSymbols slots, phases (Recorded.initial slots : Recorded Thread Buffer)⟩ :
        AtomicObjects.State (Thread ⊕ Buffer) (System Buffer) (RouterOp Buffer) Answer) =
      AtomicObjects.State.start (wholeStart maxSymbols slots) := by
  refine congrArg (AtomicObjects.State.mk (wholeStart maxSymbols slots)) ?_
  funext party
  cases party <;> rfl

/-- For any number of threads and every interleaving in which no thread starts to push into a
buffer beside another: the history is one of the router of whole calls, each of which takes
effect at one moment, and that router ends up with the same registry, with the same ticks in
every ring, and with counters that are ahead by what is still to be counted. -/
theorem run_wholeCalls (capacity : Capacity) (maxSymbols : UInt32)
    (slots : Buffer → Nat → UniversalTickRecord) (actions : List (Action Thread Buffer))
    (halone : Along (step capacity maxSymbols) Alone (initial slots) actions) :
    ∃ system, Steps (wholeCalls capacity) (AtomicObjects.State.start (wholeStart maxSymbols slots))
        (history capacity maxSymbols slots actions)
        ⟨system, phases (recorded capacity maxSymbols slots actions)⟩ ∧
      Matches capacity maxSymbols (run capacity maxSymbols slots actions) system := by
  rw [← phases_initial, ← recorded_state]
  have hinv : Inv maxSymbols (Recorded.initial slots : Recorded Thread Buffer).state :=
    inv_initial maxSymbols slots
  exact followed_run hinv (matches_initial capacity maxSymbols slots) halone

/-- A single thread is never beside another. -/
theorem along_single (capacity : Capacity) (maxSymbols : UInt32) (s : State Unit Buffer)
    (actions : List (Action Unit Buffer)) :
    Along (step capacity maxSymbols) Alone s actions := by
  induction actions generalizing s with
  | nil => trivial
  | cons action actions ih =>
    refine ⟨?_, ih _⟩
    cases action with
    | threadStep thread =>
      intro tick buffer hfind _ other
      have hother : s.calls other = .find tick := hfind
      rw [hother]
      rfl
    | _ => trivial

def tradeIn (symbolId : UInt32) : UniversalTickRecord := ⟨0, 100, 1, symbolId, .ask, .trade⟩

/-- A pop goes on while a tick is routed into the buffer. -/
def routedAndPopped : List (Action Unit Unit) :=
  [.registerSymbol () 7 (some ()), .threadStep (), .threadStep (), .threadStep (),
    .route () (tradeIn 7), .threadStep (), .threadStep (), .tryPop (), .threadStep (),
    .workerStep (), .threadStep (), .threadStep (), .threadStep (), .workerStep (),
    .threadStep (), .workerStep (), .workerStep (), .threadStep ()]

theorem run_wholeCalls_routedAndPopped :
    ∃ system, Steps (wholeCalls sixtyFour)
        (AtomicObjects.State.start (wholeStart 4 fun _ _ => tradeIn 0))
        (history sixtyFour 4 (fun _ _ => tradeIn 0) routedAndPopped)
        ⟨system, phases (recorded sixtyFour 4 (fun _ _ => tradeIn 0) routedAndPopped)⟩ ∧
      Matches sixtyFour 4 (run sixtyFour 4 (fun _ _ => tradeIn 0) routedAndPopped) system :=
  run_wholeCalls sixtyFour 4 (fun _ _ => tradeIn 0) routedAndPopped
    (along_single sixtyFour 4 _ routedAndPopped)

end SessionRouterLocks
