import OrderFlow.SessionRouterAccounting
import OrderFlow.SessionRouterCalls

/-!
# The steps of a call, as the router of whole calls sees them

A route takes effect where it finds no buffer, finds its buffer full or stores the tail,
and the other calls where they have the lock and do their work. Every other step of a
thread changes nothing that the router of whole calls knows.
-/
namespace SessionRouterLocks

open Locks RingWindow SessionRingBuffer SessionTypes AtomicObjects
open SessionRingBufferSpsc (InStep takesEffect)
open SessionSymbolRegistry (System TickRouter newTickRouter)

variable {Thread Buffer : Type} [DecidableEq Thread] [DecidableEq Buffer]

omit [DecidableEq Buffer] in
theorem owed_goto {s : State Thread Buffer} {thread : Thread} (hnodup : s.lock.readers.Nodup)
    (hmem : thread ∈ s.lock.readers) (call : Call Buffer) (tally : Tally) :
    (s.goto thread call).owed tally + (if (s.calls thread).owesTo tally then 1 else 0) =
      s.owed tally + (if call.owesTo tally then 1 else 0) :=
  countP_update (Call.owesTo tally) s.calls hnodup hmem call

omit [DecidableEq Buffer] in
theorem owed_same {s : State Thread Buffer} {thread : Thread} {call : Call Buffer}
    (howes : call.owes = (s.calls thread).owes) (tally : Tally) :
    (s.goto thread call).owed tally = s.owed tally := by
  refine List.countP_congr fun other _ => ?_
  by_cases hother : other = thread
  · subst hother
    simp [State.goto, Call.owesTo, howes]
  · simp [State.goto, hother]

theorem phases_move {r r' : Recorded Thread Buffer} {thread : Thread} {call : Call Buffer}
    (hcalls : r'.state.calls = Function.update r.state.calls thread call)
    (hworkers : r'.state.workers = r.state.workers)
    (hresults : ∀ other, other ≠ thread → r'.results other = r.results other) :
    phases r' = Function.update (phases r) (.inl thread) (call.phase (r'.results thread)) := by
  funext party
  cases party with
  | inl other =>
    by_cases hother : other = thread
    · subst hother
      simp [phases, hcalls]
    · simp [phases, hcalls, hother, hresults other hother]
  | inr buffer => simp [phases, hworkers]

omit [DecidableEq Thread] [DecidableEq Buffer] in
theorem phases_same {r r' : Recorded Thread Buffer} (hstate : r'.state = r.state)
    (hresults : r'.results = r.results) : phases r' = phases r := by
  funext party
  cases party <;> simp [phases, hstate, hresults]

theorem phases_worker {r r' : Recorded Thread Buffer} {buffer : Buffer}
    {worker : Option (PopPc UniversalTickRecord)} (hcalls : r'.state.calls = r.state.calls)
    (hworkers : r'.state.workers = Function.update r.state.workers buffer worker)
    (hresults : r'.results = r.results) :
    phases r' = Function.update (phases r) (.inr buffer) (workerPhase buffer worker) := by
  funext party
  cases party with
  | inl thread => simp [phases, hcalls, hresults]
  | inr other =>
    by_cases hother : other = buffer
    · subst hother
      simp [phases, hworkers]
    · simp [phases, hworkers, hother]

theorem results_threadStep (capacity : Capacity) (maxSymbols : UInt32) (r : Recorded Thread Buffer)
    (thread : Thread) : (r.step capacity maxSymbols (.threadStep thread)).results thread =
      (resultOf maxSymbols r.state thread).getD (r.results thread) :=
  Function.update_self ..

theorem results_others (capacity : Capacity) (maxSymbols : UInt32) (r : Recorded Thread Buffer)
    {thread other : Thread} (h : other ≠ thread) :
    (r.step capacity maxSymbols (.threadStep thread)).results other = r.results other :=
  Function.update_of_ne h ..

/-- The step with which a route counts itself. -/
def counting : Tally → Call Buffer
  | .routed => .countRouted
  | .dropped => .countDropped
  | .unknown => .countUnknown

def State.count (s : State Thread Buffer) : Tally → State Thread Buffer
  | .routed => { s with ticksRouted := s.ticksRouted + 1 }
  | .dropped => { s with ticksDropped := s.ticksDropped + 1 }
  | .unknown => { s with ticksUnknown := s.ticksUnknown + 1 }

section Count

omit [DecidableEq Thread] [DecidableEq Buffer]

theorem count_calls (s : State Thread Buffer) (tally : Tally) : (s.count tally).calls = s.calls := by
  cases tally <;> rfl

theorem count_rings (s : State Thread Buffer) (tally : Tally) : (s.count tally).rings = s.rings := by
  cases tally <;> rfl

theorem count_workers (s : State Thread Buffer) (tally : Tally) :
    (s.count tally).workers = s.workers := by
  cases tally <;> rfl

theorem count_lock (s : State Thread Buffer) (tally : Tally) : (s.count tally).lock = s.lock := by
  cases tally <;> rfl

theorem count_symbolMap (s : State Thread Buffer) (tally : Tally) :
    (s.count tally).symbolMap = s.symbolMap := by
  cases tally <;> rfl

theorem count_tally (s : State Thread Buffer) (tally other : Tally) :
    (s.count tally).tally other = s.tally other + if tally = other then 1 else 0 := by
  cases tally <;> cases other <;> rfl

end Count

theorem threadStep_counting (capacity : Capacity) (maxSymbols : UInt32) {s : State Thread Buffer}
    {thread : Thread} {tally : Tally} (hcall : s.calls thread = counting tally) :
    threadStep capacity maxSymbols s thread = (s.goto thread .unlockShared).count tally := by
  rw [threadStep, hcall]
  cases tally <;> rfl

/-- The router of whole calls keeps up with a step. -/
def Followed (capacity : Capacity) (maxSymbols : UInt32) (r : Recorded Thread Buffer)
    (system : System Buffer) (action : Action Thread Buffer) : Prop :=
  ∃ system', Steps (wholeCalls capacity) ⟨system, phases r⟩ (events capacity r action)
      ⟨system', phases (r.step capacity maxSymbols action)⟩ ∧
    Matches capacity maxSymbols (step capacity maxSymbols r.state action) system'

section Moves

variable {capacity : Capacity} {maxSymbols : UInt32} {r : Recorded Thread Buffer}
  {system : System Buffer} {thread : Thread}

theorem phases_threadStep {call : Call Buffer}
    (hcalls : (threadStep capacity maxSymbols r.state thread).calls =
      Function.update r.state.calls thread call)
    (hworkers : (threadStep capacity maxSymbols r.state thread).workers = r.state.workers) :
    phases (r.step capacity maxSymbols (.threadStep thread)) =
      Function.update (phases r) (.inl thread)
        (call.phase ((resultOf maxSymbols r.state thread).getD (r.results thread))) := by
  rw [← results_threadStep capacity maxSymbols r thread]
  exact phases_move hcalls hworkers fun other => results_others capacity maxSymbols r

/-- A thread moves on, and nobody calls, answers or returns. -/
theorem followed_quiet (call : Call Buffer)
    (hcalls : (threadStep capacity maxSymbols r.state thread).calls =
      Function.update r.state.calls thread call)
    (hworkers : (threadStep capacity maxSymbols r.state thread).workers = r.state.workers)
    (hevents : events capacity r (.threadStep thread) = [])
    (hphase : call.phase ((resultOf maxSymbols r.state thread).getD (r.results thread)) =
      phases r (.inl thread))
    (hmatches : Matches capacity maxSymbols (threadStep capacity maxSymbols r.state thread) system) :
    Followed capacity maxSymbols r system (.threadStep thread) := by
  refine ⟨system, ?_, hmatches⟩
  have hphases := phases_threadStep hcalls hworkers
  rw [hphases, hphase, Function.update_eq_self, hevents]
  exact .nil _

/-- A thread's call takes effect. -/
theorem followed_effect (call : Call Buffer) (op : RouterOp Buffer) (answer : Answer)
    (system' : System Buffer)
    (hcalls : (threadStep capacity maxSymbols r.state thread).calls =
      Function.update r.state.calls thread call)
    (hworkers : (threadStep capacity maxSymbols r.state thread).workers = r.state.workers)
    (hevents : events capacity r (.threadStep thread) = [])
    (hop : phases r (.inl thread) = .called op)
    (happly : (wholeCalls capacity).apply system op = (system', answer))
    (hphase : call.phase ((resultOf maxSymbols r.state thread).getD (r.results thread)) =
      .done answer)
    (hmatches : Matches capacity maxSymbols (threadStep capacity maxSymbols r.state thread) system') :
    Followed capacity maxSymbols r system (.threadStep thread) := by
  refine ⟨system', ?_, hmatches⟩
  have hphases := phases_threadStep hcalls hworkers
  rw [hevents]
  refine .act (Sum.inl thread) op hop ?_
  rw [hphases, hphase, happly]
  exact .nil _

/-- A thread returns what it has answered. -/
theorem followed_return (hcalls : (threadStep capacity maxSymbols r.state thread).calls =
      Function.update r.state.calls thread .idle)
    (hworkers : (threadStep capacity maxSymbols r.state thread).workers = r.state.workers)
    (hevents : events capacity r (.threadStep thread) = [.ret (.inl thread) (r.results thread)])
    (hphase : phases r (.inl thread) = .done (r.results thread))
    (hmatches : Matches capacity maxSymbols (threadStep capacity maxSymbols r.state thread) system) :
    Followed capacity maxSymbols r system (.threadStep thread) := by
  refine ⟨system, ?_, hmatches⟩
  have hphases := phases_threadStep hcalls hworkers
  rw [hevents]
  refine .ret (Sum.inl thread) (r.results thread) hphase ?_
  rw [hphases]
  exact .nil _

end Moves

/-- A step that no buffer has a part in. -/
theorem matches_move {capacity : Capacity} {maxSymbols : UInt32} {s s' : State Thread Buffer}
    {system system' : System Buffer} (h : Matches capacity maxSymbols s system) (thread : Thread)
    (call : Call Buffer) (hcalls : s'.calls = Function.update s.calls thread call)
    (hrings : s'.rings = s.rings) (hworkers : s'.workers = s.workers)
    (hpush : ∀ buffer, call.pushInto buffer = (s.calls thread).pushInto buffer)
    (hsame : system'.rings = system.rings)
    (hbound : system'.router.maxSymbols = system.router.maxSymbols)
    (hmap : system'.router.symbolMap = s'.symbolMap)
    (htallies : ∀ tally, tallyOf system'.router tally = s'.tally tally + s'.owed tally) :
    Matches capacity maxSymbols s' system' where
  bound := hbound.trans h.bound
  symbolMap := hmap
  tallies := htallies
  rings := by
    intro buffer
    rw [hsame]
    refine ringInStep_move (h.rings buffer) (congrFun hrings buffer) (congrFun hworkers buffer)
      fun other => ?_
    rw [hcalls]
    have hpushes := congrFun (pushInto_update s.calls thread call buffer) other
    rw [hpush buffer, Function.update_eq_self (f := fun other => (s.calls other).pushInto buffer)]
      at hpushes
    exact hpushes

omit [DecidableEq Buffer] in
/-- What a move of a thread with the lock does to the counters and to what they are owed. -/
theorem tallies_move {s s' : State Thread Buffer} {thread : Thread} {call : Call Buffer}
    {router router' : TickRouter Buffer}
    (h : ∀ tally, tallyOf router tally = s.tally tally + s.owed tally)
    (hnodup : s.lock.readers.Nodup) (hmem : thread ∈ s.lock.readers)
    (hcalls : s'.calls = Function.update s.calls thread call) (hlock : s'.lock = s.lock)
    (hbalance : ∀ tally, tallyOf router' tally + s.tally tally +
      (if (s.calls thread).owesTo tally then 1 else 0) =
        tallyOf router tally + s'.tally tally + (if call.owesTo tally then 1 else 0)) :
    ∀ tally, tallyOf router' tally = s'.tally tally + s'.owed tally := by
  intro tally
  have howed := owed_goto hnodup hmem call tally
  have hsame : s'.owed tally = (s.goto thread call).owed tally := by
    rw [State.owed, State.owed, hlock, hcalls]
    rfl
  have hbefore := h tally
  have hmoved := hbalance tally
  omega

/-- The step of a push, and the route that it takes effect as. -/
theorem matches_push {capacity : Capacity} {maxSymbols : UInt32} {s : State Thread Buffer}
    {system : System Buffer} (hinv : Inv maxSymbols s) (h : Matches capacity maxSymbols s system)
    {thread : Thread} {tick : UniversalTickRecord} {buffer : Buffer}
    {pc : PushPc UniversalTickRecord} (hcall : s.calls thread = .push tick buffer pc) :
    match takesEffect capacity (s.rings buffer) pc with
    | none => Matches capacity maxSymbols (threadStep capacity maxSymbols s thread) system
    | some (_, ok) => ∃ system',
      (wholeCalls capacity).apply system (.call (.route tick)) = (system', .routed ok) ∧
        Matches capacity maxSymbols (threadStep capacity maxSymbols s thread) system' := by
  have hmem : thread ∈ s.lock.readers :=
    (hinv.guards.readers thread).mpr (by rw [hcall]; rfl)
  have hring := ringInStep_push capacity maxSymbols hcall (h.rings buffer)
  have heffect := afterPush_effect capacity (s.rings buffer) tick buffer pc .unregistered
  have hcalls : (threadStep capacity maxSymbols s thread).calls =
      Function.update s.calls thread (afterPush capacity (s.rings buffer) tick buffer pc) := by
    rw [threadStep_push capacity maxSymbols hcall]
    rfl
  have hlock : (threadStep capacity maxSymbols s thread).lock = s.lock := by
    rw [threadStep_push capacity maxSymbols hcall]
    rfl
  have htally : ∀ tally, (threadStep capacity maxSymbols s thread).tally tally = s.tally tally := by
    intro tally
    rw [threadStep_push capacity maxSymbols hcall]
    cases tally <;> rfl
  have hmap : (threadStep capacity maxSymbols s thread).symbolMap = s.symbolMap := by
    rw [threadStep_push capacity maxSymbols hcall]
    rfl
  cases hpush : takesEffect capacity (s.rings buffer) pc with
  | none =>
    rw [hpush] at hring heffect
    refine ⟨h.bound, h.symbolMap.trans hmap.symm, ?_, fun other => ?_⟩
    · refine tallies_move h.tallies hinv.guards.nodup hmem hcalls hlock fun tally => ?_
      rw [hcall, Call.owesTo, Call.owesTo, heffect.1, htally]
    · by_cases hne : other = buffer
      · subst hne
        exact hring
      · exact ringInStep_elsewhere capacity maxSymbols hcall hne (h.rings other)
  | some effect =>
    obtain ⟨item, ok⟩ := effect
    rw [hpush] at hring heffect
    obtain ⟨hok, hin⟩ := hring
    obtain ⟨hbefore, hafter, -, -⟩ := heffect
    have htarget : system.target tick = some buffer := by
      rw [System.target, h.symbolMap]
      exact hinv.registered thread tick buffer pc hcall
    refine ⟨(system.route capacity tick).1, ?_, ?_⟩
    · simp only [wholeCalls, System.call, answerOf]
      rw [SessionSymbolRegistry.route_target htarget, hok]
    · rw [SessionSymbolRegistry.route_target htarget, hok]
      refine ⟨h.bound, h.symbolMap.trans hmap.symm, ?_, fun other => ?_⟩
      · refine tallies_move h.tallies hinv.guards.nodup hmem hcalls hlock fun tally => ?_
        rw [hcall, Call.owesTo, Call.owesTo, hbefore, hafter, htally]
        cases ok <;> cases tally <;> simp [tallyOf] <;> omega
      · by_cases hne : other = buffer
        · subst hne
          simpa using hin
        · simpa [hne] using ringInStep_elsewhere capacity maxSymbols hcall hne (h.rings other)

section Follow

variable {capacity : Capacity} {maxSymbols : UInt32} {r : Recorded Thread Buffer}
  {system : System Buffer} {thread : Thread}

/-- A thread that is idle or waits. -/
theorem followed_still (h : Matches capacity maxSymbols r.state system)
    (hstep : threadStep capacity maxSymbols r.state thread = r.state)
    (hevents : events capacity r (.threadStep thread) = [])
    (hresult : resultOf maxSymbols r.state thread = none) :
    Followed capacity maxSymbols r system (.threadStep thread) := by
  refine followed_quiet (r.state.calls thread) ?_ ?_ hevents ?_ ?_
  · rw [hstep, Function.update_eq_self]
  · rw [hstep]
  · rw [hresult]
    rfl
  · rw [hstep]
    exact h

theorem followed_push (hinv : Inv maxSymbols r.state)
    (h : Matches capacity maxSymbols r.state system) {tick : UniversalTickRecord} {buffer : Buffer}
    {pc : PushPc UniversalTickRecord} (hcall : r.state.calls thread = .push tick buffer pc) :
    Followed capacity maxSymbols r system (.threadStep thread) := by
  have hmatches := matches_push hinv h hcall
  have heffect := afterPush_effect capacity (r.state.rings buffer) tick buffer pc (r.results thread)
  have hevents : events capacity r (.threadStep thread) = [] := by simp [events, hcall]
  have hresult : resultOf maxSymbols r.state thread = none := by simp [resultOf, hcall]
  have hphase : phases r (.inl thread) = (Call.push tick buffer pc).phase (r.results thread) := by
    rw [phases, hcall]
  have hstep := threadStep_push capacity maxSymbols hcall
  cases hpush : takesEffect capacity (r.state.rings buffer) pc with
  | none =>
    rw [hpush] at hmatches heffect
    refine followed_quiet _ (by rw [hstep]; rfl) (by rw [hstep]; rfl) hevents ?_ hmatches
    rw [hresult, hphase]
    exact heffect.2
  | some effect =>
    rw [hpush] at hmatches heffect
    obtain ⟨system', happly, hmatches⟩ := hmatches
    obtain ⟨-, -, hcalled, hdone⟩ := heffect
    refine followed_effect _ _ _ system' (by rw [hstep]; rfl) (by rw [hstep]; rfl) hevents
      (hphase.trans hcalled) happly ?_ hmatches
    rw [hresult]
    exact hdone

/-- A tick of an unknown symbol is answered where it is looked up. -/
theorem followed_find_unknown (hinv : Inv maxSymbols r.state)
    (h : Matches capacity maxSymbols r.state system) {tick : UniversalTickRecord}
    (hcall : r.state.calls thread = .find tick)
    (hlookup : r.state.symbolMap.lookup tick.symbolId = none) :
    Followed capacity maxSymbols r system (.threadStep thread) := by
  have hmem : thread ∈ r.state.lock.readers :=
    (hinv.guards.readers thread).mpr (by rw [hcall]; rfl)
  have hstep : threadStep capacity maxSymbols r.state thread = r.state.goto thread .countUnknown := by
    rw [threadStep, hcall]
    simp only [hlookup]
  have htarget : system.target tick = none := by
    rw [System.target, h.symbolMap, hlookup]
  refine followed_effect .countUnknown (.call (.route tick)) (.routed false)
    { system with router.ticksUnknown := system.router.ticksUnknown + 1 }
    (by rw [hstep]; rfl) (by rw [hstep]; rfl) (by simp [events, hcall])
    (by rw [phases, hcall]; rfl) ?_ (by rw [resultOf, hcall]; rfl) ?_
  · simp only [wholeCalls, System.call, answerOf]
    rw [SessionSymbolRegistry.route_unknown htarget]
  · rw [hstep]
    refine matches_move h thread .countUnknown rfl rfl rfl (by simp [hcall, Call.pushInto])
      rfl rfl h.symbolMap (tallies_move h.tallies hinv.guards.nodup hmem rfl rfl fun tally => ?_)
    rw [hcall]
    cases tally <;> simp [tallyOf, State.tally, State.goto, Call.owesTo, Call.owes]
    omega

/-- A buffer into which a thread starts to push. -/
theorem ringInStep_start {s : State Thread Buffer} {buffer : Buffer}
    {ring : SPSCRingBuffer UniversalTickRecord} (h : RingInStep capacity s buffer ring)
    (halone : ∀ other, (s.calls other).pushInto buffer = none) (tick : UniversalTickRecord) :
    RingInStep capacity (s.goto thread (.push tick buffer (.loadTail tick))) buffer ring := by
  obtain ⟨producer, accepted, popped, refused, hsole, hin⟩ := h
  have hnobody : producer = none := by
    cases hsole with
    | nobody _ => rfl
    | only first tick' pc hpush _ _ =>
      rw [halone first] at hpush
      cases hpush
  subst hnobody
  refine ⟨some (.loadTail tick), accepted, popped, refused, ?_,
    SessionRingBufferSpsc.inStep_push hin rfl tick⟩
  have hcall : (Call.push tick buffer (.loadTail tick)).pushInto buffer =
      some (tick, .loadTail tick) := by simp [Call.pushInto]
  simp only [State.goto, pushInto_update, hcall]
  exact sole_update (fun other _ => halone other) rfl

theorem followed_find_known (hinv : Inv maxSymbols r.state)
    (h : Matches capacity maxSymbols r.state system) {tick : UniversalTickRecord} {buffer : Buffer}
    (hcall : r.state.calls thread = .find tick)
    (hlookup : r.state.symbolMap.lookup tick.symbolId = some buffer)
    (halone : ∀ other, (r.state.calls other).pushInto buffer = none) :
    Followed capacity maxSymbols r system (.threadStep thread) := by
  have hmem : thread ∈ r.state.lock.readers :=
    (hinv.guards.readers thread).mpr (by rw [hcall]; rfl)
  have hstep : threadStep capacity maxSymbols r.state thread =
      r.state.goto thread (.push tick buffer (.loadTail tick)) := by
    rw [threadStep, hcall]
    simp only [hlookup]
  refine followed_quiet (.push tick buffer (.loadTail tick)) (by rw [hstep]; rfl)
    (by rw [hstep]; rfl) (by simp [events, hcall]) (by rw [phases, hcall]; rfl) ?_
  rw [hstep]
  refine ⟨h.bound, h.symbolMap, ?_, fun other => ?_⟩
  · refine tallies_move h.tallies hinv.guards.nodup hmem rfl rfl fun tally => ?_
    rw [hcall]
    cases tally <;> rfl
  · by_cases hother : other = buffer
    · subst hother
      exact ringInStep_start (h.rings other) halone tick
    · refine ringInStep_move (h.rings other) rfl rfl fun mover => ?_
      by_cases hmover : mover = thread
      · subst hmover
        simp [State.goto, hcall, Call.pushInto, Ne.symm hother]
      · simp [State.goto, hmover]

/-- A route that has answered counts itself. -/
theorem followed_count (hinv : Inv maxSymbols r.state)
    (h : Matches capacity maxSymbols r.state system) {tally : Tally}
    (hcall : r.state.calls thread = counting tally) :
    Followed capacity maxSymbols r system (.threadStep thread) := by
  have hmem : thread ∈ r.state.lock.readers :=
    (hinv.guards.readers thread).mpr (by rw [hcall]; cases tally <;> rfl)
  have hstep := threadStep_counting capacity maxSymbols hcall
  refine followed_quiet .unlockShared (by rw [hstep, count_calls]; rfl)
    (by rw [hstep, count_workers]; rfl) (by cases tally <;> simp [events, hcall, counting]) ?_ ?_
  · rw [phases, resultOf, hcall]
    cases tally <;> rfl
  · rw [hstep]
    refine matches_move h thread .unlockShared (count_calls _ _) (count_rings _ _)
      (count_workers _ _) (fun buffer => by rw [hcall]; cases tally <;> rfl) rfl rfl
      (by rw [count_symbolMap]; exact h.symbolMap)
      (tallies_move h.tallies hinv.guards.nodup hmem (count_calls _ _) (count_lock _ _) ?_)
    intro other
    rw [hcall, count_tally]
    cases tally <;> cases other <;> simp [counting, Call.owesTo, Call.owes, State.goto, State.tally]
    all_goals omega

/-- A thread takes the lock or gives it back, and owes nothing before or after. -/
theorem matches_lock {s : State Thread Buffer} (h : Matches capacity maxSymbols s system)
    (call : Call Buffer) (lock : RwLock Thread)
    (howed : ∀ tally, State.owed { s.goto thread call with lock := lock } tally = s.owed tally)
    (hpush : ∀ buffer, call.pushInto buffer = (s.calls thread).pushInto buffer) :
    Matches capacity maxSymbols { s.goto thread call with lock := lock } system := by
  refine matches_move h thread call rfl rfl rfl hpush rfl rfl h.symbolMap fun tally => ?_
  rw [howed tally, h.tallies tally]
  cases tally <;> rfl

omit [DecidableEq Buffer] in
/-- What the threads in the lock owe is not changed by one that comes and owes nothing. -/
theorem owed_join {s : State Thread Buffer} {call : Call Buffer} (howes : call.owes = none)
    (hsame : call.owes = (s.calls thread).owes) (tally : Tally) :
    State.owed { s.goto thread call with
      lock := { s.lock with readers := thread :: s.lock.readers } } tally = s.owed tally := by
  have hhead : call.owesTo tally = false := by simp [Call.owesTo, howes]
  rw [← owed_same hsame tally]
  simp [State.owed, State.goto, hhead]

omit [DecidableEq Buffer] in
theorem owed_part {s : State Thread Buffer} {call : Call Buffer} (howes : call.owes = none)
    (hsame : call.owes = (s.calls thread).owes) (tally : Tally) :
    State.owed { s.goto thread call with
      lock := { s.lock with readers := s.lock.readers.erase thread } } tally = s.owed tally := by
  have hhead : call.owesTo tally = false := by simp [Call.owesTo, howes]
  rw [← owed_same hsame tally]
  simp [State.owed, State.goto, List.countP_erase, hhead]

/-- A thread takes the lock, or waits for it. -/
theorem followed_lockShared (h : Matches capacity maxSymbols r.state system) (call : Call Buffer)
    (hstep : threadStep capacity maxSymbols r.state thread = r.state.lockShared thread call)
    (hevents : events capacity r (.threadStep thread) = [])
    (hresult : resultOf maxSymbols r.state thread = none)
    (hphase : call.phase (r.results thread) = (r.state.calls thread).phase (r.results thread))
    (howes : call.owes = none) (hsame : call.owes = (r.state.calls thread).owes)
    (hpush : ∀ buffer, call.pushInto buffer = (r.state.calls thread).pushInto buffer) :
    Followed capacity maxSymbols r system (.threadStep thread) := by
  by_cases hfree : r.state.lock.writer = none
  · rw [State.lockShared, if_pos hfree] at hstep
    refine followed_quiet call (by rw [hstep]; rfl) (by rw [hstep]; rfl) hevents ?_ ?_
    · rw [hresult]
      exact hphase
    · rw [hstep]
      exact matches_lock h call _ (owed_join howes hsame) hpush
  · rw [State.lockShared, if_neg hfree] at hstep
    exact followed_still h hstep hevents hresult

theorem followed_lockUnique (h : Matches capacity maxSymbols r.state system) (call : Call Buffer)
    (hstep : threadStep capacity maxSymbols r.state thread = r.state.lockUnique thread call)
    (hevents : events capacity r (.threadStep thread) = [])
    (hresult : resultOf maxSymbols r.state thread = none)
    (hphase : call.phase (r.results thread) = (r.state.calls thread).phase (r.results thread))
    (hsame : call.owes = (r.state.calls thread).owes)
    (hpush : ∀ buffer, call.pushInto buffer = (r.state.calls thread).pushInto buffer) :
    Followed capacity maxSymbols r system (.threadStep thread) := by
  by_cases hfree : r.state.lock.writer = none ∧ r.state.lock.readers = []
  · rw [State.lockUnique, if_pos hfree] at hstep
    refine followed_quiet call (by rw [hstep]; rfl) (by rw [hstep]; rfl) hevents ?_ ?_
    · rw [hresult]
      exact hphase
    · rw [hstep]
      exact matches_lock h call _ (owed_same hsame) hpush
  · rw [State.lockUnique, if_neg hfree] at hstep
    exact followed_still h hstep hevents hresult

omit [DecidableEq Thread] [DecidableEq Buffer] in
theorem erase_of_lookup_none {symbolMap : AList fun _ : UInt32 => Buffer} {symbolId : UInt32}
    (h : symbolMap.lookup symbolId = none) : symbolMap.erase symbolId = symbolMap := by
  rw [AList.lookup_eq_none, AList.mem_keys] at h
  refine AList.ext ?_
  exact List.kerase_of_notMem_keys h

/-- The registry changes under the lock. -/
theorem followed_insert (h : Matches capacity maxSymbols r.state system) {symbolId : UInt32}
    {buffer : Buffer} (hcall : r.state.calls thread = .insert symbolId buffer) :
    Followed capacity maxSymbols r system (.threadStep thread) := by
  have howed : ∀ tally, (r.state.goto thread .unlock).owed tally = r.state.owed tally :=
    owed_same (by rw [hcall]; rfl)
  have hpush : ∀ other, (Call.unlock : Call Buffer).pushInto other =
      (r.state.calls thread).pushInto other := by
    intro other
    rw [hcall]
    rfl
  have hbound := h.bound
  by_cases hfull : r.state.symbolMap.keys.length ≥ maxSymbols.toNat
  · have hstep : threadStep capacity maxSymbols r.state thread = r.state.goto thread .unlock := by
      rw [threadStep, hcall]
      simp only [hfull, if_true]
    refine followed_effect .unlock (.call (.registerSymbol symbolId (some buffer)))
      (.registered false) system (by rw [hstep]; rfl) (by rw [hstep]; rfl)
      (by simp [events, hcall]) (by rw [phases, hcall]; rfl) ?_ ?_ ?_
    · simp [wholeCalls, System.call, answerOf, TickRouter.registerSymbol, h.symbolMap, h.bound,
        hfull]
    · simp [resultOf, hcall, Call.phase, hfull]
    · rw [hstep]
      exact matches_lock h .unlock r.state.lock howed hpush
  · have hstep : threadStep capacity maxSymbols r.state thread =
        { r.state.goto thread .unlock with
          symbolMap := r.state.symbolMap.insert symbolId buffer } := by
      rw [threadStep, hcall]
      simp only [hfull, if_false]
    refine followed_effect .unlock (.call (.registerSymbol symbolId (some buffer)))
      (.registered true)
      { system with
        router.symbolMap := r.state.symbolMap.insert symbolId buffer } (by rw [hstep]; rfl)
      (by rw [hstep]; rfl) (by simp [events, hcall]) (by rw [phases, hcall]; rfl) ?_ ?_ ?_
    · simp [wholeCalls, System.call, answerOf, TickRouter.registerSymbol, h.symbolMap, h.bound,
        hfull]
    · simp [resultOf, hcall, Call.phase, Nat.lt_of_not_ge hfull]
    · rw [hstep]
      refine matches_move h thread .unlock rfl rfl rfl hpush rfl rfl rfl fun tally => ?_
      have hsame := (h.tallies tally).trans (congrArg (r.state.tally tally + ·) (howed tally).symm)
      cases tally <;> exact hsame

theorem followed_erase (h : Matches capacity maxSymbols r.state system) {symbolId : UInt32}
    (hcall : r.state.calls thread = .erase symbolId) :
    Followed capacity maxSymbols r system (.threadStep thread) := by
  have howed : ∀ tally, (r.state.goto thread .unlock).owed tally = r.state.owed tally :=
    owed_same (by rw [hcall]; rfl)
  have hstep : threadStep capacity maxSymbols r.state thread =
      { r.state.goto thread .unlock with symbolMap := r.state.symbolMap.erase symbolId } := by
    rw [threadStep, hcall]
  have hrouter : system.router.unregisterSymbol symbolId =
      { system.router with symbolMap := r.state.symbolMap.erase symbolId } := by
    rw [TickRouter.unregisterSymbol, h.symbolMap]
    split
    · rename_i hnone
      rw [erase_of_lookup_none hnone, ← h.symbolMap]
    · rfl
  refine followed_effect .unlock (.call (.unregisterSymbol symbolId)) .unregistered
    { system with router.symbolMap := r.state.symbolMap.erase symbolId } (by rw [hstep]; rfl)
    (by rw [hstep]; rfl) (by simp [events, hcall]) (by rw [phases, hcall]; rfl) ?_
    (by rw [resultOf, hcall]; rfl) ?_
  · simp only [wholeCalls, System.call, answerOf]
    rw [hrouter]
  · rw [hstep]
    refine matches_move h thread .unlock rfl rfl rfl (fun buffer => by rw [hcall]; rfl) rfl rfl rfl
      fun tally => ?_
    have hsame := (h.tallies tally).trans (congrArg (r.state.tally tally + ·) (howed tally).symm)
    cases tally <;> exact hsame

theorem followed_readSize (h : Matches capacity maxSymbols r.state system)
    (hcall : r.state.calls thread = .readSize) :
    Followed capacity maxSymbols r system (.threadStep thread) := by
  have hstep : threadStep capacity maxSymbols r.state thread =
      r.state.goto thread .unlockShared := by
    rw [threadStep, hcall]
  refine followed_effect .unlockShared .activeSymbols
    (.active (UInt32.ofNat r.state.symbolMap.keys.length)) system (by rw [hstep]; rfl)
    (by rw [hstep]; rfl) (by simp [events, hcall]) (by rw [phases, hcall]; rfl) ?_
    (by rw [resultOf, hcall]; rfl) ?_
  · simp only [wholeCalls, TickRouter.activeSymbols, h.symbolMap]
  · rw [hstep]
    exact matches_lock h .unlockShared r.state.lock (owed_same (by rw [hcall]; rfl))
      fun buffer => by rw [hcall]; rfl

theorem followed_unlockShared (h : Matches capacity maxSymbols r.state system)
    (hcall : r.state.calls thread = .unlockShared) :
    Followed capacity maxSymbols r system (.threadStep thread) := by
  have hstep : threadStep capacity maxSymbols r.state thread =
      { r.state.goto thread .idle with
        lock := { r.state.lock with readers := r.state.lock.readers.erase thread } } := by
    rw [threadStep, hcall]
  refine followed_return (by rw [hstep]; rfl) (by rw [hstep]; rfl) (by simp [events, hcall])
    (by rw [phases, hcall]; rfl) ?_
  rw [hstep]
  exact matches_lock h .idle _ (owed_part rfl (by rw [hcall]; rfl)) fun buffer => by rw [hcall]; rfl

theorem followed_unlock (h : Matches capacity maxSymbols r.state system)
    (hcall : r.state.calls thread = .unlock) :
    Followed capacity maxSymbols r system (.threadStep thread) := by
  have hstep : threadStep capacity maxSymbols r.state thread =
      { r.state.goto thread .idle with lock := { r.state.lock with writer := none } } := by
    rw [threadStep, hcall]
  refine followed_return (by rw [hstep]; rfl) (by rw [hstep]; rfl) (by simp [events, hcall])
    (by rw [phases, hcall]; rfl) ?_
  rw [hstep]
  exact matches_lock h .idle _ (owed_same (by rw [hcall]; rfl)) fun buffer => by rw [hcall]; rfl

theorem followed_threadStep (hinv : Inv maxSymbols r.state)
    (h : Matches capacity maxSymbols r.state system) (halone : Alone r.state (.threadStep thread)) :
    Followed capacity maxSymbols r system (.threadStep thread) := by
  cases hcall : r.state.calls thread with
  | idle =>
    exact followed_still h (by rw [threadStep, hcall]) (by simp [events, hcall])
      (by rw [resultOf, hcall])
  | routeLock tick =>
    exact followed_lockShared h (.find tick) (by rw [threadStep, hcall]) (by simp [events, hcall])
      (by rw [resultOf, hcall]) (by rw [hcall]; rfl) rfl (by rw [hcall]; rfl)
      fun buffer => by rw [hcall]; rfl
  | find tick =>
    cases hlookup : r.state.symbolMap.lookup tick.symbolId with
    | none => exact followed_find_unknown hinv h hcall hlookup
    | some buffer => exact followed_find_known hinv h hcall hlookup (halone tick buffer hcall hlookup)
  | push tick buffer pc => exact followed_push hinv h hcall
  | countRouted =>
    have hcounting : r.state.calls thread = counting .routed := hcall
    exact followed_count hinv h hcounting
  | countDropped =>
    have hcounting : r.state.calls thread = counting .dropped := hcall
    exact followed_count hinv h hcounting
  | countUnknown =>
    have hcounting : r.state.calls thread = counting .unknown := hcall
    exact followed_count hinv h hcounting
  | registerLock symbolId buffer =>
    exact followed_lockUnique h (.insert symbolId buffer) (by rw [threadStep, hcall])
      (by simp [events, hcall]) (by rw [resultOf, hcall]) (by rw [hcall]; rfl)
      (by rw [hcall]; rfl) fun buffer => by rw [hcall]; rfl
  | insert symbolId buffer => exact followed_insert h hcall
  | unregisterLock symbolId =>
    exact followed_lockUnique h (.erase symbolId) (by rw [threadStep, hcall])
      (by simp [events, hcall]) (by rw [resultOf, hcall]) (by rw [hcall]; rfl)
      (by rw [hcall]; rfl) fun buffer => by rw [hcall]; rfl
  | erase symbolId => exact followed_erase h hcall
  | activeLock =>
    exact followed_lockShared h .readSize (by rw [threadStep, hcall]) (by simp [events, hcall])
      (by rw [resultOf, hcall]) (by rw [hcall]; rfl) rfl (by rw [hcall]; rfl)
      fun buffer => by rw [hcall]; rfl
  | readSize => exact followed_readSize h hcall
  | unlockShared => exact followed_unlockShared h hcall
  | unlock => exact followed_unlock h hcall

end Follow

end SessionRouterLocks
