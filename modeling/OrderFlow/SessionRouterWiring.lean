import OrderFlow.SessionRouterAtomic

/-!
# One adapter for each symbol, one symbol for each buffer

Wired so, no two threads ever push into one buffer at once. When all calls have returned,
the router is what the same calls leave when they are made one after the other, in an
order that keeps each thread's own, and each has returned what it returns there.
-/
namespace SessionRouterLocks

open RingWindow SessionRingBuffer SessionTypes AtomicObjects
open SessionSymbolRegistry (System TickRouter isRoute)

variable {Thread Buffer : Type} [DecidableEq Thread] [DecidableEq Buffer]

section Wiring

variable (adapterOf : UInt32 → Thread) (symbolOf : Buffer → UInt32)

/-- Ticks come from the adapter of their symbol, and buffers are registered for their own. -/
def Wired : Action Thread Buffer → Prop
  | .route thread tick => thread = adapterOf tick.symbolId
  | .registerSymbol _ symbolId (some buffer) => symbolId = symbolOf buffer
  | _ => True

def Call.Wired (thread : Thread) : Call Buffer → Prop
  | .routeLock tick => thread = adapterOf tick.symbolId
  | .find tick => thread = adapterOf tick.symbolId
  | .push tick _ _ => thread = adapterOf tick.symbolId
  | .registerLock symbolId buffer => symbolId = symbolOf buffer
  | .insert symbolId buffer => symbolId = symbolOf buffer
  | _ => True

structure WiredState (s : State Thread Buffer) : Prop where
  calls : ∀ thread, (s.calls thread).Wired adapterOf symbolOf thread
  registered : ∀ symbolId buffer, s.symbolMap.lookup symbolId = some buffer →
    symbolId = symbolOf buffer

variable {adapterOf symbolOf}

omit [DecidableEq Buffer] in
theorem wired_moved {s s' : State Thread Buffer} (h : WiredState adapterOf symbolOf s)
    (thread : Thread) (call : Call Buffer) (hcall : call.Wired adapterOf symbolOf thread)
    (hcalls : s'.calls = Function.update s.calls thread call)
    (hmap : ∀ symbolId buffer, s'.symbolMap.lookup symbolId = some buffer →
      symbolId = symbolOf buffer) : WiredState adapterOf symbolOf s' where
  calls := by
    intro other
    rw [hcalls]
    by_cases hother : other = thread
    · subst hother
      rw [Function.update_self]
      exact hcall
    · rw [Function.update_of_ne hother]
      exact h.calls other
  registered := hmap

omit [DecidableEq Buffer] in
theorem wired_lockShared {s : State Thread Buffer} (h : WiredState adapterOf symbolOf s)
    (thread : Thread) (call : Call Buffer) (hcall : call.Wired adapterOf symbolOf thread) :
    WiredState adapterOf symbolOf (s.lockShared thread call) := by
  rw [State.lockShared]
  split
  · exact wired_moved h thread call hcall rfl h.registered
  · exact h

omit [DecidableEq Buffer] in
theorem wired_lockUnique {s : State Thread Buffer} (h : WiredState adapterOf symbolOf s)
    (thread : Thread) (call : Call Buffer) (hcall : call.Wired adapterOf symbolOf thread) :
    WiredState adapterOf symbolOf (s.lockUnique thread call) := by
  rw [State.lockUnique]
  split
  · exact wired_moved h thread call hcall rfl h.registered
  · exact h

omit [DecidableEq Buffer] in
theorem wired_start {s : State Thread Buffer} (h : WiredState adapterOf symbolOf s)
    (thread : Thread) (call : Call Buffer) (hcall : call.Wired adapterOf symbolOf thread) :
    WiredState adapterOf symbolOf (s.start thread call) := by
  rw [State.start]
  split
  · exact wired_moved h thread call hcall rfl h.registered
  · exact h

theorem wired_threadStep {capacity : Capacity} {maxSymbols : UInt32} {s : State Thread Buffer}
    (h : WiredState adapterOf symbolOf s) (thread : Thread) :
    WiredState adapterOf symbolOf (threadStep capacity maxSymbols s thread) := by
  have hwired := h.calls thread
  rw [threadStep]
  split
  case h_1 hcall => exact h
  case h_2 tick hcall =>
    rw [hcall] at hwired
    exact wired_lockShared h thread _ hwired
  case h_3 tick hcall =>
    rw [hcall] at hwired
    split
    · exact wired_moved h thread .countUnknown trivial rfl h.registered
    · exact wired_moved h thread (.push tick _ _) hwired rfl h.registered
  case h_4 tick buffer pc hcall =>
    rw [hcall] at hwired
    split
    · rename_i ring pc' hstep
      exact wired_moved h thread (.push tick buffer pc') hwired rfl h.registered
    · exact wired_moved h thread .countRouted trivial rfl h.registered
    · exact wired_moved h thread .countDropped trivial rfl h.registered
  case h_8 symbolId buffer hcall =>
    rw [hcall] at hwired
    exact wired_lockUnique h thread _ hwired
  case h_9 symbolId buffer hcall =>
    rw [hcall] at hwired
    split
    · exact wired_moved h thread .unlock trivial rfl h.registered
    · refine wired_moved h thread .unlock trivial rfl fun symbolId' buffer' hlookup => ?_
      by_cases hid : symbolId' = symbolId
      · subst hid
        rw [AList.lookup_insert] at hlookup
        cases hlookup
        exact hwired
      · rw [AList.lookup_insert_ne hid] at hlookup
        exact h.registered symbolId' buffer' hlookup
  case h_10 symbolId hcall => exact wired_lockUnique h thread _ trivial
  case h_11 symbolId hcall =>
    refine wired_moved h thread .unlock trivial rfl fun symbolId' buffer' hlookup => ?_
    by_cases hid : symbolId' = symbolId
    · subst hid
      rw [AList.lookup_erase] at hlookup
      cases hlookup
    · rw [AList.lookup_erase_ne hid] at hlookup
      exact h.registered symbolId' buffer' hlookup
  case h_12 hcall => exact wired_lockShared h thread _ trivial
  all_goals exact wired_moved h thread _ (by trivial) rfl h.registered

theorem wired_step {capacity : Capacity} {maxSymbols : UInt32} {s : State Thread Buffer}
    (h : WiredState adapterOf symbolOf s) {action : Action Thread Buffer}
    (haction : Wired adapterOf symbolOf action) :
    WiredState adapterOf symbolOf (step capacity maxSymbols s action) := by
  cases action with
  | route thread tick => exact wired_start h thread _ haction
  | registerSymbol thread symbolId buffer =>
    cases buffer with
    | none => exact h
    | some buffer => exact wired_start h thread _ haction
  | unregisterSymbol thread symbolId => exact wired_start h thread _ trivial
  | activeSymbols thread => exact wired_start h thread _ trivial
  | threadStep thread => exact wired_threadStep h thread
  | tryPop buffer =>
    simp only [step]
    split
    · exact ⟨h.calls, h.registered⟩
    · exact h
  | workerStep buffer =>
    obtain ⟨-, hmap, hcalls⟩ := workerStep_same capacity s buffer
    refine ⟨?_, ?_⟩
    · simpa only [step, hcalls] using h.calls
    · simpa only [step, hmap] using h.registered

omit [DecidableEq Thread] in
/-- The adapter that is about to push into a buffer is the only one that ever does. -/
theorem alone_of_wired {maxSymbols : UInt32} {s : State Thread Buffer} (hinv : Inv maxSymbols s)
    (h : WiredState adapterOf symbolOf s) (action : Action Thread Buffer) : Alone s action := by
  cases action with
  | threadStep thread =>
    intro tick buffer hfind hlookup other
    have hfinder := h.calls thread
    have hpusher := h.calls other
    cases hcall : s.calls other with
    | push tick' target pc =>
      by_cases htarget : target = buffer
      · subst htarget
        rw [hfind] at hfinder
        rw [hcall] at hpusher
        have hother := hinv.registered other tick' target pc hcall
        have hsymbol : tick'.symbolId = tick.symbolId :=
          (h.registered _ _ hother).trans (h.registered _ _ hlookup).symm
        have hsame : other = thread := by
          rw [hpusher, hfinder, hsymbol]
        subst hsame
        rw [hfind] at hcall
        cases hcall
      · simp [Call.pushInto, htarget]
    | _ => rfl
  | _ => trivial

theorem along_of_wired (capacity : Capacity) {maxSymbols : UInt32} {s : State Thread Buffer}
    (hinv : Inv maxSymbols s) (h : WiredState adapterOf symbolOf s)
    {actions : List (Action Thread Buffer)}
    (hactions : ∀ action ∈ actions, Wired adapterOf symbolOf action) :
    Along (step capacity maxSymbols) Alone s actions := by
  induction actions generalizing s with
  | nil => trivial
  | cons action actions ih =>
    refine ⟨alone_of_wired hinv h action, ih (inv_step hinv action) (wired_step h ?_) ?_⟩
    · exact hactions action List.mem_cons_self
    · exact fun other hother => hactions other (List.mem_cons_of_mem action hother)

omit [DecidableEq Thread] [DecidableEq Buffer] in
theorem wired_initial (slots : Buffer → Nat → UniversalTickRecord) :
    WiredState adapterOf symbolOf (initial slots : State Thread Buffer) where
  calls := fun _ => trivial
  registered := by
    intro symbolId buffer hlookup
    rw [show (initial slots : State Thread Buffer).symbolMap = ∅ from rfl] at hlookup
    simp at hlookup

end Wiring

/-- The calls that the router of whole calls has a name for. -/
def RouterOp.call? : RouterOp Buffer → Option (SessionSymbolRegistry.Call Buffer)
  | .call whole => some whole
  | .activeSymbols => none

def isRouteOp (op : RouterOp Buffer) : Bool := op.call?.any isRoute

def wholes (acts : List ((Thread ⊕ Buffer) × RouterOp Buffer)) :
    List (SessionSymbolRegistry.Call Buffer) :=
  acts.filterMap fun act => act.2.call?

omit [DecidableEq Thread] in
/-- Reading the number of symbols changes nothing. -/
theorem final_wholeCalls (capacity : Capacity) (s : SessionSymbolRegistry.State Buffer)
    (acts : List ((Thread ⊕ Buffer) × RouterOp Buffer)) :
    final (wholeCalls capacity) s.system acts =
      ((wholes acts).foldl (SessionSymbolRegistry.step capacity) s).system := by
  induction acts generalizing s with
  | nil => rfl
  | cons act acts ih =>
    obtain ⟨party, op⟩ := act
    cases op with
    | call whole => exact ih (SessionSymbolRegistry.step capacity s whole)
    | activeSymbols => exact ih s

omit [DecidableEq Thread] [DecidableEq Buffer] in
theorem countP_wholes (acts : List ((Thread ⊕ Buffer) × RouterOp Buffer)) :
    (wholes acts).countP isRoute = acts.countP fun act => isRouteOp act.2 := by
  induction acts with
  | nil => rfl
  | cons act acts ih =>
    obtain ⟨party, op⟩ := act
    rw [List.countP_cons, ← ih]
    cases op with
    | call whole => exact List.countP_cons
    | activeSymbols => rfl

/-- The calls of a run, made one after the other, with the answers they get so. -/
structure InARow (capacity : Capacity) (maxSymbols : UInt32)
    (slots : Buffer → Nat → UniversalTickRecord) (actions : List (Action Thread Buffer))
    (acts : List ((Thread ⊕ Buffer) × RouterOp Buffer)) : Prop where
  order : ∀ party, ofThread party acts =
    ofThread party (calls (history capacity maxSymbols slots actions))
  answers : ∀ party,
    ofThread party (answers (wholeCalls capacity) (wholeStart maxSymbols slots) acts) =
      ofThread party (returns (history capacity maxSymbols slots actions))

structure SameRouter (capacity : Capacity) (s : State Thread Buffer)
    (t : SessionSymbolRegistry.State Buffer) : Prop where
  symbolMap : s.symbolMap = t.system.router.symbolMap
  ticksRouted : s.ticksRouted = t.system.router.ticksRouted
  ticksDropped : s.ticksDropped = t.system.router.ticksDropped
  ticksUnknown : s.ticksUnknown = t.system.router.ticksUnknown
  held : ∀ buffer, held capacity (s.rings buffer) = held capacity (t.system.rings buffer)
  dropped : ∀ buffer, (s.rings buffer).dropped = (t.system.rings buffer).dropped

/-- Nobody is in a call. -/
structure AtRest (s : State Thread Buffer) : Prop where
  threads : ∀ thread, s.calls thread = .idle
  workers : ∀ buffer, s.workers buffer = none

omit [DecidableEq Thread] [DecidableEq Buffer] in
theorem owed_atRest {maxSymbols : UInt32} {s : State Thread Buffer} (hinv : Inv maxSymbols s)
    (h : AtRest s) (tally : Tally) : s.owed tally = 0 := by
  have hreaders : s.lock.readers = [] := by
    refine List.eq_nil_iff_forall_not_mem.mpr fun thread hmem => ?_
    have hmode := (hinv.guards.readers thread).mp hmem
    rw [h.threads thread] at hmode
    cases hmode
  rw [State.owed, hreaders]
  rfl

omit [DecidableEq Thread] in
theorem rings_atRest {capacity : Capacity} {s : State Thread Buffer} {buffer : Buffer}
    {ring : SPSCRingBuffer UniversalTickRecord} (hrest : AtRest s)
    (h : RingInStep capacity s buffer ring) :
    held capacity (s.rings buffer) = held capacity ring ∧
      (s.rings buffer).dropped = ring.dropped := by
  obtain ⟨producer, accepted, popped, refused, hsole, hin⟩ := h
  refine ⟨(SessionRingBufferSpsc.held_inStep hin).symm, ?_⟩
  have hproducer : producer = none := by
    cases hsole with
    | nobody _ => rfl
    | only thread tick pc hpush _ _ =>
      rw [hrest.threads thread] at hpush
      cases hpush
  subst hproducer
  exact hin.inv.dropped.trans hin.dropped.symm

omit [DecidableEq Thread] in
theorem sameRouter_atRest {capacity : Capacity} {maxSymbols : UInt32} {s : State Thread Buffer}
    (hinv : Inv maxSymbols s) (hrest : AtRest s) {t : SessionSymbolRegistry.State Buffer}
    (h : Matches capacity maxSymbols s t.system) : SameRouter capacity s t := by
  have htally : ∀ tally, s.tally tally = tallyOf t.system.router tally := by
    intro tally
    rw [h.tallies tally, owed_atRest hinv hrest tally]
    rfl
  exact ⟨h.symbolMap.symm, htally .routed, htally .dropped, htally .unknown,
    fun buffer => (rings_atRest hrest (h.rings buffer)).1,
    fun buffer => (rings_atRest hrest (h.rings buffer)).2⟩

omit [DecidableEq Thread] [DecidableEq Buffer] in
theorem phases_atRest {r : Recorded Thread Buffer} (h : AtRest r.state) (party : Thread ⊕ Buffer) :
    phases r party = .idle := by
  cases party with
  | inl thread =>
    rw [phases, h.threads thread]
    rfl
  | inr buffer =>
    rw [phases, h.workers buffer]
    rfl

/-- When every symbol has one adapter and every buffer one symbol, and all calls have returned:
the calls can be made one after the other, each thread's in its order and with its answers,
so that the router of whole calls ends up the same, and every route is counted once. -/
theorem run_inARow {adapterOf : UInt32 → Thread} {symbolOf : Buffer → UInt32}
    (capacity : Capacity) (maxSymbols : UInt32) (slots : Buffer → Nat → UniversalTickRecord)
    {actions : List (Action Thread Buffer)}
    (hwired : ∀ action ∈ actions, Wired adapterOf symbolOf action)
    (hrest : AtRest (run capacity maxSymbols slots actions)) :
    ∃ acts, InARow capacity maxSymbols slots actions acts ∧
      SameRouter capacity (run capacity maxSymbols slots actions)
        (SessionSymbolRegistry.run capacity maxSymbols slots (wholes acts)) ∧
      (run capacity maxSymbols slots actions).ticksRouted +
          (run capacity maxSymbols slots actions).ticksDropped +
          (run capacity maxSymbols slots actions).ticksUnknown =
        (calls (history capacity maxSymbols slots actions)).countP fun act => isRouteOp act.2 := by
  have hinv : Inv maxSymbols (Recorded.initial slots : Recorded Thread Buffer).state :=
    inv_initial maxSymbols slots
  have hstart : WiredState adapterOf symbolOf
      (Recorded.initial slots : Recorded Thread Buffer).state := wired_initial slots
  obtain ⟨system, hsteps, hmatches⟩ := followed_run hinv (matches_initial capacity maxSymbols slots)
    (along_of_wired capacity hinv hstart hwired)
  have hend : (actions.foldl (Recorded.step capacity maxSymbols) (Recorded.initial slots)).state =
      run capacity maxSymbols slots actions := recorded_state capacity maxSymbols slots actions
  rw [hend] at hmatches
  have hfresh : AtRest (Recorded.initial slots : Recorded Thread Buffer).state :=
    ⟨fun _ => rfl, fun _ => rfl⟩
  have hidle := phases_atRest (hend.symm ▸ hrest)
  obtain ⟨acts, hobject, horder, hanswers⟩ := hsteps.inARow (phases_atRest hfresh) hidle
  have hfinal : system =
      (SessionSymbolRegistry.run capacity maxSymbols slots (wholes acts)).system :=
    hobject.trans (final_wholeCalls capacity (SessionSymbolRegistry.initial maxSymbols slots) acts)
  have hsame : SameRouter capacity (run capacity maxSymbols slots actions)
      (SessionSymbolRegistry.run capacity maxSymbols slots (wholes acts)) :=
    sameRouter_atRest (inv_run capacity maxSymbols slots actions) hrest (hfinal ▸ hmatches)
  refine ⟨acts, ⟨horder, hanswers⟩, hsame, ?_⟩
  have hcounted := (SessionSymbolRegistry.inv_run capacity maxSymbols slots (wholes acts)).counted
  rw [← hsame.ticksRouted, ← hsame.ticksDropped, ← hsame.ticksUnknown, countP_wholes] at hcounted
  rw [hcounted]
  exact (perm_of_ofThread horder).countP_eq _

def adapterOfSymbol (symbolId : UInt32) : Bool := decide (symbolId = 7)

def symbolOfBuffer (buffer : Bool) : UInt32 := if buffer then 7 else 8

/-- Both adapters go on, step by step. -/
def together (steps : Nat) : List (Action Bool Bool) :=
  (List.replicate steps [.threadStep true, .threadStep false]).flatten

/-- Two adapters register their symbols and then route, side by side. -/
def twoAdapters : List (Action Bool Bool) :=
  [.registerSymbol true 7 (some true), .registerSymbol false 8 (some false)] ++ together 6 ++
    [.route true (tradeIn 7), .route false (tradeIn 8)] ++ together 8

theorem wired_twoAdapters : ∀ action ∈ twoAdapters, Wired adapterOfSymbol symbolOfBuffer action := by
  simp [twoAdapters, together, Wired, adapterOfSymbol, symbolOfBuffer, tradeIn]

theorem atRest_twoAdapters :
    AtRest (run sixtyFour 4 (fun _ _ => tradeIn 0) twoAdapters) where
  threads := by
    intro thread
    cases thread <;> rfl
  workers := by
    intro buffer
    cases buffer <;> rfl

theorem run_inARow_twoAdapters :
    ∃ acts, InARow sixtyFour 4 (fun _ _ => tradeIn 0) twoAdapters acts ∧
      SameRouter sixtyFour (run sixtyFour 4 (fun _ _ => tradeIn 0) twoAdapters)
        (SessionSymbolRegistry.run sixtyFour 4 (fun _ _ => tradeIn 0) (wholes acts)) ∧
      (calls (history sixtyFour 4 (fun _ _ => tradeIn 0) twoAdapters)).countP
        (fun act => isRouteOp act.2) = 2 := by
  obtain ⟨acts, hrow, hsame, hcounted⟩ :=
    run_inARow sixtyFour 4 (fun _ _ => tradeIn 0) wired_twoAdapters atRest_twoAdapters
  have htwo : (run sixtyFour 4 (fun _ _ => tradeIn 0) twoAdapters).ticksRouted +
      (run sixtyFour 4 (fun _ _ => tradeIn 0) twoAdapters).ticksDropped +
      (run sixtyFour 4 (fun _ _ => tradeIn 0) twoAdapters).ticksUnknown = 2 := rfl
  exact ⟨acts, hrow, hsame, hcounted.symm.trans htwo⟩

end SessionRouterLocks
