import OrderFlow.AtomicObjects
import OrderFlow.OfeTickRouterOrder

/-!
# The router of `include/ofe` as atomic queues

Every history of calls and returns of any number of threads is one of a family of queues
whose operations take effect at one moment: a dispatch where it pushes, a pop where it pops
or finds its queue empty.
-/
namespace OfeTickRouter

open OfeBars AtomicObjects

variable {Thread : Type} {count : ShardCount}

inductive RouterOp where
  | dispatch (tick : UniversalTickRecord)
  | tryPop (index : UInt64)
  deriving DecidableEq, Repr

inductive RouterResult where
  | dispatched
  | popped (value : Option UniversalTickRecord)
  | outOfRange
  deriving DecidableEq, Repr

abbrev Queues (count : ShardCount) : Type := ShardIndex count → List UniversalTickRecord

/-- One queue for each shard. -/
def queues (count : ShardCount) : SequentialObject (Queues count) RouterOp RouterResult where
  apply
    | q, .dispatch tick =>
      let shard := home count tick.symbolId
      (Function.update q shard (q shard ++ [tick]), .dispatched)
    | q, .tryPop index =>
      match shardAt count index with
      | none => (q, .outOfRange)
      | some shard => (Function.update q shard (q shard).tail, .popped (q shard).head?)

/-- Whom an event of the log answers, and what. -/
def answer : Event Thread count → Thread × RouterResult
  | .dispatched thread _ => (thread, .dispatched)
  | .popped thread _ tick => (thread, .popped (some tick))
  | .foundEmpty thread _ => (thread, .popped none)
  | .outOfRange thread _ => (thread, .outOfRange)

def contents (shards : ShardIndex count → Shard Thread) : Queues count :=
  fun shard => (shards shard).queue

theorem contents_update (shards : ShardIndex count → Shard Thread) (shard : ShardIndex count)
    (changed : Shard Thread) :
    contents (Function.update shards shard changed) =
      Function.update (contents shards) shard changed.queue := by
  funext s
  by_cases hs : s = shard
  · subst hs
    simp [contents]
  · simp [contents, hs]

theorem contents_mutex (shards : ShardIndex count → Shard Thread) (shard : ShardIndex count)
    (mutex : Option Thread) :
    contents (Function.update shards shard { shards shard with mutex := mutex }) =
      contents shards := by
  rw [contents_update]
  exact Function.update_eq_self shard (contents shards)

section Histories

variable [DecidableEq Thread]

/-- The latest answer to a thread. -/
def resultOf (log : List (Event Thread count)) (thread : Thread) : Option RouterResult :=
  (((log.map answer).filter fun entry => entry.1 = thread).getLast?).map Prod.snd

abbrev RouterEvent (Thread : Type) : Type := AtomicObjects.Event Thread RouterOp RouterResult

/-- The calls and returns of one step. A call returns when it has given the mutex back. -/
def events (r : TickRouter Thread count) : Action Thread → List (RouterEvent Thread)
  | .dispatch thread tick =>
    match r.calls thread with
    | .idle => [.call thread (.dispatch tick)]
    | _ => []
  | .tryPop thread index =>
    match r.calls thread with
    | .idle =>
      match shardAt count index with
      | none => [.call thread (.tryPop index), .ret thread .outOfRange]
      | some _ => [.call thread (.tryPop index)]
    | _ => []
  | .threadStep thread =>
    match r.calls thread with
    | .unlock _ => (resultOf r.log thread).toList.map (.ret thread)
    | _ => []

def history (count : ShardCount) (actions : List (Action Thread)) : List (RouterEvent Thread) :=
  trace step events (newRouter count) actions

/-- The argument with which a shard was chosen. -/
def indexOf (shard : ShardIndex count) : UInt64 := UInt64.ofNat shard.val

def phaseOf (call : Call count) (result : Option RouterResult) : Phase RouterOp RouterResult :=
  match call with
  | .idle => .idle
  | .lockToDispatch _ tick => .called (.dispatch tick)
  | .pushBack _ tick => .called (.dispatch tick)
  | .lockToPop shard => .called (.tryPop (indexOf shard))
  | .testEmpty shard => .called (.tryPop (indexOf shard))
  | .copyFront shard => .called (.tryPop (indexOf shard))
  | .popFront shard _ => .called (.tryPop (indexOf shard))
  | .unlock _ => result.elim .idle .done

def phases (r : TickRouter Thread count) (thread : Thread) : Phase RouterOp RouterResult :=
  phaseOf (r.calls thread) (resultOf r.log thread)

/-- What the router is as queues. -/
def abstraction (r : TickRouter Thread count) :
    AtomicObjects.State Thread (Queues count) RouterOp RouterResult :=
  ⟨contents r.shards, phases r⟩

/-- Whoever is about to give a mutex back has been answered. -/
def Answered (r : TickRouter Thread count) : Prop :=
  ∀ thread shard, r.calls thread = .unlock shard → (resultOf r.log thread).isSome

theorem resultOf_snoc (log : List (Event Thread count)) (event : Event Thread count)
    (thread : Thread) :
    resultOf (log ++ [event]) thread =
      if (answer event).1 = thread then some (answer event).2 else resultOf log thread := by
  rw [resultOf, List.map_append, List.filter_append, List.map_singleton]
  split
  · rename_i hthread
    simp [hthread]
  · rename_i hthread
    simp [hthread, resultOf]

theorem shardAt_eq_some {index : UInt64} {shard : ShardIndex count}
    (h : shardAt count index = some shard) : indexOf shard = index := by
  unfold shardAt at h
  split at h
  · obtain rfl := Option.some.inj h
    exact UInt64.ofNat_toNat
  · cases h

theorem shardAt_indexOf (shard : ShardIndex count) : shardAt count (indexOf shard) = some shard := by
  have hlt := shard.isLt
  have hword : shard.val < 2 ^ 64 := hlt.trans count.value.toNat_lt
  have hindex : (indexOf shard).toNat = shard.val := by
    rw [indexOf, UInt64.toNat_ofNat']
    exact Nat.mod_eq_of_lt hword
  have hin : indexOf shard < count.value := by
    rw [UInt64.lt_iff_toNat_lt, hindex]
    exact hlt
  rw [shardAt, dif_pos hin]
  exact congrArg some (Fin.ext hindex)

/-- Only the thread that moves changes its phase. -/
theorem phases_move (r : TickRouter Thread count) (thread : Thread)
    (shards : ShardIndex count → Shard Thread) (call : Call count) (log : List (Event Thread count))
    (hothers : ∀ other, other ≠ thread → resultOf log other = resultOf r.log other) :
    phases ⟨shards, Function.update r.calls thread call, log⟩ =
      Function.update (phases r) thread (phaseOf call (resultOf log thread)) := by
  funext other
  by_cases hother : other = thread
  · subst hother
    simp [phases]
  · simp [phases, hother, hothers other hother]

theorem answered_move {r : TickRouter Thread count} (h : Answered r) (thread : Thread)
    (shards : ShardIndex count → Shard Thread) (call : Call count) (log : List (Event Thread count))
    (hothers : ∀ other, other ≠ thread → resultOf log other = resultOf r.log other)
    (hcall : ∀ shard, call = .unlock shard → (resultOf log thread).isSome) :
    Answered ⟨shards, Function.update r.calls thread call, log⟩ := by
  intro other shard hunlock
  by_cases hother : other = thread
  · subst hother
    exact hcall shard (by simpa using hunlock)
  · simp only [Function.update_of_ne hother] at hunlock
    simpa only [hothers other hother] using h other shard hunlock

theorem resultOf_others {log : List (Event Thread count)} {event : Event Thread count}
    {thread : Thread} (hthread : (answer event).1 = thread) (other : Thread)
    (hother : other ≠ thread) : resultOf (log ++ [event]) other = resultOf log other := by
  rw [resultOf_snoc, if_neg]
  rw [hthread]
  exact hother.symm

theorem resultOf_self (log : List (Event Thread count)) (event : Event Thread count) :
    resultOf (log ++ [event]) (answer event).1 = some (answer event).2 := by
  rw [resultOf_snoc, if_pos rfl]

/-- A step of which the queues see nothing. -/
theorem abstraction_move {r : TickRouter Thread count} {thread : Thread} {call : Call count}
    {shards : ShardIndex count → Shard Thread} (hcontents : contents shards = contents r.shards)
    (hphase : phaseOf call (resultOf r.log thread) = phases r thread) :
    abstraction ⟨shards, Function.update r.calls thread call, r.log⟩ = abstraction r := by
  rw [abstraction, abstraction, phases_move r thread shards call r.log (fun _ _ => rfl), hphase,
    Function.update_eq_self]
  exact congrArg (AtomicObjects.State.mk · (phases r)) hcontents

theorem phases_of_calls {r : TickRouter Thread count} {thread : Thread} {call : Call count}
    (hthread : r.calls thread = call) : phases r thread = phaseOf call (resultOf r.log thread) := by
  rw [phases, hthread]

/-- A call takes effect and waits for its mutex to be given back. -/
theorem follow_effect {r : TickRouter Thread count} {thread : Thread} {op : RouterOp}
    {shard : ShardIndex count} {shards : ShardIndex count → Shard Thread}
    {event : Event Thread count} (hphase : phases r thread = .called op)
    (hevent : (answer event).1 = thread)
    (happly : (queues count).apply (contents r.shards) op = (contents shards, (answer event).2)) :
    Steps (queues count) (abstraction r) []
      (abstraction ⟨shards, Function.update r.calls thread (.unlock shard), r.log ++ [event]⟩) := by
  have hresult : resultOf (r.log ++ [event]) thread = some (answer event).2 :=
    hevent ▸ resultOf_self r.log event
  refine .act thread op hphase ?_
  rw [abstraction, abstraction, phases_move r thread shards _ _ (resultOf_others hevent), happly,
    hresult]
  exact .nil _

theorem answered_effect {r : TickRouter Thread count} (h : Answered r) {thread : Thread}
    {shard : ShardIndex count} {shards : ShardIndex count → Shard Thread}
    {event : Event Thread count} (hevent : (answer event).1 = thread) :
    Answered ⟨shards, Function.update r.calls thread (.unlock shard), r.log ++ [event]⟩ := by
  refine answered_move h thread shards _ _ (resultOf_others hevent) fun _ _ => ?_
  rw [← hevent, resultOf_self]
  rfl

theorem answered_quiet {r : TickRouter Thread count} (h : Answered r) {thread : Thread}
    {call : Call count} {shards : ShardIndex count → Shard Thread}
    (hcall : ∀ shard, call ≠ .unlock shard) :
    Answered ⟨shards, Function.update r.calls thread call, r.log⟩ :=
  answered_move h thread shards call r.log (fun _ _ => rfl) fun shard hunlock =>
    absurd hunlock (hcall shard)

theorem follow_quiet {r : TickRouter Thread count} (h : Answered r) {thread : Thread}
    {call : Call count} {shards : ShardIndex count → Shard Thread}
    (hcontents : contents shards = contents r.shards)
    (hphase : phaseOf call (resultOf r.log thread) = phases r thread)
    (hcall : ∀ shard, call ≠ .unlock shard) :
    Steps (queues count) (abstraction r) []
      (abstraction ⟨shards, Function.update r.calls thread call, r.log⟩) ∧
    Answered ⟨shards, Function.update r.calls thread call, r.log⟩ := by
  rw [abstraction_move hcontents hphase]
  exact ⟨.nil _, answered_quiet h hcall⟩

/-- What a thread does with its next step, as the queues see it. -/
def Followed (r : TickRouter Thread count) (action : Action Thread) : Prop :=
  Steps (queues count) (abstraction r) (events r action) (abstraction (step r action)) ∧
    Answered (step r action)

theorem follow_pushBack {r : TickRouter Thread count} (h : Inv r) (hanswered : Answered r)
    {thread : Thread} {shard : ShardIndex count} {tick : UniversalTickRecord}
    (hthread : r.calls thread = .pushBack shard tick) : Followed r (.threadStep thread) := by
  have hhome : home count tick.symbolId = shard := callOk_of_calls h hthread
  have hphase := phases_of_calls hthread
  simp only [Followed, events, step, threadStep, hthread]
  refine ⟨follow_effect hphase rfl ?_, answered_effect hanswered rfl⟩
  rw [contents_update]
  simp only [queues, hhome, answer]
  rfl

theorem follow_popFront {r : TickRouter Thread count} (h : Inv r) (hanswered : Answered r)
    {thread : Thread} {shard : ShardIndex count} {out : UniversalTickRecord}
    (hthread : r.calls thread = .popFront shard out) : Followed r (.threadStep thread) := by
  have hfront : (r.shards shard).queue.head? = some out := callOk_of_calls h hthread
  have hphase := phases_of_calls hthread
  simp only [Followed, events, step, threadStep, hthread]
  refine ⟨follow_effect hphase rfl ?_, answered_effect hanswered rfl⟩
  rw [contents_update]
  simp only [queues, shardAt_indexOf, answer, ← hfront]
  rfl

theorem follow_testEmpty {r : TickRouter Thread count} (hanswered : Answered r) {thread : Thread}
    {shard : ShardIndex count} (hthread : r.calls thread = .testEmpty shard) :
    Followed r (.threadStep thread) := by
  have hphase := phases_of_calls hthread
  simp only [Followed, events, step, threadStep, hthread]
  split
  · rename_i hempty
    have hqueue : contents r.shards shard = [] := List.isEmpty_iff.mp hempty
    refine ⟨follow_effect hphase rfl ?_, answered_effect hanswered rfl⟩
    simp only [queues, shardAt_indexOf, answer, hqueue, List.tail_nil, List.head?_nil]
    rw [← hqueue, Function.update_eq_self]
  · exact follow_quiet hanswered rfl hphase.symm (by simp)

theorem follow_unlock {r : TickRouter Thread count} (hanswered : Answered r) {thread : Thread}
    {shard : ShardIndex count} (hthread : r.calls thread = .unlock shard) :
    Followed r (.threadStep thread) := by
  obtain ⟨result, hresult⟩ := Option.isSome_iff_exists.mp (hanswered thread shard hthread)
  have hphase := phases_of_calls hthread
  rw [hresult] at hphase
  simp only [Followed, events, step, threadStep, hthread, hresult]
  refine ⟨.ret thread result hphase ?_, answered_quiet hanswered (by simp)⟩
  rw [abstraction, abstraction, contents_mutex, phases_move r thread _ .idle r.log (fun _ _ => rfl)]
  exact .nil _

theorem follow_threadStep {r : TickRouter Thread count} (h : Inv r) (hanswered : Answered r)
    (thread : Thread) : Followed r (.threadStep thread) := by
  cases hthread : r.calls thread with
  | idle =>
    simp only [Followed, events, step, threadStep, hthread]
    exact ⟨.nil _, hanswered⟩
  | lockToDispatch shard tick =>
    have hphase := phases_of_calls hthread
    simp only [Followed, events, step, threadStep, hthread]
    split
    · exact ⟨.nil _, hanswered⟩
    · exact follow_quiet hanswered (contents_mutex _ _ _) hphase.symm (by simp)
  | pushBack shard tick => exact follow_pushBack h hanswered hthread
  | lockToPop shard =>
    have hphase := phases_of_calls hthread
    simp only [Followed, events, step, threadStep, hthread]
    split
    · exact ⟨.nil _, hanswered⟩
    · exact follow_quiet hanswered (contents_mutex _ _ _) hphase.symm (by simp)
  | testEmpty shard => exact follow_testEmpty hanswered hthread
  | copyFront shard =>
    have hphase := phases_of_calls hthread
    simp only [Followed, events, step, threadStep, hthread]
    split
    · exact ⟨.nil _, hanswered⟩
    · exact follow_quiet hanswered rfl hphase.symm (by simp)
  | popFront shard out => exact follow_popFront h hanswered hthread
  | unlock shard => exact follow_unlock hanswered hthread

theorem follow_dispatch {r : TickRouter Thread count} (h : Answered r) (thread : Thread)
    (tick : UniversalTickRecord) : Followed r (.dispatch thread tick) := by
  cases hthread : r.calls thread with
  | idle =>
    simp only [Followed, events, step, hthread, shardAt_shardForSymbol]
    constructor
    · refine .call thread (RouterOp.dispatch tick) (phases_of_calls hthread) ?_
      rw [abstraction, abstraction, phases_move r thread _ _ r.log (fun _ _ => rfl)]
      exact .nil _
    · exact answered_quiet h (by simp)
  | _ =>
    simp only [Followed, events, step, hthread]
    exact ⟨.nil _, h⟩

/-- A pop beyond the last shard is answered at once. -/
theorem follow_outOfRange {r : TickRouter Thread count} (h : Answered r) {thread : Thread}
    {index : UInt64} (hidle : r.calls thread = .idle) (hindex : shardAt count index = none) :
    Followed r (.tryPop thread index) := by
  simp only [Followed, events, step, hidle, hindex]
  have hself : Function.update r.calls thread .idle = r.calls := by
    rw [← hidle, Function.update_eq_self]
  have hothers : ∀ other, other ≠ thread →
      resultOf (r.log ++ [.outOfRange thread index]) other = resultOf r.log other :=
    resultOf_others rfl
  have happly : (queues count).apply (contents r.shards) (.tryPop index) =
      (contents r.shards, .outOfRange) := by
    simp [queues, hindex]
  rw [← hself]
  refine ⟨?_, answered_move h thread _ _ _ hothers (by simp)⟩
  refine .call thread (RouterOp.tryPop index) (phases_of_calls hidle)
    (.act thread (RouterOp.tryPop index) (Function.update_self ..) ?_)
  rw [abstraction, abstraction, happly]
  refine .ret thread RouterResult.outOfRange (Function.update_self ..) ?_
  rw [Function.update_idem, Function.update_idem, phases_move r thread _ _ _ hothers]
  exact .nil _

theorem follow_tryPop {r : TickRouter Thread count} (h : Answered r) (thread : Thread)
    (index : UInt64) : Followed r (.tryPop thread index) := by
  cases hthread : r.calls thread with
  | idle =>
    cases hindex : shardAt count index with
    | none => exact follow_outOfRange h hthread hindex
    | some shard =>
      simp only [Followed, events, step, hthread, hindex]
      constructor
      · refine .call thread (RouterOp.tryPop index) (phases_of_calls hthread) ?_
        rw [abstraction, abstraction, phases_move r thread _ _ r.log (fun _ _ => rfl), phaseOf,
          shardAt_eq_some hindex]
        exact .nil _
      · exact answered_quiet h (by simp)
  | _ =>
    simp only [Followed, events, step, hthread]
    exact ⟨.nil _, h⟩

theorem follow_step {r : TickRouter Thread count} (h : Inv r) (hanswered : Answered r)
    (action : Action Thread) : Followed r action := by
  cases action with
  | dispatch thread tick => exact follow_dispatch hanswered thread tick
  | tryPop thread index => exact follow_tryPop hanswered thread index
  | threadStep thread => exact follow_threadStep h hanswered thread

theorem answered_newRouter (count : ShardCount) :
    Answered (newRouter count : TickRouter Thread count) := by
  intro thread shard h
  cases h

/-- For every argument of the constructor and every interleaving of any number of threads the
history is one of the atomic queues, which hold in the end what the shards hold, and every
thread that is about to return has an answer to return. -/
theorem run_atomic (shardCount : UInt64) (actions : List (Action Thread)) :
    Steps (queues (ShardCount.ofArgument shardCount)) (State.start fun _ => [])
        (history (ShardCount.ofArgument shardCount) actions)
        (abstraction (run (ShardCount.ofArgument shardCount) actions)) ∧
      Answered (run (ShardCount.ofArgument shardCount) actions) := by
  obtain ⟨t, hsteps, -, hanswered, rfl⟩ :=
    follow (fun r t => Inv r ∧ Answered r ∧ t = abstraction r)
      (fun r t a ⟨hinv, hanswered, ht⟩ =>
        have hstep := follow_step hinv hanswered a
        ⟨abstraction (step r a), ht ▸ hstep.1, inv_step hinv a, hstep.2, rfl⟩)
      ⟨inv_newRouter _, answered_newRouter (ShardCount.ofArgument shardCount), rfl⟩ actions
  exact ⟨hsteps, hanswered⟩

/-- A dispatch and two pops, one of them of a shard that is not there. -/
example : history (ShardCount.ofArgument 0)
    [.dispatch true ⟨1, 7, 100, 2, 0, 0, 0, 0⟩, .tryPop false 0, .threadStep true,
      .threadStep false, .threadStep true, .threadStep true, .threadStep false, .threadStep false,
      .threadStep false, .threadStep false, .threadStep false, .tryPop false 5] =
    [.call true (.dispatch ⟨1, 7, 100, 2, 0, 0, 0, 0⟩), .call false (.tryPop 0),
      .ret true .dispatched, .ret false (.popped (some ⟨1, 7, 100, 2, 0, 0, 0, 0⟩)),
      .call false (.tryPop 5), .ret false .outOfRange] := by
  decide +kernel

end Histories

end OfeTickRouter
