import OrderFlow.OfeTickRouterOrder
import OrderFlow.StepBudgets

/-!
# No thread is stuck in the router of `include/ofe`

A mutex is held by a thread that stands in the code it guards, and that thread has given it
back after four steps of its own at most, whatever the others do meanwhile. So there is no
deadlock, and a thread that waits is in as soon as it moves while the mutex is free.
-/
namespace OfeTickRouter

open OfeBars StepBudgets

variable {Thread : Type} {count : ShardCount}

/-- Whoever has a mutex stands in the code it guards. -/
def Held (r : TickRouter Thread count) : Prop :=
  ∀ shard thread, (r.shards shard).mutex = some thread → (r.calls thread).holding = some shard

/-- The mutex for which a call waits. -/
def Call.waiting : Call count → Option (ShardIndex count)
  | .lockToDispatch shard _ => some shard
  | .lockToPop shard => some shard
  | _ => none

/-- The steps that a call with a mutex still takes. -/
def Call.stepsLeft : Call count → Nat
  | .testEmpty _ => 4
  | .copyFront _ => 3
  | .pushBack _ _ => 2
  | .popFront _ _ => 2
  | .unlock _ => 1
  | _ => 0

/-- An action with which a thread makes a new call. -/
def Action.Starts (thread : Thread) : Action Thread → Prop
  | .dispatch t _ => t = thread
  | .tryPop t _ => t = thread
  | .threadStep _ => False

theorem idle_of_stepsLeft {call : Call count} (h : call.stepsLeft = 0)
    (hwaiting : call.waiting = none) : call = .idle := by
  cases call with
  | idle => rfl
  | lockToDispatch | lockToPop => cases hwaiting
  | _ => cases h

theorem waiting_of_holding {call : Call count} {shard : ShardIndex count}
    (h : call.holding = some shard) : call.waiting = none := by
  cases call with
  | lockToDispatch | lockToPop => cases h
  | _ => rfl

theorem stepsLeft_le (call : Call count) : call.stepsLeft ≤ 4 := by
  cases call <;> simp [Call.stepsLeft]

/-- Changing a queue leaves its mutex alone. -/
theorem mutex_update (shards : ShardIndex count → Shard Thread) (shard : ShardIndex count)
    (queue : List UniversalTickRecord) (s : ShardIndex count) :
    (Function.update shards shard { shards shard with queue := queue } s).mutex =
      (shards s).mutex := by
  by_cases hs : s = shard
  · subst hs
    simp
  · simp [Function.update_of_ne hs]

section Moves

variable [DecidableEq Thread]

theorem held_stay {r : TickRouter Thread count} (h : Held r) {thread : Thread}
    {shards : ShardIndex count → Shard Thread} {call : Call count} {log : List (Event Thread count)}
    (hmutex : ∀ shard, (shards shard).mutex = (r.shards shard).mutex)
    (hcall : call.holding = (r.calls thread).holding) :
    Held ⟨shards, Function.update r.calls thread call, log⟩ := by
  intro shard other hother
  have hholding := h shard other ((hmutex shard).symm.trans hother)
  by_cases hne : other = thread
  · subst hne
    simpa [hcall] using hholding
  · simpa [Function.update_of_ne hne] using hholding

theorem held_lock {r : TickRouter Thread count} (h : Held r) {thread : Thread}
    {shard : ShardIndex count} {call : Call count} (hidle : (r.calls thread).holding = none)
    (hcall : call.holding = some shard) :
    Held { r with
      shards := Function.update r.shards shard { r.shards shard with mutex := some thread }
      calls := Function.update r.calls thread call } := by
  intro s other hother
  by_cases hs : s = shard
  · subst hs
    obtain rfl : thread = other := by simpa using hother
    simpa using hcall
  · simp only [Function.update_of_ne hs] at hother
    have hholding := h s other hother
    have hne : other ≠ thread := by
      rintro rfl
      rw [hidle] at hholding
      cases hholding
    simpa [Function.update_of_ne hne] using hholding

theorem held_unlock {r : TickRouter Thread count} (h : Held r) {thread : Thread}
    {shard : ShardIndex count} (hthread : r.calls thread = .unlock shard) :
    Held { r with
      shards := Function.update r.shards shard { r.shards shard with mutex := none }
      calls := Function.update r.calls thread .idle } := by
  intro s other hother
  have hs : s ≠ shard := by
    rintro rfl
    simp at hother
  simp only [Function.update_of_ne hs] at hother
  have hholding := h s other hother
  have hne : other ≠ thread := by
    rintro rfl
    rw [hthread] at hholding
    exact hs (Option.some.inj hholding).symm
  simpa [Function.update_of_ne hne] using hholding

theorem held_threadStep {r : TickRouter Thread count} (h : Held r) (thread : Thread) :
    Held (threadStep r thread) := by
  cases hthread : r.calls thread with
  | idle =>
    simp only [threadStep, hthread]
    exact h
  | lockToDispatch shard tick =>
    simp only [threadStep, hthread]
    split
    · exact h
    · exact held_lock h (by rw [hthread]; rfl) rfl
  | pushBack shard tick =>
    simp only [threadStep, hthread]
    exact held_stay h (mutex_update r.shards shard _) (by rw [hthread]; rfl)
  | lockToPop shard =>
    simp only [threadStep, hthread]
    split
    · exact h
    · exact held_lock h (by rw [hthread]; rfl) rfl
  | testEmpty shard =>
    simp only [threadStep, hthread]
    split
    · exact held_stay h (fun _ => rfl) (by rw [hthread]; rfl)
    · exact held_stay h (fun _ => rfl) (by rw [hthread]; rfl)
  | copyFront shard =>
    simp only [threadStep, hthread]
    split
    · exact h
    · exact held_stay h (fun _ => rfl) (by rw [hthread]; rfl)
  | popFront shard out =>
    simp only [threadStep, hthread]
    exact held_stay h (mutex_update r.shards shard _) (by rw [hthread]; rfl)
  | unlock shard =>
    simp only [threadStep, hthread]
    exact held_unlock h hthread

theorem held_step {r : TickRouter Thread count} (h : Held r) (action : Action Thread) :
    Held (step r action) := by
  cases action with
  | dispatch thread tick =>
    simp only [step, shardAt_shardForSymbol]
    split
    · exact held_stay h (fun _ => rfl) (by simp [*, Call.holding])
    · exact h
  | tryPop thread index =>
    simp only [step]
    split
    · split
      · exact h
      · exact held_stay h (fun _ => rfl) (by simp [*, Call.holding])
    · exact h
  | threadStep thread => exact held_threadStep h thread

theorem held_run (count : ShardCount) (actions : List (Action Thread)) :
    Held (run count actions) :=
  List.foldlRecOn actions step (fun _ _ h => by cases h) fun _ h action _ => held_step h action

/-- A step of its own in a call that it is in. -/
def ownStep (thread : Thread) : Action Thread → Bool
  | .threadStep t => decide (t = thread)
  | _ => false

theorem calls_threadStep_other (r : TickRouter Thread count) {thread other : Thread}
    (h : other ≠ thread) : (threadStep r other).calls thread = r.calls thread := by
  have hne := h.symm
  cases hother : r.calls other with
  | idle | pushBack | popFront | unlock => simp [threadStep, hother, hne]
  | lockToDispatch | lockToPop | testEmpty | copyFront =>
    simp only [threadStep, hother]
    split <;> simp [hne]

/-- Nobody else moves a thread. -/
theorem calls_step_other (r : TickRouter Thread count) {thread : Thread} {action : Action Thread}
    (hstarts : ¬ action.Starts thread) (hown : ownStep thread action = false) :
    (step r action).calls thread = r.calls thread := by
  cases action with
  | dispatch t tick =>
    have hne : thread ≠ t := fun h => hstarts h.symm
    simp only [step, shardAt_shardForSymbol]
    split
    · exact Function.update_of_ne hne _ _
    · rfl
  | tryPop t index =>
    have hne : thread ≠ t := fun h => hstarts h.symm
    simp only [step]
    split
    · split
      · rfl
      · exact Function.update_of_ne hne _ _
    · rfl
  | threadStep t => exact calls_threadStep_other r (of_decide_eq_false hown)

/-- A thread with a mutex is never stuck: each of its steps brings it nearer to the end. -/
theorem stepsLeft_threadStep {r : TickRouter Thread count} (h : Inv r) {thread : Thread}
    (hwaiting : (r.calls thread).waiting = none) :
    ((threadStep r thread).calls thread).waiting = none ∧
      ((threadStep r thread).calls thread).stepsLeft ≤ (r.calls thread).stepsLeft - 1 := by
  cases hthread : r.calls thread with
  | idle => simp [threadStep, hthread, Call.waiting, Call.stepsLeft]
  | lockToDispatch | lockToPop =>
    rw [hthread] at hwaiting
    cases hwaiting
  | pushBack | popFront | unlock =>
    simp [threadStep, hthread, Call.waiting, Call.stepsLeft]
  | testEmpty shard =>
    simp only [threadStep, hthread]
    split <;> simp [Call.waiting, Call.stepsLeft]
  | copyFront shard =>
    have hqueue : (r.shards shard).queue ≠ [] := callOk_of_calls h hthread
    obtain ⟨tick, rest, hcons⟩ := List.exists_cons_of_ne_nil hqueue
    simp [threadStep, hthread, hcons, Call.waiting, Call.stepsLeft]

/-- The steps left are a budget for the steps of the thread, until it makes a new call. -/
theorem call_budget (thread : Thread) :
    Budget step (fun r : TickRouter Thread count => Inv r ∧ (r.calls thread).waiting = none)
      (fun action => ¬ action.Starts thread) (ownStep thread)
      fun r => (r.calls thread).stepsLeft where
  keep := by
    rintro r action ⟨hinv, hwaiting⟩ hstarts
    refine ⟨inv_step hinv action, ?_⟩
    cases hown : ownStep thread action with
    | false => rwa [calls_step_other r hstarts hown]
    | true =>
      cases action with
      | threadStep t =>
        obtain rfl := of_decide_eq_true hown
        exact (stepsLeft_threadStep hinv hwaiting).1
      | _ => cases hown
  other := by
    rintro r action - hstarts hown
    rw [calls_step_other r hstarts hown]
  spend := by
    rintro r action ⟨hinv, hwaiting⟩ - hown
    cases action with
    | threadStep t =>
      obtain rfl := of_decide_eq_true hown
      exact (stepsLeft_threadStep hinv hwaiting).2
    | _ => cases hown

/-- A thread stays in the code of its mutex until it has given it back. -/
theorem holding_step {r : TickRouter Thread count} {thread : Thread} {shard : ShardIndex count}
    (h : (r.calls thread).holding = some shard) {action : Action Thread}
    (hstarts : ¬ action.Starts thread) :
    ((step r action).calls thread).holding = some shard ∨
      ((step r action).shards shard).mutex = none := by
  cases hown : ownStep thread action with
  | false => exact .inl (by rwa [calls_step_other r hstarts hown])
  | true =>
    cases action with
    | threadStep t =>
      obtain rfl := of_decide_eq_true hown
      simp only [step]
      cases hthread : r.calls t with
      | idle | lockToDispatch | lockToPop =>
        rw [hthread] at h
        cases h
      | pushBack | popFront =>
        rw [hthread] at h
        simpa [threadStep, hthread, Call.holding] using Or.inl h
      | testEmpty s | copyFront s =>
        rw [hthread] at h
        simp only [threadStep, hthread]
        split <;> simpa [Call.holding, hthread] using Or.inl h
      | unlock s =>
        rw [hthread] at h
        obtain rfl := Option.some.inj h
        exact .inr (by simp [threadStep, hthread])
    | _ => cases hown

theorem released_of_left {r : TickRouter Thread count} {thread : Thread} {shard : ShardIndex count}
    (h : (r.calls thread).holding = some shard) {later : List (Action Thread)}
    (hstarts : ∀ action ∈ later, ¬ action.Starts thread)
    (hidle : (later.foldl step r).calls thread = .idle) :
    ∃ before, before <+: later ∧ ((before.foldl step r).shards shard).mutex = none := by
  induction later generalizing r with
  | nil =>
    rw [List.foldl_nil] at hidle
    rw [hidle] at h
    cases h
  | cons action later ih =>
    rcases holding_step h (hstarts action List.mem_cons_self) with hstill | hfree
    · obtain ⟨before, hbefore, hfree⟩ :=
        ih hstill (fun a ha => hstarts a (List.mem_cons_of_mem action ha)) hidle
      exact ⟨action :: before, (List.prefix_cons_inj action).mpr hbefore, hfree⟩
    · exact ⟨[action], ⟨later, rfl⟩, hfree⟩

/-- Nobody is stuck: a mutex that is taken is held by a thread in the code it guards, which
gives it back, and a thread that waits for a free one takes it. -/
structure Unblocked (r : TickRouter Thread count) : Prop where
  held : ∀ shard thread, (r.shards shard).mutex = some thread ↔
    (r.calls thread).holding = some shard
  returns : ∀ thread shard, (r.calls thread).holding = some shard →
    ∀ later, (∀ action ∈ later, ¬ Action.Starts thread action) → 4 ≤ later.countP (ownStep thread) →
      (later.foldl step r).calls thread = .idle ∧
        ∃ before, before <+: later ∧ ((before.foldl step r).shards shard).mutex = none
  enters : ∀ thread shard, (r.calls thread).waiting = some shard →
    (r.shards shard).mutex = none → ((threadStep r thread).calls thread).holding = some shard

theorem enters_of_free {r : TickRouter Thread count} {thread : Thread} {shard : ShardIndex count}
    (hwaiting : (r.calls thread).waiting = some shard) (hfree : (r.shards shard).mutex = none) :
    ((threadStep r thread).calls thread).holding = some shard := by
  cases hthread : r.calls thread with
  | lockToDispatch s tick | lockToPop s =>
    rw [hthread] at hwaiting
    obtain rfl := Option.some.inj hwaiting
    simp [threadStep, hthread, hfree, Call.holding]
  | _ =>
    rw [hthread] at hwaiting
    cases hwaiting

/-- For every argument of the constructor and every interleaving of any number of threads. -/
theorem run_unblocked (shardCount : UInt64) (actions : List (Action Thread)) :
    Unblocked (run (ShardCount.ofArgument shardCount) actions) where
  held := fun shard thread =>
    ⟨held_run _ actions shard thread, (inv_run _ actions).exclusive thread shard⟩
  returns := by
    intro thread shard hholding later hstarts hcount
    have hinv := inv_run (ShardCount.ofArgument shardCount) actions
    have hstart := And.intro hinv (waiting_of_holding hholding)
    have hdone := (call_budget thread).done hstart hstarts
      ((stepsLeft_le _).trans hcount)
    have hwaiting := ((call_budget thread).inv_run hstart hstarts).2
    have hidle := idle_of_stepsLeft hdone hwaiting
    exact ⟨hidle, released_of_left hholding hstarts hidle⟩
  enters := fun _ _ => enters_of_free

end Moves

end OfeTickRouter
