import OrderFlow.AtomicObjects
import OrderFlow.OfeTickRouter
import Mathlib.Data.List.Basic

/-!
# Every shard of the `include/ofe` router is a queue of its own ticks

A thread inside the mutex of a shard is the only one there, so what it has read
of the queue is still true when it acts. What has been popped from a shard,
followed by what is queued in it, is therefore what was dispatched to it. The log
answers every call of every thread, but for the calls still in progress.
-/
namespace OfeTickRouter

open AtomicObjects (ofThread ofThread_append ofThread_map)
open OfeBars

variable {Thread : Type} {count : ShardCount}

/-- The ticks that reached a queue, in the order in which they did. -/
def dispatched (log : List (Event Thread count)) : List UniversalTickRecord :=
  log.filterMap fun
    | .dispatched _ tick => some tick
    | _ => none

/-- The ticks taken out of a queue, each with the shard it came from. -/
def pops (log : List (Event Thread count)) : List (ShardIndex count × UniversalTickRecord) :=
  log.filterMap fun
    | .popped _ shard tick => some (shard, tick)
    | _ => none

def poppedFrom (shard : ShardIndex count) (log : List (Event Thread count)) :
    List UniversalTickRecord :=
  ((pops log).filter fun pop => pop.1 = shard).map Prod.snd

/-- The shard to which a symbol belongs. -/
def home (count : ShardCount) (symbolId : UInt32) : ShardIndex count :=
  ⟨symbolId.toNat % count.size, Nat.mod_lt _ count.size_pos⟩

def sentTo (shard : ShardIndex count) (ticks : List UniversalTickRecord) :
    List UniversalTickRecord :=
  ticks.filter fun tick => home count tick.symbolId = shard

/-- `dispatch` never throws. -/
theorem shardAt_shardForSymbol (symbolId : UInt32) :
    shardAt count (shardForSymbol count symbolId) = some (home count symbolId) := by
  have hsize := count.size_pos
  have hmod : (shardForSymbol count symbolId).toNat = symbolId.toNat % count.size := by
    simp [shardForSymbol, ShardCount.size]
  have hlt : shardForSymbol count symbolId < count.value := by
    rw [UInt64.lt_iff_toNat_lt, hmod]
    exact Nat.mod_lt _ hsize
  rw [shardAt, dif_pos hlt]
  simp only [home, hmod]

theorem shardAt_of_le {index : UInt64} (h : count.value ≤ index) : shardAt count index = none := by
  have hnot : ¬ index < count.value := UInt64.not_lt.mpr h
  rw [shardAt, dif_neg hnot]

@[simp] theorem dispatched_append (log events : List (Event Thread count)) :
    dispatched (log ++ events) = dispatched log ++ dispatched events := List.filterMap_append

@[simp] theorem pops_append (log events : List (Event Thread count)) :
    pops (log ++ events) = pops log ++ pops events := List.filterMap_append

@[simp] theorem poppedFrom_append (shard : ShardIndex count) (log events : List (Event Thread count)) :
    poppedFrom shard (log ++ events) = poppedFrom shard log ++ poppedFrom shard events := by
  simp [poppedFrom]

@[simp] theorem sentTo_append (shard : ShardIndex count) (ticks more : List UniversalTickRecord) :
    sentTo shard (ticks ++ more) = sentTo shard ticks ++ sentTo shard more := List.filter_append _ _

@[simp] theorem dispatched_dispatched (thread : Thread) (tick : UniversalTickRecord) :
    dispatched [(.dispatched thread tick : Event Thread count)] = [tick] := rfl

@[simp] theorem dispatched_popped (thread : Thread) (shard : ShardIndex count)
    (tick : UniversalTickRecord) : dispatched [.popped thread shard tick] = [] := rfl

@[simp] theorem dispatched_foundEmpty (thread : Thread) (shard : ShardIndex count) :
    dispatched [.foundEmpty thread shard] = [] := rfl

@[simp] theorem pops_foundEmpty (thread : Thread) (shard : ShardIndex count) :
    pops [.foundEmpty thread shard] = [] := rfl

@[simp] theorem poppedFrom_dispatched (shard : ShardIndex count) (thread : Thread)
    (tick : UniversalTickRecord) : poppedFrom shard [.dispatched thread tick] = [] := rfl

@[simp] theorem poppedFrom_popped_self (shard : ShardIndex count) (thread : Thread)
    (tick : UniversalTickRecord) : poppedFrom shard [.popped thread shard tick] = [tick] := by
  simp [poppedFrom, pops]

theorem poppedFrom_popped_other {shard s : ShardIndex count} (hne : s ≠ shard) (thread : Thread)
    (tick : UniversalTickRecord) : poppedFrom s [.popped thread shard tick] = [] := by
  simp [poppedFrom, pops, hne.symm]

theorem sentTo_home (tick : UniversalTickRecord) : sentTo (home count tick.symbolId) [tick] = [tick] := by
  simp [sentTo]

theorem sentTo_other {s : ShardIndex count} {tick : UniversalTickRecord}
    (hne : s ≠ home count tick.symbolId) : sentTo s [tick] = [] := by
  simp [sentTo, hne.symm]

/-- The shard on which a call works. -/
def Call.shard : Call count → Option (ShardIndex count)
  | .idle => none
  | .lockToDispatch shard _ => some shard
  | .pushBack shard _ => some shard
  | .lockToPop shard => some shard
  | .testEmpty shard => some shard
  | .copyFront shard => some shard
  | .popFront shard _ => some shard
  | .unlock shard => some shard

/-- The shard whose mutex a thread has. -/
def Call.holding : Call count → Option (ShardIndex count)
  | .pushBack shard _ => some shard
  | .testEmpty shard => some shard
  | .copyFront shard => some shard
  | .popFront shard _ => some shard
  | .unlock shard => some shard
  | _ => none

/-- What a call has found out so far. -/
def CallOk (shards : ShardIndex count → Shard Thread) : Call count → Prop
  | .lockToDispatch shard tick => home count tick.symbolId = shard
  | .pushBack shard tick => home count tick.symbolId = shard
  | .copyFront shard => (shards shard).queue ≠ []
  | .popFront shard out => (shards shard).queue.head? = some out
  | _ => True

structure Inv (r : TickRouter Thread count) : Prop where
  exclusive : ∀ thread shard, (r.calls thread).holding = some shard →
    (r.shards shard).mutex = some thread
  call : ∀ thread, CallOk r.shards (r.calls thread)
  fifo : ∀ shard, poppedFrom shard r.log ++ (r.shards shard).queue = sentTo shard (dispatched r.log)

/-- What a thread knows at its point of the code. -/
theorem callOk_of_calls {r : TickRouter Thread count} (h : Inv r) {thread : Thread}
    {call : Call count} (hthread : r.calls thread = call) : CallOk r.shards call := by
  have hcall := h.call thread
  rwa [hthread] at hcall

theorem inv_newRouter (count : ShardCount) : Inv (newRouter count : TickRouter Thread count) where
  exclusive := by
    intro thread shard h
    cases h
  call := fun _ => trivial
  fifo := fun _ => rfl

theorem callOk_congr {shards shards' : ShardIndex count → Shard Thread} {call : Call count}
    (h : CallOk shards call)
    (hsame : ∀ shard, call.holding = some shard → shards' shard = shards shard) :
    CallOk shards' call := by
  cases call with
  | copyFront shard => simpa only [CallOk, hsame shard rfl] using h
  | popFront shard out => simpa only [CallOk, hsame shard rfl] using h
  | _ => exact h

/-- Taking or giving back a mutex leaves the queues alone. -/
theorem fifo_of_queue_eq {r : TickRouter Thread count} (h : Inv r) (shard : ShardIndex count)
    (mutex : Option Thread) (s : ShardIndex count) :
    poppedFrom s r.log ++
        (Function.update r.shards shard { r.shards shard with mutex := mutex } s).queue =
      sentTo s (dispatched r.log) := by
  by_cases hs : s = shard
  · subst hs
    simpa using h.fifo s
  · simpa [Function.update_of_ne hs] using h.fifo s

section Moves

variable [DecidableEq Thread]

/-- One thread moves on; the shards that the others have locked stay as they are. -/
theorem inv_move {r : TickRouter Thread count} (h : Inv r) (thread : Thread)
    (shards : ShardIndex count → Shard Thread) (call : Call count) (log : List (Event Thread count))
    (hothers : ∀ other, other ≠ thread → ∀ shard, (r.calls other).holding = some shard →
      shards shard = r.shards shard)
    (hheld : ∀ shard, call.holding = some shard → (shards shard).mutex = some thread)
    (hcall : CallOk shards call)
    (hfifo : ∀ shard, poppedFrom shard log ++ (shards shard).queue = sentTo shard (dispatched log)) :
    Inv ⟨shards, Function.update r.calls thread call, log⟩ := by
  constructor
  case exclusive =>
    intro other shard hother
    by_cases hne : other = thread
    · subst hne
      exact hheld shard (by simpa using hother)
    · simp only [Function.update_of_ne hne] at hother
      simpa only [hothers other hne shard hother] using h.exclusive other shard hother
  case call =>
    intro other
    by_cases hne : other = thread
    · subst hne
      simpa using hcall
    · simp only [Function.update_of_ne hne]
      exact callOk_congr (h.call other) (hothers other hne)
  case fifo => exact hfifo

/-- A thread moves on without touching a shard. -/
theorem inv_advance {r : TickRouter Thread count} (h : Inv r) (thread : Thread) (call : Call count)
    (log : List (Event Thread count))
    (hheld : ∀ shard, call.holding = some shard → (r.calls thread).holding = some shard)
    (hcall : CallOk r.shards call) (hdispatched : dispatched log = dispatched r.log)
    (hpops : pops log = pops r.log) :
    Inv ⟨r.shards, Function.update r.calls thread call, log⟩ := by
  refine inv_move h thread r.shards call log (fun _ _ _ _ => rfl) ?_ hcall ?_
  · intro shard hshard
    exact h.exclusive thread shard (hheld shard hshard)
  · intro shard
    rw [hdispatched, poppedFrom, hpops]
    exact h.fifo shard

/-- A thread changes a shard that no other thread has locked. -/
theorem inv_change {r : TickRouter Thread count} (h : Inv r) (thread : Thread)
    (shard : ShardIndex count) (changed : Shard Thread) (call : Call count)
    (log : List (Event Thread count))
    (hfree : (r.shards shard).mutex = none ∨ (r.shards shard).mutex = some thread)
    (hheld : ∀ s, call.holding = some s → s = shard ∧ changed.mutex = some thread)
    (hcall : CallOk (Function.update r.shards shard changed) call)
    (hfifo : ∀ s, poppedFrom s log ++ (Function.update r.shards shard changed s).queue =
      sentTo s (dispatched log)) :
    Inv ⟨Function.update r.shards shard changed, Function.update r.calls thread call, log⟩ := by
  refine inv_move h thread _ call log ?_ ?_ hcall hfifo
  · intro other hne s hs
    have hmutex := h.exclusive other s hs
    have hother : s ≠ shard := by
      rintro rfl
      rcases hfree with hfree | hfree
      · rw [hfree] at hmutex
        cases hmutex
      · rw [hfree] at hmutex
        exact hne (Option.some.inj hmutex).symm
    exact Function.update_of_ne hother _ _
  · intro s hs
    obtain ⟨rfl, hmutex⟩ := hheld s hs
    rw [Function.update_self]
    exact hmutex

theorem inv_lock {r : TickRouter Thread count} (h : Inv r) (thread : Thread)
    (shard : ShardIndex count) (call : Call count) (hfree : (r.shards shard).mutex = none)
    (hheld : call.holding = some shard)
    (hcall : ∀ shards : ShardIndex count → Shard Thread, CallOk shards call) :
    Inv { r with
      shards := Function.update r.shards shard { r.shards shard with mutex := some thread }
      calls := Function.update r.calls thread call } := by
  refine inv_change h thread shard _ call r.log (.inl hfree) ?_ (hcall _) (fifo_of_queue_eq h shard _)
  intro s hs
  rw [hheld] at hs
  exact ⟨(Option.some.inj hs).symm, rfl⟩

theorem inv_pushBack {r : TickRouter Thread count} (h : Inv r) {thread : Thread}
    {shard : ShardIndex count} {tick : UniversalTickRecord}
    (hthread : r.calls thread = .pushBack shard tick) : Inv (threadStep r thread) := by
  have hmutex := h.exclusive thread shard (by rw [hthread]; rfl)
  have hhome : home count tick.symbolId = shard := callOk_of_calls h hthread
  simp only [threadStep, hthread]
  refine inv_change h thread shard _ _ _ (.inr hmutex) ?_ trivial ?_
  · intro s hs
    exact ⟨(Option.some.inj hs).symm, hmutex⟩
  · intro s
    rw [poppedFrom_append, poppedFrom_dispatched, List.append_nil, dispatched_append,
      dispatched_dispatched, sentTo_append, ← h.fifo s, ← hhome]
    by_cases hs : s = home count tick.symbolId
    · subst hs
      rw [sentTo_home, Function.update_self, List.append_assoc]
    · rw [sentTo_other hs, Function.update_of_ne hs, List.append_nil]

theorem inv_popFront {r : TickRouter Thread count} (h : Inv r) {thread : Thread}
    {shard : ShardIndex count} {out : UniversalTickRecord}
    (hthread : r.calls thread = .popFront shard out) : Inv (threadStep r thread) := by
  have hmutex := h.exclusive thread shard (by rw [hthread]; rfl)
  have hfront : (r.shards shard).queue.head? = some out := callOk_of_calls h hthread
  simp only [threadStep, hthread]
  refine inv_change h thread shard _ _ _ (.inr hmutex) ?_ trivial ?_
  · intro s hs
    exact ⟨(Option.some.inj hs).symm, hmutex⟩
  · intro s
    rw [poppedFrom_append, dispatched_append, dispatched_popped, List.append_nil, ← h.fifo s]
    by_cases hs : s = shard
    · subst hs
      rw [poppedFrom_popped_self, Function.update_self, List.append_assoc, List.singleton_append,
        List.cons_head?_tail hfront]
    · rw [poppedFrom_popped_other hs, Function.update_of_ne hs, List.append_nil]

theorem inv_unlock {r : TickRouter Thread count} (h : Inv r) {thread : Thread}
    {shard : ShardIndex count} (hthread : r.calls thread = .unlock shard) :
    Inv (threadStep r thread) := by
  have hmutex := h.exclusive thread shard (by rw [hthread]; rfl)
  simp only [threadStep, hthread]
  refine inv_change h thread shard _ .idle r.log (.inr hmutex) ?_ trivial (fifo_of_queue_eq h shard _)
  intro s hs
  cases hs

/-- Every step of a thread keeps the invariant. -/
theorem inv_threadStep {r : TickRouter Thread count} (h : Inv r) (thread : Thread) :
    Inv (threadStep r thread) := by
  cases hthread : r.calls thread with
  | idle =>
    simp only [threadStep, hthread]
    exact h
  | lockToDispatch shard tick =>
    have hhome : home count tick.symbolId = shard := callOk_of_calls h hthread
    simp only [threadStep, hthread]
    split
    · exact h
    · rename_i hfree
      exact inv_lock h thread shard (.pushBack shard tick) hfree rfl fun _ => hhome
  | pushBack shard tick => exact inv_pushBack h hthread
  | lockToPop shard =>
    simp only [threadStep, hthread]
    split
    · exact h
    · rename_i hfree
      exact inv_lock h thread shard (.testEmpty shard) hfree rfl fun _ => trivial
  | testEmpty shard =>
    have hheld : (r.calls thread).holding = some shard := by rw [hthread]; rfl
    simp only [threadStep, hthread]
    split
    · exact inv_advance h thread (.unlock shard) _ (fun _ hs => hheld.trans hs) trivial (by simp)
        (by simp)
    · rename_i hqueue
      have hne : (r.shards shard).queue ≠ [] := fun he => hqueue (by rw [he]; rfl)
      exact inv_advance h thread (.copyFront shard) _ (fun _ hs => hheld.trans hs) hne rfl rfl
  | copyFront shard =>
    have hheld : (r.calls thread).holding = some shard := by rw [hthread]; rfl
    simp only [threadStep, hthread]
    split
    · exact h
    · rename_i tick rest hqueue
      have hfront : (r.shards shard).queue.head? = some tick := by rw [hqueue]; rfl
      exact inv_advance h thread (.popFront shard tick) _ (fun _ hs => hheld.trans hs) hfront rfl rfl
  | popFront shard out => exact inv_popFront h hthread
  | unlock shard => exact inv_unlock h hthread

theorem inv_step {r : TickRouter Thread count} (h : Inv r) (action : Action Thread) :
    Inv (step r action) := by
  cases action with
  | dispatch thread tick =>
    simp only [step, shardAt_shardForSymbol]
    split
    · exact inv_advance h thread _ r.log (fun _ hs => by cases hs) rfl rfl rfl
    · exact h
  | tryPop thread index =>
    simp only [step]
    split
    · split
      · exact ⟨h.exclusive, h.call, by simpa [poppedFrom, pops, dispatched] using h.fifo⟩
      · exact inv_advance h thread _ r.log (fun _ hs => by cases hs) trivial rfl rfl
    · exact h
  | threadStep thread => exact inv_threadStep h thread

theorem inv_run (count : ShardCount) (actions : List (Action Thread)) : Inv (run count actions) :=
  List.foldlRecOn actions step (inv_newRouter count) fun _ h action _ => inv_step h action

/-- The shard that an action may change. -/
def worksOn (r : TickRouter Thread count) : Action Thread → Option (ShardIndex count)
  | .threadStep thread => (r.calls thread).shard
  | _ => none

omit [DecidableEq Thread] in
theorem ne_of_shard_ne {call : Call count} {s shard : ShardIndex count}
    (hshard : call.shard = some shard) (hs : call.shard ≠ some s) : s ≠ shard := by
  rintro rfl
  exact hs hshard

/-- An action leaves the other shards as they are. -/
theorem step_other (r : TickRouter Thread count) (action : Action Thread) (s : ShardIndex count)
    (hs : worksOn r action ≠ some s) : (step r action).shards s = r.shards s := by
  cases action with
  | dispatch thread tick =>
    simp only [step]
    split
    · split <;> rfl
    · rfl
  | tryPop thread index =>
    simp only [step]
    split
    · split <;> rfl
    · rfl
  | threadStep thread =>
    simp only [worksOn] at hs
    cases hthread : r.calls thread with
    | idle => simp only [step, threadStep, hthread]
    | lockToDispatch shard tick =>
      rw [hthread] at hs
      simp only [step, threadStep, hthread]
      split
      · rfl
      · exact Function.update_of_ne (ne_of_shard_ne rfl hs) _ _
    | lockToPop shard =>
      rw [hthread] at hs
      simp only [step, threadStep, hthread]
      split
      · rfl
      · exact Function.update_of_ne (ne_of_shard_ne rfl hs) _ _
    | testEmpty shard =>
      simp only [step, threadStep, hthread]
      split <;> rfl
    | copyFront shard =>
      simp only [step, threadStep, hthread]
      split <;> rfl
    | pushBack shard tick | popFront shard out | unlock shard =>
      rw [hthread] at hs
      simp only [step, threadStep, hthread]
      exact Function.update_of_ne (ne_of_shard_ne rfl hs) _ _

/-- Nothing but an empty queue makes a pop return `false`. -/
theorem queue_of_foundEmpty (r : TickRouter Thread count) (action : Action Thread)
    (thread : Thread) (shard : ShardIndex count)
    (hlog : (step r action).log = r.log ++ [.foundEmpty thread shard]) :
    (r.shards shard).queue = [] := by
  have hsame : r.log ≠ r.log ++ [.foundEmpty thread shard] := by
    intro h
    simpa using congrArg List.length h
  have hlast : ∀ event : Event Thread count,
      r.log ++ [event] = r.log ++ [.foundEmpty thread shard] → event = .foundEmpty thread shard :=
    fun event h => List.singleton_inj.mp (List.append_cancel_left h)
  cases action with
  | dispatch t tick =>
    simp only [step, shardAt_shardForSymbol] at hlog
    split at hlog <;> exact absurd hlog hsame
  | tryPop t index =>
    simp only [step] at hlog
    split at hlog
    · split at hlog
      · cases hlast _ hlog
      · exact absurd hlog hsame
    · exact absurd hlog hsame
  | threadStep t =>
    cases hthread : r.calls t with
    | testEmpty s =>
      simp only [step, threadStep, hthread] at hlog
      split at hlog
      · rename_i hempty
        cases hlast _ hlog
        exact List.isEmpty_iff.mp hempty
      · exact absurd hlog hsame
    | pushBack s tick | popFront s out =>
      simp only [step, threadStep, hthread] at hlog
      cases hlast _ hlog
    | idle | unlock s =>
      simp only [step, threadStep, hthread] at hlog
      exact absurd hlog hsame
    | lockToDispatch s tick | lockToPop s | copyFront s =>
      simp only [step, threadStep, hthread] at hlog
      split at hlog <;> exact absurd hlog hsame

/-- What a thread asks of the router. -/
inductive Request where
  | dispatch (tick : UniversalTickRecord)
  | tryPop (index : Nat)

/-- Whose call an event of the log answers, and which. -/
def request : Event Thread count → Thread × Request
  | .dispatched thread tick => (thread, .dispatch tick)
  | .popped thread shard _ => (thread, .tryPop shard)
  | .foundEmpty thread shard => (thread, .tryPop shard)
  | .outOfRange thread index => (thread, .tryPop index.toNat)

/-- The call of a thread that the log has still to answer. -/
def Call.unanswered : Call count → List Request
  | .idle => []
  | .lockToDispatch _ tick => [.dispatch tick]
  | .pushBack _ tick => [.dispatch tick]
  | .lockToPop shard => [.tryPop shard]
  | .testEmpty shard => [.tryPop shard]
  | .copyFront shard => [.tryPop shard]
  | .popFront shard _ => [.tryPop shard]
  | .unlock _ => []

/-- The call with which a thread begins, if it is not busy. -/
def begins (r : TickRouter Thread count) : Action Thread → List (Thread × Request)
  | .dispatch thread tick =>
    match r.calls thread with
    | .idle => [(thread, .dispatch tick)]
    | _ => []
  | .tryPop thread index =>
    match r.calls thread with
    | .idle => [(thread, .tryPop index.toNat)]
    | _ => []
  | .threadStep _ => []

/-- The calls made in a run, in their order. -/
def requests : TickRouter Thread count → List (Action Thread) → List (Thread × Request)
  | _, [] => []
  | r, action :: actions => begins r action ++ requests (step r action) actions

/-- What a thread has asked so far. -/
def asked (r : TickRouter Thread count) (thread : Thread) : List Request :=
  ofThread thread (r.log.map request) ++ (r.calls thread).unanswered

/-- One thread moves on and is answered, or has a call to be answered. -/
theorem asked_move (r : TickRouter Thread count) {thread : Thread}
    (shards : ShardIndex count → Shard Thread) (call : Call count)
    {events : List (Event Thread count)} {answered begun : List Request}
    (hevents : events.map request = answered.map (Prod.mk thread))
    (hasks : answered ++ call.unanswered = (r.calls thread).unanswered ++ begun) (other : Thread) :
    asked ⟨shards, Function.update r.calls thread call, r.log ++ events⟩ other =
      asked r other ++ ofThread other (begun.map (Prod.mk thread)) := by
  simp only [asked, List.map_append, hevents, ofThread_append, ofThread_map]
  by_cases hother : other = thread
  · subst hother
    rw [Function.update_self, if_pos rfl, if_pos rfl, List.append_assoc, hasks, List.append_assoc]
  · rw [Function.update_of_ne hother, if_neg (Ne.symm hother), if_neg (Ne.symm hother),
      List.append_nil, List.append_nil]

/-- A thread moves on with its call. -/
theorem asked_advance (r : TickRouter Thread count) {thread : Thread}
    (shards : ShardIndex count → Shard Thread) (call : Call count)
    (hasks : call.unanswered = (r.calls thread).unanswered) (other : Thread) :
    asked ⟨shards, Function.update r.calls thread call, r.log⟩ other =
      asked r other ++ ofThread other [] := by
  have hnone : ([] : List (Event Thread count)).map request = [].map (Prod.mk thread) := rfl
  have hnothing : [] ++ call.unanswered = (r.calls thread).unanswered ++ [] := by simpa using hasks
  have hmove := asked_move r shards call hnone hnothing other
  rwa [List.append_nil] at hmove

/-- A thread that was not busy begins a call. -/
theorem asked_begin (r : TickRouter Thread count) {thread : Thread}
    (shards : ShardIndex count → Shard Thread) (call : Call count) {ask : Request}
    (hidle : r.calls thread = .idle) (hask : call.unanswered = [ask]) (other : Thread) :
    asked ⟨shards, Function.update r.calls thread call, r.log⟩ other =
      asked r other ++ ofThread other [(thread, ask)] := by
  have hnone : ([] : List (Event Thread count)).map request = [].map (Prod.mk thread) := rfl
  have hbegun : [] ++ call.unanswered = (r.calls thread).unanswered ++ [ask] := by
    rw [hidle, hask]
    rfl
  have hmove := asked_move r shards call hnone hbegun other
  rwa [List.append_nil] at hmove

/-- A call is answered. -/
theorem asked_answer (r : TickRouter Thread count) {thread : Thread}
    (shards : ShardIndex count → Shard Thread) (call : Call count) {event : Event Thread count}
    {ask : Request} (hevent : request event = (thread, ask))
    (hasks : ask :: call.unanswered = (r.calls thread).unanswered) (other : Thread) :
    asked ⟨shards, Function.update r.calls thread call, r.log ++ [event]⟩ other =
      asked r other ++ ofThread other [] := by
  have hone : [event].map request = [ask].map (Prod.mk thread) := by simp [hevent]
  have hnothing : [ask] ++ call.unanswered = (r.calls thread).unanswered ++ [] := by
    simpa using hasks
  exact asked_move r shards call hone hnothing other

theorem asked_same (r : TickRouter Thread count) (other : Thread) :
    asked r other = asked r other ++ ofThread other [] := (List.append_nil _).symm

theorem val_of_shardAt {index : UInt64} {shard : ShardIndex count}
    (h : shardAt count index = some shard) : shard.val = index.toNat := by
  unfold shardAt at h
  split at h
  · obtain rfl := Option.some.inj h
    rfl
  · cases h

theorem asked_threadStep (r : TickRouter Thread count) (thread other : Thread) :
    asked (threadStep r thread) other = asked r other ++ ofThread other [] := by
  cases hthread : r.calls thread with
  | idle =>
    simp only [threadStep, hthread]
    exact asked_same r other
  | lockToDispatch shard tick | lockToPop shard | copyFront shard =>
    simp only [threadStep, hthread]
    split
    · exact asked_same r other
    · exact asked_advance r _ _ (by rw [hthread]; rfl) other
  | pushBack shard tick | popFront shard out =>
    simp only [threadStep, hthread]
    exact asked_answer r _ _ rfl (by rw [hthread]; rfl) other
  | testEmpty shard =>
    simp only [threadStep, hthread]
    split
    · exact asked_answer r _ _ rfl (by rw [hthread]; rfl) other
    · exact asked_advance r _ _ (by rw [hthread]; rfl) other
  | unlock shard =>
    simp only [threadStep, hthread]
    exact asked_advance r _ _ (by rw [hthread]; rfl) other

/-- A step adds the call it begins to what its thread has asked. -/
theorem asked_step (r : TickRouter Thread count) (action : Action Thread) (other : Thread) :
    asked (step r action) other = asked r other ++ ofThread other (begins r action) := by
  cases action with
  | dispatch thread tick =>
    cases hthread : r.calls thread with
    | idle =>
      simp only [step, begins, hthread, shardAt_shardForSymbol]
      exact asked_begin r _ _ hthread rfl other
    | _ =>
      simp only [step, begins, hthread]
      exact asked_same r other
  | tryPop thread index =>
    cases hthread : r.calls thread with
    | idle =>
      have hself : Function.update r.calls thread .idle = r.calls := by
        rw [← hthread, Function.update_eq_self]
      cases hindex : shardAt count index with
      | none =>
        have hone : [(.outOfRange thread index : Event Thread count)].map request =
            [Request.tryPop index.toNat].map (Prod.mk thread) := rfl
        have hmove := asked_move r r.shards .idle hone (by rw [hthread]; rfl) other
        simp only [step, begins, hthread, hindex]
        rwa [hself] at hmove
      | some shard =>
        simp only [step, begins, hthread, hindex]
        exact asked_begin r _ _ hthread (by rw [← val_of_shardAt hindex]; rfl) other
    | _ =>
      simp only [step, begins, hthread]
      exact asked_same r other
  | threadStep thread => exact asked_threadStep r thread other

theorem asked_foldl (r : TickRouter Thread count) (actions : List (Action Thread)) (thread : Thread) :
    asked (actions.foldl step r) thread =
      asked r thread ++ ofThread thread (requests r actions) := by
  induction actions generalizing r with
  | nil => exact asked_same r thread
  | cons action actions ih =>
    rw [List.foldl_cons, ih, asked_step, requests, ofThread_append, List.append_assoc]

/-- The calls of a thread are those that the log answers, in that order, and the one that is
in progress. -/
theorem asked_run (actions : List (Action Thread)) (thread : Thread) :
    asked (run count actions) thread = ofThread thread (requests (newRouter count) actions) :=
  asked_foldl (newRouter count) actions thread

/-- A pop beyond the last shard throws, and that is all it does. -/
theorem step_tryPop_outOfRange (r : TickRouter Thread count) (thread : Thread) (index : UInt64)
    (hidle : r.calls thread = .idle) (hindex : count.value ≤ index) :
    step r (.tryPop thread index) = { r with log := r.log ++ [.outOfRange thread index] } := by
  simp only [step, hidle, shardAt_of_le hindex]

end Moves

/-- What has been popped from a shard belongs to it. -/
theorem home_of_pop {r : TickRouter Thread count} (h : Inv r)
    (pop : ShardIndex count × UniversalTickRecord) (hpop : pop ∈ pops r.log) :
    home count pop.2.symbolId = pop.1 := by
  have hfrom : pop.2 ∈ poppedFrom pop.1 r.log := by
    simp only [poppedFrom, List.mem_map, List.mem_filter]
    exact ⟨pop, ⟨hpop, by simp⟩, rfl⟩
  have hsent : pop.2 ∈ sentTo pop.1 (dispatched r.log) := by
    rw [← h.fifo pop.1]
    exact List.mem_append_left _ hfrom
  simpa [sentTo] using (List.mem_filter.mp hsent).2

def ofSymbol (symbolId : UInt32) (ticks : List UniversalTickRecord) : List UniversalTickRecord :=
  ticks.filter fun tick => tick.symbolId = symbolId

/-- The ticks of a symbol are all sent to its shard. -/
theorem ofSymbol_sentTo (symbolId : UInt32) (ticks : List UniversalTickRecord) :
    ofSymbol symbolId (sentTo (home count symbolId) ticks) = ofSymbol symbolId ticks := by
  simp only [ofSymbol, sentTo, List.filter_filter]
  refine List.filter_congr fun tick _ => ?_
  by_cases htick : tick.symbolId = symbolId
  · simp [htick]
  · simp [htick]

/-- The pops of a symbol are all from its shard. -/
theorem ofSymbol_pops {r : TickRouter Thread count} (h : Inv r) (symbolId : UInt32) :
    ofSymbol symbolId (poppedFrom (home count symbolId) r.log) =
      ofSymbol symbolId ((pops r.log).map Prod.snd) := by
  simp only [ofSymbol, poppedFrom, List.filter_map, List.filter_filter]
  refine congrArg (List.map Prod.snd) (List.filter_congr fun pop hpop => ?_)
  have hhome := home_of_pop h pop hpop
  by_cases htick : pop.2.symbolId = symbolId
  · rw [htick] at hhome
    simp [htick, hhome]
  · simp [htick]

/-- The ticks of a symbol come out in the order in which they went in. -/
theorem ofSymbol_pops_inOrder {r : TickRouter Thread count} (h : Inv r) (symbolId : UInt32) :
    ofSymbol symbolId ((pops r.log).map Prod.snd) <+: ofSymbol symbolId (dispatched r.log) := by
  have hfifo := congrArg (ofSymbol symbolId) (h.fifo (home count symbolId))
  rw [ofSymbol_sentTo] at hfifo
  rw [← ofSymbol_pops h, ← hfifo]
  simp only [ofSymbol, List.filter_append]
  exact List.prefix_append _ _

/-- Queues, one for each shard, of which no tick is lost and none comes out twice. The log
has the calls of every thread in the order in which it made them, but for the one in
progress. -/
structure ShardedQueues [DecidableEq Thread] (actions : List (Action Thread))
    (r : TickRouter Thread count) : Prop where
  calls : ∀ thread, ofThread thread (requests (newRouter count) actions) =
    ofThread thread (r.log.map request) ++ (r.calls thread).unanswered
  fifo : ∀ shard, poppedFrom shard r.log ++ (r.shards shard).queue =
    (dispatched r.log).filter fun tick => tick.symbolId.toNat % count.size = shard
  atMostOnce : ∀ tick, ((pops r.log).map Prod.snd).count tick ≤ (dispatched r.log).count tick
  symbolOrder : ∀ symbolId,
    (((pops r.log).map Prod.snd).filter fun tick => tick.symbolId = symbolId) <+:
      (dispatched r.log).filter fun tick => tick.symbolId = symbolId
  foundEmpty : ∀ action thread shard,
    (step r action).log = r.log ++ [.foundEmpty thread shard] → (r.shards shard).queue = []
  separate : ∀ action shard, worksOn r action ≠ some shard →
    (step r action).shards shard = r.shards shard
  outOfRange : ∀ thread index, r.calls thread = .idle → count.value ≤ index →
    step r (.tryPop thread index) = { r with log := r.log ++ [.outOfRange thread index] }
  inRange : ∀ thread tick, r.calls thread = .idle → (step r (.dispatch thread tick)).log = r.log

theorem count_pops_le {r : TickRouter Thread count} (h : Inv r) (tick : UniversalTickRecord) :
    ((pops r.log).map Prod.snd).count tick ≤ (dispatched r.log).count tick := by
  have hof : ∀ ticks : List UniversalTickRecord,
      (ofSymbol tick.symbolId ticks).count tick = ticks.count tick :=
    fun ticks => List.count_filter (by simp)
  calc ((pops r.log).map Prod.snd).count tick
      = (ofSymbol tick.symbolId ((pops r.log).map Prod.snd)).count tick := (hof _).symm
    _ ≤ (ofSymbol tick.symbolId (dispatched r.log)).count tick :=
        (ofSymbol_pops_inOrder h tick.symbolId).sublist.count_le tick
    _ = (dispatched r.log).count tick := hof _

/-- For every argument of the constructor and every interleaving of any number of
threads. -/
theorem run_shardedQueues [DecidableEq Thread] (shardCount : UInt64)
    (actions : List (Action Thread)) :
    ShardedQueues actions (run (ShardCount.ofArgument shardCount) actions) := by
  have h := inv_run (ShardCount.ofArgument shardCount) actions
  constructor
  case calls => exact fun thread => (asked_run actions thread).symm
  case fifo =>
    intro shard
    rw [h.fifo shard, sentTo]
    refine List.filter_congr fun tick _ => ?_
    simp only [home, Fin.ext_iff]
  case atMostOnce => exact count_pops_le h
  case symbolOrder => exact ofSymbol_pops_inOrder h
  case foundEmpty => exact queue_of_foundEmpty _
  case separate => exact step_other _
  case outOfRange => exact step_tryPop_outOfRange _
  case inRange =>
    intro thread tick hidle
    simp only [step, hidle, shardAt_shardForSymbol]

end OfeTickRouter
