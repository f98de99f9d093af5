import Mathlib.Logic.Function.Basic

/-!
# Calls that take effect at one moment

A sequential object answers one operation at a time. When threads call it side by
side, each call takes effect once, at some moment between its call and its return, and
the history is the list of calls and returns. A machine whose steps can be followed by
such an object has only histories of the object: it is linearizable.
-/
namespace AtomicObjects

variable {τ κ ο ρ : Type} [DecidableEq τ]

/-- What an operation makes of the object, and what it returns. -/
structure SequentialObject (κ ο ρ : Type) where
  apply : κ → ο → κ × ρ

inductive Phase (ο ρ : Type) where
  | idle
  | called (op : ο)
  | done (result : ρ)
  deriving DecidableEq, Repr

inductive Event (τ ο ρ : Type) where
  | call (thread : τ) (op : ο)
  | ret (thread : τ) (result : ρ)
  deriving DecidableEq, Repr

structure State (τ κ ο ρ : Type) where
  object : κ
  phase : τ → Phase ο ρ

def State.start (object : κ) : State τ κ ο ρ := ⟨object, fun _ => .idle⟩

/-- A history of the object, called by any number of threads. -/
inductive Steps (obj : SequentialObject κ ο ρ) :
    State τ κ ο ρ → List (Event τ ο ρ) → State τ κ ο ρ → Prop
  | nil (s : State τ κ ο ρ) : Steps obj s [] s
  | call {s s' : State τ κ ο ρ} {events : List (Event τ ο ρ)} (thread : τ) (op : ο)
      (hidle : s.phase thread = .idle)
      (hrest : Steps obj ⟨s.object, Function.update s.phase thread (.called op)⟩ events s') :
      Steps obj s (.call thread op :: events) s'
  | act {s s' : State τ κ ο ρ} {events : List (Event τ ο ρ)} (thread : τ) (op : ο)
      (hcalled : s.phase thread = .called op)
      (hrest : Steps obj ⟨(obj.apply s.object op).1,
        Function.update s.phase thread (.done (obj.apply s.object op).2)⟩ events s') :
      Steps obj s events s'
  | ret {s s' : State τ κ ο ρ} {events : List (Event τ ο ρ)} (thread : τ) (result : ρ)
      (hdone : s.phase thread = .done result)
      (hrest : Steps obj ⟨s.object, Function.update s.phase thread .idle⟩ events s') :
      Steps obj s (.ret thread result :: events) s'

variable {obj : SequentialObject κ ο ρ}

theorem Steps.append {s s' s'' : State τ κ ο ρ} {events events' : List (Event τ ο ρ)}
    (h : Steps obj s events s') (h' : Steps obj s' events' s'') :
    Steps obj s (events ++ events') s'' := by
  induction h with
  | nil s => exact h'
  | call thread op hidle hrest ih => exact .call thread op hidle (ih h')
  | act thread op hcalled hrest ih => exact .act thread op hcalled (ih h')
  | ret thread result hdone hrest ih => exact .ret thread result hdone (ih h')

/-- The entries of one thread, in their order. -/
def ofThread {β : Type} (thread : τ) (entries : List (τ × β)) : List β :=
  (entries.filter fun entry => entry.1 = thread).map Prod.snd

def calls (events : List (Event τ ο ρ)) : List (τ × ο) :=
  events.filterMap fun
    | .call thread op => some (thread, op)
    | .ret _ _ => none

def returns (events : List (Event τ ο ρ)) : List (τ × ρ) :=
  events.filterMap fun
    | .call _ _ => none
    | .ret thread result => some (thread, result)

/-- What operations in a row make of the object. -/
def final (obj : SequentialObject κ ο ρ) (object : κ) (acts : List (τ × ο)) : κ :=
  acts.foldl (fun object act => (obj.apply object act.2).1) object

def answers (obj : SequentialObject κ ο ρ) : κ → List (τ × ο) → List (τ × ρ)
  | _, [] => []
  | object, (thread, op) :: acts =>
    (thread, (obj.apply object op).2) :: answers obj (obj.apply object op).1 acts

/-- An operation called and not yet done. -/
def Phase.pending : Phase ο ρ → List ο
  | .called op => [op]
  | _ => []

/-- An answer not yet returned. -/
def Phase.answered : Phase ο ρ → List ρ
  | .done result => [result]
  | _ => []

theorem ofThread_cons {β : Type} (thread other : τ) (entry : β) (entries : List (τ × β)) :
    ofThread thread ((other, entry) :: entries) =
      (if other = thread then [entry] else []) ++ ofThread thread entries := by
  by_cases h : other = thread <;> simp [ofThread, h]

theorem ofThread_append {β : Type} (thread : τ) (entries more : List (τ × β)) :
    ofThread thread (entries ++ more) = ofThread thread entries ++ ofThread thread more := by
  simp [ofThread]

/-- Entries of one thread. -/
theorem ofThread_map {β : Type} (thread other : τ) (entries : List β) :
    ofThread other (entries.map (Prod.mk thread)) = if thread = other then entries else [] := by
  induction entries with
  | nil => simp [ofThread]
  | cons entry entries ih =>
    rw [List.map_cons, ofThread_cons, ih]
    split <;> rfl

/-- A history is that of operations in a row, in which every thread keeps the order of its own
calls and gets the answers it returns. -/
theorem Steps.sequential {s s' : State τ κ ο ρ} {events : List (Event τ ο ρ)}
    (h : Steps obj s events s') :
    ∃ acts, s'.object = final obj s.object acts ∧ ∀ thread,
      ofThread thread acts ++ (s'.phase thread).pending =
          (s.phase thread).pending ++ ofThread thread (calls events) ∧
        (s.phase thread).answered ++ ofThread thread (answers obj s.object acts) =
          ofThread thread (returns events) ++ (s'.phase thread).answered := by
  induction h with
  | nil s => exact ⟨[], rfl, fun thread => ⟨(List.append_nil _).symm, List.append_nil _⟩⟩
  | call caller op hidle hrest ih =>
    obtain ⟨acts, hobject, hthreads⟩ := ih
    refine ⟨acts, hobject, fun thread => ?_⟩
    obtain ⟨hcalls, hanswers⟩ := hthreads thread
    dsimp only at hcalls hanswers
    by_cases hthread : thread = caller
    · subst hthread
      rw [Function.update_self] at hcalls hanswers
      rw [hidle]
      refine ⟨hcalls.trans ?_, hanswers⟩
      simp [calls, ofThread, Phase.pending]
    · rw [Function.update_of_ne hthread] at hcalls hanswers
      refine ⟨hcalls.trans ?_, hanswers⟩
      simp [calls, ofThread, Ne.symm hthread]
  | act caller op hcalled hrest ih =>
    obtain ⟨acts, hobject, hthreads⟩ := ih
    refine ⟨(caller, op) :: acts, hobject, fun thread => ?_⟩
    obtain ⟨hcalls, hanswers⟩ := hthreads thread
    dsimp only at hcalls hanswers
    rw [answers, ofThread_cons, ofThread_cons]
    by_cases hthread : thread = caller
    · subst hthread
      rw [Function.update_self] at hcalls hanswers
      rw [hcalled, if_pos rfl, if_pos rfl]
      exact ⟨congrArg (op :: ·) hcalls, hanswers⟩
    · rw [Function.update_of_ne hthread] at hcalls hanswers
      rw [if_neg (Ne.symm hthread), if_neg (Ne.symm hthread)]
      exact ⟨hcalls, hanswers⟩
  | ret caller result hdone hrest ih =>
    obtain ⟨acts, hobject, hthreads⟩ := ih
    refine ⟨acts, hobject, fun thread => ?_⟩
    obtain ⟨hcalls, hanswers⟩ := hthreads thread
    dsimp only at hcalls hanswers
    by_cases hthread : thread = caller
    · subst hthread
      rw [Function.update_self] at hcalls hanswers
      rw [hdone]
      refine ⟨hcalls, ?_⟩
      simpa [returns, ofThread, Phase.answered] using hanswers
    · rw [Function.update_of_ne hthread] at hcalls hanswers
      refine ⟨hcalls, hanswers.trans ?_⟩
      simp [returns, ofThread, Ne.symm hthread]

/-- When nobody is in a call before or after, the operations in a row are the calls. -/
theorem Steps.inARow {s s' : State τ κ ο ρ} {events : List (Event τ ο ρ)}
    (h : Steps obj s events s') (hbefore : ∀ thread, s.phase thread = .idle)
    (hafter : ∀ thread, s'.phase thread = .idle) :
    ∃ acts, s'.object = final obj s.object acts ∧
      (∀ thread, ofThread thread acts = ofThread thread (calls events)) ∧
      ∀ thread, ofThread thread (answers obj s.object acts) = ofThread thread (returns events) := by
  obtain ⟨acts, hobject, hthreads⟩ := h.sequential
  refine ⟨acts, hobject, fun thread => ?_, fun thread => ?_⟩
  · have hcalls := (hthreads thread).1
    rw [hbefore, hafter] at hcalls
    simpa [Phase.pending] using hcalls
  · have hanswers := (hthreads thread).2
    rw [hbefore, hafter] at hanswers
    simpa [Phase.answered] using hanswers

/-- Lists with the same entries for every thread differ in the order of their threads only. -/
theorem perm_of_ofThread {β : Type} {entries entries' : List (τ × β)}
    (h : ∀ thread, ofThread thread entries = ofThread thread entries') :
    entries.Perm entries' := by
  classical
  have hcount : ∀ (list : List (τ × β)) thread entry,
      list.count (thread, entry) = (ofThread thread list).count entry := by
    intro list thread entry
    induction list with
    | nil => rfl
    | cons first list ih =>
      obtain ⟨other, entry'⟩ := first
      rw [List.count_cons, ofThread_cons, List.count_append, ih]
      by_cases hother : other = thread <;> by_cases hentry : entry' = entry <;>
        simp [hother, hentry, Nat.add_comm]
  refine List.perm_iff_count.mpr fun entry => ?_
  rw [hcount, hcount, h]

inductive Party where
  | producer | consumer
  deriving DecidableEq, Repr

def pair (producer consumer : Phase ο ρ) : Party → Phase ο ρ
  | .producer => producer
  | .consumer => consumer

theorem update_producer (producer producer' consumer : Phase ο ρ) :
    Function.update (pair producer consumer) .producer producer' = pair producer' consumer := by
  funext party
  cases party <;> rfl

theorem update_consumer (producer consumer consumer' : Phase ο ρ) :
    Function.update (pair producer consumer) .consumer consumer' = pair producer consumer' := by
  funext party
  cases party <;> rfl

section Moves

variable {object object' : κ} {producer consumer : Phase ο ρ} {op : ο} {result : ρ}

theorem producer_calls (op : ο) :
    Steps obj ⟨object, pair .idle consumer⟩ [.call .producer op]
      ⟨object, pair (.called op) consumer⟩ := by
  rw [← update_producer .idle (.called op) consumer]
  exact .call Party.producer op rfl (.nil _)

theorem consumer_calls (op : ο) :
    Steps obj ⟨object, pair producer .idle⟩ [.call .consumer op]
      ⟨object, pair producer (.called op)⟩ := by
  rw [← update_consumer producer .idle (.called op)]
  exact .call Party.consumer op rfl (.nil _)

theorem producer_acts (happly : obj.apply object op = (object', result)) :
    Steps obj ⟨object, pair (.called op) consumer⟩ [] ⟨object', pair (.done result) consumer⟩ := by
  refine .act Party.producer op rfl ?_
  rw [happly, update_producer]
  exact .nil _

theorem consumer_acts (happly : obj.apply object op = (object', result)) :
    Steps obj ⟨object, pair producer (.called op)⟩ [] ⟨object', pair producer (.done result)⟩ := by
  refine .act Party.consumer op rfl ?_
  rw [happly, update_consumer]
  exact .nil _

theorem producer_returns :
    Steps obj ⟨object, pair (.done result) consumer⟩ [.ret .producer result]
      ⟨object, pair .idle consumer⟩ := by
  rw [← update_producer (.done result) .idle consumer]
  exact .ret Party.producer result rfl (.nil _)

theorem consumer_returns :
    Steps obj ⟨object, pair producer (.done result)⟩ [.ret .consumer result]
      ⟨object, pair producer .idle⟩ := by
  rw [← update_consumer producer (.done result) .idle]
  exact .ret Party.consumer result rfl (.nil _)

/-- A call that returns at the moment it takes effect. -/
theorem producer_answers (happly : obj.apply object op = (object', result)) :
    Steps obj ⟨object, pair (.called op) consumer⟩ [.ret .producer result]
      ⟨object', pair .idle consumer⟩ :=
  (producer_acts happly).append producer_returns

theorem consumer_answers (happly : obj.apply object op = (object', result)) :
    Steps obj ⟨object, pair producer (.called op)⟩ [.ret .consumer result]
      ⟨object', pair producer .idle⟩ :=
  (consumer_acts happly).append consumer_returns

end Moves

variable {σ α : Type}

/-- The calls and returns of a run. -/
def trace (step : σ → α → σ) (events : σ → α → List (Event τ ο ρ)) (s : σ) :
    List α → List (Event τ ο ρ)
  | [] => []
  | a :: as => events s a ++ trace step events (step s a) as

/-- Every action of a run is allowed where it is taken. -/
def Along (step : σ → α → σ) (ok : σ → α → Prop) : σ → List α → Prop
  | _, [] => True
  | s, a :: as => ok s a ∧ Along step ok (step s a) as

/-- If every allowed step of a machine can be followed, so can every run of such steps. -/
theorem follow_along {step : σ → α → σ} {events : σ → α → List (Event τ ο ρ)}
    {ok : σ → α → Prop} (rel : σ → State τ κ ο ρ → Prop)
    (hstep : ∀ s t a, ok s a → rel s t → ∃ t', Steps obj t (events s a) t' ∧ rel (step s a) t')
    {s : σ} {t : State τ κ ο ρ} (h : rel s t) {as : List α} (has : Along step ok s as) :
    ∃ t', Steps obj t (trace step events s as) t' ∧ rel (as.foldl step s) t' := by
  induction as generalizing s t with
  | nil => exact ⟨t, .nil t, h⟩
  | cons a as ih =>
    obtain ⟨t', hevents, hrel⟩ := hstep s t a has.1 h
    obtain ⟨t'', hrest, hrel'⟩ := ih hrel has.2
    exact ⟨t'', hevents.append hrest, hrel'⟩

theorem along_of_forall {step : σ → α → σ} {ok : σ → α → Prop} (h : ∀ s a, ok s a) (s : σ)
    (as : List α) : Along step ok s as := by
  induction as generalizing s with
  | nil => trivial
  | cons a as ih => exact ⟨h s a, ih (step s a)⟩

/-- If every step of a machine can be followed, so can every run. -/
theorem follow {step : σ → α → σ} {events : σ → α → List (Event τ ο ρ)}
    (rel : σ → State τ κ ο ρ → Prop)
    (hstep : ∀ s t a, rel s t → ∃ t', Steps obj t (events s a) t' ∧ rel (step s a) t')
    {s : σ} {t : State τ κ ο ρ} (h : rel s t) (as : List α) :
    ∃ t', Steps obj t (trace step events s as) t' ∧ rel (as.foldl step s) t' :=
  follow_along rel (fun s t a (_ : True) => hstep s t a) h
    (along_of_forall (fun _ _ => trivial) s as)

inductive QueueOp (α : Type) where
  | push (value : α)
  | pop
  | peek
  deriving DecidableEq, Repr

inductive QueueResult (α : Type) where
  | pushed (ok : Bool)
  | popped (value : Option α)
  | peeked (value : Option α)
  deriving DecidableEq, Repr

/-- First in, first out, and a push is refused exactly at the bound. -/
def boundedQueue (bound : Nat) : SequentialObject (List α) (QueueOp α) (QueueResult α) where
  apply
    | queue, .push value =>
      if queue.length < bound then (queue ++ [value], .pushed true) else (queue, .pushed false)
    | queue, .pop => (queue.tail, .popped queue.head?)
    | queue, .peek => (queue, .peeked queue.head?)

theorem apply_push {bound : Nat} {queue : List α} (h : queue.length < bound) (value : α) :
    (boundedQueue bound).apply queue (.push value) = (queue ++ [value], .pushed true) := by
  simp [boundedQueue, h]

theorem apply_push_full {bound : Nat} {queue : List α} (h : bound ≤ queue.length) (value : α) :
    (boundedQueue bound).apply queue (.push value) = (queue, .pushed false) := by
  simp [boundedQueue, Nat.not_lt.mpr h]

end AtomicObjects
