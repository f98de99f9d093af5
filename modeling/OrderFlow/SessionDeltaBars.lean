import OrderFlow.SessionDeltaLedger

/-!
# The bars of a delta session

A session is the calls since the session was opened. Beside the state it keeps the deltas that
`onBarClose` has taken for its bars, whatever their ticks, and the session fields of the
state are read off them.
-/
namespace SessionDeltaEngine

open SessionTypes SessionImbalance

/-- What `onBarClose` takes for the delta of the open bar. -/
def openDelta (state : DeltaState) : Int := wrap32 (state.barAskVol - state.barBidVol)

theorem openDelta_bounds (state : DeltaState) :
    -(2 ^ 31) ≤ openDelta state ∧ openDelta state < 2 ^ 31 := ⟨le_wrap32 _, wrap32_lt _⟩

theorem abs32_openDelta {state : DeltaState} (h : openDelta state ≠ -(2 ^ 31)) :
    abs32 (openDelta state) = |openDelta state| :=
  abs32_of_ne (openDelta_bounds state).1 (openDelta_bounds state).2 h

structure Session where
  state : DeltaState := {}
  deltas : List Int := []

def Session.step (engine : DeltaEngine) (s : Session) (call : Call) : Session where
  state := SessionDeltaEngine.step engine s.state call
  deltas :=
    match call with
    | .onTick _ => s.deltas
    | .onBarClose _ => s.deltas ++ [openDelta s.state]
    | .onSessionOpen => []

def sessionOf (engine : DeltaEngine) (calls : List Call) : Session :=
  calls.foldl (Session.step engine) {}

/-- The deltas of the bars closed since the session was opened. -/
def sessionDeltas (engine : DeltaEngine) (calls : List Call) : List Int :=
  (sessionOf engine calls).deltas

theorem sessionOf_snoc (engine : DeltaEngine) (calls : List Call) (call : Call) :
    sessionOf engine (calls ++ [call]) = (sessionOf engine calls).step engine call := by
  rw [sessionOf, List.foldl_concat, ← sessionOf]

theorem sessionOf_state (engine : DeltaEngine) (calls : List Call) :
    (sessionOf engine calls).state = run engine calls := by
  induction calls using List.reverseRecOn with
  | nil => rfl
  | append_singleton calls call ih =>
    rw [sessionOf_snoc, run, List.foldl_concat, ← run, ← ih]
    rfl

theorem sessionOf_onBarClose (engine : DeltaEngine) (calls : List Call) (bar : BarRecord) :
    sessionOf engine (calls ++ [.onBarClose bar]) =
      ⟨(onBarClose engine bar (run engine calls)).state,
        sessionDeltas engine calls ++ [openDelta (run engine calls)]⟩ := by
  rw [sessionOf_snoc, ← sessionOf_state]
  rfl

/-- What a new session has and every call keeps. -/
theorem session_inv {engine : DeltaEngine} (P : Session → Prop) (hnew : P {})
    (hstep : ∀ s call, P s → P (s.step engine call)) (calls : List Call) :
    P (sessionOf engine calls) := by
  induction calls using List.reverseRecOn with
  | nil => exact hnew
  | append_singleton calls call ih =>
    rw [sessionOf_snoc]
    exact hstep _ call ih

/-- No tick touches the session fields. -/
theorem onTick_session (tick : UniversalTickRecord) (state : DeltaState) :
    (onTick tick state).sessionMaxDelta = state.sessionMaxDelta ∧
      (onTick tick state).sessionMinDelta = state.sessionMinDelta ∧
      (onTick tick state).sessionAvgAbsDelta = state.sessionAvgAbsDelta := by
  rw [onTick]
  split
  · exact ⟨rfl, rfl, rfl⟩
  · exact ⟨rfl, rfl, rfl⟩

/-- Zero and the deltas of the session lie between the session extremes, which are among them. -/
structure Extremes (s : Session) : Prop where
  max : IsGreatest (insert 0 {d | d ∈ s.deltas}) s.state.sessionMaxDelta
  min : IsLeast (insert 0 {d | d ∈ s.deltas}) s.state.sessionMinDelta

theorem insert_snoc (deltas : List Int) (delta : Int) :
    (insert 0 {d | d ∈ deltas ++ [delta]} : Set Int) = insert delta (insert 0 {d | d ∈ deltas}) := by
  ext d
  simp only [Set.mem_insert_iff, Set.mem_ofPred_eq, List.mem_append, List.mem_singleton]
  tauto

theorem extremes_new : Extremes {} := by
  constructor <;> simp

theorem extremes_onBarClose {engine : DeltaEngine} {s : Session} (h : Extremes s)
    (bar : BarRecord) : Extremes (s.step engine (.onBarClose bar)) where
  max := by
    simp only [Session.step, insert_snoc]
    exact isGreatest_insert_if h.max _
  min := by
    simp only [Session.step, insert_snoc]
    exact isLeast_insert_if h.min _

theorem extremes_step (engine : DeltaEngine) (s : Session) (call : Call) (h : Extremes s) :
    Extremes (s.step engine call) := by
  cases call with
  | onTick tick =>
    obtain ⟨hmax, hmin, -⟩ := onTick_session tick s.state
    constructor
    · simpa only [Session.step, step, hmax] using h.max
    · simpa only [Session.step, step, hmin] using h.min
  | onBarClose bar => exact extremes_onBarClose h bar
  | onSessionOpen => exact extremes_new

theorem extremes_sessionOf (engine : DeltaEngine) (calls : List Call) :
    Extremes (sessionOf engine calls) :=
  session_inv Extremes extremes_new (extremes_step engine) calls

end SessionDeltaEngine
