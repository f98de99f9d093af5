import Mathlib.Algebra.Order.BigOperators.Group.List
import Mathlib.Data.List.Induction
import Mathlib.Data.List.Infix
import Mathlib.Order.Bounds.Basic
import Mathlib.Tactic.Linarith
import OrderFlow.SessionDeltaEngine

/-!
# Delta accounting over whole sessions

A ledger keeps the ticks themselves: those of the open bar, and those of each
bar closed in the session. `Tracks` reads the counters of the delta engine off the
ledger, and every call keeps it, so that each close writes what the ticks of its
bar add up to.
-/
namespace SessionDeltaEngine

open SessionTypes

/-- The accumulatable ticks of the open bar, and of the bars closed since the
session was opened. -/
structure Ledger where
  ticks : List UniversalTickRecord
  bars : List (List UniversalTickRecord)

def Ledger.step (ledger : Ledger) : Call → Ledger
  | .onTick tick =>
    if tick.isAccumulatable then { ledger with ticks := ledger.ticks ++ [tick] } else ledger
  | .onBarClose _ => ⟨[], ledger.bars ++ [ledger.ticks]⟩
  | .onSessionOpen => ⟨[], []⟩

def ledgerOf (calls : List Call) : Ledger := calls.foldl Ledger.step ⟨[], []⟩

def sideVolume (side : TickSide) (ticks : List UniversalTickRecord) : Int :=
  ((ticks.filter fun tick => tick.side = side).map (·.volume)).sum

def delta (ticks : List UniversalTickRecord) : Int := sideVolume .ask ticks - sideVolume .bid ticks

def volume (ticks : List UniversalTickRecord) : Int := sideVolume .ask ticks + sideVolume .bid ticks

/-- Zero and the delta after each tick. -/
def runningDeltas (ticks : List UniversalTickRecord) : Set Int :=
  {d | ∃ count, d = delta (ticks.take count)}

/-- The volumes are not negative, and a bar stays below `2^31`. -/
structure Small (calls : List Call) : Prop where
  nonneg : ∀ tick, .onTick tick ∈ calls → 0 ≤ tick.volume
  light : ∀ earlier, earlier <+: calls → volume (ledgerOf earlier).ticks < 2 ^ 31

theorem sideVolume_append (side : TickSide) (ticks more : List UniversalTickRecord) :
    sideVolume side (ticks ++ more) = sideVolume side ticks + sideVolume side more := by
  simp [sideVolume]

theorem sideVolume_singleton (side : TickSide) (tick : UniversalTickRecord) :
    sideVolume side [tick] = if tick.side = side then tick.volume else 0 := by
  by_cases h : tick.side = side <;> simp [sideVolume, h]

theorem sideVolume_nonneg (side : TickSide) {ticks : List UniversalTickRecord}
    (h : ∀ tick ∈ ticks, 0 ≤ tick.volume) : 0 ≤ sideVolume side ticks := by
  refine List.sum_nonneg fun v hv => ?_
  obtain ⟨tick, htick, rfl⟩ := List.mem_map.mp hv
  exact h tick (List.mem_filter.mp htick).1

/-- A prefix of the ticks has at most their volume. -/
theorem sideVolume_take_le (side : TickSide) {ticks : List UniversalTickRecord}
    (h : ∀ tick ∈ ticks, 0 ≤ tick.volume) (count : Nat) :
    sideVolume side (ticks.take count) ≤ sideVolume side ticks := by
  have hrest : 0 ≤ sideVolume side (ticks.drop count) :=
    sideVolume_nonneg side fun tick htick => h tick (List.mem_of_mem_drop htick)
  have hsplit := sideVolume_append side (ticks.take count) (ticks.drop count)
  rw [List.take_append_drop] at hsplit
  omega

theorem runningDeltas_nil : runningDeltas [] = {0} := by
  ext d
  simp [runningDeltas, delta, sideVolume]

theorem runningDeltas_snoc (ticks : List UniversalTickRecord) (tick : UniversalTickRecord) :
    runningDeltas (ticks ++ [tick]) = insert (delta (ticks ++ [tick])) (runningDeltas ticks) := by
  ext d
  simp only [runningDeltas, Set.mem_ofPred_eq, Set.mem_insert_iff]
  constructor
  · rintro ⟨count, rfl⟩
    by_cases hle : count ≤ ticks.length
    · right
      exact ⟨count, by rw [List.take_append_of_le_length hle]⟩
    · left
      rw [List.take_of_length_le]
      rw [List.length_append, List.length_singleton]
      omega
  · rintro (rfl | ⟨count, rfl⟩)
    · exact ⟨(ticks ++ [tick]).length, by rw [List.take_length]⟩
    · refine ⟨min count ticks.length, ?_⟩
      rw [List.take_append_of_le_length (Nat.min_le_right _ _), List.take_eq_take_min]

/-- Every running delta lies between the volumes of the two sides. -/
theorem runningDeltas_bounds {ticks : List UniversalTickRecord}
    (h : ∀ tick ∈ ticks, 0 ≤ tick.volume) {d : Int} (hd : d ∈ runningDeltas ticks) :
    -sideVolume .bid ticks ≤ d ∧ d ≤ sideVolume .ask ticks := by
  obtain ⟨count, rfl⟩ := hd
  have htake : ∀ tick ∈ ticks.take count, 0 ≤ tick.volume :=
    fun tick htick => h tick (List.mem_of_mem_take htick)
  have hask := sideVolume_take_le .ask h count
  have hbid := sideVolume_take_le .bid h count
  have hask' := sideVolume_nonneg .ask htake
  have hbid' := sideVolume_nonneg .bid htake
  unfold delta
  omega

theorem zero_mem_runningDeltas (ticks : List UniversalTickRecord) : 0 ∈ runningDeltas ticks :=
  ⟨0, by simp [delta, sideVolume]⟩

theorem delta_mem_runningDeltas (ticks : List UniversalTickRecord) :
    delta ticks ∈ runningDeltas ticks :=
  ⟨ticks.length, by rw [List.take_length]⟩

/-- Zero and the deltas of the bars closed in the session. -/
def barDeltas (bars : List (List UniversalTickRecord)) : Set Int :=
  insert 0 {d | ∃ ticks ∈ bars, d = delta ticks}

theorem barDeltas_snoc (bars : List (List UniversalTickRecord)) (ticks : List UniversalTickRecord) :
    barDeltas (bars ++ [ticks]) = insert (delta ticks) (barDeltas bars) := by
  ext d
  simp only [barDeltas, Set.mem_insert_iff, Set.mem_ofPred_eq, List.mem_append,
    List.mem_singleton]
  constructor
  · rintro (rfl | ⟨bar, hbar | rfl, rfl⟩)
    · exact .inr (.inl rfl)
    · exact .inr (.inr ⟨bar, hbar, rfl⟩)
    · exact .inl rfl
  · rintro (rfl | rfl | ⟨bar, hbar, rfl⟩)
    · exact .inr ⟨ticks, .inr rfl, rfl⟩
    · exact .inl rfl
    · exact .inr ⟨bar, .inl hbar, rfl⟩

def sessionDelta (bars : List (List UniversalTickRecord)) : Int := (bars.map delta).sum

/-- The counters of the engine, read off the ledger. -/
structure Tracks (state : DeltaState) (ledger : Ledger) : Prop where
  barDelta : state.barDelta = 0
  runningDelta : state.runningDelta = delta ledger.ticks
  maxDelta : IsGreatest (runningDeltas ledger.ticks) state.maxDelta
  minDelta : IsLeast (runningDeltas ledger.ticks) state.minDelta
  barAskVol : state.barAskVol = sideVolume .ask ledger.ticks
  barBidVol : state.barBidVol = sideVolume .bid ledger.ticks
  barTotalVol : state.barTotalVol = volume ledger.ticks
  cumulativeDelta : state.cumulativeDelta = sessionDelta ledger.bars
  sessionMaxDelta : IsGreatest (barDeltas ledger.bars) state.sessionMaxDelta
  sessionMinDelta : IsLeast (barDeltas ledger.bars) state.sessionMinDelta
  barCount : state.barCount = UInt32.ofNat ledger.bars.length
  lastBarCvd : state.lastBarCvd = state.cumulativeDelta

theorem tracks_new : Tracks {} ⟨[], []⟩ := by
  have hrunning := runningDeltas_nil
  have hbars : barDeltas [] = {0} := by
    ext d
    simp [barDeltas]
  constructor <;> simp [hrunning, hbars, delta, sideVolume, volume, sessionDelta]

theorem isGreatest_insert_if {s : Set Int} {m : Int} (h : IsGreatest s m) (d : Int) :
    IsGreatest (insert d s) (if d > m then d else m) := by
  have hmax : (if d > m then d else m) = max d m := by split <;> omega
  rw [hmax]
  exact h.insert d

theorem isLeast_insert_if {s : Set Int} {m : Int} (h : IsLeast s m) (d : Int) :
    IsLeast (insert d s) (if d < m then d else m) := by
  have hmin : (if d < m then d else m) = min d m := by split <;> omega
  rw [hmin]
  exact h.insert d

theorem isAccumulatable_side {tick : UniversalTickRecord} (h : tick.isAccumulatable = true) :
    tick.side = .ask ∨ tick.side = .bid := by
  cases hside : tick.side with
  | ask => exact .inl rfl
  | bid => exact .inr rfl
  | unknown => simp [UniversalTickRecord.isAccumulatable, hside] at h

/-- One more tick, as `on_tick` tells the sides apart. -/
theorem askVolume_snoc (ticks : List UniversalTickRecord) (tick : UniversalTickRecord) :
    sideVolume .ask (ticks ++ [tick]) =
      if tick.side = .ask then sideVolume .ask ticks + tick.volume else sideVolume .ask ticks := by
  rw [sideVolume_append, sideVolume_singleton]
  split <;> simp

theorem bidVolume_snoc (ticks : List UniversalTickRecord) {tick : UniversalTickRecord}
    (hacc : tick.isAccumulatable = true) :
    sideVolume .bid (ticks ++ [tick]) =
      if tick.side = .ask then sideVolume .bid ticks else sideVolume .bid ticks + tick.volume := by
  rw [sideVolume_append, sideVolume_singleton]
  rcases isAccumulatable_side hacc with hside | hside <;> simp [hside]

theorem volume_snoc (ticks : List UniversalTickRecord) {tick : UniversalTickRecord}
    (hacc : tick.isAccumulatable = true) : volume (ticks ++ [tick]) = volume ticks + tick.volume := by
  rw [volume, askVolume_snoc, bidVolume_snoc ticks hacc, volume]
  split <;> omega

/-- Below `2^31` no volume and no delta of the bar is cut to 32 bits. -/
theorem wrap32_delta {ticks : List UniversalTickRecord} (h : ∀ tick ∈ ticks, 0 ≤ tick.volume)
    (hlight : volume ticks < 2 ^ 31) : wrap32 (delta ticks) = delta ticks := by
  have hask := sideVolume_nonneg .ask h
  have hbid := sideVolume_nonneg .bid h
  unfold volume at hlight
  refine wrap32_of_small ?_ ?_ <;> unfold delta <;> omega

/-- A tick that is not accumulatable changes nothing. -/
theorem onTick_other {tick : UniversalTickRecord} (state : DeltaState)
    (h : tick.isAccumulatable = false) : onTick tick state = state := by
  simp [onTick, h]

theorem tracks_onTick {state : DeltaState} {ledger : Ledger} (h : Tracks state ledger)
    (tick : UniversalTickRecord) (hacc : tick.isAccumulatable = true)
    (hnonneg : ∀ t ∈ ledger.ticks ++ [tick], 0 ≤ t.volume)
    (hlight : volume (ledger.ticks ++ [tick]) < 2 ^ 31) :
    Tracks (onTick tick state) { ledger with ticks := ledger.ticks ++ [tick] } := by
  have hold : ∀ t ∈ ledger.ticks, 0 ≤ t.volume := fun t ht => hnonneg t (List.mem_append_left _ ht)
  have hask := sideVolume_nonneg .ask hold
  have hbid := sideVolume_nonneg .bid hold
  have hvolume : 0 ≤ tick.volume := hnonneg tick (by simp)
  have hask' := askVolume_snoc ledger.ticks tick
  have hbid' := bidVolume_snoc ledger.ticks hacc
  rw [← h.barAskVol] at hask'
  rw [← h.barBidVol] at hbid'
  have hdelta : delta (ledger.ticks ++ [tick]) =
      if tick.side = .ask then state.runningDelta + tick.volume
      else state.runningDelta - tick.volume := by
    rw [delta, hask', hbid', h.barAskVol, h.barBidVol, h.runningDelta, delta]
    split <;> omega
  have hwrap : wrap32 tick.volume = tick.volume := by
    refine wrap32_of_small (by omega) ?_
    have htotal := volume_snoc ledger.ticks hacc
    unfold volume at htotal hlight
    omega
  have hcut := wrap32_delta hnonneg hlight
  have htick : onTick tick state = { state with
      barAskVol := sideVolume .ask (ledger.ticks ++ [tick])
      barBidVol := sideVolume .bid (ledger.ticks ++ [tick])
      runningDelta := delta (ledger.ticks ++ [tick])
      barTotalVol := volume (ledger.ticks ++ [tick])
      maxDelta := if delta (ledger.ticks ++ [tick]) > state.maxDelta
        then delta (ledger.ticks ++ [tick]) else state.maxDelta
      minDelta := if delta (ledger.ticks ++ [tick]) < state.minDelta
        then delta (ledger.ticks ++ [tick]) else state.minDelta } := by
    simp only [onTick, hacc, if_true, hwrap, ← hdelta, hcut, ← hask', ← hbid', volume]
  rw [htick]
  constructor
  case maxDelta =>
    dsimp only
    rw [runningDeltas_snoc]
    exact isGreatest_insert_if h.maxDelta _
  case minDelta =>
    dsimp only
    rw [runningDeltas_snoc]
    exact isLeast_insert_if h.minDelta _
  case barDelta => exact h.barDelta
  case runningDelta => rfl
  case barAskVol => rfl
  case barBidVol => rfl
  case barTotalVol => rfl
  case cumulativeDelta => exact h.cumulativeDelta
  case sessionMaxDelta => exact h.sessionMaxDelta
  case sessionMinDelta => exact h.sessionMinDelta
  case barCount => exact h.barCount
  case lastBarCvd => exact h.lastBarCvd

/-- What `on_bar_close` takes for the delta of the bar. -/
theorem wrap32_volumes {state : DeltaState} {ledger : Ledger} (h : Tracks state ledger)
    (hnonneg : ∀ t ∈ ledger.ticks, 0 ≤ t.volume) (hlight : volume ledger.ticks < 2 ^ 31) :
    wrap32 (state.barAskVol - state.barBidVol) = delta ledger.ticks := by
  rw [h.barAskVol, h.barBidVol]
  exact wrap32_delta hnonneg hlight

theorem tracks_onBarClose {state : DeltaState} {ledger : Ledger} (h : Tracks state ledger)
    (engine : DeltaEngine) (bar : BarRecord) (hnonneg : ∀ t ∈ ledger.ticks, 0 ≤ t.volume)
    (hlight : volume ledger.ticks < 2 ^ 31) :
    Tracks (onBarClose engine bar state).state ⟨[], ledger.bars ++ [ledger.ticks]⟩ := by
  have hdelta := wrap32_volumes h hnonneg hlight
  have hnew := tracks_new
  simp only [onBarClose, hdelta]
  constructor
  case cumulativeDelta =>
    dsimp only
    rw [h.cumulativeDelta]
    simp [sessionDelta]
  case sessionMaxDelta =>
    dsimp only
    rw [barDeltas_snoc]
    exact isGreatest_insert_if h.sessionMaxDelta _
  case sessionMinDelta =>
    dsimp only
    rw [barDeltas_snoc]
    exact isLeast_insert_if h.sessionMinDelta _
  case barCount =>
    dsimp only
    rw [h.barCount, List.length_append, List.length_singleton, UInt32.ofNat_add]
    rfl
  case barDelta => rfl
  case runningDelta => exact hnew.runningDelta
  case maxDelta => exact hnew.maxDelta
  case minDelta => exact hnew.minDelta
  case barAskVol => exact hnew.barAskVol
  case barBidVol => exact hnew.barBidVol
  case barTotalVol => exact hnew.barTotalVol
  case lastBarCvd => rfl

/-- The ticks of the open bar are ticks of the calls. -/
theorem mem_of_mem_ledger (calls : List Call) (tick : UniversalTickRecord)
    (h : tick ∈ (ledgerOf calls).ticks) : .onTick tick ∈ calls := by
  induction calls using List.reverseRecOn with
  | nil => cases h
  | append_singleton calls call ih =>
    rw [ledgerOf, List.foldl_concat] at h
    rw [List.mem_append, List.mem_singleton]
    cases call with
    | onTick t =>
      simp only [Ledger.step] at h
      split at h
      · rw [List.mem_append, List.mem_singleton] at h
        rcases h with h | rfl
        · exact .inl (ih h)
        · exact .inr rfl
      · exact .inl (ih h)
    | onBarClose bar => cases h
    | onSessionOpen => cases h

theorem small_of_snoc {calls : List Call} {call : Call} (h : Small (calls ++ [call])) :
    Small calls where
  nonneg := fun tick htick => h.nonneg tick (List.mem_append_left _ htick)
  light := fun earlier hearlier => h.light earlier (hearlier.trans (List.prefix_append _ _))

theorem ledger_nonneg {calls : List Call} (h : Small calls) :
    ∀ tick ∈ (ledgerOf calls).ticks, 0 ≤ tick.volume :=
  fun tick htick => h.nonneg tick (mem_of_mem_ledger calls tick htick)

theorem tracks_run (engine : DeltaEngine) (calls : List Call) (h : Small calls) :
    Tracks (run engine calls) (ledgerOf calls) := by
  induction calls using List.reverseRecOn with
  | nil => exact tracks_new
  | append_singleton calls call ih =>
    have hbefore := small_of_snoc h
    have htracks := ih hbefore
    have hnonneg := ledger_nonneg h
    have hlight := h.light _ (List.prefix_refl _)
    rw [ledgerOf, List.foldl_concat, ← ledgerOf] at hnonneg hlight ⊢
    rw [run, List.foldl_concat, ← run]
    cases call with
    | onTick tick =>
      simp only [step, Ledger.step] at hnonneg hlight ⊢
      cases hacc : tick.isAccumulatable with
      | true =>
        simp only [hacc, if_true] at hnonneg hlight ⊢
        exact tracks_onTick htracks tick hacc hnonneg hlight
      | false =>
        rw [onTick_other _ hacc]
        exact htracks
    | onBarClose bar =>
      exact tracks_onBarClose htracks engine bar (ledger_nonneg hbefore)
        (hbefore.light _ (List.prefix_refl _))
    | onSessionOpen => exact tracks_new

/-- What the close of a bar writes, in terms of the ticks of the bar and of the
bars closed before it in the session. -/
structure Accounted (ledger : Ledger) (closed : Closed) : Prop where
  barDelta : closed.bar.barDelta = sideVolume .ask ledger.ticks - sideVolume .bid ledger.ticks
  totalVolume : closed.bar.totalVolume = sideVolume .ask ledger.ticks + sideVolume .bid ledger.ticks
  maxDelta : IsGreatest (runningDeltas ledger.ticks) closed.bar.maxDelta
  minDelta : IsLeast (runningDeltas ledger.ticks) closed.bar.minDelta
  signs : closed.bar.minDelta ≤ 0 ∧ 0 ≤ closed.bar.maxDelta
  within : closed.bar.minDelta ≤ closed.bar.barDelta ∧ closed.bar.barDelta ≤ closed.bar.maxDelta
  spread : closed.bar.maxDelta - closed.bar.minDelta ≤ closed.bar.totalVolume
  percent : closed.deltaPct = closed.bar.deltaPct ∧ -100 ≤ closed.bar.deltaPct ∧
    closed.bar.deltaPct ≤ 100
  cumulativeDelta : closed.bar.cumulativeDelta = ((ledger.bars ++ [ledger.ticks]).map delta).sum ∧
    closed.state.cumulativeDelta = closed.bar.cumulativeDelta
  sessionMaxDelta : IsGreatest (barDeltas (ledger.bars ++ [ledger.ticks])) closed.state.sessionMaxDelta
  sessionMinDelta : IsLeast (barDeltas (ledger.bars ++ [ledger.ticks])) closed.state.sessionMinDelta

/-- A delta of at most the volume is at most a hundred percent of it. -/
theorem percent_bounds {d v : Int} (hlo : -v ≤ d) (hhi : d ≤ v) :
    (-100 : Rat) ≤ (if v > 0 then (d : Rat) / v * 100 else 0) ∧
      (if v > 0 then (d : Rat) / v * 100 else 0) ≤ 100 := by
  split
  · rename_i hpos
    have hv : (0 : Rat) < v := by exact_mod_cast hpos
    have hlo' : -(v : Rat) ≤ d := by exact_mod_cast hlo
    have hhi' : (d : Rat) ≤ v := by exact_mod_cast hhi
    have hbelow : -1 ≤ (d : Rat) / v := by
      rw [le_div_iff₀ hv]
      linarith
    have habove : (d : Rat) / v ≤ 1 := by
      rw [div_le_iff₀ hv]
      linarith
    constructor <;> linarith
  · constructor <;> norm_num

theorem accounted_of_tracks {state : DeltaState} {ledger : Ledger} (h : Tracks state ledger)
    (engine : DeltaEngine) (bar : BarRecord) (hnonneg : ∀ t ∈ ledger.ticks, 0 ≤ t.volume)
    (hlight : volume ledger.ticks < 2 ^ 31) : Accounted ledger (onBarClose engine bar state) := by
  have hclosed := tracks_onBarClose h engine bar hnonneg hlight
  have hask := sideVolume_nonneg .ask hnonneg
  have hbid := sideVolume_nonneg .bid hnonneg
  have hdelta := wrap32_volumes h hnonneg hlight
  have hbarDelta : (onBarClose engine bar state).bar.barDelta = delta ledger.ticks := hdelta
  constructor
  case barDelta => exact hbarDelta
  case totalVolume => exact h.barTotalVol
  case maxDelta => exact h.maxDelta
  case minDelta => exact h.minDelta
  case signs =>
    exact ⟨h.minDelta.2 (zero_mem_runningDeltas _), h.maxDelta.2 (zero_mem_runningDeltas _)⟩
  case within =>
    rw [hbarDelta]
    exact ⟨h.minDelta.2 (delta_mem_runningDeltas _), h.maxDelta.2 (delta_mem_runningDeltas _)⟩
  case spread =>
    have htotal : (onBarClose engine bar state).bar.totalVolume = volume ledger.ticks :=
      h.barTotalVol
    have hmax := runningDeltas_bounds hnonneg h.maxDelta.1
    have hmin := runningDeltas_bounds hnonneg h.minDelta.1
    rw [htotal]
    show state.maxDelta - state.minDelta ≤ volume ledger.ticks
    unfold volume
    omega
  case percent =>
    refine ⟨rfl, ?_⟩
    simp only [onBarClose, hdelta, h.barTotalVol]
    refine percent_bounds ?_ ?_ <;> unfold delta volume <;> omega
  case cumulativeDelta =>
    exact ⟨hclosed.cumulativeDelta, rfl⟩
  case sessionMaxDelta => exact hclosed.sessionMaxDelta
  case sessionMinDelta => exact hclosed.sessionMinDelta

/-- In every sequence of calls each close accounts for the ticks of its bar and
session, and a tick that is not accumulatable changes nothing. -/
theorem barClose_accounted (engine : DeltaEngine) (calls : List Call) (h : Small calls)
    (bar : BarRecord) :
    Accounted (ledgerOf calls) (onBarClose engine bar (run engine calls)) ∧
      ∀ tick : UniversalTickRecord, tick.isAccumulatable = false →
        run engine (calls ++ [.onTick tick]) = run engine calls := by
  refine ⟨accounted_of_tracks (tracks_run engine calls h) engine bar (ledger_nonneg h)
    (h.light _ (List.prefix_refl _)), ?_⟩
  intro tick hother
  rw [run, List.foldl_concat, ← run]
  exact onTick_other _ hother

/-- A bar of two trades, the session reopened, and a third trade before the close. -/
def reopened : List Call :=
  [.onTick ⟨0, 100, 5, 7, .ask, .trade⟩, .onTick ⟨1, 101, 8, 7, .bid, .trade⟩,
    .onBarClose { barSize := ⟨.time, 60⟩ }, .onSessionOpen, .onTick ⟨2, 102, 3, 7, .ask, .trade⟩]

theorem reopened_accounted :
    Accounted (ledgerOf reopened)
        (onBarClose ⟨2 / 15⟩ { barSize := ⟨.time, 60⟩ } (run ⟨2 / 15⟩ reopened)) ∧
      ∀ tick : UniversalTickRecord, tick.isAccumulatable = false →
        run ⟨2 / 15⟩ (reopened ++ [.onTick tick]) = run ⟨2 / 15⟩ reopened := by
  refine barClose_accounted ⟨2 / 15⟩ reopened ⟨?_, ?_⟩ { barSize := ⟨.time, 60⟩ }
  · intro tick htick
    simp only [reopened, List.mem_cons, Call.onTick.injEq, reduceCtorEq, List.not_mem_nil,
      or_false, false_or] at htick
    rcases htick with rfl | rfl | rfl <;> decide
  · have hall : ∀ earlier ∈ reopened.inits, volume (ledgerOf earlier).ticks < 2 ^ 31 := by decide
    exact fun earlier h => hall earlier ((List.mem_inits _ _).mpr h)

end SessionDeltaEngine
