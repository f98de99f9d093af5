import OrderFlow.SessionSurgeBaseline

/-!
# The signals of a delta session

`detectSurge` sets the delta of a bar against the baseline of the session, `detectExtremeDelta`
against its extremes. Both are called with the state that `onBarClose` has already brought up
to date with the bar, so the bar is measured against itself. The least delta of 32 bits has no
absolute value there: a bar of it is never extreme, and as an extreme of the session it counts
for nothing.
-/
namespace SessionDeltaEngine

open SessionTypes
open SessionImbalance (SignalDirection SignalStrength)

inductive DeltaSignalType where
  | deltaSurgeBullish | deltaSurgeBearish | extremeDelta
  deriving DecidableEq, Repr

structure DeltaSignal where
  type : DeltaSignalType
  direction : SignalDirection
  strength : SignalStrength
  symbolId : UInt32
  symbol : String
  barId : String
  barDelta : Int
  barVolume : Int
  cumulativeDelta : Int := 0
  priceAtSignal : Rat
  barCloseTsNs : Int
  /-- The magnitude, the baseline and the threshold that a surge writes as JSON. -/
  metadataJson : Option (Rat × Int × Rat) := none
  deriving DecidableEq, Repr

/-- What both signals take from their bar. -/
def makeDeltaSignal (bar : BarRecord) (type : DeltaSignalType) (strength : SignalStrength) :
    DeltaSignal where
  type := type
  direction := if bar.barDelta > 0 then .long else .short
  strength := strength
  symbolId := bar.symbolId
  symbol := bar.symbol
  barId := bar.barId
  barDelta := bar.barDelta
  barVolume := bar.totalVolume
  priceAtSignal := bar.close
  barCloseTsNs := bar.barCloseTsNs

def detectSurge (bar : BarRecord) (state : DeltaState) (surgeThreshold : Rat := 3) :
    Option DeltaSignal :=
  if state.sessionAvgAbsDelta = 0 then none
  else
    let surgeMagnitude : Rat := abs32 bar.barDelta / state.sessionAvgAbsDelta
    if surgeMagnitude < surgeThreshold then none
    else some
      { makeDeltaSignal bar (if bar.barDelta > 0 then .deltaSurgeBullish else .deltaSurgeBearish)
          (if surgeMagnitude ≥ surgeThreshold * 2 then .veryStrong else .strong) with
        cumulativeDelta := state.cumulativeDelta
        metadataJson := some (surgeMagnitude, state.sessionAvgAbsDelta, surgeThreshold) }

def detectExtremeDelta (bar : BarRecord) (state : DeltaState) (threshold : Rat := 3 / 2) :
    Option DeltaSignal :=
  if state.sessionMaxDelta = 0 ∧ state.sessionMinDelta = 0 then none
  else
    let sessionMax := max (abs32 state.sessionMaxDelta) (abs32 state.sessionMinDelta)
    if sessionMax = 0 then none
    else
      let ratio : Rat := abs32 bar.barDelta / sessionMax
      if ratio < threshold then none
      else some (makeDeltaSignal bar .extremeDelta .strong)

/-- A bar that seeds the baseline is measured against itself, and no threshold over 1 is reached. -/
theorem detectSurge_of_seeding (engine : DeltaEngine) (bar : BarRecord) {state : DeltaState}
    (hseeds : state.sessionAvgAbsDelta = 0) {surgeThreshold : Rat} (hthreshold : 1 < surgeThreshold) :
    detectSurge (onBarClose engine bar state).bar (onBarClose engine bar state).state
      surgeThreshold = none := by
  have havg : (onBarClose engine bar state).state.sessionAvgAbsDelta = abs32 (openDelta state) := by
    simp [onBarClose, nextAvgAbsDelta, hseeds, openDelta]
  have hdelta : (onBarClose engine bar state).bar.barDelta = openDelta state := rfl
  rw [detectSurge, havg, hdelta]
  split
  · rfl
  · rename_i hne
    have hone : (abs32 (openDelta state) : Rat) / abs32 (openDelta state) = 1 :=
      div_self (by exact_mod_cast hne)
    rw [if_pos (by rw [hone]; exact hthreshold)]

/-- The greatest absolute delta is that of one of the two extremes. -/
theorem isGreatest_abs {deltas : List Int} {hi lo : Int}
    (hmax : IsGreatest (insert 0 {d | d ∈ deltas}) hi)
    (hmin : IsLeast (insert 0 {d | d ∈ deltas}) lo) :
    IsGreatest (insert 0 {a | ∃ d ∈ deltas, a = |d|}) (max |hi| |lo|) := by
  have hmem : ∀ d : Int, d ∈ (insert 0 {d | d ∈ deltas} : Set Int) →
      |d| ∈ (insert 0 {a | ∃ d ∈ deltas, a = |d|} : Set Int) := by
    rintro d (rfl | hd)
    · exact .inl abs_zero
    · exact .inr ⟨d, hd, rfl⟩
  constructor
  · rcases max_choice |hi| |lo| with h | h
    · rw [h]
      exact hmem hi hmax.1
    · rw [h]
      exact hmem lo hmin.1
  · rintro a (rfl | ⟨d, hd, rfl⟩)
    · exact le_max_of_le_left (abs_nonneg hi)
    · rw [max_comm]
      exact abs_le_max_abs_abs (hmin.2 (.inr hd)) (hmax.2 (.inr hd))

theorem sessionDeltas_bounds (engine : DeltaEngine) (calls : List Call) :
    ∀ d ∈ sessionDeltas engine calls ++ [openDelta (run engine calls)],
      -(2 ^ 31) ≤ d ∧ d < 2 ^ 31 := by
  have hbounds : ∀ d ∈ sessionDeltas engine calls, -(2 ^ 31) ≤ d ∧ d < 2 ^ 31 := by
    refine session_inv (fun s => ∀ d ∈ s.deltas, -(2 ^ 31) ≤ d ∧ d < 2 ^ 31) (by simp) ?_ calls
    intro s call h d hd
    cases call with
    | onTick tick => exact h d hd
    | onBarClose bar =>
      rcases List.mem_append.mp hd with hd | hd
      · exact h d hd
      · rw [List.mem_singleton.mp hd]
        exact openDelta_bounds s.state
    | onSessionOpen => cases hd
  intro d hd
  rcases List.mem_append.mp hd with hd | hd
  · exact hbounds d hd
  · rw [List.mem_singleton.mp hd]
    exact openDelta_bounds _

/-- With one more delta. -/
theorem isGreatest_abs_snoc {deltas : List Int} {d M : Int}
    (hM : IsGreatest {a | ∃ d ∈ deltas, a = |d|} M) :
    IsGreatest (insert 0 {a | ∃ e ∈ deltas ++ [d], a = |e|}) (max M |d|) := by
  have hnonneg : 0 ≤ M := by
    obtain ⟨e, -, rfl⟩ := hM.1
    exact abs_nonneg e
  constructor
  · right
    rcases max_choice M |d| with h | h
    · obtain ⟨e, he, rfl⟩ := hM.1
      exact ⟨e, by simp [he], h⟩
    · exact ⟨d, by simp, h⟩
  · rintro a (rfl | ⟨e, he, rfl⟩)
    · exact le_max_of_le_left hnonneg
    · rcases List.mem_append.mp he with he | he
      · exact le_max_of_le_left (hM.2 ⟨e, he, rfl⟩)
      · rw [List.mem_singleton.mp he]
        exact le_max_right _ _

/-- After a close the bar is measured against the greatest absolute delta of the session, the
bar's own among them. If the least delta is among them too, it is measured against the
greatest delta. -/
theorem sessionMax_onBarClose (engine : DeltaEngine) (calls : List Call) (bar : BarRecord)
    {M hi : Int} (hM : IsGreatest {a | ∃ d ∈ sessionDeltas engine calls, a = |d|} M)
    (hhi : IsGreatest
      (insert 0 {d | d ∈ sessionDeltas engine calls ++ [openDelta (run engine calls)]}) hi) :
    let state := (onBarClose engine bar (run engine calls)).state
    max (abs32 state.sessionMaxDelta) (abs32 state.sessionMinDelta) =
      if -(2 ^ 31) ∈ sessionDeltas engine calls ++ [openDelta (run engine calls)] then hi
      else max M |openDelta (run engine calls)| := by
  intro state
  have hextremes := extremes_sessionOf engine (calls ++ [.onBarClose bar])
  rw [sessionOf_onBarClose] at hextremes
  have hmax : state.sessionMaxDelta = hi := hextremes.max.unique hhi
  have hmin := hextremes.min
  have hbounds := sessionDeltas_bounds engine calls
  have hhi0 : 0 ≤ hi := hhi.2 (.inl rfl)
  have hhi1 : hi < 2 ^ 31 := by
    rcases hhi.1 with rfl | hmem
    · norm_num
    · exact (hbounds hi hmem).2
  have habs : abs32 hi = |hi| := abs32_of_ne (by omega) hhi1 (by omega)
  rw [hmax, habs]
  split
  · rename_i hleast
    have hlo : state.sessionMinDelta = -(2 ^ 31) := by
      refine hmin.unique ⟨.inr hleast, ?_⟩
      rintro d (rfl | hd)
      · norm_num
      · exact (hbounds d hd).1
    rw [hlo, abs32_least, abs_of_nonneg hhi0]
    exact max_eq_left (by omega)
  · rename_i hnone
    have hlo : abs32 state.sessionMinDelta = |state.sessionMinDelta| := by
      rcases hmin.1 with hzero | hmem
      · rw [hzero, abs32_zero, abs_zero]
      · refine abs32_of_ne (hbounds _ hmem).1 (hbounds _ hmem).2 fun heq => hnone ?_
        rw [← heq]
        exact hmem
    rw [hlo]
    exact (isGreatest_abs hhi hmin).unique (isGreatest_abs_snoc hM)

theorem detectExtremeDelta_isSome_iff (bar : BarRecord) {state : DeltaState} {sessionMax : Int}
    (hmax : max (abs32 state.sessionMaxDelta) (abs32 state.sessionMinDelta) = sessionMax)
    (hnonneg : 0 ≤ sessionMax) (threshold : Rat) :
    (detectExtremeDelta bar state threshold).isSome = true ↔
      0 < sessionMax ∧ threshold ≤ abs32 bar.barDelta / sessionMax := by
  simp only [detectExtremeDelta, hmax]
  split
  · rename_i hextremes
    rw [hextremes.1, hextremes.2] at hmax
    simp only [abs32_zero, max_self] at hmax
    simp [← hmax]
  · split
    · rename_i hzero
      simp [hzero]
    · rename_i hne
      have hpos : 0 < sessionMax := by omega
      split
      · rename_i hbelow
        simpa [hpos] using hbelow
      · rename_i hreached
        simpa [hpos] using hreached

/-- Measured against a maximum that counts it, a delta reaches no threshold over 1. -/
theorem le_div_max_iff {threshold most a : Rat} (hmost : 0 < most) :
    (threshold ≤ a / max most a ↔ threshold * most ≤ a) ↔
      threshold ≤ 1 ∨ a < threshold * most := by
  rcases le_or_gt a most with hle | hgt
  · rw [max_eq_left hle, le_div_iff₀ hmost]
    simp only [iff_self, true_iff]
    by_contra hnone
    rw [not_or, not_le, not_lt] at hnone
    obtain ⟨hone, hreached⟩ := hnone
    have hmore : 1 * most < threshold * most := mul_lt_mul_of_pos_right hone hmost
    linarith
  · have ha : 0 < a := hmost.trans hgt
    rw [max_eq_right hgt.le, div_self ha.ne']
    rcases le_or_gt threshold 1 with hone | hone
    · have hless : threshold * most ≤ 1 * most := mul_le_mul_of_nonneg_right hone hmost.le
      have hreached : threshold * most ≤ a := by linarith
      simp [hone, hreached]
    · simp [not_le.mpr hone]

/-- When the documented rule is what the code does. `most` is the greatest absolute delta before
the bar and `hi` the greatest delta with it, or zero. -/
def FitsRule (deltas : List Int) (d most hi : Int) (threshold : Rat) : Prop :=
  if -(2 ^ 31) ∈ deltas ++ [d] then
    if threshold * most ≤ (|d| : Int) then d ≠ -(2 ^ 31) ∧ 0 < hi
    else d = -(2 ^ 31) ∨ hi = 0 ∨ (|d| : Int) < threshold * hi
  else threshold ≤ 1 ∨ (|d| : Int) < threshold * most

/-- A session with a bar of the least delta. -/
theorem reports_least_iff {d M hi : Int} {threshold : Rat} {fires : Prop} (hthreshold : 0 < threshold)
    (hhi : 0 ≤ hi) (hle : d ≠ -(2 ^ 31) → hi ≤ M ∧ abs32 d = |d|)
    (hfires : fires ↔ 0 < hi ∧ threshold ≤ abs32 d / hi) :
    (fires ↔ threshold * M ≤ (|d| : Int)) ↔
      if threshold * M ≤ (|d| : Int) then d ≠ -(2 ^ 31) ∧ 0 < hi
      else d = -(2 ^ 31) ∨ hi = 0 ∨ (|d| : Int) < threshold * hi := by
  by_cases hleast : d = -(2 ^ 31)
  · have hnot : ¬ fires := by
      rw [hfires, hleast, abs32_least]
      rintro ⟨hpos, hreached⟩
      have hpos' : (0 : Rat) < hi := by exact_mod_cast hpos
      rw [le_div_iff₀ hpos'] at hreached
      push_cast at hreached
      linarith [mul_pos hthreshold hpos']
    split
    · rename_i hreached
      exact ⟨fun hrule => absurd (hrule.mpr hreached) hnot, fun hno => absurd hleast hno.1⟩
    · rename_i hbelow
      exact ⟨fun _ => .inl hleast, fun _ => iff_of_false hnot hbelow⟩
  · obtain ⟨hM, habs⟩ := hle hleast
    have hreach : 0 < hi → (threshold ≤ abs32 d / hi ↔ threshold * hi ≤ (|d| : Int)) := by
      intro hpos
      have hpos' : (0 : Rat) < hi := by exact_mod_cast hpos
      rw [le_div_iff₀ hpos', habs]
    split
    · rename_i hreached
      have hmore : threshold * hi ≤ threshold * M :=
        mul_le_mul_of_nonneg_left (by exact_mod_cast hM) hthreshold.le
      have hall : fires ↔ 0 < hi := by
        rw [hfires]
        refine and_iff_left_of_imp fun hpos => (hreach hpos).mpr (hmore.trans hreached)
      simp only [hall, hreached, iff_true]
      exact (and_iff_right hleast).symm
    · rename_i hbelow
      have hall : ¬ fires ↔ hi = 0 ∨ (|d| : Int) < threshold * hi := by
        rw [hfires, not_and_or, not_lt]
        rcases hhi.eq_or_lt with hzero | hpos
        · simp [← hzero]
        · rw [hreach hpos, not_le]
          simp [hpos.ne', not_le.mpr hpos]
      simp only [hbelow, iff_false, hall, hleast, false_or]

/-- An extreme bar is reported, and no other, exactly if the threshold is at most 1 or the bar
is not extreme, in a session without a bar of the least delta. -/
theorem detectExtremeDelta_reports_iff (engine : DeltaEngine) (calls : List Call) (bar : BarRecord)
    (M hi : Int) (hM : IsGreatest {a | ∃ d ∈ sessionDeltas engine calls, a = |d|} M) (hpos : 0 < M)
    (hhi : IsGreatest
      (insert 0 {d | d ∈ sessionDeltas engine calls ++ [openDelta (run engine calls)]}) hi)
    (threshold : Rat) (hthreshold : 0 < threshold) :
    let closed := onBarClose engine bar (run engine calls)
    ((threshold * M ≤ (|closed.bar.barDelta| : Int) →
        (detectExtremeDelta closed.bar closed.state threshold).isSome = true) ∧
      ((|closed.bar.barDelta| : Int) < threshold * M →
        detectExtremeDelta closed.bar closed.state threshold = none)) ↔
      FitsRule (sessionDeltas engine calls) (openDelta (run engine calls)) M hi threshold := by
  intro closed
  have hdelta : closed.bar.barDelta = openDelta (run engine calls) := rfl
  have hmeasure := sessionMax_onBarClose engine calls bar hM hhi
  have hhi0 : 0 ≤ hi := hhi.2 (.inl rfl)
  have hbounds := sessionDeltas_bounds engine calls
  have hrule : ((threshold * M ≤ (|closed.bar.barDelta| : Int) →
        (detectExtremeDelta closed.bar closed.state threshold).isSome = true) ∧
      ((|closed.bar.barDelta| : Int) < threshold * M →
        detectExtremeDelta closed.bar closed.state threshold = none)) ↔
      ((detectExtremeDelta closed.bar closed.state threshold).isSome = true ↔
        threshold * M ≤ (|openDelta (run engine calls)| : Int)) := by
    rw [hdelta, ← not_le, ← Option.not_isSome_iff_eq_none]
    tauto
  rw [hrule, FitsRule]
  split at hmeasure
  · rename_i hleast
    rw [if_pos hleast]
    refine reports_least_iff hthreshold hhi0 (fun hne => ?_) (hdelta ▸
      detectExtremeDelta_isSome_iff closed.bar hmeasure hhi0 threshold)
    refine ⟨?_, abs32_openDelta hne⟩
    -- some bar before has the least delta, whose absolute value no delta exceeds
    have hbefore : (-(2 ^ 31) : Int) ∈ sessionDeltas engine calls := by
      rcases List.mem_append.mp hleast with h | h
      · exact h
      · exact absurd (List.mem_singleton.mp h).symm hne
    have hmost : |(-(2 ^ 31) : Int)| ≤ M := hM.2 ⟨_, hbefore, rfl⟩
    have hsmall : hi < 2 ^ 31 := by
      rcases hhi.1 with rfl | hmem
      · norm_num
      · exact (hbounds hi hmem).2
    rw [abs_neg, abs_of_nonneg (by norm_num)] at hmost
    omega
  · rename_i hnone
    rw [if_neg hnone]
    have hne : openDelta (run engine calls) ≠ -(2 ^ 31) := by
      intro heq
      exact hnone (List.mem_append_right _ (by simp [heq]))
    have hpos' : (0 : Rat) < M := by exact_mod_cast hpos
    have hfires := detectExtremeDelta_isSome_iff closed.bar hmeasure
      (lt_max_of_lt_left hpos).le threshold
    rw [hdelta, abs32_openDelta hne] at hfires
    push_cast at hfires ⊢
    rw [hfires, and_iff_right (lt_max_of_lt_left hpos)]
    exact le_div_max_iff hpos'

def buy (volume : Int) : Call := .onTick ⟨0, 100, volume, 1, .ask, .trade⟩

/-- A bar of a hundred contracts bought, and the ticks of the next bar. -/
def hundredThen (volume : Int) : List Call := [buy 100, .onBarClose emptyBar, buy volume]

theorem isGreatest_hundredThen (engine : DeltaEngine) (volume : Int) :
    IsGreatest {a | ∃ d ∈ sessionDeltas engine (hundredThen volume), a = |d|} 100 := by
  have hdeltas : sessionDeltas engine (hundredThen volume) = [100] := rfl
  rw [hdeltas]
  constructor
  · exact ⟨100, by simp, rfl⟩
  · rintro a ⟨d, hd, rfl⟩
    rw [List.mem_singleton.mp hd]
    exact le_refl _

theorem isGreatest_hundredThenFifty (engine : DeltaEngine) :
    IsGreatest (insert 0 {d | d ∈ sessionDeltas engine (hundredThen 50) ++
      [openDelta (run engine (hundredThen 50))]}) 100 := by
  have hdeltas : sessionDeltas engine (hundredThen 50) ++
      [openDelta (run engine (hundredThen 50))] = [100, 50] := rfl
  rw [hdeltas]
  constructor
  · exact .inr (by simp)
  · rintro d (rfl | hd)
    · norm_num
    · rcases List.mem_cons.mp hd with rfl | hd
      · exact le_refl _
      · rw [List.mem_singleton.mp hd]
        norm_num

/-- A bar of half the size at the threshold 1/4. -/
theorem detectExtremeDelta_reports_fifty :
    let closed := onBarClose ⟨1 / 2⟩ emptyBar (run ⟨1 / 2⟩ (hundredThen 50))
    (((1 / 4 : Rat) * (100 : Int) ≤ (|closed.bar.barDelta| : Int) →
        (detectExtremeDelta closed.bar closed.state (1 / 4)).isSome = true) ∧
      ((|closed.bar.barDelta| : Int) < (1 / 4 : Rat) * (100 : Int) →
        detectExtremeDelta closed.bar closed.state (1 / 4) = none)) ↔
      FitsRule (sessionDeltas ⟨1 / 2⟩ (hundredThen 50)) (openDelta (run ⟨1 / 2⟩ (hundredThen 50)))
        100 100 (1 / 4) :=
  detectExtremeDelta_reports_iff ⟨1 / 2⟩ (hundredThen 50) emptyBar 100 100
    (isGreatest_hundredThen _ 50) (by decide) (isGreatest_hundredThenFifty _) (1 / 4) (by norm_num)

/-- Three times the greatest delta of the session so far is not extreme at the default
threshold of one and a half. -/
theorem detectExtremeDelta_silent :
    let closed := onBarClose ⟨1 / 2⟩ emptyBar (run ⟨1 / 2⟩ (hundredThen 300))
    IsGreatest {a | ∃ d ∈ sessionDeltas ⟨1 / 2⟩ (hundredThen 300), a = |d|} 100 ∧
      ¬ ((3 / 2 : Rat) * (100 : Int) ≤ (|closed.bar.barDelta| : Int) →
        (detectExtremeDelta closed.bar closed.state).isSome = true) := by
  refine ⟨isGreatest_hundredThen _ 300, ?_⟩
  decide +kernel

end SessionDeltaEngine
