import OrderFlow.SessionDeltaLedger
import OrderFlow.SessionDeltaSignals

/-!
# Divergence and small range of a bar

`detectDivergence` looks for a bar that closed against its own delta, `detectSmallRange` for one
whose running delta stayed in a narrow band. What they report is read off the ticks of the bar:
a band is narrow if no two moments of the bar are further apart, and all signals of a bar that
take a side take the one with more volume.
-/
namespace SessionDeltaEngine

open SessionTypes
open SessionImbalance (SignalDirection SignalStrength)

inductive BarSignalType where
  | deltaDivergenceBar | smallMinMaxDelta
  deriving DecidableEq, Repr

/-- What the two signals write as JSON. -/
inductive BarSignalMetadata where
  | barLevel (barDelta : Int) (barClose barOpen : Rat)
  | band (maxDelta minDelta range : Int) (rangePct : Rat)
  deriving DecidableEq, Repr

structure BarSignal where
  type : BarSignalType
  direction : SignalDirection
  strength : SignalStrength
  symbolId : UInt32
  symbol : String
  barId : String
  barOpenTsNs : Int := 0
  barCloseTsNs : Int
  barDelta : Int
  barVolume : Int
  cumulativeDelta : Int := 0
  priceAtSignal : Rat
  metadataJson : BarSignalMetadata
  deriving DecidableEq, Repr

/-- The number of bars to look back is a parameter that is not used. -/
def detectDivergence (bar : BarRecord) (state : DeltaState) (_lookback : Int := 3) : List BarSignal :=
  let barBullish := decide (bar.close > bar.openPrice)
  let barBearish := decide (bar.close < bar.openPrice)
  let barDivBullish := barBearish && decide (bar.barDelta > 0)
  let barDivBearish := barBullish && decide (bar.barDelta < 0)
  if barDivBullish || barDivBearish then
    [{ type := .deltaDivergenceBar
       direction := if barDivBullish then .long else .short
       strength := .moderate
       symbolId := bar.symbolId
       symbol := bar.symbol
       barId := bar.barId
       barOpenTsNs := bar.barOpenTsNs
       barCloseTsNs := bar.barCloseTsNs
       barDelta := bar.barDelta
       barVolume := bar.totalVolume
       cumulativeDelta := state.cumulativeDelta
       priceAtSignal := bar.close
       metadataJson := .barLevel bar.barDelta bar.close bar.openPrice }]
  else []

/-- The state is a parameter that is not used. -/
def detectSmallRange (bar : BarRecord) (_state : DeltaState) (rangeThresholdPct : Rat := 1 / 10) :
    Option BarSignal :=
  if bar.totalVolume = 0 then none
  else
    let deltaRange := wrap32 (bar.maxDelta - bar.minDelta)
    let rangeRatio : Rat := deltaRange / bar.totalVolume
    if rangeRatio ≥ rangeThresholdPct then none
    else some
      { type := .smallMinMaxDelta
        direction := .neutral
        strength := .weak
        symbolId := bar.symbolId
        symbol := bar.symbol
        barId := bar.barId
        barCloseTsNs := bar.barCloseTsNs
        barDelta := bar.barDelta
        barVolume := bar.totalVolume
        priceAtSignal := bar.close
        metadataJson := .band bar.maxDelta bar.minDelta deltaRange (rangeRatio * 100) }

/-- The distance of the extremes is the greatest distance. -/
theorem extremes_lt_iff {s : Set Int} {hi lo : Int} (hhi : IsGreatest s hi) (hlo : IsLeast s lo)
    (bound : Rat) :
    ((hi - lo : Int) : Rat) < bound ↔ ∀ a ∈ s, ∀ b ∈ s, ((a - b : Int) : Rat) < bound := by
  constructor
  · intro h a ha b hb
    have hle : a - b ≤ hi - lo := by
      have := hhi.2 ha
      have := hlo.2 hb
      omega
    exact lt_of_le_of_lt (by exact_mod_cast hle) h
  · intro h
    exact h hi hhi.1 lo hlo.1

/-- The running delta of the bar after some of its ticks. -/
def deltaAfter (ticks : List UniversalTickRecord) (count : Nat) : Int := delta (ticks.take count)

theorem volume_nonneg {ticks : List UniversalTickRecord} (h : ∀ tick ∈ ticks, 0 ≤ tick.volume) :
    0 ≤ volume ticks :=
  add_nonneg (sideVolume_nonneg .ask h) (sideVolume_nonneg .bid h)

/-- What the detector compares, in terms of what the close accounts for. -/
theorem detectSmallRange_of_accounted {ledger : Ledger} {closed : Closed}
    (h : Accounted ledger closed) (hnonneg : ∀ t ∈ ledger.ticks, 0 ≤ t.volume)
    (hlight : volume ledger.ticks < 2 ^ 31) (threshold : Rat) :
    (detectSmallRange closed.bar closed.state threshold).isSome = true ↔
      0 < volume ledger.ticks ∧
        ((closed.bar.maxDelta - closed.bar.minDelta : Int) : Rat) < threshold * volume ledger.ticks := by
  have htotal : closed.bar.totalVolume = volume ledger.ticks := h.totalVolume
  have hspread := h.spread
  have hsigns := h.signs
  rw [htotal] at hspread
  have hrange : wrap32 (closed.bar.maxDelta - closed.bar.minDelta) =
      closed.bar.maxDelta - closed.bar.minDelta := wrap32_of_small (by omega) (by omega)
  have hvolume := volume_nonneg hnonneg
  rw [detectSmallRange, htotal, hrange]
  split
  · rename_i hzero
    simp [hzero]
  · rename_i hne
    have hpos : 0 < volume ledger.ticks := by omega
    have hpos' : (0 : Rat) < volume ledger.ticks := by exact_mod_cast hpos
    simp only [ge_iff_le, le_div_iff₀ hpos']
    split
    · rename_i hwide
      simpa using fun _ => hwide
    · rename_i hnarrow
      simpa [hpos] using hnarrow

/-- With one side only, the ends of the bar are its volume apart. -/
theorem apart_of_oneSided {ticks : List UniversalTickRecord}
    (h : sideVolume .ask ticks = 0 ∨ sideVolume .bid ticks = 0) :
    ∃ i j, deltaAfter ticks i - deltaAfter ticks j = volume ticks := by
  have hend : deltaAfter ticks ticks.length = sideVolume .ask ticks - sideVolume .bid ticks := by
    rw [deltaAfter, List.take_length, delta]
  have hstart : deltaAfter ticks 0 = 0 := rfl
  rcases h with hask | hbid
  · refine ⟨0, ticks.length, ?_⟩
    rw [hstart, hend, volume]
    omega
  · refine ⟨ticks.length, 0, ?_⟩
    rw [hstart, hend, volume]
    omega

/-- A bar with volume is reported as narrow exactly if no two moments of it are as far apart in
running delta as the threshold says. So a bar of one side is never reported at a threshold up to
1, and over 1 every bar with volume is. -/
theorem detectSmallRange_iff (engine : DeltaEngine) (calls : List Call) (h : Small calls)
    (bar : BarRecord) (threshold : Rat) :
    let closed := onBarClose engine bar (run engine calls)
    let ticks := (ledgerOf calls).ticks
    ((detectSmallRange closed.bar closed.state threshold).isSome = true ↔
      0 < volume ticks ∧ ∀ i j,
        ((deltaAfter ticks i - deltaAfter ticks j : Int) : Rat) < threshold * volume ticks) ∧
    (threshold ≤ 1 → (sideVolume .ask ticks = 0 ∨ sideVolume .bid ticks = 0) →
      detectSmallRange closed.bar closed.state threshold = none) ∧
    (1 < threshold → 0 < volume ticks →
      (detectSmallRange closed.bar closed.state threshold).isSome = true) := by
  intro closed ticks
  have hnonneg := ledger_nonneg h
  have hlight := h.light _ (List.prefix_refl _)
  have haccounted : Accounted (ledgerOf calls) closed :=
    accounted_of_tracks (tracks_run engine calls h) engine bar hnonneg hlight
  have hreports := detectSmallRange_of_accounted haccounted hnonneg hlight threshold
  have hmoments : (detectSmallRange closed.bar closed.state threshold).isSome = true ↔
      0 < volume ticks ∧ ∀ i j,
        ((deltaAfter ticks i - deltaAfter ticks j : Int) : Rat) < threshold * volume ticks := by
    rw [hreports, extremes_lt_iff haccounted.maxDelta haccounted.minDelta]
    refine and_congr_right fun _ => ?_
    constructor
    · exact fun hall i j => hall _ ⟨i, rfl⟩ _ ⟨j, rfl⟩
    · rintro hall _ ⟨i, rfl⟩ _ ⟨j, rfl⟩
      exact hall i j
  refine ⟨hmoments, ?_, ?_⟩
  · intro hone hside
    rw [← Option.not_isSome_iff_eq_none, hmoments]
    rintro ⟨hpos, hall⟩
    obtain ⟨i, j, hapart⟩ := apart_of_oneSided hside
    have hless := hall i j
    rw [hapart] at hless
    have hpos' : (0 : Rat) < volume ticks := by exact_mod_cast hpos
    have hmost : threshold * volume ticks ≤ 1 * volume ticks :=
      mul_le_mul_of_nonneg_right hone hpos'.le
    linarith
  · intro hone hpos
    have hpos' : (0 : Rat) < volume ticks := by exact_mod_cast hpos
    have hspread := haccounted.spread
    rw [show closed.bar.totalVolume = volume ticks from haccounted.totalVolume] at hspread
    have hspread' : ((closed.bar.maxDelta - closed.bar.minDelta : Int) : Rat) ≤ volume ticks := by
      exact_mod_cast hspread
    have hless : 1 * (volume ticks : Rat) < threshold * volume ticks :=
      mul_lt_mul_of_pos_right hone hpos'
    exact hreports.mpr ⟨hpos, by linarith⟩

/-- Seventy-five contracts, back and forth, and a trade without a side. -/
def backAndForth : List Call :=
  [.onTick ⟨0, 100, 20, 7, .ask, .trade⟩, .onTick ⟨1, 100, 30, 7, .bid, .trade⟩,
    .onTick ⟨2, 100, 240, 7, .unknown, .trade⟩, .onTick ⟨3, 100, 25, 7, .ask, .trade⟩]

theorem small_backAndForth : Small backAndForth := by
  constructor
  · intro tick htick
    simp only [backAndForth, List.mem_cons, Call.onTick.injEq, List.not_mem_nil, or_false] at htick
    rcases htick with rfl | rfl | rfl | rfl <;> decide
  · have hall : ∀ earlier ∈ backAndForth.inits, volume (ledgerOf earlier).ticks < 2 ^ 31 := by decide
    exact fun earlier h => hall earlier ((List.mem_inits _ _).mpr h)

theorem detectSmallRange_iff_backAndForth :
    let closed := onBarClose ⟨2 / 15⟩ emptyBar (run ⟨2 / 15⟩ backAndForth)
    let ticks := (ledgerOf backAndForth).ticks
    ((detectSmallRange closed.bar closed.state (1 / 2)).isSome = true ↔
      0 < volume ticks ∧ ∀ i j,
        ((deltaAfter ticks i - deltaAfter ticks j : Int) : Rat) < 1 / 2 * volume ticks) ∧
    ((1 / 2 : Rat) ≤ 1 → (sideVolume .ask ticks = 0 ∨ sideVolume .bid ticks = 0) →
      detectSmallRange closed.bar closed.state (1 / 2) = none) ∧
    ((1 : Rat) < 1 / 2 → 0 < volume ticks →
      (detectSmallRange closed.bar closed.state (1 / 2)).isSome = true) :=
  detectSmallRange_iff ⟨2 / 15⟩ backAndForth small_backAndForth emptyBar (1 / 2)

/-- The sides that the signals of a closed bar take. -/
def sidesTaken (closed : Closed) (surgeThreshold extremeThreshold : Rat) : List SignalDirection :=
  (detectDivergence closed.bar closed.state).map (·.direction) ++
    (detectSurge closed.bar closed.state surgeThreshold).toList.map (·.direction) ++
    (detectExtremeDelta closed.bar closed.state extremeThreshold).toList.map (·.direction)

/-- A side is that of the delta, which is not zero. -/
def WithDelta (barDelta : Int) (direction : SignalDirection) : Prop :=
  (direction = .long ∧ 0 < barDelta) ∨ (direction = .short ∧ barDelta < 0)

theorem withDelta_if {barDelta : Int} (h : barDelta ≠ 0) :
    WithDelta barDelta (if barDelta > 0 then .long else .short) := by
  split
  · rename_i hpos
    exact .inl ⟨rfl, hpos⟩
  · exact .inr ⟨rfl, by omega⟩

theorem detectDivergence_side (bar : BarRecord) (state : DeltaState) :
    ∀ signal ∈ detectDivergence bar state, WithDelta bar.barDelta signal.direction := by
  intro signal hsignal
  simp only [detectDivergence, List.mem_ite_nil_right, List.mem_singleton] at hsignal
  obtain ⟨hdiverges, rfl⟩ := hsignal
  by_cases hup : bar.close < bar.openPrice ∧ 0 < bar.barDelta
  · exact .inl ⟨by simp [hup], hup.2⟩
  · have hdown : bar.barDelta < 0 := by
      simp only [Bool.or_eq_true, Bool.and_eq_true, decide_eq_true_eq, gt_iff_lt] at hdiverges
      exact (hdiverges.resolve_left hup).2
    exact .inr ⟨by simp [hup], hdown⟩

/-- A threshold over zero is not reached by a delta of zero. -/
theorem barDelta_ne_zero {barDelta base : Int} {threshold : Rat} (hpos : 0 < threshold)
    (hreached : ¬ (abs32 barDelta : Rat) / base < threshold) : barDelta ≠ 0 := by
  rintro rfl
  rw [abs32_zero, Int.cast_zero, zero_div] at hreached
  exact hreached hpos

theorem detectSurge_side (bar : BarRecord) (state : DeltaState) {surgeThreshold : Rat}
    (hpos : 0 < surgeThreshold) :
    ∀ signal ∈ detectSurge bar state surgeThreshold, WithDelta bar.barDelta signal.direction := by
  intro signal hsignal
  simp only [detectSurge, Option.mem_def] at hsignal
  split at hsignal
  · cases hsignal
  · split at hsignal
    · cases hsignal
    · rename_i hreached
      obtain rfl := Option.some.inj hsignal
      exact withDelta_if (barDelta_ne_zero hpos hreached)

theorem detectExtremeDelta_side (bar : BarRecord) (state : DeltaState) {threshold : Rat}
    (hpos : 0 < threshold) :
    ∀ signal ∈ detectExtremeDelta bar state threshold, WithDelta bar.barDelta signal.direction := by
  intro signal hsignal
  simp only [detectExtremeDelta, Option.mem_def] at hsignal
  split at hsignal
  · cases hsignal
  · split at hsignal
    · cases hsignal
    · split at hsignal
      · cases hsignal
      · rename_i hreached
        obtain rfl := Option.some.inj hsignal
        exact withDelta_if (barDelta_ne_zero hpos hreached)

/-- A divergence is against the price. -/
theorem detectDivergence_against (bar : BarRecord) (state : DeltaState) :
    ∀ signal ∈ detectDivergence bar state,
      (signal.direction = .long ∧ bar.close < bar.openPrice) ∨
        (signal.direction = .short ∧ bar.openPrice < bar.close) := by
  intro signal hsignal
  simp only [detectDivergence, List.mem_ite_nil_right, List.mem_singleton] at hsignal
  obtain ⟨hdiverges, rfl⟩ := hsignal
  by_cases hup : bar.close < bar.openPrice ∧ 0 < bar.barDelta
  · exact .inl ⟨by simp [hup], hup.1⟩
  · simp only [Bool.or_eq_true, Bool.and_eq_true, decide_eq_true_eq, gt_iff_lt] at hdiverges
    exact .inr ⟨by simp [hup], (hdiverges.resolve_left hup).1⟩

/-- In every session all signals of a bar take the side that traded more in it, a divergence
against the price. -/
theorem sides_of_volume (engine : DeltaEngine) (calls : List Call) (h : Small calls)
    (bar : BarRecord) (surgeThreshold extremeThreshold : Rat) (hsurge : 0 < surgeThreshold)
    (hextreme : 0 < extremeThreshold) :
    let closed := onBarClose engine bar (run engine calls)
    let ticks := (ledgerOf calls).ticks
    (∀ direction ∈ sidesTaken closed surgeThreshold extremeThreshold,
      (direction = .long ∧ sideVolume .bid ticks < sideVolume .ask ticks) ∨
        (direction = .short ∧ sideVolume .ask ticks < sideVolume .bid ticks)) ∧
    ∀ signal ∈ detectDivergence closed.bar closed.state,
      (signal.direction = .long ∧ bar.close < bar.openPrice) ∨
        (signal.direction = .short ∧ bar.openPrice < bar.close) := by
  intro closed ticks
  refine ⟨fun direction hdirection => ?_, detectDivergence_against closed.bar closed.state⟩
  have haccounted : Accounted (ledgerOf calls) closed :=
    accounted_of_tracks (tracks_run engine calls h) engine bar (ledger_nonneg h)
      (h.light _ (List.prefix_refl _))
  have hdelta : closed.bar.barDelta = sideVolume .ask ticks - sideVolume .bid ticks :=
    haccounted.barDelta
  have hside : WithDelta closed.bar.barDelta direction := by
    simp only [sidesTaken, List.mem_append, List.mem_map, Option.mem_toList] at hdirection
    rcases hdirection with (⟨signal, hsignal, rfl⟩ | ⟨signal, hsignal, rfl⟩) | ⟨signal, hsignal, rfl⟩
    · exact detectDivergence_side _ _ signal hsignal
    · exact detectSurge_side _ _ hsurge signal hsignal
    · exact detectExtremeDelta_side _ _ hextreme signal hsignal
  rcases hside with ⟨hlong, hpos⟩ | ⟨hshort, hneg⟩
  · exact .inl ⟨hlong, by omega⟩
  · exact .inr ⟨hshort, by omega⟩

theorem sides_of_volume_backAndForth :
    let closed := onBarClose ⟨2 / 15⟩ emptyBar (run ⟨2 / 15⟩ backAndForth)
    let ticks := (ledgerOf backAndForth).ticks
    (∀ direction ∈ sidesTaken closed 1 1,
      (direction = .long ∧ sideVolume .bid ticks < sideVolume .ask ticks) ∨
        (direction = .short ∧ sideVolume .ask ticks < sideVolume .bid ticks)) ∧
    ∀ signal ∈ detectDivergence closed.bar closed.state,
      (signal.direction = .long ∧ emptyBar.close < emptyBar.openPrice) ∨
        (signal.direction = .short ∧ emptyBar.openPrice < emptyBar.close) :=
  sides_of_volume ⟨2 / 15⟩ backAndForth small_backAndForth emptyBar 1 1 (by norm_num) (by norm_num)

end SessionDeltaEngine
