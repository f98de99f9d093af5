import OrderFlow.OfeBarPolling
import OrderFlow.OfeCandles
import OrderFlow.OfeDeltaExtremes
import OrderFlow.OfeValueArea
import OrderFlow.OfeVwapEngine

/-!
# Bars and analytics tell one story

The VWAP engine, the volume profile and the delta engine of `include/ofe`, fed with the
ticks of a bar, say what the bar says. Fed with all ticks of a series they say what
its bars add up to, wherever these were cut.
-/
noncomputable section

namespace OfeBars

open ResetRuns WeightedMeans

def vwapOf (ticks : List UniversalTickRecord) : OfeVwapEngine.VwapSnapshot :=
  OfeVwapEngine.snapshot
    (OfeVwapEngine.run ((ticks.map fun t => ((t.price : ℝ), (t.size : ℝ))).map .feed))

def profileOf (ticks : List UniversalTickRecord) : OfeVolumeProfile.VolumeProfileSnapshot :=
  OfeVolumeProfile.snapshot (OfeVolumeProfile.run ((ticks.map fun t => (t.price, t.size)).map .feed))

/-- A tick updates the delta engine with what `update_bar` books of it. -/
def deltaOf (ticks : List UniversalTickRecord) : OfeDeltaEngine.DeltaState :=
  (OfeDeltaEngine.run (ticks.map fun t => ⟨t.price, buySize t, sellSize t⟩)).state

def totalNotional (ticks : List UniversalTickRecord) : Rat := (ticks.map fun t => t.price * t.size).sum

theorem weight_cast (ticks : List UniversalTickRecord) :
    weight (ticks.map fun t => ((t.price : ℝ), (t.size : ℝ))) = (totalSize ticks : Rat) := by
  induction ticks with
  | nil => simp [totalSize]
  | cons t ticks ih =>
    have hcons : totalSize (t :: ticks) = t.size + totalSize ticks := by simp [totalSize]
    rw [List.map_cons, weight_cons, ih, hcons, Rat.cast_add]

theorem moment_cast (ticks : List UniversalTickRecord) :
    moment (ticks.map fun t => ((t.price : ℝ), (t.size : ℝ))) = (totalNotional ticks : Rat) := by
  induction ticks with
  | nil => simp [totalNotional]
  | cons t ticks ih =>
    have hcons : totalNotional (t :: ticks) = t.price * t.size + totalNotional ticks := by
      simp [totalNotional]
    rw [List.map_cons, moment_cons, ih, hcons, Rat.cast_add, Rat.cast_mul]

/-- The sums of the VWAP engine; ticks of no size add nothing to them. -/
theorem vwapEngine_sums {ticks : List UniversalTickRecord} (h : NonNegative ticks) :
    (OfeVwapEngine.run ((ticks.map fun t => ((t.price : ℝ), (t.size : ℝ))).map .feed)).sumVolume =
        (totalSize ticks : Rat) ∧
      (OfeVwapEngine.run
          ((ticks.map fun t => ((t.price : ℝ), (t.size : ℝ))).map .feed)).sumPriceVolume =
        (totalNotional ticks : Rat) := by
  have hholds := OfeVwapEngine.holds_run ((ticks.map fun t => ((t.price : ℝ), (t.size : ℝ))).map .feed)
  have hnonneg : ∀ x ∈ ticks.map fun t => ((t.price : ℝ), (t.size : ℝ)), 0 ≤ x.2 := by
    intro x hx
    obtain ⟨t, ht, rfl⟩ := List.mem_map.mp hx
    exact Rat.cast_nonneg.mpr (h t ht)
  rw [OfeVwapEngine.trades, sinceReset_feeds] at hholds
  rw [hholds.sumVolume, hholds.sumPriceVolume, weight_filter_pos hnonneg, moment_filter_pos hnonneg,
    weight_cast, moment_cast]
  exact ⟨rfl, rfl⟩

theorem vwapOf_totalVolume {ticks : List UniversalTickRecord} (h : NonNegative ticks) :
    (vwapOf ticks).totalVolume = (totalSize ticks : Rat) := by
  rw [← (vwapEngine_sums h).1, vwapOf, OfeVwapEngine.snapshot]
  split <;> rfl

theorem vwapOf_vwap {ticks : List UniversalTickRecord} (h : NonNegative ticks)
    (hsize : 0 < totalSize ticks) :
    (vwapOf ticks).vwap = ((totalNotional ticks / totalSize ticks : Rat) : ℝ) := by
  obtain ⟨hvolume, hnotional⟩ := vwapEngine_sums h
  have hpos : (0 : ℝ) < (totalSize ticks : Rat) := Rat.cast_pos.mpr hsize
  rw [vwapOf, OfeVwapEngine.snapshot, if_neg (not_le.mpr (hvolume ▸ hpos))]
  simp only [hvolume, hnotional, Rat.cast_div]

theorem volumeByPrice_feeds (xs : List (Rat × Rat)) :
    (OfeVolumeProfile.run (xs.map .feed)).volumeByPrice = SortedTallies.tally xs := by
  rw [OfeVolumeProfile.volumeByPrice_run, sinceReset_feeds]

theorem tally_nonneg {xs : List (Rat × Rat)} (h : ∀ x ∈ xs, 0 ≤ x.2) :
    ∀ level ∈ SortedTallies.tally xs, 0 ≤ level.2 := by
  intro level hlevel
  rw [((SortedTallies.mem_tally xs level).mp hlevel).2]
  apply List.sum_nonneg
  intro v hv
  obtain ⟨x, hx, rfl⟩ := List.mem_map.mp hv
  exact h x (List.mem_of_mem_filter hx)

/-- The profile of some ticks has their prices for levels and their sizes in all. -/
theorem isValueArea_profileOf {ticks : List UniversalTickRecord} (hne : ticks ≠ [])
    (h : NonNegative ticks) :
    OfeVolumeProfile.IsValueArea (SortedTallies.tally (ticks.map fun t => (t.price, t.size))) (7 / 10)
      (profileOf ticks) := by
  have hnonneg : ∀ x ∈ ticks.map fun t => (t.price, t.size), 0 ≤ x.2 := by
    intro x hx
    obtain ⟨t, ht, rfl⟩ := List.mem_map.mp hx
    exact h t ht
  have hlevels := volumeByPrice_feeds (ticks.map fun t => (t.price, t.size))
  obtain ⟨t, rest, rfl⟩ := List.exists_cons_of_ne_nil hne
  have hkey := (SortedTallies.mem_keys_tally t.price
    ((t :: rest).map fun t => (t.price, t.size))).mpr (by simp)
  rw [← hlevels] at hkey ⊢
  refine OfeVolumeProfile.isValueArea_snapshot ?_ ?_ (by norm_num)
  · rintro hnil
    rw [hnil] at hkey
    cases hkey
  · rw [hlevels]
    exact tally_nonneg hnonneg

theorem profileOf_totalVolume {ticks : List UniversalTickRecord} (hne : ticks ≠ [])
    (h : NonNegative ticks) : (profileOf ticks).totalVolume = totalSize ticks := by
  rw [(isValueArea_profileOf hne h).totalVolume, SortedTallies.sum_tally, List.map_map]
  rfl

/-- The levels are prices of ticks. -/
theorem price_of_level {ticks : List UniversalTickRecord} {p : Rat}
    (h : p ∈ (SortedTallies.tally (ticks.map fun t => (t.price, t.size))).map (·.1)) :
    p ∈ ticks.map (·.price) := by
  have hkey := (SortedTallies.mem_keys_tally p _).mp h
  simpa using hkey

theorem deltaOf_delta (ticks : List UniversalTickRecord) :
    (deltaOf ticks).cumulativeVolumeDelta = signedSum ticks := by
  rw [deltaOf, OfeDeltaEngine.cumulativeVolumeDelta_run, List.map_map, signedSum]
  congr 1
  apply List.map_congr_left
  intro t _
  exact (signedVolume_eq t).symm

theorem deltaOf_updateCount (ticks : List UniversalTickRecord) :
    (deltaOf ticks).updateCount = ticks.length := by
  rw [deltaOf, OfeDeltaEngine.updateCount_run, List.length_map]

/-- A bar says what the engines say of its ticks, and the value area lies within it. -/
structure SameAsEngines (ticks : List UniversalTickRecord) (bar : BarRecord) : Prop where
  volume : (bar.volume : ℝ) = (vwapOf ticks).totalVolume
  profile : bar.volume = (profileOf ticks).totalVolume
  vwap : 0 < bar.volume → (bar.vwap : ℝ) = (vwapOf ticks).vwap
  delta : bar.delta = (deltaOf ticks).cumulativeVolumeDelta
  tradeCount : bar.tradeCount = (deltaOf ticks).updateCount
  valueArea : bar.low ≤ (profileOf ticks).valueAreaLow ∧
    (profileOf ticks).valueAreaLow ≤ (profileOf ticks).pocPrice ∧
      (profileOf ticks).pocPrice ≤ (profileOf ticks).valueAreaHigh ∧
        (profileOf ticks).valueAreaHigh ≤ bar.high

theorem sameAsEngines_of_summary {bar : BarRecord} {ticks : List UniversalTickRecord}
    (hsummary : Summary bar ticks) (h : NonNegative ticks) : SameAsEngines ticks bar := by
  have hne := summary_ne_nil hsummary
  have harea := isValueArea_profileOf hne h
  have hvolume : bar.volume = totalSize ticks := hsummary.volume
  constructor
  case volume => rw [vwapOf_totalVolume h, hvolume]
  case profile => rw [profileOf_totalVolume hne h, hvolume]
  case vwap =>
    intro hpos
    rw [vwapOf_vwap h (hvolume ▸ hpos), hsummary.vwap, if_pos hpos, hvolume, totalNotional]
  case delta => rw [deltaOf_delta, hsummary.delta]
  case tradeCount => rw [deltaOf_updateCount, hsummary.tradeCount]
  case valueArea =>
    refine ⟨?_, harea.low_le_poc, harea.poc_le_high, ?_⟩
    · exact hsummary.low.2 (price_of_level harea.low_mem)
    · exact hsummary.high.2 (price_of_level harea.high_mem)

/-- The engines on a list of ticks say what the bars add up to. -/
structure AddsUp (ticks : List UniversalTickRecord) (bars : List BarRecord) : Prop where
  volume : (vwapOf ticks).totalVolume = ((bars.map (·.volume)).sum : Rat)
  notional : (vwapOf ticks).vwap * (vwapOf ticks).totalVolume =
    ((bars.map fun bar => bar.vwap * bar.volume).sum : Rat)
  profile : (profileOf ticks).totalVolume = (bars.map (·.volume)).sum
  delta : (deltaOf ticks).cumulativeVolumeDelta = (bars.map (·.delta)).sum
  tradeCount : (deltaOf ticks).updateCount = (bars.map (·.tradeCount)).sum

theorem totalNotional_append (xs ys : List UniversalTickRecord) :
    totalNotional (xs ++ ys) = totalNotional xs + totalNotional ys := by
  simp [totalNotional]

/-- Ticks of no size are worth nothing. -/
theorem totalNotional_of_totalSize {ticks : List UniversalTickRecord} (h : NonNegative ticks)
    (hzero : totalSize ticks = 0) : totalNotional ticks = 0 := by
  induction ticks with
  | nil => rfl
  | cons t ticks ih =>
    obtain ⟨ht, hrest⟩ := List.forall_mem_cons.mp h
    have hsum : t.size + totalSize ticks = 0 := by simpa [totalSize] using hzero
    have hnonneg := totalSize_nonneg hrest
    have hsize : t.size = 0 := by linarith
    have htail := ih hrest (by linarith)
    have hcons : totalNotional (t :: ticks) = t.price * t.size + totalNotional ticks := by
      simp [totalNotional]
    rw [hcons, hsize, htail, mul_zero, add_zero]

theorem vwapOf_notional {ticks : List UniversalTickRecord} (h : NonNegative ticks) :
    (vwapOf ticks).vwap * (vwapOf ticks).totalVolume = (totalNotional ticks : Rat) := by
  rw [vwapOf_totalVolume h]
  by_cases hpos : 0 < totalSize ticks
  · rw [vwapOf_vwap h hpos, ← Rat.cast_mul, div_mul_cancel₀ _ hpos.ne']
  · have hzero : totalSize ticks = 0 := le_antisymm (not_lt.mp hpos) (totalSize_nonneg h)
    rw [hzero, totalNotional_of_totalSize h hzero, Rat.cast_zero, mul_zero]

theorem vwap_mul_volume {bar : BarRecord} {ticks : List UniversalTickRecord}
    (hsummary : Summary bar ticks) (h : NonNegative ticks) :
    bar.vwap * bar.volume = totalNotional ticks := by
  have hvolume : bar.volume = totalSize ticks := hsummary.volume
  by_cases hpos : 0 < bar.volume
  · rw [hsummary.vwap, if_pos hpos, div_mul_cancel₀ _ hpos.ne', totalNotional]
  · have hzero : totalSize ticks = 0 := by
      have hnonneg := totalSize_nonneg h
      rw [← hvolume] at hnonneg ⊢
      exact le_antisymm (not_lt.mp hpos) hnonneg
    rw [hvolume, hzero, mul_zero, totalNotional_of_totalSize h hzero]

/-- What bars add up to, read off all their ticks. -/
theorem sums_of_summaries {bars : List BarRecord} {segs : List (List UniversalTickRecord)}
    (hbars : List.Forall₂ Summary bars segs) (h : NonNegative segs.flatten) :
    (bars.map (·.volume)).sum = totalSize segs.flatten ∧
      (bars.map fun bar => bar.vwap * bar.volume).sum = totalNotional segs.flatten ∧
        (bars.map (·.delta)).sum = signedSum segs.flatten ∧
          (bars.map (·.tradeCount)).sum = segs.flatten.length := by
  induction hbars with
  | nil => exact ⟨rfl, rfl, rfl, rfl⟩
  | cons hfirst _ ih =>
    rw [List.flatten_cons] at h
    obtain ⟨hvolume, hnotional, hdelta, hcount⟩ := ih fun t ht => h t (List.mem_append_right _ ht)
    have hworth := vwap_mul_volume hfirst fun t ht => h t (List.mem_append_left _ ht)
    simp only [List.map_cons, List.sum_cons, List.flatten_cons]
    refine ⟨?_, ?_, ?_, ?_⟩
    · rw [hvolume, hfirst.volume, totalSize_append]
      rfl
    · rw [hnotional, hworth, totalNotional_append]
    · rw [hdelta, hfirst.delta, signedSum_append]
    · rw [hcount, hfirst.tradeCount, List.length_append]

theorem addsUp_of_summaries {bars : List BarRecord} {segs : List (List UniversalTickRecord)}
    (hbars : List.Forall₂ Summary bars segs) (h : NonNegative segs.flatten) :
    AddsUp segs.flatten bars := by
  obtain ⟨hvolume, hnotional, hdelta, hcount⟩ := sums_of_summaries hbars h
  constructor
  case volume => rw [vwapOf_totalVolume h, hvolume]
  case notional => rw [vwapOf_notional h, hnotional]
  case delta => rw [deltaOf_delta, hdelta]
  case tradeCount => rw [deltaOf_updateCount, hcount]
  case profile =>
    by_cases hne : segs.flatten = []
    · rw [hvolume, hne]
      rfl
    · rw [profileOf_totalVolume hne h, hvolume]

theorem summaries_of_tracks {s : BarSeries} {c : GreedySegments.Cut UniversalTickRecord}
    (h : Tracks s c) : List.Forall₂ Summary s.bars c.segs := by
  by_cases hc : c.current = []
  · rw [GreedySegments.segs_of_current_nil c hc, BarSeries.bars, h.idle hc]
    simpa using h.completed
  · have hopen := h.bar hc
    rw [GreedySegments.segs_of_current_ne_nil c hc, BarSeries.bars, hopen.active, if_pos rfl]
    exact List.rel_append h.completed (.cons hopen.summary .nil)

/-- For series of every type and threshold, on ticks of no negative size. -/
theorem bars_as_engines (type : BarType) (threshold : UInt64) (ticks : List UniversalTickRecord)
    (h : NonNegative ticks) :
    (∃ segs, segs.flatten = ticks ∧
      List.Forall₂ SameAsEngines segs ((newSeries type threshold).ingestAll ticks).bars) ∧
      AddsUp ticks ((newSeries type threshold).ingestAll ticks).bars := by
  have hbars := summaries_of_tracks (tracks_ingestAll type threshold ticks)
  have hall : ((wordRule type threshold).cut ticks).segs.flatten = ticks := by
    rw [GreedySegments.segs_flatten, GreedySegments.cut_all]
  have hsegs : ∀ seg ∈ ((wordRule type threshold).cut ticks).segs, NonNegative seg := by
    intro seg hseg t ht
    refine h t ?_
    rw [← hall]
    exact List.mem_flatten.mpr ⟨seg, hseg, ht⟩
  refine ⟨⟨_, hall, ?_⟩, ?_⟩
  · apply ((List.forall₂_and_left _ _).mpr ⟨hsegs, hbars.flip⟩).imp
    rintro seg bar ⟨hnonneg, hsummary⟩
    exact sameAsEngines_of_summary hsummary hnonneg
  · have hadds := addsUp_of_summaries hbars (hall.symm ▸ h)
    rwa [hall] at hadds

/-- Three trades, the second of no size; with two contracts to a bar the last two stand in the
open one. -/
def threeTrades : List UniversalTickRecord :=
  [⟨1, 7, 100, 2, 99, 100, 1, 1⟩, ⟨2, 7, 101, 0, 99, 100, 1, 1⟩, ⟨3, 7, 99, 1, 99, 100, 1, 1⟩]

theorem bars_as_engines_threeTrades :
    (∃ segs, segs.flatten = threeTrades ∧
      List.Forall₂ SameAsEngines segs ((newSeries .volume 2).ingestAll threeTrades).bars) ∧
      AddsUp threeTrades ((newSeries .volume 2).ingestAll threeTrades).bars := by
  have hsizes : NonNegative threeTrades := by
    simp only [threeTrades, NonNegative, List.forall_mem_cons]
    norm_num
  exact bars_as_engines .volume 2 threeTrades hsizes

end OfeBars

end
