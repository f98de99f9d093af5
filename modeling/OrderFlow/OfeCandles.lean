import Mathlib.Algebra.Order.BigOperators.Group.List
import OrderFlow.OfeBarRuns
import OrderFlow.OfeBarSegments
import OrderFlow.WeightedMeans

/-!
# The geometry of a candle

A bar is the summary of its ticks, so the inequalities between its fields are facts
about lists of prices with sizes: the mean lies between the extremes, and a running
sum of signed sizes moves no further than the sizes add up to.
-/
namespace OfeBars

open GreedySegments WeightedMeans

/-- What readers of a bar assume of its fields. -/
structure Candle (b : BarRecord) : Prop where
  openPrice : b.low ≤ b.openPrice ∧ b.openPrice ≤ b.high
  close : b.low ≤ b.close ∧ b.close ≤ b.high
  vwap : b.low ≤ b.vwap ∧ b.vwap ≤ b.high
  wicks_nonneg : 0 ≤ b.upperWick ∧ 0 ≤ b.lowerWick ∧ 0 ≤ b.bodySize
  wicks_sum : b.upperWick + b.lowerWick + b.bodySize = b.range
  range : b.range = b.high - b.low
  sides_nonneg : 0 ≤ b.buyVolume ∧ 0 ≤ b.sellVolume
  sides_le : b.buyVolume + b.sellVolume ≤ b.volume
  delta : b.minDelta ≤ b.delta ∧ b.delta ≤ b.maxDelta
  deltaRange : b.maxDelta - b.minDelta ≤ b.volume
  abs_delta : |b.delta| ≤ b.volume

def NonNegative (seg : List UniversalTickRecord) : Prop := ∀ t ∈ seg, 0 ≤ t.size

theorem totalSize_append (xs ys : List UniversalTickRecord) :
    totalSize (xs ++ ys) = totalSize xs + totalSize ys := by
  simp [totalSize]

theorem totalSize_nonneg {seg : List UniversalTickRecord} (h : NonNegative seg) :
    0 ≤ totalSize seg := by
  apply List.sum_nonneg
  intro v hv
  obtain ⟨t, ht, rfl⟩ := List.mem_map.mp hv
  exact h t ht

theorem sides_of_size {t : UniversalTickRecord} (h : 0 ≤ t.size) :
    0 ≤ buySize t ∧ 0 ≤ sellSize t ∧ buySize t + sellSize t ≤ t.size := by
  unfold buySize sellSize
  cases booking t <;> simp [h]

/-- The sides of a list of ticks, and the two bounds on their difference. -/
theorem sides_sum {seg : List UniversalTickRecord} (h : NonNegative seg) :
    0 ≤ (seg.map buySize).sum ∧ 0 ≤ (seg.map sellSize).sum ∧
      (seg.map buySize).sum + (seg.map sellSize).sum ≤ totalSize seg := by
  induction seg with
  | nil => simp [totalSize]
  | cons t seg ih =>
    obtain ⟨ht, hseg⟩ := List.forall_mem_cons.mp h
    obtain ⟨hbuy, hsell, hsides⟩ := sides_of_size ht
    obtain ⟨hbuys, hsells, hsum⟩ := ih hseg
    have htotal : totalSize (t :: seg) = t.size + totalSize seg := by simp [totalSize]
    rw [List.map_cons, List.sum_cons, List.map_cons, List.sum_cons, htotal]
    refine ⟨add_nonneg hbuy hbuys, add_nonneg hsell hsells, ?_⟩
    linarith

theorem abs_signedSum_le {seg : List UniversalTickRecord} (h : NonNegative seg) :
    |signedSum seg| ≤ totalSize seg := by
  obtain ⟨hbuys, hsells, hsum⟩ := sides_sum h
  rw [signedSum_eq, abs_le]
  constructor <;> linarith

/-- Between two moments of a bar its delta moves by at most the sizes in between. -/
theorem abs_signedSum_take_sub_le {seg : List UniversalTickRecord} (h : NonNegative seg)
    {n m : Nat} (hnm : n ≤ m) :
    |signedSum (seg.take m) - signedSum (seg.take n)| ≤ totalSize seg := by
  let between := (seg.take m).drop n
  have hfront : seg.take m = seg.take n ++ between := by
    have hsplit := List.take_append_drop n (seg.take m)
    rw [List.take_take, min_eq_left hnm] at hsplit
    exact hsplit.symm
  have hwhole : seg = (seg.take n ++ between) ++ seg.drop m := by
    rw [← hfront, List.take_append_drop]
  have hbetween : NonNegative between := fun t ht =>
    h t (List.mem_of_mem_take (List.mem_of_mem_drop ht))
  have hbefore : 0 ≤ totalSize (seg.take n) :=
    totalSize_nonneg fun t ht => h t (List.mem_of_mem_take ht)
  have hafter : 0 ≤ totalSize (seg.drop m) :=
    totalSize_nonneg fun t ht => h t (List.mem_of_mem_drop ht)
  have htotal : totalSize seg =
      totalSize (seg.take n) + totalSize between + totalSize (seg.drop m) := by
    rw [← totalSize_append, ← totalSize_append, ← hwhole]
  have hmove : signedSum (seg.take m) - signedSum (seg.take n) = signedSum between := by
    rw [hfront, signedSum_append, add_sub_cancel_left]
  have hbound := abs_signedSum_le hbetween
  rw [hmove]
  linarith

theorem mem_runningDeltas {seg : List UniversalTickRecord} {d : Rat} (hd : d ∈ runningDeltas seg) :
    ∃ n, d = signedSum (seg.take n) := by
  obtain ⟨n, -, rfl⟩ := List.mem_map.mp hd
  exact ⟨n + 1, rfl⟩

/-- The largest running delta is no further from the least than the volume. -/
theorem runningDeltas_sub_le {seg : List UniversalTickRecord} (h : NonNegative seg) {d e : Rat}
    (hd : d ∈ runningDeltas seg) (he : e ∈ runningDeltas seg) : d - e ≤ totalSize seg := by
  obtain ⟨m, rfl⟩ := mem_runningDeltas hd
  obtain ⟨n, rfl⟩ := mem_runningDeltas he
  rcases Nat.le_total n m with hnm | hmn
  · exact (le_abs_self _).trans (abs_signedSum_take_sub_le h hnm)
  · rw [← neg_sub]
    exact (neg_le_abs _).trans (abs_signedSum_take_sub_le h hmn)

theorem signedSum_mem_runningDeltas {seg : List UniversalTickRecord} (hne : seg ≠ []) :
    signedSum seg ∈ runningDeltas seg := by
  obtain ⟨front, last, rfl⟩ := (List.eq_nil_or_concat seg).resolve_left hne
  rw [List.concat_eq_append, runningDeltas_snoc]
  simp

theorem price_between {b : BarRecord} {seg : List UniversalTickRecord} (h : Summary b seg) :
    ∀ t ∈ seg, b.low ≤ t.price ∧ t.price ≤ b.high := by
  intro t ht
  have hmem : t.price ∈ seg.map (·.price) := List.mem_map.mpr ⟨t, ht, rfl⟩
  exact ⟨h.low.2 hmem, h.high.2 hmem⟩

/-- The volume-weighted mean of the ticks lies between their extremes. -/
theorem vwap_between {b : BarRecord} {seg : List UniversalTickRecord} (h : Summary b seg)
    (hsize : NonNegative seg) (hclose : b.low ≤ b.close ∧ b.close ≤ b.high) :
    b.low ≤ b.vwap ∧ b.vwap ≤ b.high := by
  rw [h.vwap]
  split
  · rename_i hpos
    let trades := seg.map fun t => (t.price, t.size)
    have hweight : weight trades = b.volume := by
      simp [trades, weight, h.volume, Function.comp_def]
    have hmoment : moment trades = (seg.map fun t => t.price * t.size).sum := by
      simp [trades, moment, Function.comp_def]
    rw [← hmoment, ← hweight]
    apply mean_mem_Icc
    · intro x hx
      obtain ⟨t, ht, rfl⟩ := List.mem_map.mp hx
      exact hsize t ht
    · rw [hweight]
      exact hpos
    · intro x hx
      obtain ⟨t, ht, rfl⟩ := List.mem_map.mp hx
      exact (price_between h t ht).1
    · intro x hx
      obtain ⟨t, ht, rfl⟩ := List.mem_map.mp hx
      exact (price_between h t ht).2
  · exact hclose

/-- A bar that summarises ticks of no negative size is a candle. -/
theorem candle_of_summary {b : BarRecord} {seg : List UniversalTickRecord} (h : Summary b seg)
    (hsize : NonNegative seg) : Candle b := by
  have hopen : b.low ≤ b.openPrice ∧ b.openPrice ≤ b.high := by
    obtain ⟨t, ht, hprice⟩ := Option.map_eq_some_iff.mp h.openPrice
    exact hprice ▸ price_between h t (List.mem_of_head? ht)
  have hclose : b.low ≤ b.close ∧ b.close ≤ b.high := by
    obtain ⟨t, ht, hprice⟩ := Option.map_eq_some_iff.mp h.close
    exact hprice ▸ price_between h t (List.mem_of_getLast? ht)
  have hvolume : b.volume = totalSize seg := h.volume
  have hsides := sides_sum hsize
  have hdelta : b.delta ∈ runningDeltas seg :=
    h.delta ▸ signedSum_mem_runningDeltas (summary_ne_nil h)
  refine ⟨hopen, hclose, vwap_between h hsize hclose, ?_, ?_, h.range, ?_, ?_,
    ⟨h.minDelta.2 hdelta, h.maxDelta.2 hdelta⟩, ?_, ?_⟩
  · rw [h.upperWick, h.lowerWick, h.bodySize]
    exact ⟨sub_nonneg.mpr (max_le hopen.2 hclose.2), sub_nonneg.mpr (le_min hopen.1 hclose.1),
      abs_nonneg _⟩
  · rw [h.upperWick, h.lowerWick, h.bodySize, h.range, ← max_sub_min_eq_abs b.openPrice b.close]
    ring
  · rw [h.buyVolume, h.sellVolume]
    exact ⟨hsides.1, hsides.2.1⟩
  · rw [h.buyVolume, h.sellVolume, hvolume]
    exact hsides.2.2
  · rw [hvolume]
    exact runningDeltas_sub_le hsize h.maxDelta.1 h.minDelta.1
  · rw [h.delta, hvolume]
    exact abs_signedSum_le hsize

/-- The bars of a series summarise ticks of no negative size. -/
def FromNonNegative (s : BarSeries) : Prop := ∃ c, Tracks s c ∧ NonNegative c.all

theorem fromNonNegative_ingest {s : BarSeries} (h : FromNonNegative s) {tick : UniversalTickRecord}
    (hsize : 0 ≤ tick.size) : FromNonNegative (s.ingest tick) := by
  obtain ⟨c, htracks, hall⟩ := h
  refine ⟨_, tracks_ingest htracks tick, ?_⟩
  intro t ht
  rw [all_feed] at ht
  rcases List.mem_append.mp ht with ht | ht
  · exact hall t ht
  · rw [List.mem_singleton.mp ht]
    exact hsize

/-- Clearing forgets completed bars and leaves the open one. -/
theorem fromNonNegative_clear {s : BarSeries} (h : FromNonNegative s) :
    FromNonNegative s.clearCompleted := by
  obtain ⟨c, htracks, hall⟩ := h
  refine ⟨⟨[], c.current⟩, ⟨.nil, htracks.idle, fun hne => ?_⟩, ?_⟩
  · have hopen := htracks.bar hne
    exact ⟨hopen.active, hopen.summary, hopen.endTimestampNs, hopen.notional, hopen.sessionCvd⟩
  · exact fun t ht => hall t (List.mem_append_right _ ht)

/-- The ticks that a call feeds have no negative size. -/
def SeriesCall.NonNegative : SeriesCall → Prop
  | .ingest tick => 0 ≤ tick.size
  | .clearCompleted => True

theorem fromNonNegative_run (type : BarType) (threshold : UInt64) {calls : List SeriesCall}
    (hcalls : ∀ call ∈ calls, call.NonNegative) :
    FromNonNegative ((newSeries type threshold).run calls) := by
  induction calls using List.reverseRecOn with
  | nil => exact ⟨Cut.empty, tracks_new type threshold, by simp [NonNegative]⟩
  | append_singleton calls call ih =>
    have hprev := ih fun c hc => hcalls c (List.mem_append_left _ hc)
    have hcall := hcalls call (by simp)
    rw [run_append]
    cases call with
    | ingest tick => exact fromNonNegative_ingest hprev hcall
    | clearCompleted => exact fromNonNegative_clear hprev

/-- The open bar and every completed bar are candles, in every state that ticks of no
negative size lead to. -/
theorem bars_are_candles (type : BarType) (threshold : UInt64) (calls : List SeriesCall)
    (hcalls : ∀ call ∈ calls, call.NonNegative) :
    (((newSeries type threshold).run calls).active = true →
      Candle ((newSeries type threshold).run calls).current) ∧
    ∀ b ∈ ((newSeries type threshold).run calls).completed, Candle b := by
  obtain ⟨c, htracks, hall⟩ := fromNonNegative_run type threshold hcalls
  constructor
  · intro hactive
    have hne : c.current ≠ [] := fun hnil =>
      absurd (hactive.symm.trans (htracks.idle hnil)) (by simp)
    exact candle_of_summary (htracks.bar hne).summary fun t ht => hall t (List.mem_append_right _ ht)
  · intro b hb
    obtain ⟨i, hi, rfl⟩ := List.mem_iff_getElem.mp hb
    have hlength := htracks.completed.length_eq
    have hsummary := htracks.completed.get hi (hlength ▸ hi)
    refine candle_of_summary hsummary fun t ht => hall t (List.mem_append_left _ ?_)
    exact List.mem_flatten.mpr ⟨_, List.get_mem _ _, ht⟩

/-- The bar that is open when the list is cleared. -/
theorem bars_are_candles_clearedOpen :
    Candle ((newSeries .volume 2).run (clearedOpen.take 4)).current := by
  have hcalls : ∀ call ∈ clearedOpen.take 4, call.NonNegative := by
    simp only [clearedOpen, List.take, List.forall_mem_cons, SeriesCall.NonNegative, unitTick]
    norm_num
  exact (bars_are_candles .volume 2 (clearedOpen.take 4) hcalls).1 (by decide +kernel)

end OfeBars
