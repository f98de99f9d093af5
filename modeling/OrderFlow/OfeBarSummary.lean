import Mathlib.Algebra.BigOperators.Group.List.Basic
import Mathlib.Tactic.Ring
import OrderFlow.GreedySegments
import OrderFlow.OfeBars

/-!
# What a bar says of its ticks

`Summary b seg` reads every field of the bar `b` as a function of the list of
ticks it was built from. A bar that `start_bar` opens and `update_bar` feeds is
the summary of exactly the ticks it was fed, whatever came before it.
-/
namespace OfeBars

open GreedySegments

def signedVolume (tick : UniversalTickRecord) : Rat :=
  match booking tick with
  | .buy => tick.size
  | .sell => -tick.size
  | .neither => 0

def buySize (tick : UniversalTickRecord) : Rat := if booking tick = .buy then tick.size else 0

def sellSize (tick : UniversalTickRecord) : Rat := if booking tick = .sell then tick.size else 0

def signedSum (ticks : List UniversalTickRecord) : Rat := (ticks.map signedVolume).sum

/-- The running delta after each tick of a bar. -/
def runningDeltas (seg : List UniversalTickRecord) : List Rat :=
  (List.range seg.length).map fun n => signedSum (seg.take (n + 1))

theorem signedVolume_eq (tick : UniversalTickRecord) :
    signedVolume tick = buySize tick - sellSize tick := by
  unfold signedVolume buySize sellSize
  cases booking tick <;> simp

@[simp] theorem signedSum_nil : signedSum [] = 0 := rfl

@[simp] theorem signedSum_append (xs ys : List UniversalTickRecord) :
    signedSum (xs ++ ys) = signedSum xs + signedSum ys := by
  simp [signedSum]

@[simp] theorem signedSum_singleton (tick : UniversalTickRecord) :
    signedSum [tick] = signedVolume tick := by
  simp [signedSum]

theorem runningDeltas_snoc (seg : List UniversalTickRecord) (tick : UniversalTickRecord) :
    runningDeltas (seg ++ [tick]) = runningDeltas seg ++ [signedSum (seg ++ [tick])] := by
  simp only [runningDeltas, List.length_append, List.length_singleton, List.range_succ,
    List.map_append, List.map_singleton]
  congr 1
  · apply List.map_congr_left
    intro n hn
    have hlt : n + 1 ≤ seg.length := List.mem_range.mp hn
    rw [List.take_append_of_le_length hlt]
  · have hall : (seg ++ [tick]).take (seg.length + 1) = seg ++ [tick] := by
      apply List.take_of_length_le
      simp
    rw [hall]

/-- Every field of a bar, read off the ticks it was built from. -/
structure Summary (b : BarRecord) (seg : List UniversalTickRecord) : Prop where
  startTimestampNs : seg.head?.map (·.timestampNs) = some b.startTimestampNs
  openPrice : seg.head?.map (·.price) = some b.openPrice
  pocPrice : seg.head?.map (·.price) = some b.pocPrice
  close : seg.getLast?.map (·.price) = some b.close
  high : IsGreatest {p | p ∈ seg.map (·.price)} b.high
  low : IsLeast {p | p ∈ seg.map (·.price)} b.low
  volume : b.volume = (seg.map (·.size)).sum
  tradeCount : b.tradeCount = seg.length
  vwap : b.vwap = if 0 < b.volume then (seg.map fun t => t.price * t.size).sum / b.volume else b.close
  buyVolume : b.buyVolume = (seg.map buySize).sum
  sellVolume : b.sellVolume = (seg.map sellSize).sum
  delta : b.delta = signedSum seg
  cvd : b.cvd = (runningDeltas seg).sum
  maxDelta : IsGreatest {d | d ∈ runningDeltas seg} b.maxDelta
  minDelta : IsLeast {d | d ∈ runningDeltas seg} b.minDelta
  range : b.range = b.high - b.low
  bodySize : b.bodySize = |b.close - b.openPrice|
  upperWick : b.upperWick = b.high - max b.openPrice b.close
  lowerWick : b.lowerWick = min b.openPrice b.close - b.low

/-- The open bar of a series, with the two sums that the series keeps beside it. -/
structure OpenBar (s : BarSeries) (seg : List UniversalTickRecord) : Prop where
  active : s.active = true
  summary : Summary s.current seg
  endTimestampNs : seg.getLast?.map (·.timestampNs) = some s.current.endTimestampNs
  notional : s.notional = (seg.map fun t => t.price * t.size).sum
  sessionCvd : s.sessionCvd = s.current.cvd

theorem summary_ne_nil {b : BarRecord} {seg : List UniversalTickRecord} (h : Summary b seg) :
    seg ≠ [] := by
  rintro rfl
  simpa using h.openPrice

/-- The closing time is the only field that `finalize_bar` overwrites. -/
theorem summary_finalize {b : BarRecord} {seg : List UniversalTickRecord} (h : Summary b seg)
    (ts : UInt64) : Summary { b with endTimestampNs := ts } seg :=
  ⟨h.startTimestampNs, h.openPrice, h.pocPrice, h.close, h.high, h.low, h.volume, h.tradeCount,
    h.vwap, h.buyVolume, h.sellVolume, h.delta, h.cvd, h.maxDelta, h.minDelta, h.range,
    h.bodySize, h.upperWick, h.lowerWick⟩

theorem booked_buy (b : Rat) (tick : UniversalTickRecord) :
    (if booking tick = .buy then b + tick.size else b) = b + buySize tick := by
  unfold buySize
  split <;> simp

theorem booked_sell (b : Rat) (tick : UniversalTickRecord) :
    (if booking tick = .sell then b + tick.size else b) = b + sellSize tick := by
  unfold sellSize
  split <;> simp

theorem signedSum_eq (seg : List UniversalTickRecord) :
    signedSum seg = (seg.map buySize).sum - (seg.map sellSize).sum := by
  induction seg with
  | nil => simp
  | cons t seg ih =>
    have hcons : signedSum (t :: seg) = signedVolume t + signedSum seg := by simp [signedSum]
    rw [hcons, ih, signedVolume_eq, List.map_cons, List.map_cons, List.sum_cons, List.sum_cons]
    ring

/-- The first tick of a bar, booked into the bar it has just opened. -/
theorem openBar_start (s : BarSeries) (tick : UniversalTickRecord) :
    OpenBar ((s.startBar tick).updateBar tick) [tick] where
  active := rfl
  summary := by
    have hrun : runningDeltas [tick] = [signedVolume tick] := by simp [runningDeltas]
    constructor <;> simp only [BarSeries.startBar, BarSeries.updateBar, booked_buy, booked_sell]
    all_goals simp [hrun, signedVolume_eq]
  endTimestampNs := rfl
  notional := by simp [BarSeries.startBar, BarSeries.updateBar]
  sessionCvd := rfl

/-- One more tick, booked into an open bar. -/
theorem openBar_update {s : BarSeries} {seg : List UniversalTickRecord} (h : OpenBar s seg)
    (tick : UniversalTickRecord) : OpenBar (s.updateBar tick) (seg ++ [tick]) := by
  have hne := summary_ne_nil h.summary
  have hb := h.summary
  have hcount : s.current.tradeCount ≠ 0 := by
    rw [hb.tradeCount]
    exact fun hl => hne (List.length_eq_zero_iff.mp hl)
  have hprev : s.current.buyVolume - s.current.sellVolume = signedSum seg := by
    rw [hb.buyVolume, hb.sellVolume, signedSum_eq]
  have hdelta : (s.current.buyVolume + buySize tick) - (s.current.sellVolume + sellSize tick) =
      signedSum (seg ++ [tick]) := by
    rw [signedSum_append, signedSum_singleton, signedVolume_eq, ← hprev]
    ring
  refine ⟨h.active, ?_, by simp [BarSeries.updateBar],
    by simp [BarSeries.updateBar, h.notional], rfl⟩
  constructor
  case startTimestampNs => rw [List.head?_append_of_ne_nil _ hne]; exact hb.startTimestampNs
  case openPrice => rw [List.head?_append_of_ne_nil _ hne]; exact hb.openPrice
  case pocPrice => rw [List.head?_append_of_ne_nil _ hne]; exact hb.pocPrice
  case high => rw [List.map_append]; exact isGreatest_snoc hb.high tick.price
  case low => rw [List.map_append]; exact isLeast_snoc hb.low tick.price
  case cvd =>
    rw [runningDeltas_snoc, List.sum_append, List.sum_singleton, ← hdelta, ← hb.cvd, ← h.sessionCvd]
    simp only [BarSeries.updateBar, booked_buy, booked_sell]
  case maxDelta =>
    rw [runningDeltas_snoc, ← hdelta]
    simpa only [BarSeries.updateBar, booked_buy, booked_sell, Nat.add_eq_right, hcount, if_false]
      using isGreatest_snoc hb.maxDelta _
  case minDelta =>
    rw [runningDeltas_snoc, ← hdelta]
    simpa only [BarSeries.updateBar, booked_buy, booked_sell, Nat.add_eq_right, hcount, if_false]
      using isLeast_snoc hb.minDelta _
  case delta => simp only [BarSeries.updateBar, booked_buy, booked_sell, hdelta]
  all_goals simp [BarSeries.updateBar, booked_buy, booked_sell, hb.volume, hb.tradeCount,
    hb.buyVolume, hb.sellVolume, h.notional]

end OfeBars
