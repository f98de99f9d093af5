import OrderFlow.GreedySegments
import OrderFlow.OfeBarSummary

/-!
# Bars are the greedy segmentation of the ticks

`wordRule` is the closing rule as the code evaluates it, with the wrapping sum
of two words; `closingRule` is the rule that the bar types stand for. A series
refines the greedy segmentation under the first, and the two agree as long as
no closing time overflows.
-/
namespace OfeBars

open GreedySegments

def maxPrice : List UniversalTickRecord → Rat
  | [] => 0
  | t :: ts => ts.foldl (fun m u => max m u.price) t.price

def minPrice : List UniversalTickRecord → Rat
  | [] => 0
  | t :: ts => ts.foldl (fun m u => min m u.price) t.price

def totalSize (seg : List UniversalTickRecord) : Rat := (seg.map (·.size)).sum

/-- A time bar is over when its threshold has elapsed since its first tick. -/
def timeOver (threshold : UInt64) (tick : UniversalTickRecord) : List UniversalTickRecord → Bool
  | [] => false
  | first :: _ => decide (tick.timestampNs.toNat ≥ first.timestampNs.toNat + threshold.toNat)

def wordTimeOver (threshold : UInt64) (tick : UniversalTickRecord) : List UniversalTickRecord → Bool
  | [] => false
  | first :: _ => decide (tick.timestampNs ≥ first.timestampNs + threshold)

/-- The tests of range and volume bars, on the bar with the new tick in it. -/
def filled (type : BarType) (threshold : UInt64) (seg : List UniversalTickRecord) : Bool :=
  match type with
  | .time => false
  | .range => decide (maxPrice seg - minPrice seg ≥ (threshold.toNat : Rat))
  | .volume => decide (totalSize seg ≥ (threshold.toNat : Rat))

def closingRule (type : BarType) (threshold : UInt64) : Rule UniversalTickRecord where
  before seg tick := decide (type = .time) && timeOver threshold tick seg
  after seg tick := filled type threshold (seg ++ [tick])

def wordRule (type : BarType) (threshold : UInt64) : Rule UniversalTickRecord where
  before seg tick := decide (type = .time) && wordTimeOver threshold tick seg
  after seg tick := filled type threshold (seg ++ [tick])

theorem isGreatest_maxPrice (t : UniversalTickRecord) (ts : List UniversalTickRecord) :
    IsGreatest {p | p ∈ (t :: ts).map (·.price)} (maxPrice (t :: ts)) := by
  induction ts using List.reverseRecOn with
  | nil => simp [maxPrice]
  | append_singleton ts u ih =>
    have hmax : maxPrice (t :: (ts ++ [u])) = max (maxPrice (t :: ts)) u.price := by
      simp [maxPrice]
    rw [hmax, ← List.cons_append, List.map_append]
    exact isGreatest_snoc ih u.price

theorem isLeast_minPrice (t : UniversalTickRecord) (ts : List UniversalTickRecord) :
    IsLeast {p | p ∈ (t :: ts).map (·.price)} (minPrice (t :: ts)) := by
  induction ts using List.reverseRecOn with
  | nil => simp [minPrice]
  | append_singleton ts u ih =>
    have hmin : minPrice (t :: (ts ++ [u])) = min (minPrice (t :: ts)) u.price := by
      simp [minPrice]
    rw [hmin, ← List.cons_append, List.map_append]
    exact isLeast_snoc ih u.price

theorem summary_range {b : BarRecord} {seg : List UniversalTickRecord} (h : Summary b seg) :
    b.range = maxPrice seg - minPrice seg := by
  cases seg with
  | nil => exact absurd rfl (summary_ne_nil h)
  | cons t ts =>
    rw [h.range, h.high.unique (isGreatest_maxPrice t ts), h.low.unique (isLeast_minPrice t ts)]

/-- The closing test of the code, on a bar that summarises its ticks. -/
theorem shouldFinalize_eq {s : BarSeries} {seg : List UniversalTickRecord} (h : OpenBar s seg) :
    s.shouldFinalize = filled s.type s.threshold seg := by
  unfold BarSeries.shouldFinalize filled
  rw [summary_range h.summary, h.summary.volume]
  rfl

/-- The time test of the code, on a bar that has its first tick. -/
theorem timeUp_eq {s : BarSeries} {seg : List UniversalTickRecord} (h : OpenBar s seg)
    (tick : UniversalTickRecord) :
    s.timeUp tick = (decide (s.type = .time) && wordTimeOver s.threshold tick seg) := by
  cases seg with
  | nil => exact absurd rfl (summary_ne_nil h.summary)
  | cons first rest =>
    have hstart : first.timestampNs = s.current.startTimestampNs := by
      simpa using h.summary.startTimestampNs
    have hcount : s.current.tradeCount > 0 := by simp [h.summary.tradeCount]
    simp [BarSeries.timeUp, wordTimeOver, hstart, hcount]

theorem timeUp_start (s : BarSeries) (tick t : UniversalTickRecord) :
    (s.startBar t).timeUp tick = false := by
  simp [BarSeries.timeUp, BarSeries.startBar]

/-- The completed bars summarise the finished segments, and the open bar, when
there is one, summarises the open segment. -/
structure Tracks (s : BarSeries) (c : Cut UniversalTickRecord) : Prop where
  completed : List.Forall₂ Summary s.completed c.done
  idle : c.current = [] → s.active = false
  bar : c.current ≠ [] → OpenBar s c.current

theorem tracks_new (type : BarType) (threshold : UInt64) :
    Tracks (newSeries type threshold) Cut.empty where
  completed := .nil
  idle := fun _ => rfl
  bar := fun h => absurd rfl h

/-- The last step of `ingest`: the bar that has just taken its tick closes or
stays open. -/
theorem tracks_close {s : BarSeries} {c : Cut UniversalTickRecord} {tick : UniversalTickRecord}
    (hdone : List.Forall₂ Summary s.completed c.done) (hbar : OpenBar s (c.current ++ [tick])) :
    Tracks
      (if s.shouldFinalize then { s.finalizeBar tick.timestampNs with active := false } else s)
      ((wordRule s.type s.threshold).extend c tick) := by
  have htest : (wordRule s.type s.threshold).after c.current tick = s.shouldFinalize :=
    (shouldFinalize_eq hbar).symm
  unfold Rule.extend
  rw [htest]
  split
  · refine ⟨?_, fun _ => rfl, fun h => absurd rfl h⟩
    exact List.rel_append hdone (.cons (summary_finalize hbar.summary tick.timestampNs) .nil)
  · exact ⟨hdone, fun h => by simp at h, fun _ => hbar⟩

@[simp] theorem updateBar_type (s : BarSeries) (tick : UniversalTickRecord) :
    (s.updateBar tick).type = s.type := rfl
@[simp] theorem updateBar_threshold (s : BarSeries) (tick : UniversalTickRecord) :
    (s.updateBar tick).threshold = s.threshold := rfl
@[simp] theorem startBar_type (s : BarSeries) (tick : UniversalTickRecord) :
    (s.startBar tick).type = s.type := rfl
@[simp] theorem startBar_threshold (s : BarSeries) (tick : UniversalTickRecord) :
    (s.startBar tick).threshold = s.threshold := rfl

@[simp] theorem finalizeBar_type (s : BarSeries) (ts : UInt64) :
    (s.finalizeBar ts).type = s.type := rfl
@[simp] theorem finalizeBar_threshold (s : BarSeries) (ts : UInt64) :
    (s.finalizeBar ts).threshold = s.threshold := rfl
@[simp] theorem newSeries_type (type : BarType) (threshold : UInt64) :
    (newSeries type threshold).type = type := rfl
@[simp] theorem newSeries_threshold (type : BarType) (threshold : UInt64) :
    (newSeries type threshold).threshold = threshold := rfl

/-- One tick of the series is one item of the segmentation. -/
theorem tracks_ingest {s : BarSeries} {c : Cut UniversalTickRecord} (h : Tracks s c)
    (tick : UniversalTickRecord) :
    Tracks (s.ingest tick) ((wordRule s.type s.threshold).feed c tick) := by
  by_cases hc : c.current = []
  · -- no bar is open: the tick opens one
    have hcut : ¬ (wordRule s.type s.threshold).cutsBefore c tick := fun hb => hb.1 hc
    have hbar : OpenBar ((s.startBar tick).updateBar tick) (c.current ++ [tick]) := by
      rw [hc]
      exact openBar_start s tick
    simpa [BarSeries.ingest, h.idle hc, timeUp_start, Rule.feed, hcut] using
      tracks_close (s := (s.startBar tick).updateBar tick) h.completed hbar
  · have hopen := h.bar hc
    have hup := timeUp_eq hopen tick
    by_cases hb : s.timeUp tick = true
    · -- the time is up: the tick opens the next bar
      have hcut : (wordRule s.type s.threshold).cutsBefore c tick := ⟨hc, hup.symm.trans hb⟩
      let s₁ := s.finalizeBar tick.timestampNs
      have hdone : List.Forall₂ Summary s₁.completed (c.done ++ [c.current]) :=
        List.rel_append h.completed (.cons (summary_finalize hopen.summary _) .nil)
      have hclose := tracks_close (c := ⟨c.done ++ [c.current], []⟩)
        (s := (s₁.startBar tick).updateBar tick) hdone (openBar_start s₁ tick)
      simpa [BarSeries.ingest, hopen.active, hb, Rule.feed, hcut, flush_of_current_ne_nil c hc, s₁]
        using hclose
    · have hcut : ¬ (wordRule s.type s.threshold).cutsBefore c tick := by
        rintro ⟨_, hw⟩
        exact hb (hup.trans hw)
      simpa [BarSeries.ingest, hopen.active, hb, Rule.feed, hcut] using
        tracks_close (s := s.updateBar tick) h.completed (openBar_update hopen tick)

@[simp] theorem ingest_type (s : BarSeries) (tick : UniversalTickRecord) :
    (s.ingest tick).type = s.type := by
  unfold BarSeries.ingest
  dsimp only
  split_ifs <;> rfl

@[simp] theorem ingest_threshold (s : BarSeries) (tick : UniversalTickRecord) :
    (s.ingest tick).threshold = s.threshold := by
  unfold BarSeries.ingest
  dsimp only
  split_ifs <;> rfl

theorem ingestAll_rule (s : BarSeries) (ticks : List UniversalTickRecord) :
    (s.ingestAll ticks).type = s.type ∧ (s.ingestAll ticks).threshold = s.threshold := by
  induction ticks generalizing s with
  | nil => exact ⟨rfl, rfl⟩
  | cons t ticks ih => simpa [BarSeries.ingestAll] using ih (s.ingest t)

/-- A whole run of a series is the greedy segmentation of its ticks. -/
theorem tracks_ingestAll (type : BarType) (threshold : UInt64) (ticks : List UniversalTickRecord) :
    Tracks ((newSeries type threshold).ingestAll ticks) ((wordRule type threshold).cut ticks) := by
  induction ticks using List.reverseRecOn with
  | nil => exact tracks_new type threshold
  | append_singleton ticks t ih =>
    have hrule := ingestAll_rule (newSeries type threshold) ticks
    have hstep := tracks_ingest ih t
    rw [hrule.1, hrule.2] at hstep
    simpa [BarSeries.ingestAll] using hstep

/-- No time bar starts so late that its closing time leaves the range of a word. -/
def NoOverflow (type : BarType) (threshold : UInt64) (ticks : List UniversalTickRecord) : Prop :=
  type = .time → ∀ seg ∈ ((closingRule type threshold).cut ticks).segs, ∀ first ∈ seg.head?,
    first.timestampNs.toNat + threshold.toNat < 2 ^ 64

theorem wordTimeOver_eq (threshold : UInt64) (tick : UniversalTickRecord)
    (seg : List UniversalTickRecord)
    (h : ∀ first ∈ seg.head?, first.timestampNs.toNat + threshold.toNat < 2 ^ 64) :
    wordTimeOver threshold tick seg = timeOver threshold tick seg := by
  cases seg with
  | nil => rfl
  | cons first rest =>
    have hsum : (first.timestampNs + threshold).toNat =
        first.timestampNs.toNat + threshold.toNat := by
      rw [UInt64.toNat_add]
      exact Nat.mod_eq_of_lt (h first rfl)
    simp only [wordTimeOver, timeOver, ge_iff_le, UInt64.le_iff_toNat_le, hsum]

/-- Without overflow the code closes its bars where the bar type says. -/
theorem wordRule_cut_eq (type : BarType) (threshold : UInt64) (ticks : List UniversalTickRecord)
    (h : NoOverflow type threshold ticks) :
    (wordRule type threshold).cut ticks = (closingRule type threshold).cut ticks := by
  apply cut_congr
  · intro ys tick hys
    by_cases ht : type = .time
    · -- The open segment is the beginning of one of the segments of the whole.
      have hstart : ∀ first ∈ ((closingRule type threshold).cut ys).current.head?,
          first.timestampNs.toNat + threshold.toNat < 2 ^ 64 := by
        intro first hfirst
        have hne : ((closingRule type threshold).cut ys).current ≠ [] := by
          rintro hnil
          rw [hnil] at hfirst
          cases hfirst
        have hopen : ((closingRule type threshold).cut ys).current ∈
            ((closingRule type threshold).cut ys).segs := by
          rw [segs_of_current_ne_nil _ hne]
          simp
        obtain ⟨_, hseg, rest, rfl⟩ := segs_cut_prefix _ ((List.prefix_append ys [tick]).trans hys) hopen
        exact h ht _ hseg first (by rwa [List.head?_append_of_ne_nil _ hne])
      have hover := wordTimeOver_eq threshold tick _ hstart
      simp only [wordRule, closingRule] at hover ⊢
      simp only [hover]
    · simp [wordRule, closingRule, ht]
  · exact fun seg tick => rfl

/-- One series, as it is added: its settings and the ticks of its symbol that
the engine ingests from then on. -/
structure Subscription where
  type : BarType
  threshold : UInt64
  ticks : List UniversalTickRecord

def ticksOf (symbolId : UInt32) (calls : List Call) : List UniversalTickRecord :=
  calls.filterMap fun
    | .addSeries _ _ _ => none
    | .ingest tick => if tick.symbolId = symbolId then some tick else none

def subscriptions (symbolId : UInt32) : List Call → List Subscription
  | [] => []
  | .addSeries id type threshold :: calls =>
    if id = symbolId then ⟨type, threshold, ticksOf symbolId calls⟩ :: subscriptions symbolId calls
    else subscriptions symbolId calls
  | .ingest _ :: calls => subscriptions symbolId calls

def Subscription.series (sub : Subscription) : BarSeries :=
  (newSeries sub.type sub.threshold).ingestAll sub.ticks

@[simp] theorem seriesOf_addSeries (e : BarEngine) (symbolId id : UInt32) (type : BarType)
    (threshold : UInt64) :
    (e.addSeries id type threshold).seriesOf symbolId =
      if id = symbolId then e.seriesOf symbolId ++ [newSeries type threshold]
      else e.seriesOf symbolId := by
  by_cases h : symbolId = id
  · subst h
    simp [BarEngine.seriesOf, BarEngine.addSeries]
  · simp [BarEngine.seriesOf, BarEngine.addSeries, h, Ne.symm h]

@[simp] theorem seriesOf_ingest (e : BarEngine) (symbolId : UInt32) (tick : UniversalTickRecord) :
    (e.ingest tick).seriesOf symbolId =
      if tick.symbolId = symbolId then (e.seriesOf symbolId).map (·.ingest tick)
      else e.seriesOf symbolId := by
  unfold BarEngine.seriesOf BarEngine.ingest
  by_cases h : symbolId = tick.symbolId
  · subst h
    cases hs : e.seriesBySymbol tick.symbolId <;> simp [hs]
  · cases e.seriesBySymbol tick.symbolId <;> simp [h, Ne.symm h]

/-- The series of a symbol see the ticks of that symbol and nothing else. -/
theorem seriesOf_run (e : BarEngine) (symbolId : UInt32) (calls : List Call) :
    (e.run calls).seriesOf symbolId =
      (e.seriesOf symbolId).map (·.ingestAll (ticksOf symbolId calls)) ++
        (subscriptions symbolId calls).map Subscription.series := by
  induction calls generalizing e with
  | nil => simp [BarEngine.run, subscriptions, ticksOf, BarSeries.ingestAll]
  | cons call calls ih =>
    have hrun : e.run (call :: calls) = (e.call call).run calls := rfl
    rw [hrun, ih]
    cases call with
    | addSeries id type threshold =>
      by_cases hid : id = symbolId
      · simp [BarEngine.call, hid, subscriptions, ticksOf, Subscription.series]
      · simp [BarEngine.call, hid, subscriptions, ticksOf]
    | ingest tick =>
      by_cases hid : tick.symbolId = symbolId
      · simp [BarEngine.call, hid, subscriptions, ticksOf, BarSeries.ingestAll, Function.comp_def]
      · simp [BarEngine.call, hid, subscriptions, ticksOf]

/-- The bars of a series are the greedy segmentation of its own ticks: finished
segments completed in order, the open segment, if any, as the current bar. -/
structure IsSegmented (sub : Subscription) (s : BarSeries)
    (c : Cut UniversalTickRecord) : Prop where
  greedy : (closingRule sub.type sub.threshold).Greedy sub.ticks c
  completed : List.Forall₂ Summary s.completed c.done
  active : s.active = true ↔ c.current ≠ []
  current : c.current ≠ [] → Summary s.current c.current

/-- Whatever is interleaved with what, each series of each symbol cuts its own
ticks greedily by its own closing rule. -/
theorem engine_bars_greedy (calls : List Call) (symbolId : UInt32) :
    List.Forall₂
      (fun s sub => NoOverflow sub.type sub.threshold sub.ticks → ∃ c, IsSegmented sub s c)
      ((BarEngine.run {} calls).seriesOf symbolId) (subscriptions symbolId calls) := by
  rw [seriesOf_run, BarEngine.seriesOf, Option.getD_none, List.map_nil, List.nil_append,
    List.forall₂_map_left_iff, List.forall₂_same]
  intro sub _ hover
  have htracks := tracks_ingestAll sub.type sub.threshold sub.ticks
  rw [wordRule_cut_eq sub.type sub.threshold sub.ticks hover] at htracks
  refine ⟨_, greedy_cut _ _, htracks.completed, ?_, fun hc => (htracks.bar hc).summary⟩
  constructor
  · intro hactive hc
    exact absurd ((htracks.idle hc).symm.trans hactive) (by simp)
  · exact fun hc => (htracks.bar hc).active

/-- A time series of the symbol 7 and a volume series of the symbol 8, with their
ticks in turn. -/
def interleaved : List Call :=
  let tick (ts : UInt64) (symbolId : UInt32) : UniversalTickRecord :=
    ⟨ts, symbolId, 100, 1, 99, 100, 1, 1⟩
  [.addSeries 7 .time 10, .ingest (tick 0 7), .addSeries 8 .volume 2, .ingest (tick 4 8),
    .ingest (tick 6 7), .ingest (tick 8 8), .ingest (tick 12 7)]

theorem engine_bars_greedy_interleaved :
    List.Forall₂ (fun s sub => ∃ c, IsSegmented sub s c)
      ((BarEngine.run {} interleaved).seriesOf 7) (subscriptions 7 interleaved) := by
  have hbars := engine_bars_greedy interleaved 7
  have hsubs : subscriptions 7 interleaved =
      [⟨.time, 10, ticksOf 7 interleaved⟩] := rfl
  have hover : NoOverflow .time 10 (ticksOf 7 interleaved) := by
    unfold NoOverflow
    decide +kernel
  rw [hsubs] at hbars ⊢
  cases hbars with
  | cons hbar hrest =>
    cases hrest
    exact .cons (hbar hover) .nil

end OfeBars
