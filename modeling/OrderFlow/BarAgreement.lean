import OrderFlow.OfeBarSegments
import OrderFlow.SessionBarRange
import OrderFlow.SessionBarTime
import OrderFlow.SessionVolumeTotals

/-!
# The two kinds of bars on the same trades

`session1` closes its volume and time bars one tick later than `include/ofe` does: the tick
that finds a bar full is still booked into it. Its range bars look at the distance from the
open, those of `include/ofe` at the distance between the extremes, which is as large at
least and at most twice as large.
-/
namespace BarAgreement

open GreedySegments SessionBars SessionTypes

/-- One trade as both record it; `exchange_ts_ns` is a signed word. -/
structure SameTrade (t : UniversalTickRecord) (u : OfeBars.UniversalTickRecord) : Prop where
  time : t.exchangeTsNs = u.timestampNs.toNat
  signed : t.exchangeTsNs < 2 ^ 63
  price : u.price = t.price
  size : u.size = t.volume

/-- A bar of `session1` is a bar of `include/ofe` and one more trade. -/
structure OneMore (bar : BarRecord) (b : OfeBars.BarRecord) (last : UniversalTickRecord) : Prop where
  barOpenTsNs : bar.barOpenTsNs = b.startTimestampNs.toNat
  openPrice : bar.openPrice = b.openPrice
  high : bar.high = max b.high last.price
  low : bar.low = min b.low last.price
  close : bar.close = last.price
  totalVolume : (bar.totalVolume : Rat) = b.volume + last.volume

/-- A series of `include/ofe` that was given some trades. -/
def given (type : OfeBars.BarType) (threshold : UInt64) (trades : List OfeBars.UniversalTickRecord) :
    OfeBars.BarSeries :=
  (OfeBars.newSeries type threshold).ingestAll trades

def volumeThreshold (settings : Settings) : UInt64 := settings.barSize.sizeValue.toUInt64

def timeThreshold (settings : Settings) : UInt64 :=
  settings.barSize.sizeValue.toUInt64 * 1000000000

/-- A bar that a tick has closed, beside what `include/ofe` makes of its trades. -/
structure Compared (settings : Settings) (seg : List UniversalTickRecord) (bar : BarRecord)
    (trades : List OfeBars.UniversalTickRecord) : Prop where
  volume : settings.barSize.type = .volume → ∃ last ∈ seg.getLast?, ∃ b,
    (given .volume (volumeThreshold settings) trades.dropLast).completed = [b] ∧
      (given .volume (volumeThreshold settings) trades.dropLast).active = false ∧
      OneMore bar b last
  time : settings.barSize.type = .time → ∃ last ∈ seg.getLast?,
    (given .time (timeThreshold settings) trades.dropLast).completed = [] ∧
      (given .time (timeThreshold settings) trades.dropLast).active = true ∧
      OneMore bar (given .time (timeThreshold settings) trades.dropLast).current last
  range : settings.barSize.type = .range → ∀ threshold : UInt64,
    ((threshold.toNat : Rat) ≤ rangeDistance settings →
      (given .range threshold trades).completed ≠ []) ∧
    (2 * rangeDistance settings ≤ threshold.toNat →
      (given .range threshold trades.dropLast).completed = [])

theorem split_trades {seg : List UniversalTickRecord} {p q : List OfeBars.UniversalTickRecord}
    {x : OfeBars.UniversalTickRecord} (h : List.Forall₂ SameTrade seg (p ++ x :: q)) :
    ∃ p' x' q', seg = p' ++ x' :: q' ∧ List.Forall₂ SameTrade p' p ∧ SameTrade x' x ∧
      List.Forall₂ SameTrade q' q := by
  have hfront := List.forall₂_take_append seg p (x :: q) h
  have hback := List.forall₂_drop_append seg p (x :: q) h
  obtain ⟨x', q', hx, hq, hdrop⟩ := List.forall₂_cons_right_iff.mp hback
  refine ⟨seg.take p.length, x', q', ?_, hfront, hx, hq⟩
  rw [← hdrop, List.take_append_drop]

theorem split_last {front : List UniversalTickRecord} {last : UniversalTickRecord}
    {trades : List OfeBars.UniversalTickRecord}
    (h : List.Forall₂ SameTrade (front ++ [last]) trades) :
    ∃ before u, trades = before ++ [u] ∧ List.Forall₂ SameTrade front before ∧ SameTrade last u := by
  rcases List.eq_nil_or_concat' trades with rfl | ⟨before, u, rfl⟩
  · simp at h
  · obtain ⟨front', last', rest, hsplit, hfront, hlast, hrest⟩ := split_trades h
    rw [List.forall₂_nil_right_iff.mp hrest] at hsplit
    obtain ⟨rfl, hsame⟩ := List.append_inj' hsplit rfl
    obtain rfl := List.singleton_inj.mp hsame
    exact ⟨before, u, rfl, hfront, hlast⟩

theorem prices_of_same {seg : List UniversalTickRecord} {trades : List OfeBars.UniversalTickRecord}
    (h : List.Forall₂ SameTrade seg trades) : trades.map (·.price) = seg.map (·.price) := by
  induction h with
  | nil => rfl
  | cons hfirst _ ih => rw [List.map_cons, List.map_cons, ih, hfirst.price]

theorem size_of_same {seg : List UniversalTickRecord} {trades : List OfeBars.UniversalTickRecord}
    (h : List.Forall₂ SameTrade seg trades) : OfeBars.totalSize trades = volumeSum seg := by
  induction h with
  | nil => simp [OfeBars.totalSize, volumeSum]
  | cons hfirst _ ih =>
    rw [OfeBars.totalSize] at ih ⊢
    rw [List.map_cons, List.sum_cons, ih, hfirst.size]
    simp [volumeSum]

theorem ne_nil_of_same {seg : List UniversalTickRecord} {trades : List OfeBars.UniversalTickRecord}
    (h : List.Forall₂ SameTrade seg trades) (hne : seg ≠ []) : trades ≠ [] := by
  rintro rfl
  exact hne (List.forall₂_nil_right_iff.mp h)

theorem oneMore_of_summary {tickSize : Rat} {front : List UniversalTickRecord}
    {last : UniversalTickRecord} {bar : BarRecord} {b : OfeBars.BarRecord}
    {trades : List OfeBars.UniversalTickRecord} (hbar : ClosedBar tickSize (front ++ [last]) bar)
    (hsummary : OfeBars.Summary b trades) (hsame : List.Forall₂ SameTrade front trades) :
    OneMore bar b last := by
  obtain ⟨opened, closeTsNs, hopen, rfl⟩ := hbar
  obtain ⟨hopenPrice, hhigh, hlow, hclose⟩ := complete_fields opened closeTsNs
  have hprices := prices_of_same hsame
  have hgreatest := isGreatest_snoc (hprices ▸ hsummary.high) last.price
  have hleast := isLeast_snoc (hprices ▸ hsummary.low) last.price
  rw [← List.map_singleton, ← List.map_append] at hgreatest hleast
  cases hsame with
  | nil => exact absurd rfl (OfeBars.summary_ne_nil hsummary)
  | cons hfirst hrest =>
    have htime := Option.some.inj hopen.barOpenTsNs
    have hprice := Option.some.inj hopen.openPrice
    have hstart := Option.some.inj hsummary.startTimestampNs
    have hstartPrice := Option.some.inj hsummary.openPrice
    constructor
    case barOpenTsNs =>
      rw [complete_barOpenTsNs, ← htime, ← hstart]
      exact hfirst.time
    case openPrice =>
      rw [hopenPrice, ← hprice, ← hstartPrice]
      exact hfirst.price.symm
    case high => rw [hhigh, hopen.high.unique hgreatest]
    case low => rw [hlow, hopen.low.unique hleast]
    case close =>
      have hlast := hopen.close
      rw [List.getLast?_concat, Option.map_some, Option.some.injEq] at hlast
      rw [hclose, ← hlast]
    case totalVolume =>
      have hsize := size_of_same (.cons hfirst hrest)
      rw [complete_totalVolume, hopen.totalVolume, volumeSum_append, volumeSum_singleton,
        hsummary.volume, Int.cast_add, ← hsize]
      rfl

section Given

variable {type : OfeBars.BarType} {threshold : UInt64} {trades : List OfeBars.UniversalTickRecord}

theorem given_of_closed (hunbroken : (OfeBars.wordRule type threshold).Unbroken trades)
    (hclosed : (OfeBars.wordRule type threshold).ClosedBehind trades) :
    ∃ b, (given type threshold trades).completed = [b] ∧
      (given type threshold trades).active = false ∧ OfeBars.Summary b trades := by
  have htracks := OfeBars.tracks_ingestAll type threshold trades
  rw [cut_of_closedBehind hunbroken hclosed] at htracks
  obtain ⟨b, rest, hsummary, hrest, hcompleted⟩ :=
    List.forall₂_cons_right_iff.mp htracks.completed
  rw [List.forall₂_nil_right_iff.mp hrest] at hcompleted
  exact ⟨b, hcompleted, htracks.idle rfl, hsummary⟩

theorem given_of_running (hunbroken : (OfeBars.wordRule type threshold).Unbroken trades)
    (hrunning : ¬ (OfeBars.wordRule type threshold).ClosedBehind trades) :
    (given type threshold trades).completed = [] ∧
      (trades ≠ [] → OfeBars.OpenBar (given type threshold trades) trades) := by
  have htracks := OfeBars.tracks_ingestAll type threshold trades
  rw [cut_of_unbroken hunbroken hrunning] at htracks
  exact ⟨List.forall₂_nil_right_iff.mp htracks.completed, htracks.bar⟩

/-- A series that has completed nothing is not filled by its last trade. -/
theorem running_of_completed (h : (given type threshold trades).completed = []) :
    ¬ (OfeBars.wordRule type threshold).ClosedBehind trades := by
  have htracks := OfeBars.tracks_ingestAll type threshold trades
  have hgreedy := greedy_cut (OfeBars.wordRule type threshold) trades
  have hdone := htracks.completed
  rw [← given, h] at hdone
  have hcurrent := hgreedy.covers
  rw [List.forall₂_nil_left_iff.mp hdone, List.flatten_nil, List.nil_append] at hcurrent
  rw [← hcurrent]
  exact hgreedy.running

end Given

section Volume

variable {settings : Settings} {front : List UniversalTickRecord} {last : UniversalTickRecord}
  {trades : List OfeBars.UniversalTickRecord}

theorem volumeThreshold_toNat (settings : Settings) :
    (volumeThreshold settings).toNat = settings.barSize.sizeValue.toNat := by
  simp [volumeThreshold]

/-- The volume of a segment, as either version tests it. -/
theorem filled_volume (h : List.Forall₂ SameTrade front trades) :
    OfeBars.filled .volume (volumeThreshold settings) trades = true ↔
      (settings.barSize.sizeValue.toNat : Int) ≤ volumeSum front := by
  rw [OfeBars.filled, decide_eq_true_iff, volumeThreshold_toNat, size_of_same h, ge_iff_le]
  exact_mod_cast Iff.rfl

/-- In front of its last tick a volume bar reaches the size with its last trade. -/
theorem volume_front (hvolume : settings.barSize.type = .volume)
    (hunbroken : (closingRule settings).Unbroken (front ++ [last]))
    (hclosed : (closingRule settings).after front last = true)
    (hsame : List.Forall₂ SameTrade front trades) :
    (OfeBars.wordRule .volume (volumeThreshold settings)).Unbroken trades ∧
      (OfeBars.wordRule .volume (volumeThreshold settings)).ClosedBehind trades := by
  constructor
  · rintro p x q rfl
    refine ⟨fun _ => rfl, fun hq => ?_⟩
    obtain ⟨p', x', q', rfl, hp, hx, hrest⟩ := split_trades hsame
    cases hrest with
    | nil => exact absurd rfl hq
    | @cons y _ rest =>
      have hsplit : p' ++ x' :: y :: rest ++ [last] = (p' ++ [x']) ++ y :: (rest ++ [last]) := by simp
      have hnot := (hunbroken _ _ _ hsplit).2 (by simp)
      rw [Bool.eq_false_iff, ne_eq, closingRule_volume hvolume] at hnot
      rw [Bool.eq_false_iff]
      exact fun hfilled => hnot ((filled_volume (List.rel_append hp (.cons hx .nil))).mp hfilled)
  · rw [closingRule_volume hvolume] at hclosed
    have hfilled := (filled_volume hsame).mpr hclosed
    rcases List.eq_nil_or_concat' trades with rfl | ⟨p, x, rfl⟩
    · have hpos := sizeValue_pos settings
      rw [List.forall₂_nil_right_iff.mp hsame, volumeSum_nil] at hclosed
      omega
    · exact ⟨p, x, rfl, hfilled⟩

end Volume

section Time

variable {settings : Settings} {front : List UniversalTickRecord} {last : UniversalTickRecord}
  {trades : List OfeBars.UniversalTickRecord}

theorem timeThreshold_toNat (settings : Settings) :
    (timeThreshold settings).toNat = settings.barSize.sizeValue.toNat * 1000000000 := by
  have hword := settings.barSize.sizeValue.toNat_lt
  rw [timeThreshold, UInt64.toNat_mul, UInt32.toNat_toUInt64]
  exact Nat.mod_eq_of_lt (by simp; omega)

/-- Ticks of one window are less than its length apart. -/
theorem lt_of_window_le {settings : Settings} {a b : Int} (h : window settings b ≤ window settings a) :
    b < a + settings.barSize.sizeValue.toNat * 1000000000 := by
  have hpos : (0 : Int) < settings.barSize.sizeValue.toNat * 1000000000 := by
    have := sizeValue_pos settings
    omega
  have hb := Int.lt_ediv_add_one_mul_self b hpos
  have ha := Int.ediv_mul_le a hpos.ne'
  have hmul := Int.mul_le_mul_of_nonneg_right h hpos.le
  rw [window, window] at hmul
  rw [Int.add_mul, Int.one_mul] at hb
  omega

/-- The sum of the words does not wrap. -/
theorem not_timeOver {settings : Settings} {t t' : UniversalTickRecord}
    {u u' : OfeBars.UniversalTickRecord} (h : SameTrade t u) (h' : SameTrade t' u')
    (hwindow : window settings t'.exchangeTsNs ≤ window settings t.exchangeTsNs) :
    ¬ u'.timestampNs ≥ u.timestampNs + timeThreshold settings := by
  have hlt := lt_of_window_le hwindow
  have hsigned := h.signed
  have hword := settings.barSize.sizeValue.toNat_lt
  rw [h.time, h'.time] at hlt
  rw [h.time] at hsigned
  rw [ge_iff_le, UInt64.le_iff_toNat_le, UInt64.toNat_add, timeThreshold_toNat]
  omega

/-- In front of its last tick a time bar spans less than its size. -/
theorem time_front (htime : settings.barSize.type = .time)
    (hunbroken : (closingRule settings).Unbroken (front ++ [last]))
    (hsame : List.Forall₂ SameTrade front trades) :
    (OfeBars.wordRule .time (timeThreshold settings)).Unbroken trades ∧
      ¬ (OfeBars.wordRule .time (timeThreshold settings)).ClosedBehind trades := by
  constructor
  · rintro p x q rfl
    refine ⟨fun hp => ?_, fun _ => rfl⟩
    obtain ⟨p', x', q', rfl, hfront, hx, hrest⟩ := split_trades hsame
    cases hfront with
    | nil => exact absurd rfl hp
    | @cons t u p' p hfirst hfront =>
      have hsplit : t :: p' ++ x' :: q' ++ [last] = (t :: p') ++ x' :: (q' ++ [last]) := by simp
      have hnot := (hunbroken _ _ _ hsplit).2 (by simp)
      have hnonneg : 0 ≤ ((t :: p').head?.getD x').exchangeTsNs := by
        simp [hfirst.time]
      rw [Bool.eq_false_iff, ne_eq, closingRule_time htime hnonneg, not_lt] at hnot
      simpa [OfeBars.wordRule, OfeBars.wordTimeOver] using not_timeOver hfirst hx hnot
  · rintro ⟨p, x, -, hafter⟩
    cases hafter

theorem time_front_ne_nil (htime : settings.barSize.type = .time) (hnonneg : 0 ≤ last.exchangeTsNs)
    (hclosed : (closingRule settings).after front last = true) : front ≠ [] := by
  rintro rfl
  have hfirst : 0 ≤ (([] : List UniversalTickRecord).head?.getD last).exchangeTsNs := hnonneg
  rw [closingRule_time htime hfirst] at hclosed
  exact lt_irrefl _ hclosed

end Time

section Range

variable {seg : List OfeBars.UniversalTickRecord}

theorem extremes_mem (hne : seg ≠ []) :
    (∃ u ∈ seg, u.price = OfeBars.maxPrice seg) ∧ ∃ u ∈ seg, u.price = OfeBars.minPrice seg := by
  cases seg with
  | nil => exact absurd rfl hne
  | cons u us =>
    exact ⟨List.mem_map.mp (OfeBars.isGreatest_maxPrice u us).1,
      List.mem_map.mp (OfeBars.isLeast_minPrice u us).1⟩

theorem abs_le_spread {u v : OfeBars.UniversalTickRecord} (hu : u ∈ seg) (hv : v ∈ seg) :
    |u.price - v.price| ≤ OfeBars.maxPrice seg - OfeBars.minPrice seg := by
  cases seg with
  | nil => simp at hu
  | cons first rest =>
    have hgreatest := OfeBars.isGreatest_maxPrice first rest
    have hleast := OfeBars.isLeast_minPrice first rest
    have hutop := hgreatest.2 (List.mem_map_of_mem hu)
    have hvtop := hgreatest.2 (List.mem_map_of_mem hv)
    have hulow := hleast.2 (List.mem_map_of_mem hu)
    have hvlow := hleast.2 (List.mem_map_of_mem hv)
    rw [abs_le]
    constructor <;> linarith

/-- Prices that are all near one price are within twice that distance of each other. -/
theorem spread_lt (hne : seg ≠ []) {centre distance : Rat}
    (h : ∀ u ∈ seg, |u.price - centre| < distance) :
    OfeBars.maxPrice seg - OfeBars.minPrice seg < 2 * distance := by
  obtain ⟨⟨top, htop, hmax⟩, bottom, hbottom, hmin⟩ := extremes_mem hne
  have habove := (abs_lt.mp (h top htop)).2
  have hbelow := (abs_lt.mp (h bottom hbottom)).1
  linarith

variable {settings : Settings} {front : List UniversalTickRecord} {last : UniversalTickRecord}
  {trades : List OfeBars.UniversalTickRecord}

theorem closedBehind_range (hrange : settings.barSize.type = .range)
    (hclosed : (closingRule settings).after front last = true)
    (hsame : List.Forall₂ SameTrade (front ++ [last]) trades) {threshold : UInt64}
    (hthreshold : (threshold.toNat : Rat) ≤ rangeDistance settings) :
    (OfeBars.wordRule .range threshold).ClosedBehind trades := by
  rw [closingRule_range hrange] at hclosed
  have hlast : ∃ u ∈ trades, u.price = last.price := by
    rw [← List.mem_map, prices_of_same hsame]
    simp
  have hfirst : ∃ u ∈ trades, u.price = (front.head?.getD last).price := by
    rw [← List.mem_map, prices_of_same hsame]
    cases front <;> simp
  obtain ⟨u, hu, hprice⟩ := hlast
  obtain ⟨v, hv, hopen⟩ := hfirst
  have hspread := abs_le_spread hu hv
  rw [hprice, hopen] at hspread
  obtain ⟨p, x, rfl⟩ := (List.eq_nil_or_concat' trades).resolve_left (List.ne_nil_of_mem hu)
  exact ⟨p, x, rfl, decide_eq_true (hthreshold.trans (hclosed.trans hspread))⟩

theorem range_front (hrange : settings.barSize.type = .range) {openPrice : Rat}
    (hunbroken : (closingRule settings).Unbroken (front ++ [last]))
    (hopen : (front ++ [last]).head?.map (·.price) = some openPrice)
    (hsame : List.Forall₂ SameTrade front trades) {threshold : UInt64}
    (hthreshold : 2 * rangeDistance settings ≤ threshold.toNat) :
    (OfeBars.wordRule .range threshold).Unbroken trades ∧
      ¬ (OfeBars.wordRule .range threshold).ClosedBehind trades := by
  have hnear := within_of_unbroken hrange hunbroken hopen
  rw [List.dropLast_concat] at hnear
  have hwithin : ∀ u ∈ trades, |u.price - openPrice| < rangeDistance settings := by
    intro u hu
    have hprice : u.price ∈ front.map (·.price) := prices_of_same hsame ▸ List.mem_map_of_mem hu
    obtain ⟨t, ht, heq⟩ := List.mem_map.mp hprice
    rw [← heq]
    exact hnear t ht
  have hfilled : ∀ p x, p ++ [x] <+: trades → OfeBars.filled .range threshold (p ++ [x]) = false := by
    intro p x hfront
    have hspread := spread_lt (by simp) fun u hu => hwithin u (hfront.subset hu)
    rw [OfeBars.filled, decide_eq_false_iff_not, ge_iff_le, not_le]
    exact hspread.trans_le hthreshold
  constructor
  · rintro p x q rfl
    exact ⟨fun _ => rfl, fun _ => hfilled p x ⟨q, by simp⟩⟩
  · rintro ⟨p, x, rfl, hafter⟩
    have hnot := hfilled p x (List.prefix_refl _)
    exact absurd (hafter.symm.trans hnot) (by simp)

end Range

theorem compared_of_closed {settings : Settings} {front : List UniversalTickRecord}
    {last : UniversalTickRecord} {bar : BarRecord} {trades : List OfeBars.UniversalTickRecord}
    (hbar : ClosedBar settings.tickSize (front ++ [last]) bar)
    (hunbroken : (closingRule settings).Unbroken (front ++ [last]))
    (hclosed : (closingRule settings).after front last = true)
    (hsame : List.Forall₂ SameTrade (front ++ [last]) trades) :
    Compared settings (front ++ [last]) bar trades := by
  obtain ⟨before, u, rfl, hfront, hlast⟩ := split_last hsame
  constructor
  case volume =>
    intro hvolume
    obtain ⟨hwhole, hfull⟩ := volume_front hvolume hunbroken hclosed hfront
    obtain ⟨b, hcompleted, hactive, hsummary⟩ := given_of_closed hwhole hfull
    rw [List.dropLast_concat]
    exact ⟨last, by simp, b, hcompleted, hactive, oneMore_of_summary hbar hsummary hfront⟩
  case time =>
    intro htime
    obtain ⟨hwhole, hrunning⟩ := time_front htime hunbroken hfront
    obtain ⟨hcompleted, hopen⟩ := given_of_running hwhole hrunning
    have hnonneg : 0 ≤ last.exchangeTsNs := by
      rw [hlast.time]
      exact Int.natCast_nonneg _
    have hbefore := hopen (ne_nil_of_same hfront (time_front_ne_nil htime hnonneg hclosed))
    rw [List.dropLast_concat]
    exact ⟨last, by simp, hcompleted, hbefore.active,
      oneMore_of_summary hbar hbefore.summary hfront⟩
  case range =>
    intro hrange threshold
    constructor
    · intro hthreshold hcompleted
      exact running_of_completed hcompleted (closedBehind_range hrange hclosed hsame hthreshold)
    · intro hthreshold
      obtain ⟨opened, -, hopen, -⟩ := hbar
      obtain ⟨hwhole, hrunning⟩ :=
        range_front hrange hunbroken hopen.openPrice hfront hthreshold
      rw [List.dropLast_concat]
      exact (given_of_running hwhole hrunning).1

/-- In every run of calls the bars that a tick has closed are those of `include/ofe` with one
trade more, or lie between those of the distance and of twice the distance; and in a stream of
ticks there are no other bars. -/
theorem bars_compared (settings : Settings) (hcallback : settings.onBarClose = true) :
    (∀ calls, List.Forall₂
      (fun seg bar => (closingRule settings).ClosedBehind seg →
        ∀ trades, List.Forall₂ SameTrade seg trades → Compared settings seg bar trades)
      (ledger settings calls).groups.done (ledger settings calls).series.delivered) ∧
      ∀ (stream : List (UniversalTickRecord × Int)),
        ∀ seg ∈ (ledger settings (tickCalls stream)).groups.done,
          (closingRule settings).ClosedBehind seg := by
  constructor
  · intro calls
    obtain ⟨htracks, hsettings, hgroups⟩ := tracks_ledger settings calls
    have hunbroken := (run_unbroken (closingRule settings) (items calls)).1
    rw [← hgroups] at hunbroken
    have hclosed := htracks.delivered ((congrArg Settings.onBarClose hsettings).trans hcallback)
    have hdone : ∀ seg ∈ (ledger settings calls).groups.done, (closingRule settings).Unbroken seg :=
      fun seg hseg => hunbroken seg (done_subset_segs _ hseg)
    apply ((List.forall₂_and_left _ _).mpr ⟨hdone, hclosed⟩).imp
    rintro seg bar ⟨hseg, hbar⟩ ⟨front, last, rfl, hafter⟩ trades hsame
    rw [congrArg Settings.tickSize hsettings] at hbar
    exact compared_of_closed hbar hseg hafter hsame
  · intro stream
    obtain ⟨-, -, hgroups⟩ := tracks_ledger settings (tickCalls stream)
    rw [hgroups, items_tickCalls]
    exact done_closedBehind (fun _ _ => rfl) _

theorem bars_compared_fiftyContracts :
    (∀ calls, List.Forall₂
      (fun seg bar => (closingRule fiftyContracts).ClosedBehind seg →
        ∀ trades, List.Forall₂ SameTrade seg trades → Compared fiftyContracts seg bar trades)
      (ledger fiftyContracts calls).groups.done (ledger fiftyContracts calls).series.delivered) ∧
      ∀ (stream : List (UniversalTickRecord × Int)),
        ∀ seg ∈ (ledger fiftyContracts (tickCalls stream)).groups.done,
          (closingRule fiftyContracts).ClosedBehind seg :=
  bars_compared fiftyContracts rfl

/-- Fifty contracts to a bar, of three trades: `session1` books the third one too. -/
example :
    (ledger fiftyContracts (tickCalls [(⟨1, 5000, 30, 1, .ask, .trade⟩, 0),
        (⟨2, 5001, 20, 1, .bid, .trade⟩, 0), (⟨3, 5002, 5, 1, .ask, .trade⟩, 0)])).series.delivered.map
          (·.totalVolume) = [55] ∧
      (given .volume 50 [⟨1, 1, 5000, 30, 0, 0, 0, 0⟩, ⟨2, 1, 5001, 20, 0, 0, 0, 0⟩,
        ⟨3, 1, 5002, 5, 0, 0, 0, 0⟩]).completed.map (·.volume) = [50] := by
  decide +kernel

end BarAgreement
