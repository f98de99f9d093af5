import Mathlib.Data.List.ReduceOption
import OrderFlow.SessionBarSegments

/-!
# Time bars and the clock

A time bar is closed by the first tick past its window, but only after that tick
has been booked into it. So a bar keeps to one window of the clock exactly when
some other call closes it before the window is left.
-/
namespace SessionBars

open GreedySegments SessionTypes

/-- The window of the clock in which a timestamp lies. -/
def window (settings : Settings) (tsNs : Int) : Int :=
  tsNs / (settings.barSize.sizeValue.toNat * 1000000000)

/-- Every bar, delivered or open, keeps to the window in which it was opened. -/
def KeepsWindow (settings : Settings) (l : Ledger) : Prop :=
  List.Forall₂ (fun seg bar => ∀ tick ∈ seg,
      window settings tick.exchangeTsNs = window settings bar.barOpenTsNs)
    l.groups.done l.series.delivered ∧
  ∀ bar, l.series.currentBar = some bar → ∀ tick ∈ l.groups.current,
    window settings tick.exchangeTsNs = window settings bar.barOpenTsNs

/-- Two booked ticks that follow each other with no call between them that closes
the bar lie in one window. -/
def ClosedAtBoundaries (settings : Settings) (calls : List Call) : Prop :=
  (items calls).IsChain (SameClass fun tick => window settings tick.exchangeTsNs)

/-- The test for a time bar asks whether a tick lies in a later window. -/
theorem closingRule_time {settings : Settings} (htime : settings.barSize.type = .time)
    {seg : List UniversalTickRecord} {tick : UniversalTickRecord}
    (hnonneg : 0 ≤ (seg.head?.getD tick).exchangeTsNs) :
    (closingRule settings).after seg tick = true ↔
      window settings (seg.head?.getD tick).exchangeTsNs < window settings tick.exchangeTsNs := by
  have hpos : (0 : Int) < settings.barSize.sizeValue.toNat * 1000000000 := by
    have := sizeValue_pos settings
    omega
  simp only [closingRule, htime, decide_eq_true_eq, window, Int.tdiv_eq_ediv_of_nonneg hnonneg]
  rw [← Int.add_one_le_iff, Int.le_ediv_iff_mul_le hpos, Int.add_mul, Int.one_mul]

theorem lazy_time {settings : Settings} (htime : settings.barSize.type = .time) :
    (closingRule settings).Lazy (fun tick => window settings tick.exchangeTsNs)
      fun tick => 0 ≤ tick.exchangeTsNs where
  before := fun _ _ => rfl
  after := by
    intro seg tick hseg htick hsame
    have hfirst : (seg.head?.getD tick).exchangeTsNs ≥ 0 ∧
        window settings (seg.head?.getD tick).exchangeTsNs = window settings tick.exchangeTsNs := by
      cases seg with
      | nil => exact ⟨htick, rfl⟩
      | cons first seg => exact ⟨hseg first (by simp), hsame first (by simp)⟩
    rw [Bool.eq_false_iff, ne_eq, closingRule_time htime hfirst.1, hfirst.2]
    exact lt_irrefl _

/-- All ticks are in the window of the first one, whose time the bar has. -/
theorem uniform_iff_of_head {settings : Settings} {seg : List UniversalTickRecord} {tsNs : Int}
    (h : seg.head?.map (·.exchangeTsNs) = some tsNs) :
    Uniform (fun tick => window settings tick.exchangeTsNs) seg ↔
      ∀ tick ∈ seg, window settings tick.exchangeTsNs = window settings tsNs := by
  obtain ⟨first, hfirst, rfl⟩ := Option.map_eq_some_iff.mp h
  constructor
  · exact fun huniform tick htick => huniform tick htick first (List.mem_of_head? hfirst)
  · exact fun hfirst x hx y hy => (hfirst x hx).trans (hfirst y hy).symm

theorem closedBar_barOpenTsNs {tickSize : Rat} {seg : List UniversalTickRecord} {bar : BarRecord}
    (h : ClosedBar tickSize seg bar) : seg.head?.map (·.exchangeTsNs) = some bar.barOpenTsNs := by
  obtain ⟨opened, closeTsNs, hopen, rfl⟩ := h
  rw [complete_barOpenTsNs]
  exact hopen.barOpenTsNs

theorem keepsWindow_iff_uniform {settings : Settings} {l : Ledger} (h : Tracks l.series l.groups)
    (hcallback : l.series.onBarClose = true) :
    KeepsWindow settings l ↔
      ∀ seg ∈ l.groups.segs, Uniform (fun tick => window settings tick.exchangeTsNs) seg := by
  have hclosed : List.Forall₂ (fun seg bar => ∀ tick ∈ seg,
        window settings tick.exchangeTsNs = window settings bar.barOpenTsNs)
      l.groups.done l.series.delivered ↔
      ∀ seg ∈ l.groups.done, Uniform (fun tick => window settings tick.exchangeTsNs) seg := by
    have hbars := h.delivered hcallback
    generalize l.groups.done = done, l.series.delivered = bars at hbars
    induction hbars with
    | nil => simp
    | cons hbar hbars ih =>
      simp [ih, uniform_iff_of_head (closedBar_barOpenTsNs hbar)]
  rw [KeepsWindow, hclosed]
  cases hbar : l.series.currentBar with
  | none =>
    rw [segs_of_current_nil _ (h.idle hbar)]
    simp
  | some bar =>
    have hopen := h.current bar hbar
    rw [segs_of_current_ne_nil _ (openBar_ne_nil hopen)]
    simp only [Option.some.injEq, forall_eq', List.mem_append, List.mem_singleton,
      or_imp, forall_and, forall_eq, uniform_iff_of_head hopen.barOpenTsNs]

/-- Time bars keep to the clock exactly in the runs whose windows end with a call
that closes the bar. -/
theorem time_bars_keep_window_iff (settings : Settings) (htime : settings.barSize.type = .time)
    (hcallback : settings.onBarClose = true) (calls : List Call)
    (hnonneg : ∀ tick ∈ ticksOf calls, 0 ≤ tick.exchangeTsNs) :
    KeepsWindow settings (ledger settings calls) ↔ ClosedAtBoundaries settings calls := by
  obtain ⟨htracks, hsettings, hgroups⟩ := tracks_ledger settings calls
  rw [keepsWindow_iff_uniform htracks (by rw [hsettings]; exact hcallback), hgroups]
  apply run_uniform_iff (lazy_time htime)
  intro tick htick
  have hmem : tick ∈ (items calls).reduceOption := List.reduceOption_mem_iff.mpr htick
  rw [reduceOption_items] at hmem
  exact hnonneg tick (List.mem_of_mem_filter hmem)

/-- Bars of five seconds. -/
def fiveSeconds : Settings := ⟨⟨.time, 5⟩, by decide, "ES", 1, 1 / 4, quarter_pos, true⟩

def tradeAt (exchangeTsNs : Int) : UniversalTickRecord := ⟨exchangeTsNs, 5000, 1, 1, .ask, .trade⟩

/-- Trades in three windows, with a close at each boundary. -/
def closedAtFiveAndTen : List Call :=
  [.onTick (tradeAt 1000000000) 0, .onTick (tradeAt 4999999999) 0, .forceCloseBar 5000000000,
    .onTick (tradeAt 5000000000) 0, .onSessionOpen 10000000000, .onTick (tradeAt 12000000000) 0]

theorem time_bars_keep_window_iff_closedAtFiveAndTen :
    KeepsWindow fiveSeconds (ledger fiveSeconds closedAtFiveAndTen) ↔
      ClosedAtBoundaries fiveSeconds closedAtFiveAndTen :=
  time_bars_keep_window_iff fiveSeconds rfl rfl closedAtFiveAndTen (by decide)

/-- Two trades on either side of a boundary end up in one bar. -/
theorem crossing_trade_in_old_bar :
    ¬ KeepsWindow fiveSeconds (ledger fiveSeconds
      [.onTick (tradeAt 4000000000) 0, .onTick (tradeAt 6000000000) 0]) := by
  rw [keepsWindow_iff_uniform (tracks_ledger _ _).1 (by decide +kernel)]
  unfold Uniform
  decide +kernel

end SessionBars
