import OrderFlow.SessionBarLevels

/-!
# The bars of a run and the ticks in them

A ledger follows a bar series call by call and notes which ticks were booked into
which bar. The groups of ticks are the greedy segmentation by `closingRule`, whose
test sees the bar without the tick that may close it, cut also by every forced
close and session opening. Each delivered bar is the footprint of its group.
-/
namespace SessionBars

open GreedySegments KeyedRecords SessionTypes TickGrid

structure Ledger where
  series : BarSeries
  groups : Cut UniversalTickRecord

/-- A booked tick joins the open group; the group ends when its bar is closed. -/
def Ledger.call (l : Ledger) (c : Call) : Ledger where
  series := SessionBars.call l.series c
  groups :=
    match c with
    | .onTick tick _ =>
      if tick.isAccumulatable then
        let joined : Cut UniversalTickRecord := ⟨l.groups.done, l.groups.current ++ [tick]⟩
        if (SessionBars.call l.series c).currentBar.isSome then joined else joined.flush
      else l.groups
    | .forceCloseBar _ => l.groups.flush
    | .onSessionOpen _ => l.groups.flush

def ledger (settings : Settings) (calls : List Call) : Ledger :=
  calls.foldl Ledger.call ⟨newSeries settings, Cut.empty⟩

def ticksOf (calls : List Call) : List UniversalTickRecord :=
  calls.filterMap fun
    | .onTick tick _ => some tick
    | _ => none

@[simp] theorem ledger_snoc (settings : Settings) (calls : List Call) (c : Call) :
    ledger settings (calls ++ [c]) = (ledger settings calls).call c := by
  simp [ledger]

theorem ledger_series (settings : Settings) (calls : List Call) :
    (ledger settings calls).series = run (newSeries settings) calls := by
  induction calls using List.reverseRecOn with
  | nil => rfl
  | append_singleton calls c ih =>
    rw [ledger_snoc]
    show call (ledger settings calls).series c = _
    rw [ih]
    simp [run]

/-- When a group of ticks ends behind its next tick. The first tick of the group
opens its bar. -/
def closingRule (settings : Settings) : Rule UniversalTickRecord where
  before := fun _ _ => false
  after := fun seg tick =>
    let first := seg.head?.getD tick
    match settings.barSize.type with
    | .time =>
      let barSizeNs : Int := settings.barSize.sizeValue.toNat * 1000000000
      decide (tick.exchangeTsNs ≥ first.exchangeTsNs.tdiv barSizeNs * barSizeNs + barSizeNs)
    | .range =>
      decide (|tick.price - first.price| ≥ (settings.barSize.sizeValue.toNat : Rat) * settings.tickSize)
    | .volume => decide (volumeSum seg ≥ settings.barSize.sizeValue.toNat)

/-- The ticks that are booked, and the calls that close the open bar. -/
def items (calls : List Call) : List (Option UniversalTickRecord) :=
  calls.filterMap fun
    | .onTick tick _ => if tick.isAccumulatable then some (some tick) else none
    | _ => some none

structure Tracks (s : BarSeries) (groups : Cut UniversalTickRecord) : Prop where
  booked : ∀ tick ∈ groups.all, tick.isAccumulatable
  current : ∀ bar, s.currentBar = some bar → OpenBar s.tickSize groups.current bar
  idle : s.currentBar = none → groups.current = []
  delivered : s.onBarClose = true → List.Forall₂ (ClosedBar s.tickSize) groups.done s.delivered

theorem tracks_new (settings : Settings) : Tracks (newSeries settings) Cut.empty where
  booked := by simp
  current := by simp [newSeries]
  idle := fun _ => rfl
  delivered := fun _ => List.Forall₂.nil

/-- Closing a bar ends its group. -/
theorem tracks_close {s : BarSeries} {groups : Cut UniversalTickRecord} (h : Tracks s groups)
    (closeTsNs : Int) : Tracks (closeCurrentBar s closeTsNs) groups.flush := by
  cases hbar : s.currentBar with
  | none =>
    have hsame : closeCurrentBar s closeTsNs = s := by simp [closeCurrentBar, hbar]
    rw [hsame, flush_of_current_nil _ (h.idle hbar)]
    exact h
  | some bar =>
    have hopen := h.current bar hbar
    rw [flush_of_current_ne_nil _ (openBar_ne_nil hopen)]
    simp only [closeCurrentBar, hbar]
    refine ⟨?_, by simp, fun _ => rfl, fun hcallback => ?_⟩
    · intro tick htick
      exact h.booked tick (by simpa [Cut.all] using htick)
    · simp only at hcallback
      simp only [hcallback, if_true]
      exact List.rel_append (h.delivered hcallback)
        (.cons ⟨bar, closeTsNs, hopen, rfl⟩ .nil)

theorem shouldClose_eq {s : BarSeries} {seg : List UniversalTickRecord} {bar : BarRecord}
    (hbar : s.currentBar = some bar) (h : OpenBar s.tickSize seg bar) (tick : UniversalTickRecord) :
    shouldClose s tick = (closingRule s.toSettings).after seg tick := by
  obtain ⟨first, hfirst, hts⟩ := Option.map_eq_some_iff.mp h.barOpenTsNs
  have hprice : first.price = bar.openPrice := by simpa [hfirst] using h.openPrice
  cases htype : s.barSize.type <;>
    simp only [shouldClose, hbar, closingRule, htype, hfirst, Option.getD_some, hts, hprice,
      h.totalVolume]

theorem shouldClose_opened (s : BarSeries) (tick : UniversalTickRecord) :
    shouldClose { s with currentBar := some (openNewBar s tick.exchangeTsNs tick.price) } tick =
      (closingRule s.toSettings).after [] tick := by
  simp only [shouldClose, closingRule, openNewBar, List.head?_nil, Option.getD_none, volumeSum_nil]
  cases s.barSize.type <;> rfl

/-- A booked tick joins the open bar, or opens one, and the rule decides about the
bar without it. -/
theorem onTick_booked {s : BarSeries} {seg : List UniversalTickRecord}
    (hcurrent : ∀ bar, s.currentBar = some bar → OpenBar s.tickSize seg bar)
    (hidle : s.currentBar = none → seg = []) {tick : UniversalTickRecord}
    (htick : tick.isAccumulatable) (sessionOpenTsNs : Int) :
    ∃ bar, OpenBar s.tickSize (seg ++ [tick]) bar ∧
      onTick s tick sessionOpenTsNs =
        if (closingRule s.toSettings).after seg tick then
          closeCurrentBar { s with currentBar := some bar } tick.exchangeTsNs
        else { s with currentBar := some bar } := by
  cases hbar : s.currentBar with
  | none =>
    rw [hidle hbar]
    refine ⟨_, openBar_first s htick, ?_⟩
    rw [onTick, if_pos htick, ← shouldClose_opened]
    simp [withOpenBar, hbar]
  | some bar =>
    have hopen := hcurrent bar hbar
    refine ⟨_, openBar_accumulate s.tickSizePos hopen htick, ?_⟩
    rw [onTick, if_pos htick, ← shouldClose_eq hbar hopen]
    simp [withOpenBar, hbar]

theorem onTick_spec {s : BarSeries} {groups : Cut UniversalTickRecord} (h : Tracks s groups)
    {tick : UniversalTickRecord} (htick : tick.isAccumulatable) (sessionOpenTsNs : Int) :
    ∃ bar, OpenBar s.tickSize (groups.current ++ [tick]) bar ∧
      onTick s tick sessionOpenTsNs =
        if (closingRule s.toSettings).after groups.current tick then
          closeCurrentBar { s with currentBar := some bar } tick.exchangeTsNs
        else { s with currentBar := some bar } :=
  onTick_booked h.current h.idle htick sessionOpenTsNs

theorem closeCurrentBar_currentBar (s : BarSeries) (closeTsNs : Int) :
    (closeCurrentBar s closeTsNs).currentBar = none := by
  unfold closeCurrentBar
  split
  · assumption
  · rfl

theorem closeCurrentBar_settings (s : BarSeries) (closeTsNs : Int) :
    (closeCurrentBar s closeTsNs).toSettings = s.toSettings := by
  unfold closeCurrentBar
  split <;> rfl

/-- What one call does to the bars and to the groups. -/
theorem tracks_call {l : Ledger} (h : Tracks l.series l.groups) (c : Call) :
    Tracks (l.call c).series (l.call c).groups ∧
      (l.call c).series.toSettings = l.series.toSettings ∧
      (l.call c).groups = (items [c]).foldl (closingRule l.series.toSettings).act l.groups := by
  obtain ⟨s, groups⟩ := l
  dsimp only at h ⊢
  cases c with
  | onTick tick sessionOpenTsNs =>
    by_cases htick : tick.isAccumulatable
    · obtain ⟨bar, hopen, hstep⟩ := onTick_spec h htick sessionOpenTsNs
      have hjoined : Tracks { s with currentBar := some bar }
          ⟨groups.done, groups.current ++ [tick]⟩ := by
        refine ⟨?_, ?_, by simp, h.delivered⟩
        · intro t ht
          have ht' : t ∈ groups.all ∨ t = tick := by simpa [Cut.all, or_assoc] using ht
          rcases ht' with ht' | rfl
          · exact h.booked t ht'
          · exact htick
        · rintro b hb
          obtain rfl := Option.some.inj hb
          exact hopen
      have hact : (items [Call.onTick tick sessionOpenTsNs]).foldl (closingRule s.toSettings).act groups =
          (closingRule s.toSettings).extend groups tick := by
        simp [items, htick, Rule.act, Rule.feed, Rule.cutsBefore, closingRule]
      rw [hact]
      simp only [Ledger.call, call, htick, if_true, hstep, Rule.extend]
      split
      · have hclosed := tracks_close hjoined tick.exchangeTsNs
        rw [closeCurrentBar_currentBar, closeCurrentBar_settings]
        simp only [Option.isSome_none, Bool.false_eq_true, if_false]
        exact ⟨hclosed, trivial, flush_of_current_ne_nil _ (by simp)⟩
      · simpa using hjoined
    · have hsame : Ledger.call ⟨s, groups⟩ (.onTick tick sessionOpenTsNs) = ⟨s, groups⟩ := by
        simp only [Ledger.call, call, htick, Bool.false_eq_true, if_false]
        rw [onTick_of_not_accumulatable (by simpa using htick)]
      rw [hsame]
      exact ⟨h, rfl, by simp [items, htick]⟩
  | forceCloseBar closeTsNs =>
    exact ⟨tracks_close h closeTsNs, closeCurrentBar_settings s closeTsNs, rfl⟩
  | onSessionOpen sessionOpenTsNs =>
    have hclosed := tracks_close h sessionOpenTsNs
    exact ⟨⟨hclosed.booked, hclosed.current, hclosed.idle, hclosed.delivered⟩,
      closeCurrentBar_settings s sessionOpenTsNs, rfl⟩

/-- The bars and the groups of a whole run. -/
theorem tracks_ledger (settings : Settings) (calls : List Call) :
    Tracks (ledger settings calls).series (ledger settings calls).groups ∧
      (ledger settings calls).series.toSettings = settings ∧
      (ledger settings calls).groups = (closingRule settings).run (items calls) := by
  induction calls using List.reverseRecOn with
  | nil => exact ⟨tracks_new settings, rfl, rfl⟩
  | append_singleton calls c ih =>
    obtain ⟨htracks, hsettings, hgroups⟩ := ih
    obtain ⟨htracks', hsettings', hgroups'⟩ := tracks_call htracks c
    rw [ledger_snoc]
    refine ⟨htracks', hsettings'.trans hsettings, ?_⟩
    have hitems : items (calls ++ [c]) = items calls ++ items [c] := List.filterMap_append
    rw [hgroups', hsettings, hgroups, hitems, Rule.run, Rule.run, List.foldl_append]

theorem reduceOption_items (calls : List Call) :
    (items calls).reduceOption = (ticksOf calls).filter (·.isAccumulatable) := by
  induction calls with
  | nil => rfl
  | cons c calls ih =>
    cases c with
    | onTick tick sessionOpenTsNs =>
      by_cases htick : tick.isAccumulatable
      · simpa [items, ticksOf, htick] using ih
      · simpa [items, ticksOf, htick] using ih
    | forceCloseBar closeTsNs => simpa [items, ticksOf] using ih
    | onSessionOpen sessionOpenTsNs => simpa [items, ticksOf] using ih

/-- What a bar series has made of the ticks of a run: each booked tick is in one
group, closed groups have their bars delivered in order, and the open group is
the open bar. -/
structure Footprints (s : BarSeries) (groups : Cut UniversalTickRecord)
    (ticks : List UniversalTickRecord) : Prop where
  covers : groups.done.flatten ++ groups.current = ticks.filter (·.isAccumulatable)
  nonempty : ∀ seg ∈ groups.done, seg ≠ []
  delivered : List.Forall₂ (fun seg bar => volumeSum seg < 2 ^ 31 → Footprint s.tickSize seg bar)
    groups.done s.delivered
  current : ∀ bar, s.currentBar = some bar → OpenBar s.tickSize groups.current bar
  idle : s.currentBar = none → groups.current = []
  others : ∀ tick sessionOpenTsNs, tick.isAccumulatable = false → onTick s tick sessionOpenTsNs = s

theorem sizeValue_pos (settings : Settings) : 0 < settings.barSize.sizeValue.toNat := by
  have hvalid := settings.valid
  rcases Nat.eq_zero_or_pos settings.barSize.sizeValue.toNat with hzero | hpos
  · have : settings.barSize.sizeValue = 0 := UInt32.toNat_inj.mp hzero
    simp [BarSize.isValid, this] at hvalid
  · exact hpos

/-- Every run of a bar series that has a callback, on volumes that are not
negative. -/
theorem run_footprints (settings : Settings) (hcallback : settings.onBarClose = true)
    (calls : List Call) (hvolume : ∀ tick ∈ ticksOf calls, 0 ≤ tick.volume) :
    Footprints (run (newSeries settings) calls) (ledger settings calls).groups (ticksOf calls) := by
  obtain ⟨htracks, hsettings, hgroups⟩ := tracks_ledger settings calls
  have hall : (ledger settings calls).groups.all = (ticksOf calls).filter (·.isAccumulatable) := by
    rw [hgroups, run_all, reduceOption_items]
  rw [ledger_series] at htracks hsettings
  constructor
  case covers => exact hall
  case nonempty =>
    intro seg hseg
    rw [hgroups] at hseg
    exact run_nonempty _ _ seg (done_subset_segs _ hseg)
  case delivered =>
    have hdelivered := htracks.delivered (by rw [hsettings]; exact hcallback)
    have hgroup : ∀ seg ∈ (ledger settings calls).groups.done,
        ∀ tick ∈ seg, tick ∈ (ledger settings calls).groups.all :=
      fun seg hseg tick htick => List.mem_append_left _ (List.mem_flatten_of_mem hseg htick)
    apply ((List.forall₂_and_left _ _).mpr ⟨hgroup, hdelivered⟩).imp
    rintro seg bar ⟨hmem, hclosed⟩ hbelow
    refine footprint_of_closedBar hclosed (fun tick htick => htracks.booked tick (hmem tick htick))
      ⟨fun tick htick => ?_, hbelow⟩
    exact hvolume tick (List.mem_of_mem_filter (hall ▸ hmem tick htick))
  case current => exact htracks.current
  case idle => exact htracks.idle
  case others => exact fun tick ts htick => onTick_of_not_accumulatable htick _ ts

theorem quarter_pos : (0 : Rat) < 1 / 4 := by decide +kernel

/-- Bars of fifty contracts, in ticks of a quarter. -/
def fiftyContracts : Settings := ⟨⟨.volume, 50⟩, by decide, "ES", 1, 1 / 4, quarter_pos, true⟩

/-- A quote between trades on both sides, and the end of the session. -/
def tradesThenClose : List Call :=
  [.onTick ⟨10, 5000, 30, 1, .ask, .trade⟩ 0, .onTick ⟨20, 5000, 1, 1, .unknown, .bidQuote⟩ 0,
    .onTick ⟨30, 20001 / 4, 30, 1, .bid, .trade⟩ 0, .onTick ⟨40, 20001 / 4, 5, 1, .ask, .trade⟩ 0,
    .onTick ⟨50, 5000, 7, 1, .bid, .trade⟩ 0, .forceCloseBar 60]

theorem run_footprints_tradesThenClose :
    Footprints (run (newSeries fiftyContracts) tradesThenClose)
      (ledger fiftyContracts tradesThenClose).groups (ticksOf tradesThenClose) :=
  run_footprints fiftyContracts rfl tradesThenClose (by decide)

end SessionBars
