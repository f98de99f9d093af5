import OrderFlow.SessionBarVolume

/-!
# Range bars and their distance

A range bar is tested with the price of the tick that comes in, so unlike a volume bar it is
closed by the tick that reaches the distance. Only its last tick is ever that far from the
open: an extreme of the bar that far out is its close.
-/
namespace SessionBars

open GreedySegments SessionTypes

/-- The distance from the open at which a range bar closes. -/
def rangeDistance (settings : Settings) : Rat :=
  settings.barSize.sizeValue.toNat * settings.tickSize

/-- A closed bar with no tick but the last at the distance or beyond. -/
structure RangeBar (settings : Settings) (seg : List UniversalTickRecord) (bar : BarRecord) : Prop where
  closed : ClosedBar settings.tickSize seg bar
  within : ∀ tick ∈ seg.dropLast, |tick.price - bar.openPrice| < rangeDistance settings
  high : bar.openPrice + rangeDistance settings ≤ bar.high → bar.high = bar.close
  low : bar.low ≤ bar.openPrice - rangeDistance settings → bar.low = bar.close

/-- All booked ticks are in bars, closed bars reach the distance with their last tick at most,
and the open bar has not reached it. -/
structure RangeBars (settings : Settings) (l : Ledger) (ticks : List UniversalTickRecord) : Prop where
  covers : l.groups.done.flatten ++ l.groups.current = ticks.filter (·.isAccumulatable)
  closed : List.Forall₂ (RangeBar settings) l.groups.done l.series.delivered
  running : ∀ bar, l.series.currentBar = some bar →
    bar.high < bar.openPrice + rangeDistance settings ∧
      bar.openPrice - rangeDistance settings < bar.low

theorem closingRule_range {settings : Settings} (hrange : settings.barSize.type = .range)
    (seg : List UniversalTickRecord) (tick : UniversalTickRecord) :
    (closingRule settings).after seg tick = true ↔
      rangeDistance settings ≤ |tick.price - (seg.head?.getD tick).price| := by
  simp [closingRule, hrange, rangeDistance]

/-- The first tick of a bar, seen from any tick in it. -/
theorem head_getD {before after : List UniversalTickRecord} {tick : UniversalTickRecord}
    {openPrice : Rat}
    (h : (before ++ tick :: after).head?.map (·.price) = some openPrice) :
    (before.head?.getD tick).price = openPrice := by
  cases before with
  | nil => simpa using h
  | cons first before => simpa using h

/-- Behind a tick at the distance a bar does not go on. -/
theorem within_of_unbroken {settings : Settings} (hrange : settings.barSize.type = .range)
    {seg : List UniversalTickRecord} (h : (closingRule settings).Unbroken seg) {openPrice : Rat}
    (hopen : seg.head?.map (·.price) = some openPrice) :
    ∀ tick ∈ seg.dropLast, |tick.price - openPrice| < rangeDistance settings := by
  intro tick htick
  obtain ⟨before, after, hsplit⟩ := List.append_of_mem htick
  have hne : seg ≠ [] := by
    rintro rfl
    simp at hopen
  have hseg : seg = before ++ tick :: (after ++ [seg.getLast hne]) := by
    rw [← List.cons_append, ← List.append_assoc, ← hsplit, List.dropLast_append_getLast]
  have hnot := (h before tick _ hseg).2 (by simp)
  rw [hseg] at hopen
  rw [Bool.eq_false_iff, ne_eq, closingRule_range hrange, head_getD hopen, not_le] at hnot
  exact hnot

/-- And a bar that is open has no such tick at all. -/
theorem within_of_running {settings : Settings} (hrange : settings.barSize.type = .range)
    {seg : List UniversalTickRecord} (h : (closingRule settings).Unbroken seg)
    (hrunning : ¬ (closingRule settings).ClosedBehind seg) {openPrice : Rat}
    (hopen : seg.head?.map (·.price) = some openPrice) :
    ∀ tick ∈ seg, |tick.price - openPrice| < rangeDistance settings := by
  rcases List.eq_nil_or_concat' seg with rfl | ⟨front, last, rfl⟩
  · simp
  · have hfront := within_of_unbroken hrange h hopen
    rw [List.dropLast_concat] at hfront
    rw [List.forall_mem_append]
    refine ⟨hfront, ?_⟩
    rw [closedBehind_snoc, closingRule_range hrange, head_getD hopen, not_le] at hrunning
    simpa using hrunning

/-- The fields of a bar that closing it leaves alone. -/
theorem complete_fields (bar : BarRecord) (closeTsNs : Int) :
    (complete bar closeTsNs).openPrice = bar.openPrice ∧ (complete bar closeTsNs).high = bar.high ∧
      (complete bar closeTsNs).low = bar.low ∧ (complete bar closeTsNs).close = bar.close := by
  simp only [complete]
  split
  · exact ⟨rfl, rfl, rfl, rfl⟩
  · exact ⟨rfl, rfl, rfl, rfl⟩

/-- A price of the bar that no tick in front of the last one has is its close. -/
theorem eq_close_of_not_front {tickSize : Rat} {seg : List UniversalTickRecord} {bar : BarRecord}
    (h : OpenBar tickSize seg bar) {price : Rat} (hprice : price ∈ seg.map (·.price))
    (hfront : ∀ tick ∈ seg.dropLast, tick.price ≠ price) : price = bar.close := by
  obtain ⟨tick, htick, rfl⟩ := List.mem_map.mp hprice
  rcases List.eq_nil_or_concat' seg with rfl | ⟨front, last, rfl⟩
  · simp at htick
  · rw [List.dropLast_concat] at hfront
    have hclose : last.price = bar.close := by simpa using h.close
    rcases List.mem_append.mp htick with hin | hin
    · exact absurd rfl (hfront tick hin)
    · rw [List.mem_singleton.mp hin, hclose]

theorem rangeBar_of_closed {settings : Settings} (hrange : settings.barSize.type = .range)
    {seg : List UniversalTickRecord} {bar : BarRecord} (h : ClosedBar settings.tickSize seg bar)
    (hunbroken : (closingRule settings).Unbroken seg) : RangeBar settings seg bar := by
  refine ⟨h, ?_, ?_, ?_⟩ <;> obtain ⟨opened, closeTsNs, hopen, rfl⟩ := h <;>
    obtain ⟨hopenPrice, hhigh, hlow, hclose⟩ := complete_fields opened closeTsNs
  · rw [hopenPrice]
    exact within_of_unbroken hrange hunbroken hopen.openPrice
  · rw [hopenPrice, hhigh, hclose]
    intro hfar
    refine eq_close_of_not_front hopen hopen.high.1 fun tick htick heq => ?_
    have hwithin := within_of_unbroken hrange hunbroken hopen.openPrice tick htick
    rw [heq] at hwithin
    linarith [(abs_lt.mp hwithin).2]
  · rw [hopenPrice, hlow, hclose]
    intro hfar
    refine eq_close_of_not_front hopen hopen.low.1 fun tick htick heq => ?_
    have hwithin := within_of_unbroken hrange hunbroken hopen.openPrice tick htick
    rw [heq] at hwithin
    linarith [(abs_lt.mp hwithin).1]

theorem rangeBars_ledger {settings : Settings} (hrange : settings.barSize.type = .range)
    (hcallback : settings.onBarClose = true) (calls : List Call) :
    RangeBars settings (ledger settings calls) (ticksOf calls) := by
  obtain ⟨htracks, hsettings, hgroups⟩ := tracks_ledger settings calls
  obtain ⟨hunbroken, hrunning⟩ := run_unbroken (closingRule settings) (items calls)
  rw [← hgroups] at hunbroken hrunning
  have htick : (ledger settings calls).series.tickSize = settings.tickSize :=
    congrArg Settings.tickSize hsettings
  constructor
  case covers =>
    have hall := run_all (closingRule settings) (items calls)
    rwa [← hgroups, reduceOption_items] at hall
  case closed =>
    have hclosed := htracks.delivered ((congrArg Settings.onBarClose hsettings).trans hcallback)
    have hdone : ∀ seg ∈ (ledger settings calls).groups.done, (closingRule settings).Unbroken seg :=
      fun seg hseg => hunbroken seg (done_subset_segs _ hseg)
    apply ((List.forall₂_and_left _ _).mpr ⟨hdone, hclosed⟩).imp
    rintro seg bar ⟨hseg, hbar⟩
    exact rangeBar_of_closed hrange (htick ▸ hbar) hseg
  case running =>
    intro bar hbar
    have hopen := htracks.current bar hbar
    have hcurrent : (ledger settings calls).groups.current ∈ (ledger settings calls).groups.segs := by
      rw [segs_of_current_ne_nil _ (openBar_ne_nil hopen)]
      simp
    have hwithin := within_of_running hrange (hunbroken _ hcurrent) hrunning hopen.openPrice
    obtain ⟨top, htop, hhigh⟩ := List.mem_map.mp hopen.high.1
    obtain ⟨bottom, hbottom, hlow⟩ := List.mem_map.mp hopen.low.1
    rw [← hhigh, ← hlow]
    constructor
    · linarith [(abs_lt.mp (hwithin top htop)).2]
    · linarith [(abs_lt.mp (hwithin bottom hbottom)).1]

theorem items_tickCalls (stream : List (UniversalTickRecord × Int)) :
    items (tickCalls stream) = ((stream.map Prod.fst).filter (·.isAccumulatable)).map some := by
  induction stream with
  | nil => rfl
  | cons tick stream ih =>
    by_cases hbooked : tick.1.isAccumulatable
    · simpa [items, tickCalls, hbooked] using ih
    · simpa [items, tickCalls, hbooked] using ih

/-- The ticks of a bar that was delivered. -/
theorem seg_of_delivered {tickSize : Rat} {done : List (List UniversalTickRecord)}
    {bars : List BarRecord} (h : List.Forall₂ (ClosedBar tickSize) done bars) {bar : BarRecord}
    (hbar : bar ∈ bars) : ∃ seg ∈ done, ClosedBar tickSize seg bar := by
  induction h with
  | nil => simp at hbar
  | cons hfirst _ ih =>
    rcases List.mem_cons.mp hbar with rfl | hrest
    · exact ⟨_, List.mem_cons_self, hfirst⟩
    · obtain ⟨seg, hseg, hmatch⟩ := ih hrest
      exact ⟨seg, List.mem_cons_of_mem _ hseg, hmatch⟩

/-- A bar that its last tick has closed is that tick's distance wide. -/
theorem distance_of_closed {settings : Settings} (hrange : settings.barSize.type = .range)
    {tickSize : Rat} {front : List UniversalTickRecord} {last : UniversalTickRecord}
    {bar : BarRecord} (h : ClosedBar tickSize (front ++ [last]) bar)
    (hafter : (closingRule settings).after front last = true) :
    bar.close = last.price ∧ rangeDistance settings ≤ |bar.close - bar.openPrice| := by
  obtain ⟨opened, closeTsNs, hopen, rfl⟩ := h
  obtain ⟨hopenPrice, -, -, hclose⟩ := complete_fields opened closeTsNs
  have hlast : last.price = opened.close := by simpa using hopen.close
  rw [closingRule_range hrange, head_getD hopen.openPrice, hlast] at hafter
  rw [hopenPrice, hclose]
  exact ⟨hlast.symm, hafter⟩

/-- The tick that makes the series deliver a bar is at the distance from its open. -/
theorem distance_of_delivering (settings : Settings) (hrange : settings.barSize.type = .range)
    (hcallback : settings.onBarClose = true) (calls : List Call) (tick : UniversalTickRecord)
    (sessionOpenTsNs : Int) (bar : BarRecord)
    (hdelivers : (call (ledger settings calls).series (.onTick tick sessionOpenTsNs)).delivered =
      (ledger settings calls).series.delivered ++ [bar]) :
    bar.close = tick.price ∧ rangeDistance settings ≤ |bar.close - bar.openPrice| := by
  obtain ⟨htracks, hsettings, hgroups⟩ := tracks_ledger settings calls
  obtain ⟨htracks', hsettings', hgroups'⟩ :=
    tracks_ledger settings (calls ++ [.onTick tick sessionOpenTsNs])
  have hclosed := htracks.delivered ((congrArg Settings.onBarClose hsettings).trans hcallback)
  have hclosed' := htracks'.delivered ((congrArg Settings.onBarClose hsettings').trans hcallback)
  have hseries : (ledger settings (calls ++ [.onTick tick sessionOpenTsNs])).series =
      call (ledger settings calls).series (.onTick tick sessionOpenTsNs) := by
    rw [ledger_snoc]
    rfl
  rw [hseries, hdelivers] at hclosed'
  have hlength := hclosed.length_eq
  have hlength' := hclosed'.length_eq
  rw [List.length_append, List.length_singleton] at hlength'
  have hitems : items (calls ++ [.onTick tick sessionOpenTsNs]) =
      items calls ++ if tick.isAccumulatable then [some tick] else [] := by
    by_cases hbooked : tick.isAccumulatable <;> simp [items, hbooked]
  by_cases hbooked : tick.isAccumulatable
  · rw [hitems, if_pos hbooked, run_snoc, ← hgroups, Rule.act] at hgroups'
    rcases done_feed (r := closingRule settings) (fun _ _ => rfl) (ledger settings calls).groups tick
      with hsame | ⟨hmore, hafter⟩
    · rw [hgroups', hsame] at hlength'
      omega
    · rw [hgroups', hmore] at hclosed'
      have hlast := List.forall₂_drop_append _ _ _ hclosed'
      rw [List.drop_append_of_le_length hlength.ge, ← hlength, List.drop_length,
        List.nil_append] at hlast
      exact distance_of_closed hrange (List.forall₂_cons.mp hlast).1 hafter
  · rw [hitems, if_neg hbooked, List.append_nil, ← hgroups] at hgroups'
    rw [hgroups'] at hlength'
    omega

/-- Range bars close at the first tick that reaches the distance: under any calls no bar goes on
behind such a tick and no other tick closes one, and in a stream of ticks every closed bar has
ended with one. -/
theorem range_bars_close_at_distance (settings : Settings)
    (hrange : settings.barSize.type = .range) (hcallback : settings.onBarClose = true) :
    (∀ calls, RangeBars settings (ledger settings calls) (ticksOf calls)) ∧
      (∀ calls tick sessionOpenTsNs bar,
        (call (ledger settings calls).series (.onTick tick sessionOpenTsNs)).delivered =
            (ledger settings calls).series.delivered ++ [bar] →
          bar.close = tick.price ∧ rangeDistance settings ≤ |bar.close - bar.openPrice|) ∧
      ∀ (stream : List (UniversalTickRecord × Int)) (bar : BarRecord),
        bar ∈ (ledger settings (tickCalls stream)).series.delivered →
          rangeDistance settings ≤ |bar.close - bar.openPrice| := by
  refine ⟨rangeBars_ledger hrange hcallback, distance_of_delivering settings hrange hcallback, ?_⟩
  intro stream bar hbar
  obtain ⟨htracks, hsettings, hgroups⟩ := tracks_ledger settings (tickCalls stream)
  have hclosed := htracks.delivered ((congrArg Settings.onBarClose hsettings).trans hcallback)
  obtain ⟨seg, hseg, hmatch⟩ := seg_of_delivered hclosed hbar
  rw [hgroups, items_tickCalls] at hseg
  obtain ⟨front, last, rfl, hafter⟩ := done_closedBehind (fun _ _ => rfl) _ seg hseg
  exact (distance_of_closed hrange hmatch hafter).2

/-- Bars of two ticks of a quarter. -/
def twoTicks : Settings := ⟨⟨.range, 2⟩, by decide, "ES", 1, 1 / 4, quarter_pos, true⟩

theorem range_bars_close_at_distance_twoTicks :
    (∀ calls, RangeBars twoTicks (ledger twoTicks calls) (ticksOf calls)) ∧
      (∀ calls tick sessionOpenTsNs bar,
        (call (ledger twoTicks calls).series (.onTick tick sessionOpenTsNs)).delivered =
            (ledger twoTicks calls).series.delivered ++ [bar] →
          bar.close = tick.price ∧ rangeDistance twoTicks ≤ |bar.close - bar.openPrice|) ∧
      ∀ (stream : List (UniversalTickRecord × Int)) (bar : BarRecord),
        bar ∈ (ledger twoTicks (tickCalls stream)).series.delivered →
          rangeDistance twoTicks ≤ |bar.close - bar.openPrice| :=
  range_bars_close_at_distance twoTicks rfl rfl

end SessionBars
