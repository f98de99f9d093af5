import OrderFlow.SessionBarSegments
import OrderFlow.SessionZoneRegistry

/-!
# Zones and the bar that creates them

A level with a buying imbalance needs a level one tick below it, so a zone made of
such levels starts at least a tick above the low of its bar, and the registry
takes that for a zone that price has traded through. Every zone is resolved by
the bar that creates it; a bar leaves all its zones active exactly when it creates
none.
-/
namespace SessionImbalance

open MaximalRuns SessionTypes TickGrid Upserts

/-- A closed bar with all its prices on the grid. -/
structure GridBar (tickSize : Rat) (bar : BarRecord) : Prop where
  levels : GridLevels tickSize bar.priceLevels
  low : IsLeast {p | p ∈ bar.priceLevels.map (·.price)} bar.low
  high : IsGreatest {p | p ∈ bar.priceLevels.map (·.price)} bar.high

/-- Bars of a bar series whose ticks trade on the grid. -/
theorem gridBar_of_footprint {tickSize : Rat} (hpos : 0 < tickSize) {seg : List UniversalTickRecord}
    {bar : BarRecord} (h : SessionBars.Footprint tickSize seg bar)
    (hgrid : ∀ tick ∈ seg, OnGrid tickSize tick.price) : GridBar tickSize bar := by
  have hprices : {p | p ∈ seg.map (·.price)} = {p | p ∈ bar.priceLevels.map (·.price)} := by
    ext p
    rw [Set.mem_ofPred_eq, Set.mem_ofPred_eq, h.prices p, List.mem_map]
    constructor
    · rintro ⟨tick, htick, rfl⟩
      exact ⟨tick, htick, roundToTick_of_onGrid hpos (hgrid tick htick)⟩
    · rintro ⟨tick, htick, rfl⟩
      exact ⟨tick, htick, (roundToTick_of_onGrid hpos (hgrid tick htick)).symm⟩
  refine ⟨⟨h.ascending, ?_⟩, hprices ▸ h.low, hprices ▸ h.high⟩
  intro lvl hlvl
  obtain ⟨tick, -, hprice⟩ := (h.prices lvl.price).mp (List.mem_map_of_mem hlvl)
  exact hprice ▸ onGrid_roundToTick tickSize tick.price

/-- A buying imbalance has a level of the bar a tick below it, and so the bar has
traded there. -/
theorem low_below_buyImbalance {tickSize : Rat} (hpos : 0 < tickSize) {bar : BarRecord}
    (hbar : GridBar tickSize bar) {config : ImbalanceConfig} {lvl : PriceLevelRecord}
    (hlvl : lvl ∈ bar.priceLevels) (h : buyImbalance config bar.priceLevels tickSize lvl = true) :
    bar.low + tickSize ≤ lvl.price := by
  obtain ⟨below, hmem, hprice⟩ := exists_below hpos hbar.levels hlvl h
  have hle := hbar.low.2 (List.mem_map_of_mem hmem)
  rw [hprice] at hle
  linarith

theorem high_above_sellImbalance {tickSize : Rat} (hpos : 0 < tickSize) {bar : BarRecord}
    (hbar : GridBar tickSize bar) {config : ImbalanceConfig} {lvl : PriceLevelRecord}
    (hlvl : lvl ∈ bar.priceLevels) (h : sellImbalance config bar.priceLevels tickSize lvl = true) :
    lvl.price + tickSize ≤ bar.high := by
  obtain ⟨above, hmem, hprice⟩ := exists_above hpos hbar.levels hlvl h
  have hle := hbar.high.2 (List.mem_map_of_mem hmem)
  rw [hprice] at hle
  linarith

/-- An active zone that the bar has traded through, by the test of the registry. -/
structure Doomed (bar : BarRecord) (tickSize : Rat) (z : ImbalanceZone) : Prop where
  active : z.isActive = true
  resolved : resolved bar tickSize z = true

theorem not_active_of_doomed {bar : BarRecord} {tickSize : Rat} {z : ImbalanceZone}
    (h : Doomed bar tickSize z) : (updateZone bar tickSize z).isActive = false := by
  simp [updateZone, h.active, h.resolved]

/-- An extension does not move the bound that the registry looks at. -/
theorem doomed_extended (side : Side) {bar : BarRecord} {tickSize : Rat} {streak : Streak}
    {z : ImbalanceZone} (h : Doomed bar tickSize z) (hfound : side.scan.found streak z = true)
    (ts : Int) : Doomed bar tickSize (side.scan.extended streak ts z) := by
  obtain ⟨hdirection, -⟩ := found_iff.mp hfound
  have hresolved := h.resolved
  refine ⟨by cases side <;> exact h.active, ?_⟩
  cases side <;> simp only [Side.scan, buyScan, sellScan] at hdirection
  · simpa [resolved, Scan.extended, Side.scan, buyScan, hdirection] using hresolved
  · simpa [resolved, Scan.extended, Side.scan, sellScan, hdirection] using hresolved

/-- The streaks of the bar by the diagonal rule, before any level is flagged. -/
def ruleStreaks (config : ImbalanceConfig) (bar : BarRecord) (tickSize : Rat) :
    List (Side × Streak) :=
  let long (rule : PriceLevelRecord → Bool) : List Streak :=
    ((runs rule bar.priceLevels).filter fun run =>
      decide (config.stackedMinCount ≤ run.length)).map streakOf
  (long (buyImbalance config bar.priceLevels tickSize)).map (fun streak => (.buying, streak)) ++
    (long (sellImbalance config bar.priceLevels tickSize)).map fun streak => (.selling, streak)

theorem sidedStreaks_flagBar (config : ImbalanceConfig) (bar : BarRecord) (tickSize : Rat) :
    sidedStreaks config.stackedMinCount (flagBar config bar tickSize).priceLevels =
      ruleStreaks config bar tickSize := by
  have hlevels : (flagBar config bar tickSize).priceLevels =
      bar.priceLevels.map (flagLevel config bar.priceLevels tickSize) := by
    simp only [flagBar, detectSingleImbalances_eq]
  have hstreaks := fun scan => streaks_flagLevel scan config.stackedMinCount bar.priceLevels
    (flagLevel config bar.priceLevels tickSize) fun _ => rfl
  rw [sidedStreaks, hlevels, hstreaks, hstreaks]
  rfl

/-- The zone of a streak is one the bar has traded through. -/
theorem doomed_of_ruleStreak {tickSize : Rat} (hpos : 0 < tickSize) {bar : BarRecord}
    (hbar : GridBar tickSize bar) {config : ImbalanceConfig} {item : Side × Streak}
    (h : item ∈ ruleStreaks config bar tickSize) (ts : Int) (zoneId : String) :
    Doomed bar tickSize (item.1.scan.newZone config item.2 ts zoneId) := by
  simp only [ruleStreaks, List.mem_append, List.mem_map, List.mem_filter] at h
  rcases h with ⟨streak, ⟨run, ⟨hrun, -⟩, rfl⟩, rfl⟩ | ⟨streak, ⟨run, ⟨hrun, -⟩, rfl⟩, rfl⟩
  · obtain ⟨hne, hpiece, hrule⟩ := mem_runs hrun
    have hhead := List.head_mem hne
    have hlow := low_below_buyImbalance hpos hbar (hpiece.subset hhead) (hrule _ hhead)
    refine ⟨rfl, ?_⟩
    simp only [resolved, Scan.newZone, Side.scan, buyScan, if_true, streakOf,
      List.head?_eq_some_head hne, Option.map_some, Option.getD_some, decide_eq_true_eq]
    linarith
  · obtain ⟨hne, hpiece, hrule⟩ := mem_runs hrun
    have hlast := List.getLast_mem hne
    have hhigh := high_above_sellImbalance hpos hbar (hpiece.subset hlast) (hrule _ hlast)
    refine ⟨rfl, ?_⟩
    simp only [resolved, Scan.newZone, Side.scan, sellScan, reduceCtorEq, if_false, streakOf,
      List.getLast?_eq_some_getLast hne, Option.map_some, Option.getD_some, decide_eq_true_eq]
    linarith

/-- What the scans have made of a registry: its own zones, found as before, and
behind them the new ones. -/
structure Grown (bar : BarRecord) (tickSize : Rat) (zones old new : List ImbalanceZone) : Prop where
  length : old.length = zones.length
  found : ∀ (side : Side) streak,
    old.map (side.scan.found streak) = zones.map (side.scan.found streak)
  doomed : ∀ z ∈ new, Doomed bar tickSize z

/-- The registry has an active zone that the streak extends. -/
def Anchored (zones : List ImbalanceZone) (item : Side × Streak) : Prop :=
  ∃ z ∈ zones, item.1.scan.found item.2 z = true

theorem anchored_iff (config : ImbalanceConfig) (ts : Int) (zones : List ImbalanceZone)
    (item : Side × Streak) :
    Anchored zones item ↔ isNew (zoneUpsert config ts) zones item = false := by
  simp [Anchored, isNew, zoneUpsert]

/-- One streak. The registry has new zones then unless it had none and the streak
extends one of its own. -/
theorem grown_build {bar : BarRecord} {tickSize : Rat} (input : ScanInput)
    {zones old new : List ImbalanceZone} (h : Grown bar tickSize zones old new) {s : Stacked}
    (hs : s.zones = old ++ new) {item : Side × Streak}
    (hdoomed : ∀ zoneId, Doomed bar tickSize
      (item.1.scan.newZone input.config item.2 input.barCloseTs zoneId)) :
    ∃ old' new', (buildSided input s item).zones = old' ++ new' ∧ Grown bar tickSize zones old' new' ∧
      (new' = [] ↔ new = [] ∧ Anchored zones item) := by
  have hsame : isNew (zoneUpsert input.config input.barCloseTs) old item =
      isNew (zoneUpsert input.config input.barCloseTs) zones item := by
    have hfound : old.map ((zoneUpsert input.config input.barCloseTs).found item) =
        zones.map ((zoneUpsert input.config input.barCloseTs).found item) := h.found item.1 item.2
    rw [isNew_eq_map, hfound, ← isNew_eq_map]
  rw [anchored_iff input.config input.barCloseTs, ← hsame, buildSided_eq, hs]
  cases hold : isNew (zoneUpsert input.config input.barCloseTs) old item with
  | false =>
    have hnew : isNew (zoneUpsert input.config input.barCloseTs) (old ++ new) item = false := by
      rw [isNew_append, hold, Bool.false_and]
    refine ⟨updateFirst (zoneUpsert input.config input.barCloseTs) item old, new, ?_, ⟨?_, ?_, h.doomed⟩,
      by simp⟩
    · simp [hnew, updateFirst_append, hold]
    · rw [length_updateFirst, h.length]
    · intro side streak
      exact (map_found_updateFirst (u := zoneUpsert input.config input.barCloseTs) item (side, streak)
        old).trans (h.found side streak)
  | true =>
    cases hnew : isNew (zoneUpsert input.config input.barCloseTs) new item with
    | false =>
      have hboth : isNew (zoneUpsert input.config input.barCloseTs) (old ++ new) item = false := by
        rw [isNew_append, hnew, Bool.and_false]
      have hne : new ≠ [] := by
        rintro rfl
        simp [isNew] at hnew
      refine ⟨old, updateFirst (zoneUpsert input.config input.barCloseTs) item new, ?_,
        ⟨h.length, h.found, ?_⟩, ?_⟩
      · simp [hboth, updateFirst_append, hold]
      · exact forall_updateFirst h.doomed fun z hz hfound =>
          doomed_extended item.1 hz hfound input.barCloseTs
      · have hlength := length_updateFirst (u := zoneUpsert input.config input.barCloseTs) item new
        constructor
        · intro hnil
          rw [hnil] at hlength
          exact absurd (List.length_eq_zero_iff.mp hlength.symm) hne
        · simp
    | true =>
      have hboth : isNew (zoneUpsert input.config input.barCloseTs) (old ++ new) item = true := by
        rw [isNew_append, hold, hnew, Bool.and_self]
      refine ⟨old, new ++ [item.1.scan.newZone input.config item.2 input.barCloseTs
        (input.makeZoneId (old ++ new).length)], ?_, ⟨h.length, h.found, ?_⟩, by simp⟩
      · simp [hboth]
      · intro z hz
        rcases List.mem_append.mp hz with hz | hz
        · exact h.doomed z hz
        · rw [List.mem_singleton.mp hz]
          exact hdoomed _

/-- All streaks of a bar. -/
theorem grown_foldl {bar : BarRecord} {tickSize : Rat} (input : ScanInput)
    {zones : List ImbalanceZone} (items : List (Side × Streak))
    (hdoomed : ∀ item ∈ items, ∀ zoneId, Doomed bar tickSize
      (item.1.scan.newZone input.config item.2 input.barCloseTs zoneId))
    {old new : List ImbalanceZone} (h : Grown bar tickSize zones old new) {s : Stacked}
    (hs : s.zones = old ++ new) :
    ∃ old' new', (items.foldl (buildSided input) s).zones = old' ++ new' ∧
      Grown bar tickSize zones old' new' ∧
      (new' = [] ↔ new = [] ∧ ∀ item ∈ items, Anchored zones item) := by
  induction items generalizing s old new with
  | nil => exact ⟨old, new, hs, h, by simp⟩
  | cons item items ih =>
    obtain ⟨old', new', hs', h', hiff⟩ := grown_build input h hs (hdoomed item (by simp))
    obtain ⟨old'', new'', hs'', h'', hiff'⟩ := ih (fun i hi => hdoomed i (by simp [hi])) h' hs'
    refine ⟨old'', new'', hs'', h'', ?_⟩
    rw [hiff', hiff, List.forall_mem_cons, and_assoc]

/-- The zones that a bar creates are active when `detectAll` returns exactly when
the bar creates none: every streak it has extends a zone of the registry. -/
theorem created_zones_active_iff (config : ImbalanceConfig) (hmin : 1 ≤ config.stackedMinCount)
    (makeZoneId : Nat → String) (tickSize : Rat) (hpos : 0 < tickSize) (bar : BarRecord)
    (hbar : GridBar tickSize bar) (activeZones : List ImbalanceZone) :
    ∃ d, detectAll config makeZoneId bar activeZones tickSize = some d ∧
      ((∀ z ∈ d.activeZones.drop activeZones.length, z.isActive = true) ↔
        ∀ item ∈ ruleStreaks config bar tickSize, Anchored activeZones item) := by
  obtain ⟨stacked, absorbed, hstacked, -, hdetect⟩ :=
    detectAll_eq hmin makeZoneId bar activeZones tickSize
  refine ⟨_, hdetect, ?_⟩
  rw [sidedStreaks_flagBar] at hstacked
  have hstart : Grown bar tickSize activeZones activeZones [] := ⟨rfl, fun _ _ => rfl, by simp⟩
  obtain ⟨old, new, hzones, hgrown, hiff⟩ := grown_foldl
    (scanInput config makeZoneId (flagBar config bar tickSize)) (ruleStreaks config bar tickSize)
    (fun item hitem zoneId => doomed_of_ruleStreak hpos hbar hitem _ zoneId) hstart
    (s := ⟨activeZones, []⟩) (by simp)
  rw [← hstacked] at hzones
  simp only [true_and] at hiff
  rw [← hiff]
  have hflag : ∀ z, updateZone (flagBar config bar tickSize) tickSize z = updateZone bar tickSize z :=
    fun _ => rfl
  have hdrop : (updateZoneRegistry stacked.zones (flagBar config bar tickSize) tickSize).drop
      activeZones.length = new.map (updateZone bar tickSize) := by
    rw [updateZoneRegistry, hzones, List.map_append, ← hgrown.length]
    simp [List.drop_left', hflag]
  rw [hdrop]
  constructor
  · intro hactive
    by_contra hne
    obtain ⟨z, hz⟩ := List.exists_mem_of_ne_nil new hne
    have := hactive _ (List.mem_map_of_mem hz)
    rw [not_active_of_doomed (hgrown.doomed z hz)] at this
    cases this
  · rintro rfl
    simp

/-- Four levels a tick apart, of which the upper three outweigh their diagonals. -/
def buyStack : BarRecord :=
  let level (price : Rat) : PriceLevelRecord :=
    { price := price, bidVol := 10, askVol := 30, totalVol := 40, delta := 20 }
  { barSize := ⟨.time, 60⟩, openPrice := 1, high := 4, low := 1, close := 4
    totalVolume := 160, barDelta := 80, priceLevels := [level 1, level 2, level 3, level 4] }

theorem gridBar_buyStack : GridBar 1 buyStack where
  levels := ⟨by decide +kernel, by
    intro lvl hlvl
    refine ⟨lvl.price.num, ?_⟩
    revert lvl
    decide +kernel⟩
  low := ⟨by decide +kernel, by
    rintro p hp
    simp only [buyStack, List.map_cons, List.map_nil, Set.mem_ofPred_eq, List.mem_cons,
      List.not_mem_nil, or_false] at hp ⊢
    rcases hp with rfl | rfl | rfl | rfl <;> norm_num⟩
  high := ⟨by decide +kernel, by
    rintro p hp
    simp only [buyStack, List.map_cons, List.map_nil, Set.mem_ofPred_eq, List.mem_cons,
      List.not_mem_nil, or_false] at hp ⊢
    rcases hp with rfl | rfl | rfl | rfl <;> norm_num⟩

/-- A registry with a zone from the second level up, which the bar extends. -/
theorem created_zones_active_iff_buyStack :
    let zone : ImbalanceZone := ⟨"a", 0, .long, 2, 3, 3, 3, 3, 0, 0, 0, true⟩
    (∀ item ∈ ruleStreaks {} buyStack 1, Anchored [zone] item) ∧
      ∃ d, detectAll {} (fun _ => "b") buyStack [zone] 1 = some d ∧
        ((∀ z ∈ d.activeZones.drop 1, z.isActive = true) ↔
          ∀ item ∈ ruleStreaks {} buyStack 1, Anchored [zone] item) :=
  ⟨by unfold Anchored; decide +kernel,
    created_zones_active_iff {} (by decide) _ 1 (by norm_num) buyStack gridBar_buyStack _⟩

/-- The three levels make a zone, and their own bar resolves it. -/
theorem created_zone_inactive :
    GridBar 1 buyStack ∧
      (detectAll {} (fun _ => "b") buyStack [] 1).map (fun d => d.activeZones.map (·.isActive)) =
        some [false] :=
  ⟨gridBar_buyStack, by decide +kernel⟩

end SessionImbalance
