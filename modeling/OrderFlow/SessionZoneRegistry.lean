import OrderFlow.SessionImbalanceLoops
import OrderFlow.Upserts

/-!
# The zone registry as a list that streaks are put into

A streak is put into the registry of zones as an item into a list of records: it
updates the first active zone of its side with its anchor, or makes a new zone.
No update touches what a zone is found by.
-/
namespace SessionImbalance

open MaximalRuns SessionTypes TickGrid Upserts

theorem found_iff {scan : Scan} {streak : Streak} {z : ImbalanceZone} :
    scan.found streak z = true ↔ z.direction = scan.direction ∧ z.isActive = true ∧
      |scan.anchor z - scan.anchorPrice streak.zoneLow streak.zoneHigh| < 1 / 1000000 := by
  simp only [Scan.found, Bool.and_eq_true, decide_eq_true_eq, and_assoc]

/-- An extension leaves a zone to be found by the same streaks, of either side. -/
theorem found_extended (side side' : Side) {streak streak' : Streak} {z : ImbalanceZone}
    (h : side.scan.found streak z = true) (ts : Int) :
    side'.scan.found streak' (side.scan.extended streak ts z) = side'.scan.found streak' z := by
  obtain ⟨hdirection, -⟩ := found_iff.mp h
  cases side <;> cases side' <;>
    simp [Side.scan, Scan.found, Scan.extended, buyScan, sellScan] at hdirection ⊢ <;>
    simp [hdirection]

theorem found_newZone (side : Side) (streak : Streak) (config : ImbalanceConfig) (ts : Int)
    (zoneId : String) :
    side.scan.found streak (side.scan.newZone config streak ts zoneId) = true := by
  cases side <;> simp [Side.scan, Scan.found, Scan.newZone, buyScan, sellScan]

/-- New zones without their ids. -/
def zoneUpsert (config : ImbalanceConfig) (ts : Int) : Upsert ImbalanceZone (Side × Streak) where
  found item z := item.1.scan.found item.2 z
  update item z := item.1.scan.extended item.2 ts z
  create item := item.1.scan.newZone config item.2 ts ""
  found_update _ _ _ h := found_extended _ _ h ts
  found_create item := found_newZone item.1 item.2 config ts ""

/-- What one streak does to the registry. -/
theorem buildSided_eq (input : ScanInput) (s : Stacked) (item : Side × Streak) :
    buildSided input s item =
      if isNew (zoneUpsert input.config input.barCloseTs) s.zones item then
        { zones := s.zones ++ [item.1.scan.newZone input.config item.2 input.barCloseTs
            (input.makeZoneId s.zones.length)]
          signals := s.signals ++ [item.1.scan.newSignal item.2 input.barId input.barCloseTs
            (item.1.scan.newZone input.config item.2 input.barCloseTs
              (input.makeZoneId s.zones.length))] }
      else
        { s with zones := updateFirst (zoneUpsert input.config input.barCloseTs) item s.zones } := by
  cases hfind : s.zones.findIdx? (item.1.scan.found item.2) with
  | some i =>
    obtain ⟨hnew, hmodify⟩ := modify_findIdx? (u := zoneUpsert input.config input.barCloseTs) item
      s.zones hfind
    rw [hnew, ← hmodify]
    simp only [buildSided, Scan.build, hfind, Bool.false_eq_true, if_false, zoneUpsert]
  | none =>
    have hnew : isNew (zoneUpsert input.config input.barCloseTs) s.zones item = true := by
      rw [isNew, List.all_eq_true]
      intro z hz
      simp [zoneUpsert, List.findIdx?_eq_none_iff.mp hfind z hz]
    rw [hnew]
    simp only [buildSided, Scan.build, hfind, if_true]

/-- The scans put streak after streak into the registry. -/
theorem puts_buildSided (input : ScanInput) :
    Puts (zoneUpsert input.config input.barCloseTs) Stacked.zones (buildSided input) := by
  intro s item
  rw [buildSided_eq]
  split
  · exact ⟨_, rfl⟩
  · rfl

theorem anchorPrice_mem (side : Side) {run : List PriceLevelRecord} (hne : run ≠ []) :
    ∃ lvl ∈ run,
      side.scan.anchorPrice (streakOf run).zoneLow (streakOf run).zoneHigh = lvl.price := by
  cases side
  · exact ⟨_, List.head_mem hne, by simp [Side.scan, buyScan, streakOf, List.head?_eq_some_head hne]⟩
  · exact ⟨_, List.getLast_mem hne,
      by simp [Side.scan, sellScan, streakOf, List.getLast?_eq_some_getLast hne]⟩

/-- Two runs of the same scan are anchored two steps apart. -/
theorem anchors_apart (side : Side) {tickSize : Rat} (hpos : 0 < tickSize)
    {levels : List PriceLevelRecord} (h : GridLevels tickSize levels) :
    (runs side.scan.flag levels).Pairwise fun run run' =>
      side.scan.anchorPrice (streakOf run).zoneLow (streakOf run).zoneHigh + 2 * tickSize ≤
        side.scan.anchorPrice (streakOf run').zoneLow (streakOf run').zoneHigh := by
  refine (runs_separated h.ascending).imp_of_mem ?_
  rintro run run' hrun hrun' ⟨between, hbetween, hbelow, habove⟩
  obtain ⟨hne, hpiece, -⟩ := mem_runs hrun
  obtain ⟨hne', hpiece', -⟩ := mem_runs hrun'
  obtain ⟨lvl, hlvl, hanchor⟩ := anchorPrice_mem side hne
  obtain ⟨lvl', hlvl', hanchor'⟩ := anchorPrice_mem side hne'
  have hlow := add_tick_le hpos (h.grid lvl (hpiece.subset hlvl)) (h.grid between hbetween)
    (hbelow lvl hlvl)
  have hhigh := add_tick_le hpos (h.grid between hbetween) (h.grid lvl' (hpiece'.subset hlvl'))
    (habove lvl' hlvl')
  rw [hanchor, hanchor']
  linarith

theorem streaks_apart (side : Side) (config : ImbalanceConfig) (ts : Int) (minCount : Int)
    {tickSize : Rat} (htick : 1 / 1000000 ≤ tickSize) {levels : List PriceLevelRecord}
    (h : GridLevels tickSize levels) :
    ((side.scan.streaks minCount levels).map (Prod.mk side)).Pairwise
      (Apart (zoneUpsert config ts)) := by
  have hpos : 0 < tickSize := lt_of_lt_of_le (by norm_num) htick
  rw [Scan.streaks, List.map_map, List.pairwise_map]
  refine ((anchors_apart side hpos h).filter _).imp ?_
  rintro run run' hanchors z ⟨hfound, hfound'⟩
  obtain ⟨-, -, hnear⟩ := found_iff.mp hfound
  obtain ⟨-, -, hnear'⟩ := found_iff.mp hfound'
  have habove := (abs_lt.mp hnear).2
  have hbelow := (abs_lt.mp hnear').1
  simp only [Function.comp_apply] at habove hbelow
  linarith

theorem sidedStreaks_apart (config : ImbalanceConfig) (ts : Int) (minCount : Int) {tickSize : Rat}
    (htick : 1 / 1000000 ≤ tickSize) {levels : List PriceLevelRecord}
    (h : GridLevels tickSize levels) :
    (sidedStreaks minCount levels).Pairwise (Apart (zoneUpsert config ts)) := by
  rw [sidedStreaks, List.pairwise_append]
  refine ⟨streaks_apart .buying config ts minCount htick h,
    streaks_apart .selling config ts minCount htick h, ?_⟩
  rintro item hitem item' hitem' z ⟨hfound, hfound'⟩
  obtain ⟨streak, -, rfl⟩ := List.mem_map.mp hitem
  obtain ⟨streak', -, rfl⟩ := List.mem_map.mp hitem'
  -- A zone has one direction.
  have hlong : z.direction = .long := (found_iff.mp hfound).1
  have hshort : z.direction = .short := (found_iff.mp hfound').1
  rw [hlong] at hshort
  cases hshort

end SessionImbalance
