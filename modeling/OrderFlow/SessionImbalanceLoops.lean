import Mathlib.Data.List.Nodup
import OrderFlow.MaximalRuns
import OrderFlow.SessionImbalance
import OrderFlow.TickGrid

/-!
# What the loops of the detector compute

The loop over single imbalances flags every level by the volumes alone, whatever
flags it finds. With a positive minimum count the scans read no index out of
range, and build one zone after another from the maximal runs that are long
enough.
-/
namespace SessionImbalance

open MaximalRuns SessionTypes TickGrid

structure GridLevels (tickSize : Rat) (levels : List PriceLevelRecord) : Prop where
  ascending : levels.Pairwise fun a b => a.price < b.price
  grid : ∀ lvl ∈ levels, OnGrid tickSize lvl.price

/-- Levels at different prices of the grid, in any order. -/
structure DistinctLevels (tickSize : Rat) (levels : List PriceLevelRecord) : Prop where
  nodup : (levels.map (·.price)).Nodup
  grid : ∀ lvl ∈ levels, OnGrid tickSize lvl.price

theorem GridLevels.distinct {tickSize : Rat} {levels : List PriceLevelRecord}
    (h : GridLevels tickSize levels) : DistinctLevels tickSize levels :=
  ⟨List.pairwise_map.mpr (h.ascending.imp ne_of_lt), h.grid⟩

/-- On the grid only one level is near a price: the one at it. -/
theorem price_of_near {tickSize : Rat} (hpos : 0 < tickSize) {levels : List PriceLevelRecord}
    (h : DistinctLevels tickSize levels) {price : Rat} (hprice : OnGrid tickSize price)
    {lvl : PriceLevelRecord} (hlvl : lvl ∈ levels) (hnear : |lvl.price - price| < tickSize * (1 / 100)) :
    lvl.price = price :=
  (abs_sub_lt_iff hpos (by linarith) (by linarith) (h.grid lvl hlvl) hprice).mp hnear

theorem eq_of_price_eq {tickSize : Rat} {levels : List PriceLevelRecord}
    (h : DistinctLevels tickSize levels) {lvl lvl' : PriceLevelRecord} (hlvl : lvl ∈ levels)
    (hlvl' : lvl' ∈ levels) (hprice : lvl.price = lvl'.price) : lvl = lvl' :=
  List.inj_on_of_nodup_map h.nodup hlvl hlvl' hprice

/-- A lookup by tolerance is one by price. -/
theorem findLevel_eq_some_iff {tickSize : Rat} (hpos : 0 < tickSize)
    {levels : List PriceLevelRecord} (h : DistinctLevels tickSize levels) {price : Rat}
    (hprice : OnGrid tickSize price) {lvl : PriceLevelRecord} :
    findLevel levels price tickSize = some lvl ↔ lvl ∈ levels ∧ lvl.price = price := by
  have hfound : ∀ {lvl : PriceLevelRecord}, findLevel levels price tickSize = some lvl →
      lvl ∈ levels ∧ lvl.price = price := by
    intro lvl hfind
    have hmem := List.mem_of_find?_eq_some hfind
    have hnear : |lvl.price - price| < tickSize * (1 / 100) := by simpa using List.find?_some hfind
    exact ⟨hmem, price_of_near hpos h hprice hmem hnear⟩
  refine ⟨hfound, ?_⟩
  rintro ⟨hmem, heq⟩
  cases hfind : findLevel levels price tickSize with
  | none =>
    have hfar := List.find?_eq_none.mp hfind lvl hmem
    simp [heq, hpos] at hfar
  | some lvl' =>
    obtain ⟨hmem', heq'⟩ := hfound hfind
    rw [eq_of_price_eq h hmem' hmem (heq'.trans heq.symm)]

theorem outweighs_iff {ratio : Rat} {own diagonal : Int} :
    outweighs ratio own diagonal = true ↔ 0 < diagonal ∧ 0 < own ∧ ratio * diagonal ≤ own := by
  simp [outweighs, and_assoc]

/-- A buying imbalance is one against the level one tick below. -/
theorem buyImbalance_iff {tickSize : Rat} (hpos : 0 < tickSize) {levels : List PriceLevelRecord}
    (h : DistinctLevels tickSize levels) {config : ImbalanceConfig} {lvl : PriceLevelRecord}
    (hlvl : lvl ∈ levels) :
    buyImbalance config levels tickSize lvl = true ↔
      ∃ below ∈ levels, below.price = lvl.price - tickSize ∧ 0 < below.bidVol ∧ 0 < lvl.askVol ∧
        config.imbalanceRatio * below.bidVol ≤ lvl.askVol := by
  have hfind : ∀ below, findLevel levels (lvl.price - tickSize) tickSize = some below ↔
      below ∈ levels ∧ below.price = lvl.price - tickSize := fun below =>
    findLevel_eq_some_iff hpos h (onGrid_sub (h.grid lvl hlvl) (onGrid_tick tickSize))
  rw [buyImbalance]
  constructor
  · intro hflag
    split at hflag
    · rename_i below hbelow
      obtain ⟨hmem, hprice⟩ := (hfind below).mp hbelow
      exact ⟨below, hmem, hprice, outweighs_iff.mp hflag⟩
    · cases hflag
  · rintro ⟨below, hmem, hprice, hvol⟩
    rw [(hfind below).mpr ⟨hmem, hprice⟩]
    exact outweighs_iff.mpr hvol

theorem sellImbalance_iff {tickSize : Rat} (hpos : 0 < tickSize) {levels : List PriceLevelRecord}
    (h : DistinctLevels tickSize levels) {config : ImbalanceConfig} {lvl : PriceLevelRecord}
    (hlvl : lvl ∈ levels) :
    sellImbalance config levels tickSize lvl = true ↔
      ∃ above ∈ levels, above.price = lvl.price + tickSize ∧ 0 < above.askVol ∧ 0 < lvl.bidVol ∧
        config.imbalanceRatio * above.askVol ≤ lvl.bidVol := by
  have hfind : ∀ above, findLevel levels (lvl.price + tickSize) tickSize = some above ↔
      above ∈ levels ∧ above.price = lvl.price + tickSize := fun above =>
    findLevel_eq_some_iff hpos h (onGrid_add (h.grid lvl hlvl) (onGrid_tick tickSize))
  rw [sellImbalance]
  constructor
  · intro hflag
    split at hflag
    · rename_i above habove
      obtain ⟨hmem, hprice⟩ := (hfind above).mp habove
      exact ⟨above, hmem, hprice, outweighs_iff.mp hflag⟩
    · cases hflag
  · rintro ⟨above, hmem, hprice, hvol⟩
    rw [(hfind above).mpr ⟨hmem, hprice⟩]
    exact outweighs_iff.mpr hvol

theorem exists_below {tickSize : Rat} (hpos : 0 < tickSize) {levels : List PriceLevelRecord}
    (h : GridLevels tickSize levels) {config : ImbalanceConfig} {lvl : PriceLevelRecord}
    (hlvl : lvl ∈ levels) (hflag : buyImbalance config levels tickSize lvl = true) :
    ∃ below ∈ levels, below.price = lvl.price - tickSize := by
  obtain ⟨below, hmem, hprice, -⟩ := (buyImbalance_iff hpos h.distinct hlvl).mp hflag
  exact ⟨below, hmem, hprice⟩

theorem exists_above {tickSize : Rat} (hpos : 0 < tickSize) {levels : List PriceLevelRecord}
    (h : GridLevels tickSize levels) {config : ImbalanceConfig} {lvl : PriceLevelRecord}
    (hlvl : lvl ∈ levels) (hflag : sellImbalance config levels tickSize lvl = true) :
    ∃ above ∈ levels, above.price = lvl.price + tickSize := by
  obtain ⟨above, hmem, hprice, -⟩ := (sellImbalance_iff hpos h.distinct hlvl).mp hflag
  exact ⟨above, hmem, hprice⟩

def clearFlags (lvl : PriceLevelRecord) : PriceLevelRecord :=
  { lvl with isBuyImbalance := false, isSellImbalance := false }

/-- A level flagged by the volumes of the bar it belongs to. -/
def flagLevel (config : ImbalanceConfig) (levels : List PriceLevelRecord) (tickSize : Rat)
    (lvl : PriceLevelRecord) : PriceLevelRecord :=
  { lvl with
    isBuyImbalance := buyImbalance config levels tickSize lvl
    isSellImbalance := sellImbalance config levels tickSize lvl }

theorem gridLevels_flagLevel {tickSize : Rat} {levels : List PriceLevelRecord}
    (h : GridLevels tickSize levels) (config : ImbalanceConfig) :
    GridLevels tickSize (levels.map (flagLevel config levels tickSize)) where
  ascending := List.pairwise_map.mpr h.ascending
  grid := by
    intro lvl hlvl
    obtain ⟨lvl', hlvl', rfl⟩ := List.mem_map.mp hlvl
    exact h.grid lvl' hlvl'

theorem findLevel_clearFlags (levels : List PriceLevelRecord) (price tickSize : Rat) :
    findLevel (levels.map clearFlags) price tickSize =
      (findLevel levels price tickSize).map clearFlags := by
  simp only [findLevel, List.find?_map]
  rfl

theorem buyImbalance_clearFlags (config : ImbalanceConfig) (levels : List PriceLevelRecord)
    (tickSize : Rat) (lvl : PriceLevelRecord) :
    buyImbalance config (levels.map clearFlags) tickSize lvl =
      buyImbalance config levels tickSize lvl := by
  rw [buyImbalance, buyImbalance, findLevel_clearFlags]
  cases findLevel levels (lvl.price - tickSize) tickSize <;> rfl

theorem sellImbalance_clearFlags (config : ImbalanceConfig) (levels : List PriceLevelRecord)
    (tickSize : Rat) (lvl : PriceLevelRecord) :
    sellImbalance config (levels.map clearFlags) tickSize lvl =
      sellImbalance config levels tickSize lvl := by
  rw [sellImbalance, sellImbalance, findLevel_clearFlags]
  cases findLevel levels (lvl.price + tickSize) tickSize <;> rfl

/-- Levels that differ in their flags alone are flagged alike. -/
theorem flagLevel_congr {levels levels' : List PriceLevelRecord}
    (h : levels.map clearFlags = levels'.map clearFlags) (config : ImbalanceConfig) (tickSize : Rat)
    (lvl : PriceLevelRecord) :
    flagLevel config levels tickSize lvl = flagLevel config levels' tickSize lvl := by
  rw [flagLevel, flagLevel, ← buyImbalance_clearFlags, ← sellImbalance_clearFlags, h,
    buyImbalance_clearFlags, sellImbalance_clearFlags]

/-- One pass, with the levels before the index already flagged. -/
theorem detectSingleStep_eq (config : ImbalanceConfig) (tickSize : Rat)
    (levels before after : List PriceLevelRecord) (lvl : PriceLevelRecord)
    (hlevels : levels = before ++ lvl :: after) (buyCount sellCount : Nat) :
    detectSingleStep config tickSize
      ⟨before.map (flagLevel config levels tickSize) ++ lvl :: after, buyCount, sellCount⟩
      before.length =
      ⟨(before ++ [lvl]).map (flagLevel config levels tickSize) ++ after,
        buyCount + (buyImbalance config levels tickSize lvl).toNat,
        sellCount + (sellImbalance config levels tickSize lvl).toNat⟩ := by
  have hset : ∀ x y : PriceLevelRecord,
      (before.map (flagLevel config levels tickSize) ++ x :: after).set before.length y =
        before.map (flagLevel config levels tickSize) ++ y :: after := by
    intro x y
    have hlength : before.length = (before.map (flagLevel config levels tickSize)).length := by simp
    rw [hlength, List.set_append_right _ _ (Nat.le_refl _), Nat.sub_self, List.set_cons_zero]
  have hget : (before.map (flagLevel config levels tickSize) ++ lvl :: after)[before.length]? =
      some lvl := by
    have hlength : before.length = (before.map (flagLevel config levels tickSize)).length := by simp
    rw [hlength, List.getElem?_append_right (Nat.le_refl _), Nat.sub_self, List.getElem?_cons_zero]
  have hsame : (before.map (flagLevel config levels tickSize) ++ clearFlags lvl :: after).map
      clearFlags = levels.map clearFlags := by
    rw [hlevels, List.map_append, List.map_append, List.map_map]
    rfl
  have hflag := flagLevel_congr hsame config tickSize (clearFlags lvl)
  have hclear : flagLevel config levels tickSize (clearFlags lvl) =
      flagLevel config levels tickSize lvl := rfl
  have hbuy := congrArg (·.isBuyImbalance) (hflag.trans hclear)
  have hsell := congrArg (·.isSellImbalance) (hflag.trans hclear)
  simp only [flagLevel] at hbuy hsell
  simp only [detectSingleStep, hget, hset]
  simp only [clearFlags] at hbuy hsell
  simp only [hbuy, hsell, List.map_append, List.map_cons, List.map_nil, List.append_assoc,
    List.singleton_append, flagLevel]

/-- The loop over single imbalances. -/
theorem detectSingleImbalances_eq (config : ImbalanceConfig) (levels : List PriceLevelRecord)
    (tickSize : Rat) :
    detectSingleImbalances config levels tickSize =
      ⟨levels.map (flagLevel config levels tickSize),
        levels.countP (buyImbalance config levels tickSize),
        levels.countP (sellImbalance config levels tickSize)⟩ := by
  have hfront : ∀ before after, levels = before ++ after →
      (List.range before.length).foldl (detectSingleStep config tickSize) ⟨levels, 0, 0⟩ =
        ⟨before.map (flagLevel config levels tickSize) ++ after,
          before.countP (buyImbalance config levels tickSize),
          before.countP (sellImbalance config levels tickSize)⟩ := by
    intro before
    induction before using List.reverseRecOn with
    | nil =>
      rintro after rfl
      simp
    | append_singleton before lvl ih =>
      intro after hlevels
      rw [List.append_assoc, List.singleton_append] at hlevels
      rw [List.length_append, List.length_singleton, List.range_succ, List.foldl_append,
        ih _ hlevels, List.foldl_cons, List.foldl_nil,
        detectSingleStep_eq config tickSize levels before after lvl hlevels]
      simp only [List.countP_append, List.countP_singleton]
      cases buyImbalance config levels tickSize lvl <;>
        cases sellImbalance config levels tickSize lvl <;> rfl
  have hall := hfront levels [] (by simp)
  rw [List.append_nil] at hall
  exact hall

/-- The streak that a run of levels is reported as. -/
def streakOf (run : List PriceLevelRecord) : Streak :=
  ⟨(run.head?.map (·.price)).getD 0, (run.getLast?.map (·.price)).getD 0, run.length⟩

/-- The streaks that are long enough, from left to right. -/
def Scan.streaks (scan : Scan) (minCount : Int) (levels : List PriceLevelRecord) : List Streak :=
  ((runs scan.flag levels).filter fun run => decide (minCount ≤ run.length)).map streakOf

theorem getElem?_behind {input : ScanInput} {before streak rest : List PriceLevelRecord}
    (hlevels : input.levels = before ++ streak ++ rest) :
    input.levels[before.length + streak.length]? = rest.head? := by
  rw [hlevels, ← List.length_append, List.getElem?_append_right (Nat.le_refl _), Nat.sub_self,
    List.head?_eq_getElem?]

theorem levelAt_first {input : ScanInput} {before streak rest : List PriceLevelRecord}
    (hlevels : input.levels = before ++ streak ++ rest) (hne : streak ≠ []) :
    levelAt input.levels (before.length : Nat) = some (streak.head hne) := by
  have hnonneg : ¬ ((before.length : Nat) : Int) < 0 := by omega
  rw [levelAt, if_neg hnonneg, Int.toNat_natCast, hlevels, List.append_assoc,
    List.getElem?_append_right (Nat.le_refl _), Nat.sub_self, ← List.head?_eq_getElem?,
    List.head?_append_of_ne_nil _ hne, List.head?_eq_some_head hne]

theorem levelAt_last {input : ScanInput} {before streak rest : List PriceLevelRecord}
    (hlevels : input.levels = before ++ streak ++ rest) (hne : streak ≠ []) :
    levelAt input.levels (((before.length + streak.length : Nat) : Int) - 1) =
      some (streak.getLast hne) := by
  have hpos := List.length_pos_iff.mpr hne
  have hindex : (((before.length + streak.length : Nat) : Int) - 1).toNat =
      before.length + (streak.length - 1) := by omega
  have hnonneg : ¬ (((before.length + streak.length : Nat) : Int) - 1) < 0 := by omega
  rw [levelAt, if_neg hnonneg, hindex, hlevels, List.append_assoc,
    List.getElem?_append_right (Nat.le_add_right _ _), Nat.add_sub_cancel_left,
    List.getElem?_append_left (by omega), ← List.getLast?_eq_getElem?, List.getLast?_eq_some_getLast hne]

/-- What the streaks of some runs do to the registry. -/
def Scan.buildAll (scan : Scan) (input : ScanInput) (stacked : Stacked)
    (found : List (List PriceLevelRecord)) : Stacked :=
  ((found.filter fun run => decide (input.config.stackedMinCount ≤ run.length)).map streakOf).foldl
    (scan.build input) stacked

theorem buildAll_append (scan : Scan) (input : ScanInput) (stacked : Stacked)
    (found found' : List (List PriceLevelRecord)) :
    scan.buildAll input stacked (found ++ found') =
      scan.buildAll input (scan.buildAll input stacked found) found' := by
  simp [Scan.buildAll]

/-- A pass at a level that is not flagged, or one past the end. -/
theorem step_end (scan : Scan) {input : ScanInput} (hmin : 1 ≤ input.config.stackedMinCount)
    {before streak rest : List PriceLevelRecord} (hlevels : input.levels = before ++ streak ++ rest)
    (hend : (rest.head?.map scan.flag).getD false = false) {startIdx : Nat}
    (hstart : streak ≠ [] → startIdx = before.length) (stacked : Stacked) :
    scan.step input ⟨streak.length, startIdx, stacked⟩ (before.length + streak.length) =
      some ⟨0, startIdx, scan.buildAll input stacked (emit streak)⟩ := by
  have hflag : ((input.levels[before.length + streak.length]?.map scan.flag).getD false) = false := by
    rw [getElem?_behind hlevels]
    exact hend
  rw [Scan.step, hflag]
  simp only [Bool.false_eq_true, if_false]
  by_cases hlong : (streak.length : Int) ≥ input.config.stackedMinCount
  · have hne : streak ≠ [] := by
      rintro rfl
      simp only [List.length_nil, Int.natCast_zero] at hlong
      omega
    have hstreak : streakOf streak =
        ⟨(streak.head hne).price, (streak.getLast hne).price, streak.length⟩ := by
      simp [streakOf, List.head?_eq_some_head hne, List.getLast?_eq_some_getLast hne]
    rw [if_pos hlong, hstart hne, levelAt_first hlevels hne, levelAt_last hlevels hne,
      emit_of_ne_nil hne]
    simp [Scan.buildAll, hstreak, ge_iff_le.mp hlong]
  · have hshort : ((emit streak).filter fun run =>
        decide (input.config.stackedMinCount ≤ run.length)) = [] := by
      rw [List.filter_eq_nil_iff]
      intro run hrun
      obtain ⟨-, rfl⟩ := mem_emit.mp hrun
      simpa using hlong
    rw [if_neg hlong, Scan.buildAll, hshort]
    rfl

/-- The scan from an index on, with a streak open in front of it. -/
theorem scan_from (scan : Scan) {input : ScanInput} (hmin : 1 ≤ input.config.stackedMinCount)
    (before streak rest : List PriceLevelRecord) (hlevels : input.levels = before ++ streak ++ rest)
    (startIdx : Nat) (hstart : streak ≠ [] → startIdx = before.length) (stacked : Stacked) :
    ((List.range' (before.length + streak.length) (rest.length + 1)).foldlM (scan.step input)
      ⟨streak.length, startIdx, stacked⟩).map (·.stacked) =
      some (scan.buildAll input stacked (runsFrom scan.flag streak rest)) := by
  induction rest generalizing before streak startIdx stacked with
  | nil =>
    have hstep := step_end scan hmin hlevels rfl hstart stacked
    simp [List.range'_succ, hstep, runsFrom]
  | cons lvl rest ih =>
    rw [List.length_cons, List.range'_succ, List.foldlM_cons]
    by_cases hflag : scan.flag lvl = true
    · have hjoined : input.levels = before ++ (streak ++ [lvl]) ++ rest := by
        simpa using hlevels
      have hstep : scan.step input ⟨streak.length, startIdx, stacked⟩
          (before.length + streak.length) =
          some ⟨(streak ++ [lvl]).length,
            if streak.length = 0 then before.length + streak.length else startIdx, stacked⟩ := by
        rw [Scan.step, getElem?_behind hlevels]
        simp [hflag]
      have hstart' : (streak ++ [lvl] : List PriceLevelRecord) ≠ [] →
          (if streak.length = 0 then before.length + streak.length else startIdx) = before.length := by
        intro _
        split
        · omega
        · rename_i hne
          exact hstart fun hnil => hne (by rw [hnil, List.length_nil])
      have hrest := ih before (streak ++ [lvl]) hjoined _ hstart' stacked
      rw [List.length_append, List.length_singleton, ← Nat.add_assoc] at hrest
      rw [hstep, runsFrom, if_pos hflag, List.length_append, List.length_singleton]
      exact hrest
    · have hend : (((lvl :: rest).head?).map scan.flag).getD false = false := by
        simpa using hflag
      have hstep := step_end scan hmin hlevels hend hstart stacked
      have hnext : input.levels = (before ++ streak ++ [lvl]) ++ [] ++ rest := by
        simpa using hlevels
      have hrest := ih (before ++ streak ++ [lvl]) [] hnext startIdx (fun h => absurd rfl h)
        (scan.buildAll input stacked (emit streak))
      have hlength : (before ++ streak ++ [lvl]).length + ([] : List PriceLevelRecord).length =
          before.length + streak.length + 1 := by
        simp only [List.length_append, List.length_singleton, List.length_nil, Nat.add_zero]
      rw [hlength] at hrest
      rw [hstep, runsFrom, if_neg hflag, buildAll_append]
      exact hrest

/-- With a positive minimum count a scan stays in range, and builds zone after zone
from the runs that are long enough. -/
theorem run_eq {scan : Scan} {input : ScanInput} (hmin : 1 ≤ input.config.stackedMinCount)
    (stacked : Stacked) :
    scan.run input stacked = some ((scan.streaks input.config.stackedMinCount input.levels).foldl
      (scan.build input) stacked) := by
  have hscan := scan_from scan hmin [] [] input.levels rfl 0 (fun h => absurd rfl h) stacked
  rw [List.length_nil, Nat.add_zero, ← List.range_eq_range'] at hscan
  exact hscan

/-- The scan that a streak comes from. -/
inductive Side where
  | buying | selling
  deriving DecidableEq, Repr

def Side.scan : Side → Scan
  | .buying => buyScan
  | .selling => sellScan

/-- The streaks of a bar, in the order in which they are built on. -/
def sidedStreaks (minCount : Int) (levels : List PriceLevelRecord) : List (Side × Streak) :=
  (buyScan.streaks minCount levels).map (fun streak => (.buying, streak)) ++
    (sellScan.streaks minCount levels).map fun streak => (.selling, streak)

def buildSided (input : ScanInput) (s : Stacked) (item : Side × Streak) : Stacked :=
  item.1.scan.build input s item.2

/-- Both scans, the one for buying first. -/
theorem detectStacked_eq (input : ScanInput) (hmin : 1 ≤ input.config.stackedMinCount)
    (activeZones : List ImbalanceZone) :
    detectStacked input activeZones =
      some ((sidedStreaks input.config.stackedMinCount input.levels).foldl (buildSided input)
        ⟨activeZones, []⟩) := by
  rw [detectStacked, run_eq hmin, sidedStreaks, List.foldl_append, List.foldl_map, List.foldl_map]
  exact run_eq hmin _

/-- With a positive minimum count every bar is processed to the end. -/
theorem detectAll_eq {config : ImbalanceConfig} (hmin : 1 ≤ config.stackedMinCount)
    (makeZoneId : Nat → String) (bar : BarRecord) (activeZones : List ImbalanceZone)
    (tickSize : Rat) :
    ∃ stacked absorbed,
      stacked = (sidedStreaks config.stackedMinCount (flagBar config bar tickSize).priceLevels).foldl
        (buildSided (scanInput config makeZoneId (flagBar config bar tickSize))) ⟨activeZones, []⟩ ∧
      absorbed = { flagBar config bar tickSize with
        hasAbsorption := (flagBar config bar tickSize).hasAbsorption ||
          decide (detectAbsorption config (flagBar config bar tickSize) ≠ []) } ∧
      detectAll config makeZoneId bar activeZones tickSize = some
        { bar := absorbed
          activeZones := updateZoneRegistry stacked.zones (flagBar config bar tickSize) tickSize
          result :=
            singleSignals bar (bar.priceLevels.countP (buyImbalance config bar.priceLevels tickSize))
              .singleImbalanceBuy .long ++
            singleSignals bar (bar.priceLevels.countP (sellImbalance config bar.priceLevels tickSize))
              .singleImbalanceSell .short ++
            stacked.signals ++ detectAbsorption config (flagBar config bar tickSize) ++
            detectTrappedTraders absorbed tickSize } := by
  refine ⟨_, _, rfl, rfl, ?_⟩
  rw [detectAll, detectStacked_eq (scanInput config makeZoneId (flagBar config bar tickSize)) hmin,
    detectSingleImbalances_eq]
  rfl

/-- The streaks read off the levels of a bar before they are flagged. -/
theorem streaks_flagLevel (scan : Scan) (minCount : Int) (levels : List PriceLevelRecord)
    (flag : PriceLevelRecord → PriceLevelRecord) (hprice : ∀ lvl, (flag lvl).price = lvl.price) :
    scan.streaks minCount (levels.map flag) =
      ((runs (scan.flag ∘ flag) levels).filter fun run => decide (minCount ≤ run.length)).map
        streakOf := by
  have hstreak : ∀ run : List PriceLevelRecord, streakOf (run.map flag) = streakOf run := by
    intro run
    simp only [streakOf, List.head?_map, List.getLast?_map, Option.map_map, List.length_map,
      Function.comp_def, hprice]
  rw [Scan.streaks, runs_map, List.filter_map, List.map_map]
  simp only [Function.comp_def, hstreak, List.length_map]

end SessionImbalance
