import OrderFlow.GuardedRuns
import OrderFlow.SessionRoutingKeys

/-!
# Single imbalances and the diagonal formula

The loop over single imbalances looks up the diagonal of a level in the levels it is writing
to. Whatever their order and their flags before, the flags it leaves are those of the
formula, and the flags and signals of the bar follow from the counts.
-/
namespace SessionImbalance

open GuardedRuns SessionTypes TickGrid

/-- The levels flagged by the formula, the number of them, and nothing else touched. -/
structure FollowsDiagonals (ratio tickSize : Rat) (levels : List PriceLevelRecord)
    (s : SingleImbalances) : Prop where
  others : s.levels.map clearFlags = levels.map clearFlags
  buy : ∀ lvl ∈ s.levels, lvl.isBuyImbalance = true ↔
    ∃ below ∈ levels, below.price = lvl.price - tickSize ∧ 0 < below.bidVol ∧ 0 < lvl.askVol ∧
      ratio * below.bidVol ≤ lvl.askVol
  sell : ∀ lvl ∈ s.levels, lvl.isSellImbalance = true ↔
    ∃ above ∈ levels, above.price = lvl.price + tickSize ∧ 0 < above.askVol ∧ 0 < lvl.bidVol ∧
      ratio * above.askVol ≤ lvl.bidVol
  buyCount : s.buyCount = s.levels.countP (·.isBuyImbalance)
  sellCount : s.sellCount = s.levels.countP (·.isSellImbalance)

theorem detectSingleImbalances_follows (config : ImbalanceConfig) {tickSize : Rat}
    (hpos : 0 < tickSize) {levels : List PriceLevelRecord}
    (hlevels : DistinctLevels tickSize levels) :
    FollowsDiagonals config.imbalanceRatio tickSize levels
      (detectSingleImbalances config levels tickSize) := by
  rw [detectSingleImbalances_eq]
  constructor
  case others => simp [Function.comp_def, flagLevel, clearFlags]
  case buy =>
    intro lvl hlvl
    obtain ⟨raw, hraw, rfl⟩ := List.mem_map.mp hlvl
    exact buyImbalance_iff hpos hlevels hraw
  case sell =>
    intro lvl hlvl
    obtain ⟨raw, hraw, rfl⟩ := List.mem_map.mp hlvl
    exact sellImbalance_iff hpos hlevels hraw
  case buyCount => simp [List.countP_map, Function.comp_def, flagLevel]
  case sellCount => simp [List.countP_map, Function.comp_def, flagLevel]

theorem distinctLevels_perm {tickSize : Rat} {levels levels' : List PriceLevelRecord}
    (hperm : levels.Perm levels') (h : DistinctLevels tickSize levels) :
    DistinctLevels tickSize levels' where
  nodup := (hperm.map _).nodup_iff.mp h.nodup
  grid := fun lvl hlvl => h.grid lvl (hperm.mem_iff.mpr hlvl)

theorem flagLevel_perm {config : ImbalanceConfig} {tickSize : Rat} (hpos : 0 < tickSize)
    {levels levels' : List PriceLevelRecord} (hperm : levels.Perm levels')
    (h : DistinctLevels tickSize levels) {lvl : PriceLevelRecord} (hlvl : lvl ∈ levels) :
    flagLevel config levels tickSize lvl = flagLevel config levels' tickSize lvl := by
  have h' := distinctLevels_perm hperm h
  have hlvl' := hperm.mem_iff.mp hlvl
  have hbuy : buyImbalance config levels tickSize lvl = buyImbalance config levels' tickSize lvl := by
    rw [Bool.eq_iff_iff, buyImbalance_iff hpos h hlvl, buyImbalance_iff hpos h' hlvl']
    simp only [hperm.mem_iff]
  have hsell : sellImbalance config levels tickSize lvl =
      sellImbalance config levels' tickSize lvl := by
    rw [Bool.eq_iff_iff, sellImbalance_iff hpos h hlvl, sellImbalance_iff hpos h' hlvl']
    simp only [hperm.mem_iff]
  rw [flagLevel, flagLevel, hbuy, hsell]

/-- The levels in another order give the same flags, in that order. -/
theorem detectSingleImbalances_perm (config : ImbalanceConfig) {tickSize : Rat}
    (hpos : 0 < tickSize) {levels levels' : List PriceLevelRecord}
    (h : DistinctLevels tickSize levels) (hperm : levels.Perm levels') :
    (detectSingleImbalances config levels tickSize).levels.Perm
      (detectSingleImbalances config levels' tickSize).levels := by
  rw [detectSingleImbalances_eq, detectSingleImbalances_eq]
  have hsame : levels.map (flagLevel config levels tickSize) =
      levels.map (flagLevel config levels' tickSize) :=
    List.map_congr_left fun lvl hlvl => flagLevel_perm hpos hperm h hlvl
  rw [hsame]
  exact hperm.map _

def StackedType (e : SignalEvent) : Prop :=
  e.type = .stackedImbalanceBuy ∨ e.type = .stackedImbalanceSell

theorem stackedType_build (side : Side) (input : ScanInput) {s : Stacked} (streak : Streak)
    (h : ∀ e ∈ s.signals, StackedType e) :
    ∀ e ∈ (side.scan.build input s streak).signals, StackedType e := by
  rw [Scan.build]
  split
  · exact h
  · intro e he
    rcases List.mem_append.mp he with he | he
    · exact h e he
    · rw [List.mem_singleton.mp he]
      cases side with
      | buying => exact .inl rfl
      | selling => exact .inr rfl

theorem stackedType_step (side : Side) (input : ScanInput) (s : ScanState) (i : Nat)
    (s' : ScanState) (h : ∀ e ∈ s.stacked.signals, StackedType e)
    (hstep : side.scan.step input s i = some s') : ∀ e ∈ s'.stacked.signals, StackedType e := by
  rw [Scan.step] at hstep
  split at hstep
  · cases hstep
    exact h
  · split at hstep
    · simp only [Option.bind_eq_bind, Option.bind_eq_some_iff] at hstep
      obtain ⟨first, -, last, -, hnext⟩ := hstep
      cases hnext
      exact stackedType_build side input _ h
    · cases hstep
      exact h

/-- Whatever the minimum count, the scans report nothing but stacks. -/
theorem stackedType_run (side : Side) (input : ScanInput) {s s' : Stacked}
    (h : ∀ e ∈ s.signals, StackedType e) (hrun : side.scan.run input s = some s') :
    ∀ e ∈ s'.signals, StackedType e := by
  obtain ⟨last, hlast, rfl⟩ := Option.map_eq_some_iff.mp hrun
  exact inv_of_foldlM (fun t : ScanState => ∀ e ∈ t.stacked.signals, StackedType e)
    (stackedType_step side input) h hlast

theorem stackedType_detectStacked {input : ScanInput} {activeZones : List ImbalanceZone}
    {s : Stacked} (h : detectStacked input activeZones = some s) :
    ∀ e ∈ s.signals, StackedType e := by
  rw [detectStacked, Option.bind_eq_bind, Option.bind_eq_some_iff] at h
  obtain ⟨bought, hbought, hsold⟩ := h
  have hempty : ∀ e ∈ (Stacked.mk activeZones []).signals, StackedType e := fun e he => by cases he
  exact stackedType_run .selling input (stackedType_run .buying input hempty hbought) hsold

/-- The flags of the bar and its signals of single imbalances say whether there are any. -/
structure ReportsSingles (bar : BarRecord) (s : SingleImbalances) (d : Detection) : Prop where
  hasBuy : d.bar.hasBuyImbalance = true ↔ 0 < s.buyCount
  hasSell : d.bar.hasSellImbalance = true ↔ 0 < s.sellCount
  buySignals : d.result.filter (fun e => decide (e.type = .singleImbalanceBuy)) =
    if 0 < s.buyCount then
      [{ makeBaseSignal bar .singleImbalanceBuy .long .moderate with
        metadataJson := .count s.buyCount }]
    else []
  sellSignals : d.result.filter (fun e => decide (e.type = .singleImbalanceSell)) =
    if 0 < s.sellCount then
      [{ makeBaseSignal bar .singleImbalanceSell .short .moderate with
        metadataJson := .count s.sellCount }]
    else []

/-- The signals of one type, between signals of other types. -/
theorem filter_type_eq {before singles after : List SignalEvent} {type : SignalType}
    (hbefore : ∀ e ∈ before, e.type ≠ type) (hsingles : ∀ e ∈ singles, e.type = type)
    (hafter : ∀ e ∈ after, e.type ≠ type) :
    (before ++ singles ++ after).filter (fun e => decide (e.type = type)) = singles := by
  have hall : singles.filter (fun e => decide (e.type = type)) = singles :=
    List.filter_eq_self.mpr fun e he => decide_eq_true (hsingles e he)
  have hnone : ∀ events : List SignalEvent, (∀ e ∈ events, e.type ≠ type) →
      events.filter (fun e => decide (e.type = type)) = [] := fun events h =>
    List.filter_eq_nil_iff.mpr fun e he => by simpa using h e he
  rw [List.filter_append, List.filter_append, hall, hnone _ hbefore, hnone _ hafter,
    List.nil_append, List.append_nil]

theorem singleSignals_eq (bar : BarRecord) (count : Nat) (type : SignalType)
    (direction : SignalDirection) :
    singleSignals bar count type direction =
      if 0 < count then
        [{ makeBaseSignal bar type direction .moderate with metadataJson := .count count }]
      else [] := rfl

theorem detectAll_reportsSingles {config : ImbalanceConfig} {makeZoneId : Nat → String}
    {bar : BarRecord} {activeZones : List ImbalanceZone} {tickSize : Rat} {d : Detection}
    (hbuy : bar.hasBuyImbalance = false) (hsell : bar.hasSellImbalance = false)
    (h : detectAll config makeZoneId bar activeZones tickSize = some d) :
    ReportsSingles bar (detectSingleImbalances config bar.priceLevels tickSize) d := by
  simp only [detectAll, Option.bind_eq_bind, Option.bind_eq_some_iff] at h
  obtain ⟨stacked, hstacked, hd⟩ := h
  have hstacks := stackedType_detectStacked hstacked
  generalize hsingles : detectSingleImbalances config bar.priceLevels tickSize = singles at hd ⊢
  have hothers : ∀ flagged absorbed : BarRecord, ∀ e ∈ stacked.signals ++
      detectAbsorption config flagged ++ detectTrappedTraders absorbed tickSize,
        e.type ≠ .singleImbalanceBuy ∧ e.type ≠ .singleImbalanceSell := by
    intro flagged absorbed e he
    rw [List.mem_append, List.mem_append] at he
    rcases he with (he | he) | he
    · rcases hstacks e he with htype | htype <;> simp [htype]
    · simp [(basedOn_detectAbsorption config flagged e he).type]
    · rcases basedOn_detectTrappedTraders absorbed tickSize e he with hbased | hbased <;>
        simp [hbased.type]
  have hbuys := fun e he =>
    (basedOn_singleSignals bar singles.buyCount .singleImbalanceBuy .long e he).type
  have hsells := fun e he =>
    (basedOn_singleSignals bar singles.sellCount .singleImbalanceSell .short e he).type
  cases hd
  constructor
  case hasBuy => simp [flagBar, hbuy, hsingles]
  case hasSell => simp [flagBar, hsell, hsingles]
  case buySignals =>
    rw [← singleSignals_eq, List.append_assoc, List.append_assoc, List.append_assoc,
      ← List.nil_append (singleSignals bar singles.buyCount _ _)]
    refine filter_type_eq (by simp) hbuys ?_
    intro e he
    rcases List.mem_append.mp he with he | he
    · simp [hsells e he]
    · rw [← List.append_assoc] at he
      exact (hothers _ _ e he).1
  case sellSignals =>
    rw [← singleSignals_eq, List.append_assoc, List.append_assoc]
    refine filter_type_eq (fun e he => by simp [hbuys e he]) hsells ?_
    intro e he
    rw [← List.append_assoc] at he
    exact (hothers _ _ e he).2

/-- Single imbalances follow the diagonal formula. -/
theorem singleImbalances_diagonals (config : ImbalanceConfig) (tickSize : Rat)
    (hpos : 0 < tickSize) (levels : List PriceLevelRecord)
    (hlevels : DistinctLevels tickSize levels) :
    FollowsDiagonals config.imbalanceRatio tickSize levels
        (detectSingleImbalances config levels tickSize) ∧
      (∀ levels', levels.Perm levels' →
        (detectSingleImbalances config levels tickSize).levels.Perm
            (detectSingleImbalances config levels' tickSize).levels ∧
          (detectSingleImbalances config levels' tickSize).buyCount =
            (detectSingleImbalances config levels tickSize).buyCount ∧
          (detectSingleImbalances config levels' tickSize).sellCount =
            (detectSingleImbalances config levels tickSize).sellCount) ∧
      ∀ (makeZoneId : Nat → String) (bar : BarRecord) (activeZones : List ImbalanceZone),
        bar.priceLevels = levels → bar.hasBuyImbalance = false → bar.hasSellImbalance = false →
          (1 ≤ config.stackedMinCount →
            ∃ d, detectAll config makeZoneId bar activeZones tickSize = some d) ∧
          ∀ d, detectAll config makeZoneId bar activeZones tickSize = some d →
            ReportsSingles bar (detectSingleImbalances config levels tickSize) d := by
  have hfollows := detectSingleImbalances_follows config hpos hlevels
  refine ⟨hfollows, ?_, ?_⟩
  · intro levels' hperm
    have hflagged := detectSingleImbalances_perm config hpos hlevels hperm
    have hfollows' := detectSingleImbalances_follows config hpos (distinctLevels_perm hperm hlevels)
    exact ⟨hflagged, by rw [hfollows'.buyCount, hfollows.buyCount, hflagged.countP_eq],
      by rw [hfollows'.sellCount, hfollows.sellCount, hflagged.countP_eq]⟩
  · rintro makeZoneId bar activeZones rfl hbuy hsell
    constructor
    · intro hmin
      obtain ⟨_, _, -, -, hdetect⟩ := detectAll_eq hmin makeZoneId bar activeZones tickSize
      exact ⟨_, hdetect⟩
    · intro d hd
      exact detectAll_reportsSingles hbuy hsell hd

/-- Four levels, three of which outweigh the one below. -/
theorem singleImbalances_diagonals_buyStack :
    FollowsDiagonals 3 1 buyStack.priceLevels (detectSingleImbalances {} buyStack.priceLevels 1) ∧
      ∃ d, detectAll {} (fun _ => "a") buyStack [] 1 = some d ∧
        ReportsSingles buyStack (detectSingleImbalances {} buyStack.priceLevels 1) d := by
  obtain ⟨hfollows, -, hbars⟩ := singleImbalances_diagonals {} 1 (by norm_num) buyStack.priceLevels
    gridBar_buyStack.levels.distinct
  obtain ⟨hreturns, hreports⟩ := hbars (fun _ => "a") buyStack [] rfl rfl rfl
  obtain ⟨d, hd⟩ := hreturns (by decide)
  exact ⟨hfollows, d, hd, hreports d hd⟩

end SessionImbalance
