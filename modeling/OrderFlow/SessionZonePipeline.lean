import OrderFlow.SessionStackedRuns
import OrderFlow.SessionZones

/-!
# Bar after bar on one registry

`detectAll` scans a bar and then shows it to the registry. A run of imbalances begins a tick
inside its bar, so the bar trades through the zones it has just made. From an empty registry on,
every bar therefore leaves a dead zone for each of its runs, and finds none alive to extend.
-/
namespace SessionImbalance

open SessionTypes Upserts

/-- What the detector has returned and the registry it has kept. -/
structure Pipeline where
  activeZones : List ImbalanceZone := []
  result : List SignalEvent := []

def detectBar (config : ImbalanceConfig) (makeZoneId : Nat → String) (tickSize : Rat) (p : Pipeline)
    (bar : BarRecord) : Option Pipeline :=
  (detectAll config makeZoneId bar p.activeZones tickSize).map fun d =>
    ⟨d.activeZones, p.result ++ d.result⟩

def detectBars (config : ImbalanceConfig) (makeZoneId : Nat → String) (tickSize : Rat)
    (bars : List BarRecord) : Option Pipeline :=
  bars.foldlM (detectBar config makeZoneId tickSize) {}

/-- The runs of imbalances of all bars, each with its bar. -/
def origins (config : ImbalanceConfig) (tickSize : Rat) (bars : List BarRecord) :
    List (BarRecord × Side × Streak) :=
  bars.flatMap fun bar => (ruleStreaks config bar tickSize).map fun item => (bar, item)

def isStacked (s : SignalEvent) : Bool :=
  decide (s.type = .stackedImbalanceBuy ∨ s.type = .stackedImbalanceSell)

/-- The zone of a run, resolved by its own bar, and the signal that reports it. -/
structure Stillborn (origin : BarRecord × Side × Streak) (made : ImbalanceZone × SignalEvent) :
    Prop where
  direction : made.1.direction = origin.2.1.scan.direction
  low : made.1.priceLow = origin.2.2.zoneLow
  high : made.1.priceHigh = origin.2.2.zoneHigh
  count : made.1.imbalanceCount = origin.2.2.count
  createdTsNs : made.1.createdTsNs = origin.1.barCloseTsNs
  resolvedTsNs : made.1.resolvedTsNs = origin.1.barCloseTsNs
  isActive : made.1.isActive = false
  barId : made.2.barId = origin.1.barId
  reports : made.2.metadataJson = .zone made.1.zoneId made.1.imbalanceCount made.1.priceLow
    made.1.priceHigh made.1.strengthScore

theorem updateZone_of_doomed {bar : BarRecord} {tickSize : Rat} {z : ImbalanceZone}
    (h : Doomed bar tickSize z) :
    updateZone bar tickSize z = { z with isActive := false, resolvedTsNs := bar.barCloseTsNs } := by
  rw [updateZone, if_pos h.active, if_pos h.resolved]

theorem updateZone_of_inactive {z : ImbalanceZone} (h : z.isActive = false) (bar : BarRecord)
    (tickSize : Rat) : updateZone bar tickSize z = z := by
  simp [updateZone, h]

theorem stillborn_of_made {config : ImbalanceConfig} {makeZoneId : Nat → String} {tickSize : Rat}
    (hpos : 0 < tickSize) {bar : BarRecord} (hbar : GridBar tickSize bar) {item : Side × Streak}
    (hitem : item ∈ ruleStreaks config bar tickSize) {made : ImbalanceZone × SignalEvent}
    (h : Made (scanInput config makeZoneId (flagBar config bar tickSize)) item made) :
    Stillborn (bar, item) (updateZone bar tickSize made.1, made.2) := by
  obtain ⟨zoneId, hzone, hsignal⟩ := h
  have hdoomed := doomed_of_ruleStreak hpos hbar hitem bar.barCloseTsNs zoneId
  have hmade : made.1 = item.1.scan.newZone config item.2 bar.barCloseTsNs zoneId := hzone
  rw [← hmade] at hdoomed
  rw [updateZone_of_doomed hdoomed]
  constructor
  case direction => rw [hmade]; rfl
  case low => rw [hmade]; rfl
  case high => rw [hmade]; rfl
  case count => rw [hmade]; rfl
  case createdTsNs => rw [hmade]; rfl
  case resolvedTsNs => rfl
  case isActive => rfl
  case barId => rw [hsignal]; rfl
  case reports => rw [hsignal, hzone]; rfl

theorem buy_not_stacked : SignalType.singleImbalanceBuy ≠ .stackedImbalanceBuy ∧
    SignalType.singleImbalanceBuy ≠ .stackedImbalanceSell := by decide

theorem sell_not_stacked : SignalType.singleImbalanceSell ≠ .stackedImbalanceBuy ∧
    SignalType.singleImbalanceSell ≠ .stackedImbalanceSell := by decide

theorem filter_singleSignals (bar : BarRecord) (count : Nat) {type : SignalType}
    (direction : SignalDirection) (htype : type ≠ .stackedImbalanceBuy ∧ type ≠ .stackedImbalanceSell) :
    (singleSignals bar count type direction).filter isStacked = [] := by
  rw [singleSignals]
  split
  · simp [isStacked, makeBaseSignal, htype.1, htype.2]
  · rfl

theorem filter_detectAbsorption (config : ImbalanceConfig) (bar : BarRecord) :
    (detectAbsorption config bar).filter isStacked = [] := by
  rw [List.filter_eq_nil_iff]
  intro s hs
  obtain ⟨lvl, -, hlvl⟩ := List.mem_filterMap.mp hs
  split at hlvl
  · cases hlvl
  · split at hlvl
    · cases hlvl
    · obtain rfl := Option.some.inj hlvl
      simp [isStacked, absorptionSignal, makeBaseSignal]

theorem filter_trapSignals (bar : BarRecord) (flag : PriceLevelRecord → Bool)
    (extreme tolerance : Rat) {type : SignalType} (direction : SignalDirection) (stop : Rat)
    (htype : type ≠ .stackedImbalanceBuy ∧ type ≠ .stackedImbalanceSell) :
    (trapSignals bar flag extreme tolerance type direction stop).filter isStacked = [] := by
  rw [trapSignals]
  split
  · rfl
  · simp [isStacked, makeBaseSignal, htype.1, htype.2]

theorem filter_detectTrappedTraders (bar : BarRecord) (tickSize : Rat) :
    (detectTrappedTraders bar tickSize).filter isStacked = [] := by
  rw [detectTrappedTraders, List.filter_append, List.append_eq_nil_iff]
  constructor
  · split
    · exact filter_trapSignals _ _ _ _ _ _ (by decide)
    · rfl
  · split
    · exact filter_trapSignals _ _ _ _ _ _ (by decide)
    · rfl

theorem filter_made {input : ScanInput} {items : List (Side × Streak)}
    {made : List (ImbalanceZone × SignalEvent)} (h : List.Forall₂ (Made input) items made) :
    (made.map Prod.snd).filter isStacked = made.map Prod.snd := by
  rw [List.filter_eq_self]
  induction h with
  | nil => simp
  | @cons item m items made hfirst _ ih =>
    obtain ⟨zoneId, -, hsignal⟩ := hfirst
    rw [List.map_cons, List.forall_mem_cons]
    refine ⟨?_, ih⟩
    rw [hsignal]
    cases item.1 <;> rfl

/-- A registry with no zone alive. -/
def NoneActive (zones : List ImbalanceZone) : Prop := ∀ z ∈ zones, z.isActive = false

/-- One bar: its runs, and only they, make zones, and all are dead. -/
theorem detectBar_stillborn {config : ImbalanceConfig} (hmin : 1 ≤ config.stackedMinCount)
    (makeZoneId : Nat → String) {tickSize : Rat} (htick : 1 / 1000000 ≤ tickSize) {bar : BarRecord}
    (hbar : GridBar tickSize bar) {p : Pipeline} (h : NoneActive p.activeZones) :
    ∃ p' made, detectBar config makeZoneId tickSize p bar = some p' ∧
      p'.activeZones = p.activeZones ++ made.map Prod.fst ∧
      p'.result.filter isStacked = p.result.filter isStacked ++ made.map Prod.snd ∧
      List.Forall₂ Stillborn (origins config tickSize [bar]) made := by
  have hpos : 0 < tickSize := lt_of_lt_of_le (by norm_num) htick
  obtain ⟨stacked, absorbed, hstacked, -, hdetect⟩ :=
    detectAll_eq hmin makeZoneId bar p.activeZones tickSize
  have hflagged : GridLevels tickSize (flagBar config bar tickSize).priceLevels := by
    simp only [flagBar, detectSingleImbalances_eq]
    exact gridLevels_flagLevel hbar.levels config
  have hold : ∀ z ∈ p.activeZones, Unanchored (flagBar config bar tickSize).priceLevels z := by
    intro z hz hactive
    rw [h z hz] at hactive
    cases hactive
  obtain ⟨made, hscan, hmade⟩ := detectStacked_made
    (scanInput config makeZoneId (flagBar config bar tickSize)) hmin htick hflagged p.activeZones hold
  rw [detectStacked_eq _ hmin] at hscan
  have hstreaks := sidedStreaks_flagBar config bar tickSize
  have hscanned : stacked = ⟨p.activeZones ++ made.map Prod.fst, made.map Prod.snd⟩ := by
    rw [hstacked]
    exact Option.some.inj hscan
  have hshown : updateZoneRegistry stacked.zones (flagBar config bar tickSize) tickSize =
      p.activeZones ++ made.map fun m => updateZone bar tickSize m.1 := by
    have hsame : updateZone (flagBar config bar tickSize) tickSize = updateZone bar tickSize := rfl
    have hkept : p.activeZones.map (updateZone bar tickSize) = p.activeZones := by
      conv_rhs => rw [← List.map_id p.activeZones]
      exact List.map_congr_left fun z hz => updateZone_of_inactive (h z hz) bar tickSize
    rw [updateZoneRegistry, hscanned, hsame, List.map_append, hkept, List.map_map]
    rfl
  obtain ⟨d, hd, hregistry, hsignals⟩ : ∃ d,
      detectAll config makeZoneId bar p.activeZones tickSize = some d ∧
        d.activeZones = p.activeZones ++ (made.map fun m => updateZone bar tickSize m.1) ∧
        d.result.filter isStacked = made.map Prod.snd := by
    refine ⟨_, hdetect, hshown, ?_⟩
    simp only [List.filter_append, filter_detectTrappedTraders, filter_detectAbsorption,
      filter_singleSignals _ _ _ buy_not_stacked, filter_singleSignals _ _ _ sell_not_stacked,
      hscanned, filter_made hmade, List.append_nil, List.nil_append]
  refine ⟨⟨d.activeZones, p.result ++ d.result⟩,
    made.map fun m => (updateZone bar tickSize m.1, m.2), ?_, ?_, ?_, ?_⟩
  · rw [detectBar, hd]
    rfl
  · rw [hregistry, List.map_map]
    rfl
  · rw [List.filter_append, hsignals, List.map_map]
    rfl
  · have hitems : List.Forall₂ (Made (scanInput config makeZoneId (flagBar config bar tickSize)))
        (ruleStreaks config bar tickSize) made := hstreaks ▸ hmade
    have hboth := (List.forall₂_and_left _ _).mpr ⟨fun item hitem => hitem, hitems⟩
    simp only [origins, List.flatMap_cons, List.flatMap_nil, List.append_nil,
      List.forall₂_map_left_iff, List.forall₂_map_right_iff]
    exact hboth.imp fun item m hm => stillborn_of_made hpos hbar hm.1 hm.2

theorem noneActive_of_stillborn {runs : List (BarRecord × Side × Streak)}
    {made : List (ImbalanceZone × SignalEvent)} (h : List.Forall₂ Stillborn runs made) :
    NoneActive (made.map Prod.fst) := by
  induction h with
  | nil => simp [NoneActive]
  | cons hfirst _ ih => exact List.forall_mem_cons.mpr ⟨hfirst.isActive, ih⟩

/-- From an empty registry on, the zones are those of all runs of all bars, in order, each of
them resolved by its own bar and reported by one signal. No zone outlives its bar, and none is
ever extended. -/
theorem zones_stillborn (config : ImbalanceConfig) (hmin : 1 ≤ config.stackedMinCount)
    (makeZoneId : Nat → String) (tickSize : Rat) (htick : 1 / 1000000 ≤ tickSize)
    (bars : List BarRecord) (hbars : ∀ bar ∈ bars, GridBar tickSize bar) :
    ∃ p made, detectBars config makeZoneId tickSize bars = some p ∧
      p.activeZones = made.map Prod.fst ∧
      p.result.filter isStacked = made.map Prod.snd ∧
      List.Forall₂ Stillborn (origins config tickSize bars) made := by
  induction bars using List.reverseRecOn with
  | nil => exact ⟨{}, [], rfl, rfl, rfl, .nil⟩
  | append_singleton bars bar ih =>
    rw [List.forall_mem_append] at hbars
    obtain ⟨p, made, hrun, hzones, hsignals, hmade⟩ := ih hbars.1
    have hnone : NoneActive p.activeZones := hzones ▸ noneActive_of_stillborn hmade
    obtain ⟨p', made', hbar, hzones', hsignals', hmade'⟩ :=
      detectBar_stillborn hmin makeZoneId htick (hbars.2 bar (by simp)) hnone
    refine ⟨p', made ++ made', ?_, ?_, ?_, ?_⟩
    · rw [detectBars, List.foldlM_append, ← detectBars, hrun]
      simpa using hbar
    · rw [hzones', hzones, List.map_append]
    · rw [hsignals', hsignals, List.map_append]
    · rw [origins, List.flatMap_append]
      exact List.rel_append hmade hmade'

theorem zones_stillborn_buyStack :
    ∃ p made, detectBars {} (fun _ => "a") 1 [buyStack, buyStack] = some p ∧
      p.activeZones = made.map Prod.fst ∧
      p.result.filter isStacked = made.map Prod.snd ∧
      List.Forall₂ Stillborn (origins {} 1 [buyStack, buyStack]) made :=
  zones_stillborn {} (by decide) _ 1 (by norm_num) [buyStack, buyStack]
    (by simpa using gridBar_buyStack)

end SessionImbalance
