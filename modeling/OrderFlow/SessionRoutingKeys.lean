import OrderFlow.SessionZones

/-!
# The routing keys of signals

A signal is routed by the id of its symbol. The detectors that are given the bar stamp it on
what they report. `detectStacked` is given the levels and the id of the bar, but no symbol:
its zones and their signals carry the id 0, and no caller sets another one.
-/
namespace SessionImbalance

open MaximalRuns SessionTypes Upserts

/-- A signal that was made by `makeBaseSignal`: it has its type, and names the symbol and
the bar it comes from. -/
structure BasedOn (bar : BarRecord) (type : SignalType) (e : SignalEvent) : Prop where
  type : e.type = type
  symbolId : e.symbolId = bar.symbolId
  barId : e.barId = bar.barId

theorem BasedOn.stamped {bar : BarRecord} {type : SignalType} {e : SignalEvent}
    (h : BasedOn bar type e) : e.symbolId = bar.symbolId ∧ e.barId = bar.barId :=
  ⟨h.symbolId, h.barId⟩

theorem basedOn_singleSignals (bar : BarRecord) (count : Nat) (type : SignalType)
    (direction : SignalDirection) :
    ∀ e ∈ singleSignals bar count type direction, BasedOn bar type e := by
  intro e he
  rw [singleSignals] at he
  split at he
  · rw [List.mem_singleton.mp he]
    exact ⟨rfl, rfl, rfl⟩
  · cases he

theorem basedOn_detectAbsorption (config : ImbalanceConfig) (bar : BarRecord) :
    ∀ e ∈ detectAbsorption config bar, BasedOn bar .absorption e := by
  intro e he
  obtain ⟨lvl, -, hlvl⟩ := List.mem_filterMap.mp he
  split at hlvl
  · cases hlvl
  · split at hlvl
    · cases hlvl
    · cases hlvl
      exact ⟨rfl, rfl, rfl⟩

theorem basedOn_trapSignals (bar : BarRecord) (flag : PriceLevelRecord → Bool)
    (extreme tolerance : Rat) (type : SignalType) (direction : SignalDirection) (stop : Rat) :
    ∀ e ∈ trapSignals bar flag extreme tolerance type direction stop, BasedOn bar type e := by
  intro e he
  rw [trapSignals] at he
  split at he
  · cases he
  · rw [List.mem_singleton.mp he]
    exact ⟨rfl, rfl, rfl⟩

theorem basedOn_detectTrappedTraders (bar : BarRecord) (tickSize : Rat) :
    ∀ e ∈ detectTrappedTraders bar tickSize,
      BasedOn bar .trappedSellers e ∨ BasedOn bar .trappedBuyers e := by
  intro e he
  rw [detectTrappedTraders, List.mem_append] at he
  rcases he with he | he
  · split at he
    · exact .inl (basedOn_trapSignals _ _ _ _ _ _ _ e he)
    · cases he
  · split at he
    · exact .inr (basedOn_trapSignals _ _ _ _ _ _ _ e he)
    · cases he

theorem symbolId_extended (side : Side) (streak : Streak) (ts : Int) (z : ImbalanceZone) :
    (side.scan.extended streak ts z).symbolId = z.symbolId := by
  cases side <;> rfl

theorem map_symbolId_updateFirst (config : ImbalanceConfig) (ts : Int) (item : Side × Streak)
    (zones : List ImbalanceZone) :
    (updateFirst (zoneUpsert config ts) item zones).map (·.symbolId) = zones.map (·.symbolId) := by
  induction zones with
  | nil => rfl
  | cons z zones ih =>
    rw [updateFirst]
    split
    · simp [zoneUpsert, symbolId_extended]
    · simp [ih]

/-- The scans append zones with the id 0, and a signal with the id 0 for each. -/
theorem keys_foldl (input : ScanInput) (items : List (Side × Streak)) (s : Stacked) :
    ∃ k, (items.foldl (buildSided input) s).zones.map (·.symbolId) =
        s.zones.map (·.symbolId) ++ List.replicate k 0 ∧
      (items.foldl (buildSided input) s).signals.map (fun e => (e.symbolId, e.barId)) =
        s.signals.map (fun e => (e.symbolId, e.barId)) ++ List.replicate k (0, input.barId) := by
  induction items generalizing s with
  | nil => exact ⟨0, by simp, by simp⟩
  | cons item items ih =>
    obtain ⟨k, hzones, hsignals⟩ := ih (buildSided input s item)
    rw [List.foldl_cons, hzones, hsignals, buildSided_eq]
    split
    · refine ⟨k + 1, ?_, ?_⟩
      · simp [Scan.newZone, List.replicate_succ]
      · simp [Scan.newSignal, List.replicate_succ]
    · exact ⟨k, by rw [map_symbolId_updateFirst], rfl⟩

/-- What the scans report can be routed if there is nothing to report, or no id to miss. -/
theorem stacked_keys_iff (input : ScanInput) (items : List (Side × Streak))
    (zones : List ImbalanceZone) {stacked : Stacked}
    (hstacked : stacked = items.foldl (buildSided input) ⟨zones, []⟩) (symbolId : UInt32) :
    ((∀ e ∈ stacked.signals, e.symbolId = symbolId ∧ e.barId = input.barId) ∧
        ∀ z ∈ stacked.zones.drop zones.length, z.symbolId = symbolId) ↔
      symbolId = 0 ∨ ∀ item ∈ items, Anchored zones item := by
  obtain ⟨k, hzones, hsignals⟩ := keys_foldl input items ⟨zones, []⟩
  obtain ⟨-, hlength⟩ := length_foldl (puts_buildSided input) items ⟨zones, []⟩
  rw [← hstacked] at hzones hsignals hlength
  have hcount : k = 0 ↔ ∀ item ∈ items, Anchored zones item := by
    simp only [anchored_iff input.config input.barCloseTs]
    have hadded : stacked.zones.length = zones.length + k := by
      simpa using congrArg List.length hzones
    rw [← hlength, hadded]
    simp
  rw [List.map_nil, List.nil_append] at hsignals
  rw [← hcount]
  constructor
  · rintro ⟨hstamped, -⟩
    cases k with
    | zero => exact .inr rfl
    | succ k =>
      have hmem : ((0 : UInt32), input.barId) ∈ stacked.signals.map fun e => (e.symbolId, e.barId) := by
        rw [hsignals]
        simp
      obtain ⟨e, he, hkey⟩ := List.mem_map.mp hmem
      have hzero : e.symbolId = 0 := congrArg Prod.fst hkey
      exact .inl ((hstamped e he).1.symm.trans hzero)
  · intro h
    have hzero : ∀ key, key ∈ List.replicate k (0 : UInt32) → key = symbolId := by
      intro key hkey
      obtain ⟨hk, rfl⟩ := List.mem_replicate.mp hkey
      rcases h with rfl | rfl
      · rfl
      · exact absurd rfl hk
    constructor
    · intro e he
      have hkey : (e.symbolId, e.barId) ∈ List.replicate k ((0 : UInt32), input.barId) := by
        rw [← hsignals]
        exact List.mem_map_of_mem he
      obtain ⟨hk, heq⟩ := List.mem_replicate.mp hkey
      obtain ⟨hid, hbar⟩ := Prod.mk.inj heq
      exact ⟨hid.trans (hzero 0 (List.mem_replicate.mpr ⟨hk, rfl⟩)), hbar⟩
    · intro z hz
      have hkey : z.symbolId ∈ (stacked.zones.map (·.symbolId)).drop zones.length := by
        rw [← List.map_drop]
        exact List.mem_map_of_mem hz
      rw [hzones, List.drop_left' (List.length_map _)] at hkey
      exact hzero _ hkey

theorem symbolId_updateZone (bar : BarRecord) (tickSize : Rat) (z : ImbalanceZone) :
    (updateZone bar tickSize z).symbolId = z.symbolId := by
  unfold updateZone
  split
  · split <;> rfl
  · rfl

/-- All signals and all new zones can be routed exactly if the symbol has the id 0 or every
streak of the bar extends a zone of the registry. -/
theorem detectAll_stamped_iff (config : ImbalanceConfig) (hmin : 1 ≤ config.stackedMinCount)
    (makeZoneId : Nat → String) (bar : BarRecord) (activeZones : List ImbalanceZone)
    (tickSize : Rat) :
    ∃ d, detectAll config makeZoneId bar activeZones tickSize = some d ∧
      (((∀ e ∈ d.result, e.symbolId = bar.symbolId ∧ e.barId = bar.barId) ∧
          ∀ z ∈ d.activeZones.drop activeZones.length, z.symbolId = bar.symbolId) ↔
        bar.symbolId = 0 ∨ ∀ item ∈ ruleStreaks config bar tickSize, Anchored activeZones item) := by
  obtain ⟨stacked, absorbed, hstacked, habsorbed, hdetect⟩ :=
    detectAll_eq hmin makeZoneId bar activeZones tickSize
  refine ⟨_, hdetect, ?_⟩
  rw [sidedStreaks_flagBar] at hstacked
  have hkeys := stacked_keys_iff (scanInput config makeZoneId (flagBar config bar tickSize))
    (ruleStreaks config bar tickSize) activeZones hstacked bar.symbolId
  have hzones : (updateZoneRegistry stacked.zones (flagBar config bar tickSize) tickSize).drop
      activeZones.length = (stacked.zones.drop activeZones.length).map
        (updateZone (flagBar config bar tickSize) tickSize) := by
    rw [updateZoneRegistry, List.map_drop]
  rw [← hkeys, hzones]
  simp only [List.forall_mem_append, List.forall_mem_map, symbolId_updateZone]
  have hsingles : ∀ count type direction, ∀ e ∈ singleSignals bar count type direction,
      e.symbolId = bar.symbolId ∧ e.barId = bar.barId := fun count type direction e he =>
    (basedOn_singleSignals bar count type direction e he).stamped
  have habsorption : ∀ e ∈ detectAbsorption config (flagBar config bar tickSize),
      e.symbolId = bar.symbolId ∧ e.barId = bar.barId := fun e he =>
    (basedOn_detectAbsorption config (flagBar config bar tickSize) e he).stamped
  have htrapped : ∀ e ∈ detectTrappedTraders absorbed tickSize,
      e.symbolId = bar.symbolId ∧ e.barId = bar.barId := by
    intro e he
    rw [habsorbed] at he
    rcases basedOn_detectTrappedTraders _ tickSize e he with hbased | hbased
    · exact hbased.stamped
    · exact hbased.stamped
  constructor
  · rintro ⟨⟨⟨⟨-, hsignals⟩, -⟩, -⟩, hnew⟩
    exact ⟨hsignals, hnew⟩
  · rintro ⟨hsignals, hnew⟩
    exact ⟨⟨⟨⟨⟨hsingles _ _ _, hsingles _ _ _⟩, hsignals⟩, habsorption⟩, htrapped⟩, hnew⟩

/-- The three levels of the stack extend a zone. -/
theorem detectAll_stamped_extended :
    let zone : ImbalanceZone := ⟨"a", 7, .long, 2, 3, 3, 3, 3, 0, 0, 0, true⟩
    ∃ d, detectAll {} (fun _ => "b") { buyStack with symbolId := 7 } [zone] 1 = some d ∧
      (((∀ e ∈ d.result, e.symbolId = 7 ∧ e.barId = buyStack.barId) ∧
          ∀ z ∈ d.activeZones.drop 1, z.symbolId = 7) ↔
        (7 : UInt32) = 0 ∨
          ∀ item ∈ ruleStreaks {} { buyStack with symbolId := 7 } 1, Anchored [zone] item) :=
  detectAll_stamped_iff {} (by decide) _ { buyStack with symbolId := 7 } _ 1

/-- The same levels with no zone in the registry. The signal of their zone names no symbol. -/
theorem detectAll_not_stamped :
    ¬ ∀ d, detectAll {} (fun _ => "b") { buyStack with symbolId := 7 } [] 1 = some d →
      (∀ e ∈ d.result, e.symbolId = 7 ∧ e.barId = buyStack.barId) ∧
        ∀ z ∈ d.activeZones.drop 0, z.symbolId = 7 := by
  intro h
  have hids : (detectAll {} (fun _ => "b") { buyStack with symbolId := 7 } [] 1).map
      (fun d => d.activeZones.map (·.symbolId)) = some [0] := by decide +kernel
  obtain ⟨d, hd, hzones⟩ := Option.map_eq_some_iff.mp hids
  obtain ⟨z, hz, hzero⟩ := List.mem_map.mp (hzones ▸ List.mem_singleton_self (0 : UInt32))
  rw [(h d hd).2 z hz] at hzero
  revert hzero
  decide

end SessionImbalance
