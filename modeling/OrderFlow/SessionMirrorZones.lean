import OrderFlow.SessionMirror

/-!
# The mirror of a registry

The streaks of the mirrored bar are put into the mirrored registry in another order.
On a grid of at least the tolerance by which zones are found again, streaks of one
side start or end two steps apart, so no zone is found by two of them and the order
does not matter. With it the whole detector commutes with the mirror.
-/
namespace SessionImbalance

open MaximalRuns SessionTypes TickGrid Upserts

def Side.other : Side → Side
  | .buying => .selling
  | .selling => .buying

def mirrorStreak (streak : Streak) : Streak := ⟨-streak.zoneHigh, -streak.zoneLow, streak.count⟩

def mirrorItem (item : Side × Streak) : Side × Streak := (item.1.other, mirrorStreak item.2)

theorem streakOf_mirror (run : List PriceLevelRecord) :
    streakOf (mirrorLevels run) = mirrorStreak (streakOf run) := by
  have hneg : ∀ o : Option PriceLevelRecord,
      ((o.map mirrorLevel).map (·.price)).getD 0 = -(o.map (·.price)).getD 0 := by
    intro o
    cases o <;> simp [mirrorLevel]
  simp only [streakOf, mirrorStreak, length_mirrorLevels]
  simp only [mirrorLevels, List.head?_reverse, List.getLast?_reverse, List.head?_map,
    List.getLast?_map, hneg]

/-- The scan runs upward in the mirror too, and so meets the streaks in the opposite order. -/
theorem streaks_mirror (side : Side) (minCount : Int) (levels : List PriceLevelRecord) :
    side.other.scan.streaks minCount (mirrorLevels levels) =
      ((side.scan.streaks minCount levels).map mirrorStreak).reverse := by
  have hflag : side.other.scan.flag ∘ mirrorLevel = side.scan.flag := by
    cases side <;> rfl
  have hruns : runs side.other.scan.flag (mirrorLevels levels) =
      ((runs side.scan.flag levels).map mirrorLevels).reverse := by
    rw [mirrorLevels, runs_reverse, runs_map, hflag, List.map_map]
    rfl
  rw [Scan.streaks, Scan.streaks, hruns, List.filter_reverse, List.map_reverse, List.filter_map,
    List.map_map, List.map_map]
  simp only [Function.comp_def, length_mirrorLevels, streakOf_mirror]

theorem sidedStreaks_mirror (minCount : Int) (levels : List PriceLevelRecord) :
    (sidedStreaks minCount (mirrorLevels levels)).Perm
      ((sidedStreaks minCount levels).map mirrorItem) := by
  have hbought := streaks_mirror .selling minCount levels
  have hsold := streaks_mirror .buying minCount levels
  simp only [Side.other, Side.scan] at hbought hsold
  rw [sidedStreaks, sidedStreaks, hbought, hsold, List.map_append, List.map_map, List.map_map]
  refine List.perm_append_comm.trans (List.Perm.append ?_ ?_) <;>
  · rw [List.map_reverse, List.map_map]
    exact List.reverse_perm _

theorem mirrorDirection_eq_iff (direction : SignalDirection) (side : Side) :
    mirrorDirection direction = side.other.scan.direction ↔ direction = side.scan.direction := by
  cases side <;> cases direction <;> decide

/-- Putting streaks into a registry commutes with the mirror. -/
theorem hom_mirror (config : ImbalanceConfig) (ts : Int) :
    Hom (zoneUpsert config ts) (zoneUpsert config ts) mirrorZone mirrorItem where
  found := by
    rintro ⟨side, streak⟩ z
    have hanchor : side.other.scan.anchor (mirrorZone z) - side.other.scan.anchorPrice
        (mirrorStreak streak).zoneLow (mirrorStreak streak).zoneHigh =
        -(side.scan.anchor z - side.scan.anchorPrice streak.zoneLow streak.zoneHigh) := by
      cases side <;> exact (neg_sub' _ _).symm
    have hdirection := mirrorDirection_eq_iff z.direction side
    simp only [zoneUpsert, mirrorItem]
    rw [Bool.eq_iff_iff, found_iff, found_iff, hanchor, abs_neg]
    exact and_congr_left' hdirection
  update := by
    rintro ⟨side, streak⟩ z
    cases side <;> rfl
  create := by
    rintro ⟨side, streak⟩
    cases side <;> rfl

theorem hom_forgetId (config : ImbalanceConfig) (ts : Int) :
    Hom (zoneUpsert config ts) (zoneUpsert config ts) forgetId id where
  found := by
    rintro ⟨side, streak⟩ z
    cases side <;> rfl
  update := by
    rintro ⟨side, streak⟩ z
    cases side <;> rfl
  create := by
    rintro ⟨side, streak⟩
    rfl

/-- What the signal of a new zone says. -/
def itemKind (item : Side × Streak) : SignalKind :=
  ⟨item.1.scan.signal, item.1.scan.direction, if item.2.count ≥ 5 then .veryStrong else .strong⟩

theorem itemKind_mirror (item : Side × Streak) : itemKind (mirrorItem item) = mirrorKind (itemKind item) := by
  obtain ⟨side, streak⟩ := item
  cases side <;> rfl

/-- The scans put their streaks into the registry, if one forgets the ids of zones and
keeps of a signal what it says. -/
theorem foldl_buildSided (input : ScanInput) (items : List (Side × Streak)) (s : Stacked)
    (log : List (Side × Streak)) (hlog : s.signals.map (·.kind) = log.map itemKind) :
    let stacked := items.foldl (buildSided input) s
    let registry := items.foldl (put (zoneUpsert input.config input.barCloseTs))
      (s.zones.map forgetId, log)
    stacked.zones.map forgetId = registry.1 ∧ stacked.signals.map (·.kind) = registry.2.map itemKind := by
  have hhom := hom_forgetId input.config input.barCloseTs
  induction items generalizing s log with
  | nil => exact ⟨rfl, hlog⟩
  | cons item items ih =>
    have hnew := isNew_map hhom item s.zones
    have hupdate := updateFirst_map hhom item s.zones
    rw [id] at hnew hupdate
    simp only [List.foldl_cons, put_eq, buildSided_eq, hnew, hupdate]
    split
    · have hstep := ih
        { zones := s.zones ++ [item.1.scan.newZone input.config item.2 input.barCloseTs
            (input.makeZoneId s.zones.length)]
          signals := s.signals ++ [item.1.scan.newSignal item.2 input.barId input.barCloseTs
            (item.1.scan.newZone input.config item.2 input.barCloseTs
              (input.makeZoneId s.zones.length))] } (log ++ [item])
        (by simp only [List.map_append, hlog]; rfl)
      rw [List.map_append] at hstep
      exact hstep
    · exact ih _ log hlog

/-- What both scans leave, of a bar and of its mirror. -/
theorem stacked_mirror (input input' : ScanInput) (hconfig : input'.config = input.config)
    (hts : input'.barCloseTs = input.barCloseTs) {tickSize : Rat} (htick : 1 / 1000000 ≤ tickSize)
    {levels : List PriceLevelRecord} (h : GridLevels tickSize levels) (minCount : Int)
    (activeZones : List ImbalanceZone) :
    let stacked := (sidedStreaks minCount levels).foldl (buildSided input) ⟨activeZones, []⟩
    let stacked' := (sidedStreaks minCount (mirrorLevels levels)).foldl (buildSided input')
      ⟨activeZones.map mirrorZone, []⟩
    (stacked'.zones.map forgetId).Perm ((stacked.zones.map forgetId).map mirrorZone) ∧
      Mirrored stacked'.signals stacked.signals := by
  obtain ⟨hzones, hsignals⟩ := foldl_buildSided input (sidedStreaks minCount levels)
    ⟨activeZones, []⟩ [] rfl
  obtain ⟨hzones', hsignals'⟩ := foldl_buildSided input' (sidedStreaks minCount (mirrorLevels levels))
    ⟨activeZones.map mirrorZone, []⟩ [] rfl
  have hforget : (activeZones.map mirrorZone).map forgetId =
      (activeZones.map forgetId).map mirrorZone := by
    rw [List.map_map, List.map_map]
    rfl
  obtain ⟨hperm, hlog⟩ := foldl_put_perm
    (sidedStreaks_apart input.config input.barCloseTs minCount htick (gridLevels_mirror h))
    (sidedStreaks_mirror minCount levels) ((activeZones.map forgetId).map mirrorZone)
  have hput := foldl_put_map (hom_mirror input.config input.barCloseTs) (sidedStreaks minCount levels)
    (activeZones.map forgetId) []
  rw [List.map_nil] at hput
  rw [hput] at hperm hlog
  rw [hconfig, hts, hforget] at hzones' hsignals'
  constructor
  · rw [hzones, hzones']
    exact hperm
  · rw [Mirrored, hsignals, hsignals']
    refine (hlog.map itemKind).trans (List.Perm.of_eq ?_)
    rw [List.map_map, List.map_map]
    exact List.map_congr_left fun item _ => itemKind_mirror item

/-- A zone for buying or for selling. -/
def Directed (z : ImbalanceZone) : Prop := z.direction = .long ∨ z.direction = .short

theorem directed_stacked (input : ScanInput) (items : List (Side × Streak))
    {activeZones : List ImbalanceZone} (h : ∀ z ∈ activeZones, Directed z) :
    ∀ z ∈ (items.foldl (buildSided input) ⟨activeZones, []⟩).zones.map forgetId, Directed z := by
  obtain ⟨hzones, -⟩ := foldl_buildSided input items ⟨activeZones, []⟩ [] rfl
  rw [hzones]
  refine forall_foldl_put ?_ ?_ ?_ _
  · intro z hz
    obtain ⟨z', hz', rfl⟩ := List.mem_map.mp hz
    exact h z' hz'
  · rintro ⟨side, streak⟩ z hz -
    cases side <;> exact hz
  · rintro ⟨side, streak⟩
    cases side
    · exact Or.inl rfl
    · exact Or.inr rfl

theorem resolved_mirror (bar : BarRecord) (tickSize : Rat) {z : ImbalanceZone} (h : Directed z) :
    resolved (mirrorBar bar) tickSize (mirrorZone z) = resolved bar tickSize z := by
  rw [Bool.eq_iff_iff]
  rcases h with hdirection | hdirection <;>
  · simp only [resolved, mirrorBar, mirrorZone, hdirection, mirrorDirection, reduceCtorEq, if_true,
      if_false, decide_eq_true_eq]
    constructor <;> intro <;> linarith

theorem updateZone_mirror (bar : BarRecord) (tickSize : Rat) {z : ImbalanceZone} (h : Directed z) :
    updateZone (mirrorBar bar) tickSize (mirrorZone z) = mirrorZone (updateZone bar tickSize z) := by
  have hactive : (mirrorZone z).isActive = z.isActive := rfl
  rw [updateZone, updateZone, hactive, resolved_mirror bar tickSize h]
  split
  · split <;> rfl
  · rfl

theorem updateZone_forgetId (bar : BarRecord) (tickSize : Rat) (z : ImbalanceZone) :
    updateZone bar tickSize (forgetId z) = forgetId (updateZone bar tickSize z) := by
  have hactive : (forgetId z).isActive = z.isActive := rfl
  have hresolved : resolved bar tickSize (forgetId z) = resolved bar tickSize z := rfl
  rw [updateZone, updateZone, hactive, hresolved]
  split
  · split <;> rfl
  · rfl

theorem updateZoneRegistry_mirror (bar : BarRecord) (tickSize : Rat) {zones zones' : List ImbalanceZone}
    (hperm : (zones'.map forgetId).Perm ((zones.map forgetId).map mirrorZone))
    (h : ∀ z ∈ zones.map forgetId, Directed z) :
    ((updateZoneRegistry zones' (mirrorBar bar) tickSize).map forgetId).Perm
      (((updateZoneRegistry zones bar tickSize).map mirrorZone).map forgetId) := by
  have hforget : ∀ (bar : BarRecord) zones, (updateZoneRegistry zones bar tickSize).map forgetId =
      (zones.map forgetId).map (updateZone bar tickSize) := by
    intro bar zones
    simp only [updateZoneRegistry, List.map_map, Function.comp_def, updateZone_forgetId]
  have hmirror : ((updateZoneRegistry zones bar tickSize).map mirrorZone).map forgetId =
      ((updateZoneRegistry zones bar tickSize).map forgetId).map mirrorZone := by
    rw [List.map_map, List.map_map]
    rfl
  have hupdate : ((zones.map forgetId).map mirrorZone).map (updateZone (mirrorBar bar) tickSize) =
      ((zones.map forgetId).map (updateZone bar tickSize)).map mirrorZone := by
    simp only [List.map_map]
    exact List.map_congr_left fun z hz => updateZone_mirror bar tickSize (h _ (List.mem_map_of_mem hz))
  rw [hmirror, hforget, hforget, ← hupdate]
  exact hperm.map _

theorem detectAbsorption_mirror_ne_nil (config : ImbalanceConfig) (bar : BarRecord) :
    detectAbsorption config (mirrorBar bar) ≠ [] ↔ detectAbsorption config bar ≠ [] := by
  have hlength := (mirrored_detectAbsorption config bar).length_eq
  simp only [List.length_map] at hlength
  rw [← List.length_pos_iff, ← List.length_pos_iff, hlength]

/-- The detector commutes with the mirror: it flags the mirrored levels, leaves the
mirrored zones up to their ids and gives the mirrored signals. -/
theorem detectAll_mirror (config : ImbalanceConfig) (hmin : 1 ≤ config.stackedMinCount)
    (makeZoneId makeZoneId' : Nat → String) (tickSize : Rat) (htick : 1 / 1000000 ≤ tickSize)
    (bar : BarRecord) (h : GridLevels tickSize bar.priceLevels) (activeZones : List ImbalanceZone)
    (hzones : ∀ z ∈ activeZones, Directed z) :
    ∃ d d', detectAll config makeZoneId bar activeZones tickSize = some d ∧
      detectAll config makeZoneId' (mirrorBar bar) (activeZones.map mirrorZone) tickSize = some d' ∧
      d'.bar = mirrorBar d.bar ∧
      (d'.activeZones.map forgetId).Perm ((d.activeZones.map mirrorZone).map forgetId) ∧
      (d'.result.map (·.kind)).Perm ((d.result.map (·.kind)).map mirrorKind) := by
  have hpos : 0 < tickSize := lt_of_lt_of_le (by norm_num) htick
  obtain ⟨stacked, absorbed, hstacked, habsorbed, hdetect⟩ :=
    detectAll_eq hmin makeZoneId bar activeZones tickSize
  obtain ⟨stacked', absorbed', hstacked', habsorbed', hdetect'⟩ :=
    detectAll_eq hmin makeZoneId' (mirrorBar bar) (activeZones.map mirrorZone) tickSize
  rw [flagBar_mirror hpos h] at hstacked' habsorbed' hdetect'
  have hlevels : (mirrorBar (flagBar config bar tickSize)).priceLevels =
      mirrorLevels (flagBar config bar tickSize).priceLevels := rfl
  rw [hlevels] at hstacked'
  have hflagged : GridLevels tickSize (flagBar config bar tickSize).priceLevels := by
    simp only [flagBar, detectSingleImbalances_eq]
    exact gridLevels_flagLevel h config
  obtain ⟨hperm, hsignals⟩ := stacked_mirror
    (scanInput config makeZoneId (flagBar config bar tickSize))
    (scanInput config makeZoneId' (mirrorBar (flagBar config bar tickSize)))
    rfl rfl htick hflagged config.stackedMinCount activeZones
  have hdirected := directed_stacked (scanInput config makeZoneId (flagBar config bar tickSize))
    (sidedStreaks config.stackedMinCount (flagBar config bar tickSize).priceLevels) hzones
  have hbar : absorbed' = mirrorBar absorbed := by
    simp only [habsorbed, habsorbed', detectAbsorption_mirror_ne_nil]
    rfl
  have hbuy : (mirrorBar bar).priceLevels.countP
      (buyImbalance config (mirrorBar bar).priceLevels tickSize) =
      bar.priceLevels.countP (sellImbalance config bar.priceLevels tickSize) :=
    countP_mirrorLevels fun lvl hlvl => buyImbalance_mirror config hpos h (h.grid lvl hlvl)
  have hsell : (mirrorBar bar).priceLevels.countP
      (sellImbalance config (mirrorBar bar).priceLevels tickSize) =
      bar.priceLevels.countP (buyImbalance config bar.priceLevels tickSize) :=
    countP_mirrorLevels fun lvl hlvl => sellImbalance_mirror config hpos h (h.grid lvl hlvl)
  refine ⟨_, _, hdetect, hdetect', hbar, ?_, ?_⟩
  · rw [hstacked, hstacked']
    exact updateZoneRegistry_mirror _ tickSize hperm hdirected
  · rw [hbuy, hsell, hbar]
    rw [← hstacked, ← hstacked'] at hsignals
    refine mirrored_append (mirrored_append (mirrored_append (mirrored_swap ?_ ?_) hsignals) ?_) ?_
    · exact mirrored_singleSignals bar _ .singleImbalanceSell .short
    · exact mirrored_singleSignals bar _ .singleImbalanceBuy .long
    · exact mirrored_detectAbsorption config _
    · exact mirrored_detectTrappedTraders absorbed tickSize

/-- A bar that stacks buying imbalances, and a registry with a zone on either side. -/
theorem detectAll_mirror_buyStack :
    let activeZones : List ImbalanceZone :=
      [⟨"a", 0, .long, 2, 3, 3, 3, 3, 0, 0, 0, true⟩, ⟨"b", 0, .short, 1, 4, 3, 3, 3, 0, 0, 0, true⟩]
    ∃ d d', detectAll {} (fun _ => "c") buyStack activeZones 1 = some d ∧
      detectAll {} (fun _ => "d") (mirrorBar buyStack) (activeZones.map mirrorZone) 1 = some d' ∧
      d'.bar = mirrorBar d.bar ∧
      (d'.activeZones.map forgetId).Perm ((d.activeZones.map mirrorZone).map forgetId) ∧
      (d'.result.map (·.kind)).Perm ((d.result.map (·.kind)).map mirrorKind) :=
  detectAll_mirror {} (by decide) _ _ 1 (by norm_num) buyStack gridBar_buyStack.levels _
    (by unfold Directed; decide)

end SessionImbalance
