import OrderFlow.SessionZones

/-!
# The zones that a bar makes

The scans go by the places of the levels in the bar, and levels exist only where trades
happened. That a run of flagged levels has no gap in its prices comes from the diagonal rule:
a buying imbalance needs the level one tick below, a selling one the level one tick above.
Where no active zone is anchored at a level of the bar, the scans make one zone of every run
that is long enough, and touch no other.
-/
namespace SessionImbalance

open MaximalRuns SessionTypes TickGrid Upserts

/-- Neighbours in a piece of a list are neighbours in the list. -/
theorem isChain_of_neighbours {α : Type} {R : α → α → Prop} {xs : List α} {run : List α}
    (before after : List α) (hxs : xs = before ++ run ++ after)
    (h : ∀ first a b rest, xs = first ++ a :: b :: rest → a ∈ run → b ∈ run → R a b) :
    run.IsChain R := by
  induction run generalizing before with
  | nil => exact List.IsChain.nil
  | cons a run ih =>
    cases run with
    | nil => exact List.IsChain.singleton a
    | cons b run =>
      have hsplit : xs = before ++ a :: b :: (run ++ after) := by simpa using hxs
      have hrest : xs = (before ++ [a]) ++ (b :: run) ++ after := by simpa using hxs
      have htail := ih (before ++ [a]) hrest fun first c d rest hxs' hc hd =>
        h first c d rest hxs' (List.mem_cons_of_mem a hc) (List.mem_cons_of_mem a hd)
      exact List.isChain_cons_cons.mpr
        ⟨h before a b (run ++ after) hsplit (by simp) (by simp), htail⟩

/-- No level lies between two neighbours. -/
theorem price_beside {tickSize : Rat} {levels : List PriceLevelRecord}
    (h : GridLevels tickSize levels) {first rest : List PriceLevelRecord} {a b : PriceLevelRecord}
    (hlevels : levels = first ++ a :: b :: rest) :
    ∀ lvl ∈ levels, lvl.price ≤ a.price ∨ b.price ≤ lvl.price := by
  have hsorted := h.ascending
  rw [hlevels, List.pairwise_append, List.pairwise_cons, List.pairwise_cons] at hsorted
  obtain ⟨-, ⟨-, hb, -⟩, hfirst⟩ := hsorted
  intro lvl hlvl
  simp only [hlevels, List.mem_append, List.mem_cons] at hlvl
  rcases hlvl with hlvl | rfl | rfl | hlvl
  · exact .inl (hfirst lvl hlvl a (by simp)).le
  · exact .inl (le_refl _)
  · exact .inr (le_refl _)
  · exact .inr (hb lvl hlvl).le

theorem tick_between {tickSize : Rat} (hpos : 0 < tickSize) {levels : List PriceLevelRecord}
    (h : GridLevels tickSize levels) {first rest : List PriceLevelRecord} {a b : PriceLevelRecord}
    (hlevels : levels = first ++ a :: b :: rest) : a.price + tickSize ≤ b.price := by
  have hsorted := h.ascending
  rw [hlevels, List.pairwise_append, List.pairwise_cons] at hsorted
  have hab : a.price < b.price := hsorted.2.1.1 b (by simp)
  exact add_tick_le hpos (h.grid a (by simp [hlevels])) (h.grid b (by simp [hlevels])) hab

/-- A step of one tick from level to level. -/
def Ladder (tickSize : Rat) (run : List PriceLevelRecord) : Prop :=
  run.IsChain fun a b => b.price = a.price + tickSize

/-- Each level of the piece has some level one tick below it. -/
theorem ladder_of_below {tickSize : Rat} (hpos : 0 < tickSize) {levels : List PriceLevelRecord}
    (h : GridLevels tickSize levels) {before run after : List PriceLevelRecord}
    (hlevels : levels = before ++ run ++ after)
    (hbelow : ∀ lvl ∈ run, ∃ below ∈ levels, below.price = lvl.price - tickSize) :
    Ladder tickSize run := by
  refine isChain_of_neighbours before after hlevels fun first a b rest hsplit _ hb => ?_
  obtain ⟨below, hmem, hprice⟩ := hbelow b hb
  have htick := tick_between hpos h hsplit
  rcases price_beside h hsplit below hmem with hle | hle <;> linarith

/-- Each level of the piece has some level one tick above it. -/
theorem ladder_of_above {tickSize : Rat} (hpos : 0 < tickSize) {levels : List PriceLevelRecord}
    (h : GridLevels tickSize levels) {before run after : List PriceLevelRecord}
    (hlevels : levels = before ++ run ++ after)
    (habove : ∀ lvl ∈ run, ∃ above ∈ levels, above.price = lvl.price + tickSize) :
    Ladder tickSize run := by
  refine isChain_of_neighbours before after hlevels fun first a b rest hsplit ha _ => ?_
  obtain ⟨above, hmem, hprice⟩ := habove a ha
  have htick := tick_between hpos h hsplit
  rcases price_beside h hsplit above hmem with hle | hle <;> linarith

theorem ladder_span {tickSize : Rat} {run : List PriceLevelRecord} (h : Ladder tickSize run)
    (hne : run ≠ []) :
    (run.getLast hne).price - (run.head hne).price = ((run.length : Rat) - 1) * tickSize := by
  induction run with
  | nil => exact absurd rfl hne
  | cons a run ih =>
    cases run with
    | nil => simp
    | cons b run =>
      obtain ⟨hab, hrest⟩ := List.isChain_cons_cons.mp h
      have hspan := ih hrest (by simp)
      simp only [List.getLast_cons_cons, List.head_cons, List.length_cons] at hspan ⊢
      push_cast at hspan ⊢
      linarith

section Flagged

variable {tickSize : Rat} (hpos : 0 < tickSize) {unflagged : List PriceLevelRecord}
  (h : GridLevels tickSize unflagged) (config : ImbalanceConfig)

include hpos h in
/-- A run of flagged levels, of either side, has no gap. -/
theorem ladder_of_isRun (side : Side) {run : List PriceLevelRecord}
    (hrun : IsRun side.scan.flag (unflagged.map (flagLevel config unflagged tickSize)) run) :
    Ladder tickSize run := by
  obtain ⟨before, after, hlevels, -, -⟩ := hrun.maximal
  have hgrid := gridLevels_flagLevel h config
  have hraw : ∀ lvl ∈ run, ∃ raw ∈ unflagged, lvl = flagLevel config unflagged tickSize raw := by
    intro lvl hlvl
    obtain ⟨raw, hraw, hflag⟩ := List.mem_map.mp (hrun.subset hlvl)
    exact ⟨raw, hraw, hflag.symm⟩
  cases side with
  | buying =>
    refine ladder_of_below hpos hgrid hlevels fun lvl hlvl => ?_
    obtain ⟨raw, hmem, rfl⟩ := hraw lvl hlvl
    obtain ⟨below, hbelow, hprice⟩ := exists_below hpos h hmem (hrun.all _ hlvl)
    exact ⟨_, List.mem_map_of_mem hbelow, hprice⟩
  | selling =>
    refine ladder_of_above hpos hgrid hlevels fun lvl hlvl => ?_
    obtain ⟨raw, hmem, rfl⟩ := hraw lvl hlvl
    obtain ⟨above, habove, hprice⟩ := exists_above hpos h hmem (hrun.all _ hlvl)
    exact ⟨_, List.mem_map_of_mem habove, hprice⟩

end Flagged

/-- What the scans make of a streak that extends no zone. -/
def Made (input : ScanInput) (item : Side × Streak) (made : ImbalanceZone × SignalEvent) : Prop :=
  ∃ zoneId, made.1 = item.1.scan.newZone input.config item.2 input.barCloseTs zoneId ∧
    made.2 = item.1.scan.newSignal item.2 input.barId input.barCloseTs made.1

theorem buildSided_made (input : ScanInput) (s : Stacked) (item : Side × Streak)
    (h : isNew (zoneUpsert input.config input.barCloseTs) s.zones item = true) :
    ∃ made, Made input item made ∧
      buildSided input s item = ⟨s.zones ++ [made.1], s.signals ++ [made.2]⟩ := by
  rw [buildSided_eq, if_pos h]
  exact ⟨(_, _), ⟨_, rfl, rfl⟩, rfl⟩

/-- Streaks that extend neither an old zone nor the zone of a streak before them. -/
theorem foldl_buildSided_made (input : ScanInput) (items : List (Side × Streak)) (s : Stacked)
    (hold : ∀ item ∈ items, isNew (zoneUpsert input.config input.barCloseTs) s.zones item = true)
    (hapart : items.Pairwise (Apart (zoneUpsert input.config input.barCloseTs))) :
    ∃ made : List (ImbalanceZone × SignalEvent),
      items.foldl (buildSided input) s =
        ⟨s.zones ++ made.map Prod.fst, s.signals ++ made.map Prod.snd⟩ ∧
      List.Forall₂ (Made input) items made := by
  induction items generalizing s with
  | nil => exact ⟨[], by simp, List.Forall₂.nil⟩
  | cons item items ih =>
    obtain ⟨hfirst, hrest⟩ := List.pairwise_cons.mp hapart
    obtain ⟨hhead, htail⟩ := List.forall_mem_cons.mp hold
    obtain ⟨first, ⟨zoneId, hzone, hsignal⟩, hbuild⟩ := buildSided_made input s item hhead
    have hstill : ∀ c ∈ items, isNew (zoneUpsert input.config input.barCloseTs)
        (s.zones ++ [first.1]) c = true := by
      intro c hc
      have hfound := not_found_of_apart (hfirst c hc)
        (found_newZone item.1 item.2 input.config input.barCloseTs zoneId)
      rw [isNew_append, htail c hc, hzone]
      simp [isNew, hfound]
    obtain ⟨made, hfold, hmade⟩ := ih ⟨s.zones ++ [first.1], s.signals ++ [first.2]⟩ hstill hrest
    rw [List.foldl_cons, hbuild, hfold]
    exact ⟨first :: made, by simp, List.Forall₂.cons ⟨zoneId, hzone, hsignal⟩ hmade⟩

/-- An active zone of the registry is not anchored at a level of the bar. -/
def Unanchored (levels : List PriceLevelRecord) (z : ImbalanceZone) : Prop :=
  z.isActive = true → ∀ lvl ∈ levels,
    (z.direction = .long → 1 / 1000000 ≤ |z.priceLow - lvl.price|) ∧
      (z.direction = .short → 1 / 1000000 ≤ |z.priceHigh - lvl.price|)

theorem not_found_of_unanchored {levels : List PriceLevelRecord} {z : ImbalanceZone}
    (h : Unanchored levels z) (side : Side) {run : List PriceLevelRecord} (hne : run ≠ [])
    (hrun : run ⊆ levels) : side.scan.found (streakOf run) z = false := by
  rw [Bool.eq_false_iff]
  intro hfound
  obtain ⟨hdirection, hactive, hnear⟩ := found_iff.mp hfound
  obtain ⟨lvl, hlvl, hprice⟩ := anchorPrice_mem side hne
  obtain ⟨hlong, hshort⟩ := h hactive lvl (hrun hlvl)
  rw [hprice] at hnear
  cases side with
  | buying => exact absurd hnear (hlong hdirection).not_gt
  | selling => exact absurd hnear (hshort hdirection).not_gt

/-- The runs of at least `minCount` levels with a flag, in ascending order. -/
structure LongRuns (flag : PriceLevelRecord → Bool) (minCount : Int)
    (levels : List PriceLevelRecord) (found : List (List PriceLevelRecord)) : Prop where
  mem : ∀ run, run ∈ found ↔ IsRun flag levels run ∧ minCount ≤ run.length
  ascending : found.Pairwise fun r s => ∀ a ∈ r, ∀ b ∈ s, a.price < b.price

def Side.runs (side : Side) (minCount : Int) (levels : List PriceLevelRecord) :
    List (List PriceLevelRecord) :=
  (MaximalRuns.runs side.scan.flag levels).filter fun run => decide (minCount ≤ run.length)

theorem longRuns_runs (side : Side) (minCount : Int) {levels : List PriceLevelRecord}
    (h : levels.Pairwise fun a b => a.price < b.price) :
    LongRuns side.scan.flag minCount levels (side.runs minCount levels) where
  mem := by
    intro run
    rw [Side.runs, List.mem_filter, mem_runs_iff, decide_eq_true_eq]
  ascending := by
    refine List.Pairwise.filter _ ((runs_separated h).imp ?_)
    rintro r s ⟨x, -, hr, hs⟩ a ha b hb
    exact (hr a ha).trans (hs b hb)

theorem sidedStreaks_eq (minCount : Int) (levels : List PriceLevelRecord) :
    sidedStreaks minCount levels =
      (Side.buying.runs minCount levels).map (fun run => (.buying, streakOf run)) ++
        (Side.selling.runs minCount levels).map fun run => (.selling, streakOf run) := by
  simp only [sidedStreaks, Scan.streaks, List.map_map]
  rfl

/-- The streaks of a bar are built on one by one, each on a zone of its own. -/
theorem detectStacked_made (input : ScanInput) (hmin : 1 ≤ input.config.stackedMinCount)
    {tickSize : Rat} (htick : 1 / 1000000 ≤ tickSize) (hgrid : GridLevels tickSize input.levels)
    (zones : List ImbalanceZone) (hzones : ∀ z ∈ zones, Unanchored input.levels z) :
    ∃ made, detectStacked input zones =
        some ⟨zones ++ made.map Prod.fst, made.map Prod.snd⟩ ∧
      List.Forall₂ (Made input) (sidedStreaks input.config.stackedMinCount input.levels) made := by
  have hrun : ∀ side : Side, ∀ run ∈ side.runs input.config.stackedMinCount input.levels,
      isNew (zoneUpsert input.config input.barCloseTs) zones (side, streakOf run) = true := by
    intro side run hmem
    have hrun := (((longRuns_runs side _ hgrid.ascending).mem run).mp hmem).1
    rw [isNew, List.all_eq_true]
    intro z hz
    have hnot := not_found_of_unanchored (hzones z hz) side hrun.ne_nil hrun.subset
    simpa [zoneUpsert] using hnot
  have hold : ∀ item ∈ sidedStreaks input.config.stackedMinCount input.levels,
      isNew (zoneUpsert input.config input.barCloseTs) zones item = true := by
    intro item hitem
    rw [sidedStreaks_eq, List.mem_append, List.mem_map, List.mem_map] at hitem
    rcases hitem with ⟨run, hmem, rfl⟩ | ⟨run, hmem, rfl⟩
    · exact hrun .buying run hmem
    · exact hrun .selling run hmem
  have hapart := sidedStreaks_apart input.config input.barCloseTs input.config.stackedMinCount htick
    hgrid
  obtain ⟨made, hfold, hmade⟩ := foldl_buildSided_made input _ ⟨zones, []⟩ hold hapart
  rw [detectStacked_eq input hmin, hfold]
  exact ⟨made, by simp, hmade⟩

/-- A zone made of a run of levels, and the signal that reports it. -/
structure StackedZone (direction : SignalDirection) (signal : SignalType) (tickSize : Rat)
    (run : List PriceLevelRecord) (made : ImbalanceZone × SignalEvent) : Prop where
  direction : made.1.direction = direction
  active : made.1.isActive = true
  low : run.head?.map (·.price) = some made.1.priceLow
  high : run.getLast?.map (·.price) = some made.1.priceHigh
  count : made.1.imbalanceCount = run.length
  span : made.1.priceHigh - made.1.priceLow = (made.1.imbalanceCount - 1) * tickSize
  signalType : made.2.type = signal
  reports : made.2.metadataJson = .zone made.1.zoneId made.1.imbalanceCount made.1.priceLow
    made.1.priceHigh made.1.strengthScore

theorem stackedZone_of_made (side : Side) {input : ScanInput} {tickSize : Rat}
    {run : List PriceLevelRecord} (hne : run ≠ []) (hladder : Ladder tickSize run)
    {made : ImbalanceZone × SignalEvent} (h : Made input (side, streakOf run) made) :
    StackedZone side.scan.direction side.scan.signal tickSize run made := by
  obtain ⟨zoneId, hzone, hsignal⟩ := h
  have hlow : made.1.priceLow = (run.head hne).price := by
    simp [hzone, Scan.newZone, streakOf, List.head?_eq_some_head hne]
  have hhigh : made.1.priceHigh = (run.getLast hne).price := by
    simp [hzone, Scan.newZone, streakOf, List.getLast?_eq_some_getLast hne]
  have hcount : made.1.imbalanceCount = run.length := by rw [hzone]; rfl
  constructor
  case direction => rw [hzone]; rfl
  case active => rw [hzone]; rfl
  case low => rw [hlow, List.head?_eq_some_head hne, Option.map_some]
  case high => rw [hhigh, List.getLast?_eq_some_getLast hne, Option.map_some]
  case count => exact hcount
  case span =>
    rw [hlow, hhigh, hcount, ladder_span hladder hne]
    push_cast
    rfl
  case signalType => rw [hsignal]; rfl
  case reports => rw [hsignal, hzone]; rfl

/-- The zones of one side. -/
theorem forall₂_stackedZone (side : Side) {input : ScanInput} {tickSize : Rat} {minCount : Int}
    (hrun : ∀ run ∈ side.runs minCount input.levels, run ≠ [] ∧ Ladder tickSize run)
    {made : List (ImbalanceZone × SignalEvent)}
    (h : List.Forall₂ (Made input)
      ((side.runs minCount input.levels).map fun run => (side, streakOf run)) made) :
    List.Forall₂ (StackedZone side.scan.direction side.scan.signal tickSize)
      (side.runs minCount input.levels) made := by
  rw [List.forall₂_map_left_iff] at h
  have hboth := (List.forall₂_and_left _ _).mpr ⟨hrun, h⟩
  refine hboth.imp ?_
  rintro run m ⟨⟨hne, hladder⟩, hmade⟩
  exact stackedZone_of_made side hne hladder hmade

/-- Stacked runs are found exactly, and no zone has a gap. -/
theorem detectStacked_runs (input : ScanInput) (hmin : 1 ≤ input.config.stackedMinCount)
    (tickSize : Rat) (htick : 1 / 1000000 ≤ tickSize) (flagConfig : ImbalanceConfig)
    (unflagged : List PriceLevelRecord) (hgrid : GridLevels tickSize unflagged)
    (hlevels : input.levels = (detectSingleImbalances flagConfig unflagged tickSize).levels)
    (zones : List ImbalanceZone) (hzones : ∀ z ∈ zones, Unanchored input.levels z) :
    ∃ (buyRuns sellRuns : List (List PriceLevelRecord))
      (longs shorts : List (ImbalanceZone × SignalEvent)),
      LongRuns (·.isBuyImbalance) input.config.stackedMinCount input.levels buyRuns ∧
      LongRuns (·.isSellImbalance) input.config.stackedMinCount input.levels sellRuns ∧
      detectStacked input zones =
        some ⟨zones ++ longs.map Prod.fst ++ shorts.map Prod.fst,
          longs.map Prod.snd ++ shorts.map Prod.snd⟩ ∧
      List.Forall₂ (StackedZone .long .stackedImbalanceBuy tickSize) buyRuns longs ∧
      List.Forall₂ (StackedZone .short .stackedImbalanceSell tickSize) sellRuns shorts := by
  have hpos : 0 < tickSize := lt_of_lt_of_le (by norm_num) htick
  simp only [detectSingleImbalances_eq] at hlevels
  have hflagged : GridLevels tickSize input.levels := by
    rw [hlevels]
    exact gridLevels_flagLevel hgrid flagConfig
  have hrun : ∀ side : Side, ∀ run ∈ side.runs input.config.stackedMinCount input.levels,
      run ≠ [] ∧ Ladder tickSize run := by
    intro side run hmem
    have hrun := (((longRuns_runs side _ hflagged.ascending).mem run).mp hmem).1
    rw [hlevels] at hrun
    exact ⟨hrun.ne_nil, ladder_of_isRun hpos hgrid flagConfig side hrun⟩
  obtain ⟨made, hdetect, hmade⟩ := detectStacked_made input hmin htick hflagged zones hzones
  rw [sidedStreaks_eq] at hmade
  have hlongs := List.forall₂_take (Side.buying.runs input.config.stackedMinCount input.levels).length
    hmade
  have hshorts := List.forall₂_drop (Side.buying.runs input.config.stackedMinCount input.levels).length
    hmade
  rw [List.take_left' (List.length_map _)] at hlongs
  rw [List.drop_left' (List.length_map _)] at hshorts
  refine ⟨_, _, _, _, longRuns_runs .buying _ hflagged.ascending,
    longRuns_runs .selling _ hflagged.ascending, ?_,
    forall₂_stackedZone .buying (hrun .buying) hlongs,
    forall₂_stackedZone .selling (hrun .selling) hshorts⟩
  rw [hdetect, List.append_assoc, ← List.map_append, ← List.map_append, List.take_append_drop]

/-- The three levels over the lowest, beside a zone that is anchored elsewhere. -/
theorem detectStacked_runs_buyStack :
    let input : ScanInput :=
      ⟨{}, fun _ => "b", (detectSingleImbalances {} buyStack.priceLevels 1).levels, "bar", 60⟩
    let zones : List ImbalanceZone := [⟨"a", 0, .long, 7, 9, 3, 3, 3, 0, 0, 0, true⟩]
    ∃ (buyRuns sellRuns : List (List PriceLevelRecord))
      (longs shorts : List (ImbalanceZone × SignalEvent)),
      LongRuns (·.isBuyImbalance) 3 input.levels buyRuns ∧
      LongRuns (·.isSellImbalance) 3 input.levels sellRuns ∧
      detectStacked input zones =
        some ⟨zones ++ longs.map Prod.fst ++ shorts.map Prod.fst,
          longs.map Prod.snd ++ shorts.map Prod.snd⟩ ∧
      List.Forall₂ (StackedZone .long .stackedImbalanceBuy 1) buyRuns longs ∧
      List.Forall₂ (StackedZone .short .stackedImbalanceSell 1) sellRuns shorts :=
  detectStacked_runs ⟨{}, fun _ => "b", _, "bar", 60⟩ (by decide) 1 (by norm_num) {}
    buyStack.priceLevels gridBar_buyStack.levels rfl _
    (by unfold Unanchored; decide +kernel)

end SessionImbalance
