import OrderFlow.GuardedRuns
import OrderFlow.SessionZoneHistory

/-!
# Runs that are merged into zones

A run whose anchor is that of an active zone is merged into it: the far bound and the count
of the zone become those of the run, whether it reaches farther or not, and the strength of
the zone stays what it was. So a zone shrinks when the last run merged into it falls short
of it, and its strength is out of date when a run is merged whose count gives another one.
-/
namespace SessionImbalance

open GuardedRuns SessionTypes Upserts

/-- What a zone should keep while it is active. -/
structure NotShrunk (z z' : ImbalanceZone) : Prop where
  high : z.direction = .long → z.priceHigh ≤ z'.priceHigh
  low : z.direction = .short → z'.priceLow ≤ z.priceLow
  count : z.imbalanceCount ≤ z'.imbalanceCount

/-- A streak reaches as far as a zone and is as long. -/
structure Covers (streak : Streak) (z : ImbalanceZone) : Prop where
  high : z.direction = .long → z.priceHigh ≤ streak.zoneHigh
  low : z.direction = .short → streak.zoneLow ≤ z.priceLow
  count : z.imbalanceCount ≤ streak.count

theorem notShrunk_refl (z : ImbalanceZone) : NotShrunk z z :=
  ⟨fun _ => le_refl _, fun _ => le_refl _, le_refl _⟩

/-- Of the streaks that are merged into a zone the last one decides. -/
theorem notShrunk_merged_iff (ts : Int) (z : ImbalanceZone) (merged : List (Side × Streak))
    (hfound : ∀ item ∈ merged, item.1.scan.found item.2 z = true) :
    NotShrunk z (merged.foldl (fun y item => item.1.scan.extended item.2 ts y) z) ↔
      ∀ item, merged.getLast? = some item → Covers item.2 z := by
  cases merged using List.reverseRecOn with
  | nil => simp [notShrunk_refl]
  | append_singleton merged item =>
    obtain ⟨hdirection, -⟩ := found_iff.mp (hfound item (by simp))
    rw [List.foldl_append, List.foldl_cons, List.foldl_nil, List.getLast?_concat]
    simp only [Option.some.injEq, forall_eq']
    generalize merged.foldl (fun y item => item.1.scan.extended item.2 ts y) z = y
    cases hside : item.1 <;> simp only [hside, Side.scan, buyScan, sellScan] at hdirection
    · constructor
      · intro h
        exact ⟨h.high, by simp [hdirection], h.count⟩
      · intro h
        exact ⟨h.high, by simp [hdirection], h.count⟩
    · constructor
      · intro h
        exact ⟨by simp [hdirection], h.low, h.count⟩
      · intro h
        exact ⟨by simp [hdirection], h.low, h.count⟩

/-- The streaks of a bar that are merged into the zone at an index. -/
def mergedInto (zones : List ImbalanceZone) (i : Nat) (items : List (Side × Streak)) :
    List (Side × Streak) :=
  items.filter fun item => decide (zones.findIdx? (item.1.scan.found item.2) = some i)

theorem found_of_mergedInto {zones : List ImbalanceZone} {i : Nat} {z : ImbalanceZone}
    (hz : zones[i]? = some z) {items : List (Side × Streak)} :
    ∀ item ∈ mergedInto zones i items, item.1.scan.found item.2 z = true := by
  intro item hitem
  obtain ⟨-, hland⟩ := List.mem_filter.mp hitem
  obtain ⟨hlt, hfound, -⟩ := List.findIdx?_eq_some_iff_getElem.mp (of_decide_eq_true hland)
  obtain ⟨-, rfl⟩ := List.getElem?_eq_some_iff.mp hz
  exact hfound

/-- What the streaks of a call make of an old zone. -/
theorem getElem?_buildSided (input : ScanInput) (items : List (Side × Streak))
    {activeZones : List ImbalanceZone} {i : Nat} {z : ImbalanceZone} (hz : activeZones[i]? = some z) :
    (items.foldl (buildSided input) ⟨activeZones, []⟩).zones[i]? =
      some ((mergedInto activeZones i items).foldl
        (fun y item => item.1.scan.extended item.2 input.barCloseTs y) z) :=
  getElem?_foldl (puts_buildSided input) items (s := ⟨activeZones, []⟩) hz

/-- No active zone shrinks exactly if, for each of them, the last streak that is merged into it
reaches as far and is as long. -/
theorem detectStacked_notShrunk_iff (input : ScanInput) (hmin : 1 ≤ input.config.stackedMinCount)
    (activeZones : List ImbalanceZone) :
    ∃ s, detectStacked input activeZones = some s ∧
      ((∀ (i : Nat) (z z' : ImbalanceZone), activeZones[i]? = some z → z.isActive = true →
          s.zones[i]? = some z' → NotShrunk z z') ↔
        ∀ (i : Nat) (z : ImbalanceZone) (item : Side × Streak), activeZones[i]? = some z →
          z.isActive = true → (mergedInto activeZones i
            (sidedStreaks input.config.stackedMinCount input.levels)).getLast? = some item →
          Covers item.2 z) := by
  refine ⟨_, detectStacked_eq input hmin activeZones, ?_⟩
  generalize sidedStreaks input.config.stackedMinCount input.levels = items
  have hzone := fun (i : Nat) (z : ImbalanceZone) (hz : activeZones[i]? = some z) =>
    notShrunk_merged_iff input.barCloseTs z (mergedInto activeZones i items)
      (found_of_mergedInto hz)
  constructor
  · intro h i z item hz hactive
    exact (hzone i z hz).mp (h i z _ hz hactive (getElem?_buildSided input _ hz)) item
  · intro h i z z' hz hactive hz'
    rw [getElem?_buildSided input _ hz] at hz'
    cases hz'
    exact (hzone i z hz).mpr fun item => h i z item hz hactive

/-- Levels a tick apart from 2 up, all with a buying imbalance. -/
def boughtFrom2 (count : Nat) : List PriceLevelRecord :=
  (List.range count).map fun i => { price := (2 + i : Nat), isBuyImbalance := true }

/-- The zone of the first `count` of them. -/
def zoneFrom2 (count : Nat) : ImbalanceZone :=
  ⟨"a", 0, .long, 2, (1 + count : Nat), count, 3, 3, 10, 10, 0, true⟩

/-- Four levels over a zone of three. -/
theorem detectStacked_notShrunk_four :
    ∃ s, detectStacked ⟨{}, fun _ => "b", boughtFrom2 4, "second", 20⟩ [zoneFrom2 3] = some s ∧
      ((∀ (i : Nat) (z z' : ImbalanceZone), [zoneFrom2 3][i]? = some z → z.isActive = true →
          s.zones[i]? = some z' → NotShrunk z z') ↔
        ∀ (i : Nat) (z : ImbalanceZone) (item : Side × Streak), [zoneFrom2 3][i]? = some z →
          z.isActive = true →
          (mergedInto [zoneFrom2 3] i (sidedStreaks 3 (boughtFrom2 4))).getLast? = some item →
          Covers item.2 z) :=
  detectStacked_notShrunk_iff ⟨{}, fun _ => "b", boughtFrom2 4, "second", 20⟩ (by decide) _

/-- Three levels over a zone of four. -/
theorem detectStacked_shrinks_three :
    ¬ ∀ s, detectStacked ⟨{}, fun _ => "b", boughtFrom2 3, "second", 20⟩ [zoneFrom2 4] = some s →
      ∀ (i : Nat) (z z' : ImbalanceZone), [zoneFrom2 4][i]? = some z → z.isActive = true →
        s.zones[i]? = some z' → NotShrunk z z' := by
  intro h
  have hcall : detectStacked ⟨{}, fun _ => "b", boughtFrom2 3, "second", 20⟩ [zoneFrom2 4] =
      some ⟨[{ zoneFrom2 4 with priceHigh := 4, imbalanceCount := 3, lastUpdatedTsNs := 20 }], []⟩ := by
    decide +kernel
  have hcount := (h _ hcall 0 _ _ rfl rfl rfl).count
  revert hcount
  decide

end SessionImbalance
