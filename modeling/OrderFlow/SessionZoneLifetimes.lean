import OrderFlow.SessionZoneHistory

/-!
# The life of a zone

A zone is made by a scan and lives until the registry is shown a bar that trades through it.
Scans in between may extend it, but not at its anchor, and the anchor is all that such a bar
is compared with. So the bars shown since tell of every zone of a registry whether it is active,
and when it was resolved.
-/
namespace SessionImbalance

open SessionTypes Upserts

/-- The bar that the registry is shown, and the tick size it comes with. -/
def sightOf : Call → Option (BarRecord × Rat)
  | .updateZoneRegistry bar tickSize => some (bar, tickSize)
  | _ => none

/-- The first bar of some calls that trades through a zone. -/
def firstThrough (z : ImbalanceZone) (calls : List Call) : Option BarRecord :=
  ((calls.filterMap sightOf).find? fun sight => resolved sight.1 sight.2 z).map Prod.fst

/-- The zone at an index, made by a scan in front of `after`: it was not there before, and is
active until a bar trades through it. -/
structure Lived (new : Detector) (before : List Call) (made : Call) (after : List Call) (i : Nat)
    (z : ImbalanceZone) : Prop where
  unborn : ∃ d, new.run before = some d ∧ d.activeZones.length ≤ i
  born : ∃ d, new.run (before ++ [made]) = some d ∧ i < d.activeZones.length
  isActive : z.isActive = (firstThrough z after).isNone
  resolvedTsNs : z.resolvedTsNs = ((firstThrough z after).map (·.barCloseTsNs)).getD 0

/-- Only the anchor of a zone counts, and the side it is on. -/
theorem resolved_of_ages {z z' : ImbalanceZone} (h : Ages z z') (bar : BarRecord) (tickSize : Rat) :
    resolved bar tickSize z' = resolved bar tickSize z := by
  have hanchor := h.anchorPrice
  unfold resolved
  rw [h.direction]
  split
  · rename_i hlong
    rw [ImbalanceZone.anchorPrice, ImbalanceZone.anchorPrice, h.direction, if_pos hlong,
      if_pos hlong] at hanchor
    rw [hanchor]
  · rename_i hshort
    rw [ImbalanceZone.anchorPrice, ImbalanceZone.anchorPrice, h.direction, if_neg hshort,
      if_neg hshort] at hanchor
    rw [hanchor]

theorem firstThrough_of_ages {z z' : ImbalanceZone} (h : Ages z z') (calls : List Call) :
    firstThrough z' calls = firstThrough z calls := by
  have hsame : (fun sight : BarRecord × Rat => resolved sight.1 sight.2 z') =
      fun sight => resolved sight.1 sight.2 z :=
    funext fun sight => resolved_of_ages h sight.1 sight.2
  rw [firstThrough, firstThrough, hsame]

theorem firstThrough_snoc_unseen (z : ImbalanceZone) (calls : List Call) {c : Call}
    (hc : sightOf c = none) : firstThrough z (calls ++ [c]) = firstThrough z calls := by
  have hnone : [c].filterMap sightOf = [] := by simp [hc]
  rw [firstThrough, List.filterMap_append, hnone, List.append_nil, firstThrough]

theorem firstThrough_snoc_bar (z : ImbalanceZone) (calls : List Call) (bar : BarRecord)
    (tickSize : Rat) :
    firstThrough z (calls ++ [.updateZoneRegistry bar tickSize]) =
      (firstThrough z calls).or (if resolved bar tickSize z = true then some bar else none) := by
  rw [firstThrough, firstThrough, List.filterMap_append, List.find?_append, Option.map_or]
  congr 1
  cases hthrough : resolved bar tickSize z with
  | true => simp [sightOf, hthrough]
  | false => simp [sightOf, hthrough]

/-- A zone that a scan has left active or not, as it was. -/
structure Carried (z z' : ImbalanceZone) : Prop where
  ages : Ages z z'
  isActive : z'.isActive = z.isActive
  resolvedTsNs : z'.resolvedTsNs = z.resolvedTsNs

structure Fresh (ts : Int) (z : ImbalanceZone) : Prop where
  createdTsNs : z.createdTsNs = ts
  isActive : z.isActive = true
  resolvedTsNs : z.resolvedTsNs = 0

theorem carried_refl (z : ImbalanceZone) : Carried z z := ⟨ages_refl z, rfl, rfl⟩

theorem carried_trans (x y z : ImbalanceZone) (h : Carried x y) (h' : Carried y z) : Carried x z :=
  ⟨ages_trans x y z h.ages h'.ages, h'.isActive.trans h.isActive,
    h'.resolvedTsNs.trans h.resolvedTsNs⟩

theorem carried_extended (side : Side) {streak : Streak} {z : ImbalanceZone}
    (h : side.scan.found streak z = true) (ts : Int) :
    Carried z (side.scan.extended streak ts z) := by
  refine ⟨ages_extended side h ts, ?_, ?_⟩
  · cases side <;> rfl
  · cases side <;> rfl

theorem fresh_of_carried {ts : Int} {z z' : ImbalanceZone} (h : Carried z z') (hfresh : Fresh ts z) :
    Fresh ts z' :=
  ⟨h.ages.createdTsNs.trans hfresh.createdTsNs, h.isActive.trans hfresh.isActive,
    h.resolvedTsNs.trans hfresh.resolvedTsNs⟩

/-- A registry whose old zones were carried along, and whose other ones are fresh. -/
structure Scanned (ts : Int) (zones zones' : List ImbalanceZone) : Prop where
  length : zones.length ≤ zones'.length
  old : Grows Carried zones zones'
  fresh : ∀ i z, zones.length ≤ i → zones'[i]? = some z → Fresh ts z

theorem scanned_refl (ts : Int) (zones : List ImbalanceZone) : Scanned ts zones zones := by
  refine ⟨le_rfl, grows_refl carried_refl zones, ?_⟩
  intro i z hi hz
  rw [List.getElem?_eq_none hi] at hz
  cases hz

/-- One streak extends a zone, or adds a fresh one at the end. -/
theorem scanned_build {input : ScanInput} {zones : List ImbalanceZone} {s : Stacked}
    (h : Scanned input.barCloseTs zones s.zones) (item : Side × Streak) :
    Scanned input.barCloseTs zones (buildSided input s item).zones := by
  rw [buildSided_eq]
  split
  · refine ⟨by simpa using h.length.trans (Nat.le_succ _), ?_, ?_⟩
    · exact grows_trans carried_trans h.old (grows_append carried_refl _ _)
    · intro i z hi hz
      rcases Nat.lt_or_ge i s.zones.length with hlt | hge
      · rw [List.getElem?_append_left hlt] at hz
        exact h.fresh i z hi hz
      · rw [List.getElem?_append_right hge, List.getElem?_singleton] at hz
        split at hz
        · obtain rfl := Option.some.inj hz
          exact ⟨rfl, rfl, rfl⟩
        · cases hz
  · have hgrows : Grows Carried s.zones
        (updateFirst (zoneUpsert input.config input.barCloseTs) item s.zones) :=
      grows_updateFirst carried_refl
        (fun z hz => carried_extended item.1 hz input.barCloseTs) s.zones
    have hlength := length_updateFirst (u := zoneUpsert input.config input.barCloseTs) item s.zones
    refine ⟨hlength ▸ h.length, grows_trans carried_trans h.old hgrows, ?_⟩
    intro i z hi hz
    have hlt : i < s.zones.length := hlength ▸ (List.getElem?_eq_some_iff.mp hz).1
    obtain ⟨z', hz', hcarried⟩ := hgrows i _ (List.getElem?_eq_getElem hlt)
    rw [hz] at hz'
    obtain rfl := Option.some.inj hz'
    exact fresh_of_carried hcarried (h.fresh i _ hi (List.getElem?_eq_getElem hlt))

theorem scanned_foldl (input : ScanInput) (items : List (Side × Streak)) {zones : List ImbalanceZone}
    {s : Stacked} (h : Scanned input.barCloseTs zones s.zones) :
    Scanned input.barCloseTs zones (items.foldl (buildSided input) s).zones := by
  induction items generalizing s with
  | nil => exact h
  | cons item items ih => exact ih (scanned_build h item)

section Step

variable {new : Detector} {before : List Call} {made : Call} {after : List Call} {i : Nat}
  {z : ImbalanceZone}

/-- A call that shows the registry no bar carries a life on. -/
theorem lived_carried (h : Lived new before made after i z) {z' : ImbalanceZone}
    (hcarried : Carried z z') {c : Call} (hc : sightOf c = none) :
    Lived new before made (after ++ [c]) i z' := by
  have hthrough : firstThrough z' (after ++ [c]) = firstThrough z after := by
    rw [firstThrough_snoc_unseen _ _ hc, firstThrough_of_ages hcarried.ages]
  refine ⟨h.unborn, h.born, ?_, ?_⟩
  · rw [hthrough, hcarried.isActive, h.isActive]
  · rw [hthrough, hcarried.resolvedTsNs, h.resolvedTsNs]

/-- A bar ends it, if it trades through the zone and none before it has. -/
theorem lived_updateZone (h : Lived new before made after i z) (bar : BarRecord) (tickSize : Rat) :
    Lived new before made (after ++ [.updateZoneRegistry bar tickSize]) i
      (updateZone bar tickSize z) := by
  have hthrough : firstThrough (updateZone bar tickSize z)
      (after ++ [.updateZoneRegistry bar tickSize]) =
        (firstThrough z after).or (if resolved bar tickSize z = true then some bar else none) := by
    rw [firstThrough_of_ages (ages_updateZone bar tickSize z), firstThrough_snoc_bar]
  have hactive := h.isActive
  have hresolvedTs := h.resolvedTsNs
  cases hfirst : firstThrough z after with
  | some first =>
    rw [hfirst, Option.isNone_some] at hactive
    have hsame : updateZone bar tickSize z = z := by simp [updateZone, hactive]
    rw [hfirst, Option.some_or, hsame] at hthrough
    rw [hfirst] at hresolvedTs
    rw [hsame]
    exact ⟨h.unborn, h.born, by rw [hthrough, hactive, Option.isNone_some],
      by rw [hthrough, hresolvedTs]⟩
  | none =>
    rw [hfirst, Option.isNone_none] at hactive
    rw [hfirst, Option.map_none, Option.getD_none] at hresolvedTs
    rw [hfirst, Option.none_or] at hthrough
    refine ⟨h.unborn, h.born, ?_, ?_⟩ <;> rw [hthrough] <;>
      cases hbar : resolved bar tickSize z <;> simp [updateZone, hactive, hresolvedTs, hbar]

/-- A fresh zone begins its life. -/
theorem lived_fresh (hunborn : ∃ d, new.run before = some d ∧ d.activeZones.length ≤ i)
    (hborn : ∃ d, new.run (before ++ [made]) = some d ∧ i < d.activeZones.length) {ts : Int}
    (h : Fresh ts z) :
    Lived new before made [] i z :=
  ⟨hunborn, hborn, h.isActive, h.resolvedTsNs⟩

end Step

/-- Each zone of a registry has lived since some scan of the calls. -/
def AllLived (new : Detector) (calls : List Call) (zones : List ImbalanceZone) : Prop :=
  ∀ i z, zones[i]? = some z → ∃ before makeZoneId levels barId barCloseTs after,
    calls = before ++ .detectStacked makeZoneId levels barId barCloseTs :: after ∧
      z.createdTsNs = barCloseTs ∧ Lived new before (.detectStacked makeZoneId levels barId barCloseTs) after i z

theorem allLived_carried {new : Detector} {calls : List Call} {zones : List ImbalanceZone}
    (h : AllLived new calls zones) {c : Call} (hc : sightOf c = none) {i : Nat} {z' : ImbalanceZone}
    {z : ImbalanceZone} (hz : zones[i]? = some z) (hcarried : Carried z z') :
    ∃ before makeZoneId levels barId barCloseTs after,
      calls ++ [c] = before ++ .detectStacked makeZoneId levels barId barCloseTs :: after ∧
        z'.createdTsNs = barCloseTs ∧ Lived new before (.detectStacked makeZoneId levels barId barCloseTs) after i z' := by
  obtain ⟨before, makeZoneId, levels, barId, barCloseTs, after, rfl, hcreated, hlived⟩ := h i z hz
  exact ⟨before, makeZoneId, levels, barId, barCloseTs, after ++ [c], by simp,
    hcarried.ages.createdTsNs.trans hcreated, lived_carried hlived hcarried hc⟩

/-- One call. -/
theorem allLived_call {new d d' : Detector} {calls : List Call} (hrun : new.run calls = some d)
    (hmin : 1 ≤ d.config.stackedMinCount) (h : AllLived new calls d.activeZones) {c : Call}
    (hcall : d.call c = some d') : AllLived new (calls ++ [c]) d'.activeZones := by
  have hafter : new.run (calls ++ [c]) = some d' := by
    rw [run_append, hrun]
    simpa [Detector.run] using hcall
  intro i z' hz'
  cases c with
  | setConfig config =>
    obtain rfl := Option.some.inj hcall
    exact allLived_carried h rfl hz' (carried_refl z')
  | updateZoneRegistry bar tickSize =>
    obtain rfl := Option.some.inj hcall
    rw [updateZoneRegistry, List.getElem?_map, Option.map_eq_some_iff] at hz'
    obtain ⟨z, hz, rfl⟩ := hz'
    obtain ⟨before, makeZoneId, levels, barId, barCloseTs, after, rfl, hcreated, hlived⟩ := h i z hz
    exact ⟨before, makeZoneId, levels, barId, barCloseTs, _, by simp,
      (ages_updateZone bar tickSize z).createdTsNs.trans hcreated, lived_updateZone hlived bar tickSize⟩
  | detectStacked makeZoneId levels barId barCloseTs =>
    rw [call_detectStacked hmin] at hcall
    obtain rfl := Option.some.inj hcall
    have hscanned := scanned_foldl ⟨d.config, makeZoneId, levels, barId, barCloseTs⟩
      (sidedStreaks d.config.stackedMinCount levels) (s := ⟨d.activeZones, []⟩)
      (scanned_refl barCloseTs d.activeZones)
    rcases Nat.lt_or_ge i d.activeZones.length with hlt | hge
    · have hz := List.getElem?_eq_getElem hlt
      obtain ⟨z, hz'', hcarried⟩ := hscanned.old i _ hz
      rw [hz'] at hz''
      obtain rfl := Option.some.inj hz''
      exact allLived_carried h rfl hz hcarried
    · have hfresh := hscanned.fresh i z' hge hz'
      exact ⟨calls, makeZoneId, levels, barId, barCloseTs, [], rfl, hfresh.createdTsNs,
        lived_fresh ⟨d, hrun, hge⟩ ⟨_, hafter, (List.getElem?_eq_some_iff.mp hz').1⟩ hfresh⟩

/-- In every registry that calls can leave, each zone was made by one of them, is active exactly
if no bar shown since has traded through it, and was resolved at the close of the first bar that
has. -/
theorem zone_lifetimes (config : ImbalanceConfig) (hmin : 1 ≤ config.stackedMinCount)
    (calls : List Call) (hcalls : InRange calls) :
    ∃ d, (Detector.mk config []).run calls = some d ∧
      AllLived (Detector.mk config []) calls d.activeZones := by
  induction calls using List.reverseRecOn with
  | nil => exact ⟨_, rfl, fun i z hz => by simp at hz⟩
  | append_singleton calls c ih =>
    have hearlier : InRange calls := fun other hother => hcalls other (List.mem_append_left _ hother)
    obtain ⟨d, hrun, hlived⟩ := ih hearlier
    obtain ⟨d₁, hrun₁, hmin₁, -, -⟩ :=
      registry_run (d := ⟨config, []⟩) hmin List.Pairwise.nil calls hearlier
    rw [hrun] at hrun₁
    obtain rfl := Option.some.inj hrun₁
    obtain ⟨d', hrun', -⟩ := registry_run (d := ⟨config, []⟩) hmin List.Pairwise.nil _ hcalls
    refine ⟨d', hrun', allLived_call hrun hmin₁ hlived ?_⟩
    rw [run_append, hrun] at hrun'
    simpa [Detector.run] using hrun'

theorem zone_lifetimes_stackedTwice :
    ∃ d, (Detector.mk {} []).run stackedTwice = some d ∧
      AllLived (Detector.mk {} []) stackedTwice d.activeZones := by
  refine zone_lifetimes {} (by decide) stackedTwice ?_
  intro config hconfig
  simp [stackedTwice] at hconfig

end SessionImbalance
