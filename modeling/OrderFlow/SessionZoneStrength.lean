import OrderFlow.SessionZoneMerges

/-!
# The strength of a zone

The strength is computed from the count and the ratio when a zone is made. A run that is
merged into the zone later writes the count alone, so the strength stays true exactly if the
count of the run gives the strength the zone has. The strength is cut off at 1 and at 10, so
runs of different length may do.
-/
namespace SessionImbalance

open GuardedRuns SessionTypes Upserts

/-- The strength of a zone is that of the zone as it is. -/
def UpToDate (config : ImbalanceConfig) (z : ImbalanceZone) : Prop :=
  z.strengthScore = computeZoneStrength config z

/-- A zone with the count of the streak has the strength it has now. -/
def SameStrength (config : ImbalanceConfig) (streak : Streak) (z : ImbalanceZone) : Prop :=
  computeZoneStrength config { z with imbalanceCount := streak.count } = computeZoneStrength config z

theorem upToDate_newZone (scan : Scan) (config : ImbalanceConfig) (streak : Streak) (ts : Int)
    (zoneId : String) : UpToDate config (scan.newZone config streak ts zoneId) := rfl

theorem upToDate_extended_iff (side : Side) {config : ImbalanceConfig} (streak : Streak) (ts : Int)
    {z : ImbalanceZone} (h : UpToDate config z) :
    UpToDate config (side.scan.extended streak ts z) ↔ SameStrength config streak z := by
  have hstrength : (side.scan.extended streak ts z).strengthScore = z.strengthScore := by
    cases side <;> rfl
  have hcompute : computeZoneStrength config (side.scan.extended streak ts z) =
      computeZoneStrength config { z with imbalanceCount := streak.count } := by
    cases side <;> rfl
  rw [UpToDate, hstrength, hcompute, h]
  exact eq_comm

theorem upToDate_updateZone {config : ImbalanceConfig} (bar : BarRecord) (tickSize : Rat)
    {z : ImbalanceZone} (h : UpToDate config z) : UpToDate config (updateZone bar tickSize z) := by
  unfold updateZone
  split
  · split
    · exact h
    · exact h
  · exact h

/-- A streak that is merged into a zone keeps the strength of it. -/
def MergesAtStrength (config : ImbalanceConfig) (s : Stacked) (item : Side × Streak) : Prop :=
  ∀ z, s.zones.find? (item.1.scan.found item.2) = some z → SameStrength config item.2 z

/-- One streak. -/
theorem upToDate_build_iff (input : ScanInput) (s : Stacked) (item : Side × Streak)
    (h : ∀ z ∈ s.zones, UpToDate input.config z) :
    (∀ z ∈ (buildSided input s item).zones, UpToDate input.config z) ↔
      MergesAtStrength input.config s item := by
  rw [buildSided_eq]
  split
  · rename_i hnew
    have hnone : s.zones.find? (item.1.scan.found item.2) = none := isNew_iff_find?.mp hnew
    constructor
    · intro _ z hz
      rw [hnone] at hz
      cases hz
    · intro _ z hz
      rcases List.mem_append.mp hz with hz | hz
      · exact h z hz
      · rw [List.mem_singleton.mp hz]
        exact upToDate_newZone _ _ _ _ _
  · rw [forall_updateFirst_iff h]
    constructor
    · intro hall z hz
      have hmem := List.mem_of_find?_eq_some hz
      exact (upToDate_extended_iff item.1 item.2 input.barCloseTs (h z hmem)).mp (hall z hz)
    · intro hmerges z hz
      have hmem := List.mem_of_find?_eq_some hz
      exact (upToDate_extended_iff item.1 item.2 input.barCloseTs (h z hmem)).mpr (hmerges z hz)

/-- All streaks of a bar. -/
theorem upToDate_foldl (input : ScanInput) (items : List (Side × Streak)) (s : Stacked)
    (h : ∀ z ∈ s.zones, UpToDate input.config z)
    (hmerges : Guarded (buildSided input) (MergesAtStrength input.config) s items) :
    ∀ z ∈ (items.foldl (buildSided input) s).zones, UpToDate input.config z :=
  inv_of_guarded (fun s : Stacked => ∀ z ∈ s.zones, UpToDate input.config z)
    (fun s item hs hfine => (upToDate_build_iff input s item hs).mpr hfine) h hmerges
    (List.prefix_refl items)

/-- Every run that a call merges into a zone keeps the strength of that zone. -/
def Detector.MergesAtStrength (d : Detector) : Call → Prop
  | .detectStacked makeZoneId levels barId barCloseTs =>
    Guarded (buildSided ⟨d.config, makeZoneId, levels, barId, barCloseTs⟩)
      (SessionImbalance.MergesAtStrength d.config) ⟨d.activeZones, []⟩
      (sidedStreaks d.config.stackedMinCount levels)
  | _ => True

/-- One call. -/
theorem upToDate_call {d : Detector} (hmin : 1 ≤ d.config.stackedMinCount) {call : Call}
    (hfixed : ∀ config, call ≠ .setConfig config) (h : ∀ z ∈ d.activeZones, UpToDate d.config z)
    (hmerges : d.MergesAtStrength call) :
    ∃ d', d.call call = some d' ∧ d'.config = d.config ∧
      ∀ z ∈ d'.activeZones, UpToDate d.config z := by
  cases call with
  | setConfig config => exact absurd rfl (hfixed config)
  | detectStacked makeZoneId levels barId barCloseTs =>
    have hzones := upToDate_foldl ⟨d.config, makeZoneId, levels, barId, barCloseTs⟩
      (sidedStreaks d.config.stackedMinCount levels) ⟨d.activeZones, []⟩ h hmerges
    have hcalled := call_detectStacked hmin makeZoneId levels barId barCloseTs
    exact ⟨_, hcalled, rfl, hzones⟩
  | updateZoneRegistry bar tickSize =>
    refine ⟨_, rfl, rfl, ?_⟩
    intro z hz
    obtain ⟨z', hz', rfl⟩ := List.mem_map.mp hz
    exact upToDate_updateZone bar tickSize (h z' hz')

/-- From an empty registry on, under one configuration: if every run that some call merges into
a zone keeps its strength, the strength of every zone is up to date in every state. -/
theorem upToDate_run (config : ImbalanceConfig) (hmin : 1 ≤ config.stackedMinCount)
    (calls : List Call) (hfixed : ∀ call ∈ calls, ∀ other, call ≠ .setConfig other)
    (hmerges : ∀ before call after d, calls = before ++ call :: after →
      (Detector.mk config []).run before = some d → d.MergesAtStrength call)
    (before after : List Call) (hcalls : calls = before ++ after) :
    ∃ d, (Detector.mk config []).run before = some d ∧ ∀ z ∈ d.activeZones, UpToDate config z := by
  have hrun : ∃ d, (Detector.mk config []).run before = some d ∧ d.config = config ∧
      ∀ z ∈ d.activeZones, UpToDate config z := by
    induction before using List.reverseRecOn generalizing after with
    | nil => exact ⟨_, rfl, rfl, by simp⟩
    | append_singleton before call ih =>
      rw [List.append_assoc, List.singleton_append] at hcalls
      obtain ⟨d, hd, hconfig, hzones⟩ := ih (call :: after) hcalls
      have hcall : call ∈ calls := by simp [hcalls]
      obtain ⟨d', hd', hconfig', hzones'⟩ := upToDate_call (hconfig ▸ hmin) (hfixed call hcall)
        (by rw [hconfig]; exact hzones) (hmerges before call after d hcalls hd)
      refine ⟨d', ?_, hconfig'.trans hconfig, by rw [hconfig] at hzones'; exact hzones'⟩
      rw [run_append, hd]
      simpa [Detector.run] using hd'
  obtain ⟨d, hd, -, hzones⟩ := hrun
  exact ⟨d, hd, hzones⟩

def boughtCall (count : Nat) : Call := .detectStacked (fun _ => "a") (boughtFrom2 count) "bar" 10

/-- Three levels twice. -/
theorem upToDate_run_three :
    ∃ d, (Detector.mk {} []).run [boughtCall 3, boughtCall 3] = some d ∧
      ∀ z ∈ d.activeZones, UpToDate {} z := by
  have hitems : sidedStreaks 3 (boughtFrom2 3) = [(.buying, ⟨2, 4, 3⟩)] := by decide +kernel
  have hfirst : (Detector.mk {} []).run [boughtCall 3] = some ⟨{}, [zoneFrom2 3]⟩ := by decide +kernel
  refine upToDate_run {} (by decide) [boughtCall 3, boughtCall 3] ?_ ?_ _ [] rfl
  · intro call hcall other
    simp only [List.mem_cons, List.not_mem_nil, or_false, or_self] at hcall
    rw [hcall]
    exact fun h => by cases h
  · intro before call after d hsplit hd
    rcases before with _ | ⟨_, _ | ⟨_, before⟩⟩
    · cases hsplit
      cases hd
      simp [Detector.MergesAtStrength, boughtCall, hitems, Guarded, MergesAtStrength]
    · cases hsplit
      rw [hfirst] at hd
      cases hd
      simp [Detector.MergesAtStrength, boughtCall, hitems, Guarded, MergesAtStrength, zoneFrom2,
        SameStrength]
    · simp at hsplit

/-- Three levels, and then four. The zone has four imbalances then and the strength of three. -/
theorem not_upToDate_four :
    ¬ ∀ d, (Detector.mk {} []).run [boughtCall 3, boughtCall 4] = some d →
      ∀ z ∈ d.activeZones, UpToDate {} z := by
  intro h
  have hcalls : (Detector.mk {} []).run [boughtCall 3, boughtCall 4] = some
      ⟨{}, [{ zoneFrom2 3 with priceHigh := 5, imbalanceCount := 4 }]⟩ := by decide +kernel
  have hstrength := h _ hcalls _ (List.mem_singleton_self _)
  revert hstrength
  unfold UpToDate
  decide +kernel

end SessionImbalance
