import OrderFlow.SessionZoneRegistry

/-!
# The zone registry over a whole history

Calls of `detect_stacked`, `update_zone_registry` and `set_config` on one
registry. A zone keeps its index and what it is known by, a zone that has been
resolved stays as it is, and active zones of one side keep their distance,
because a streak near the anchor of an active zone extends it.
-/
namespace SessionImbalance

open SessionTypes Upserts

inductive Call where
  | setConfig (config : ImbalanceConfig)
  | detectStacked (makeZoneId : Nat → String) (levels : List PriceLevelRecord) (barId : String)
      (barCloseTs : Int)
  | updateZoneRegistry (bar : BarRecord) (tickSize : Rat)

structure Detector where
  config : ImbalanceConfig
  activeZones : List ImbalanceZone
  deriving DecidableEq, Repr

def Detector.call (d : Detector) : Call → Option Detector
  | .setConfig config => some { d with config := config }
  | .detectStacked makeZoneId levels barId barCloseTs =>
    (detectStacked ⟨d.config, makeZoneId, levels, barId, barCloseTs⟩ d.activeZones).map
      fun stacked => { d with activeZones := stacked.zones }
  | .updateZoneRegistry bar tickSize =>
    some { d with activeZones := updateZoneRegistry d.activeZones bar tickSize }

def Detector.run (d : Detector) (calls : List Call) : Option Detector := calls.foldlM Detector.call d

theorem run_append (d : Detector) (earlier later : List Call) :
    d.run (earlier ++ later) = d.run earlier >>= (·.run later) := List.foldlM_append

theorem call_detectStacked {d : Detector} (hmin : 1 ≤ d.config.stackedMinCount)
    (makeZoneId : Nat → String) (levels : List PriceLevelRecord) (barId : String)
    (barCloseTs : Int) :
    d.call (.detectStacked makeZoneId levels barId barCloseTs) = some { d with
      activeZones := ((sidedStreaks d.config.stackedMinCount levels).foldl
        (buildSided ⟨d.config, makeZoneId, levels, barId, barCloseTs⟩) ⟨d.activeZones, []⟩).zones } := by
  rw [Detector.call, detectStacked_eq _ hmin]
  rfl

/-- `price_low` of a `LONG` zone, `price_high` of a `SHORT` one. -/
def ImbalanceZone.anchorPrice (z : ImbalanceZone) : Rat :=
  if z.direction = .long then z.priceLow else z.priceHigh

/-- What may happen to a zone. -/
structure Ages (z z' : ImbalanceZone) : Prop where
  zoneId : z'.zoneId = z.zoneId
  direction : z'.direction = z.direction
  anchorPrice : z'.anchorPrice = z.anchorPrice
  createdTsNs : z'.createdTsNs = z.createdTsNs
  frozen : z.isActive = false → z' = z

theorem ages_refl (z : ImbalanceZone) : Ages z z := ⟨rfl, rfl, rfl, rfl, fun _ => rfl⟩

theorem ages_trans (x y z : ImbalanceZone) (h : Ages x y) (h' : Ages y z) : Ages x z where
  zoneId := h'.zoneId.trans h.zoneId
  direction := h'.direction.trans h.direction
  anchorPrice := h'.anchorPrice.trans h.anchorPrice
  createdTsNs := h'.createdTsNs.trans h.createdTsNs
  frozen := by
    intro hx
    obtain rfl := h.frozen hx
    exact h'.frozen hx

/-- Two zones of one side that are both active lie apart. -/
def Distant (y z : ImbalanceZone) : Prop :=
  y.isActive = true → z.isActive = true → y.direction = z.direction →
    1 / 1000000 ≤ |y.anchorPrice - z.anchorPrice|

/-- A zone that ages has been active before. -/
theorem active_of_ages {z z' : ImbalanceZone} (h : Ages z z') (hactive : z'.isActive = true) :
    z.isActive = true := by
  cases hz : z.isActive with
  | true => rfl
  | false =>
    obtain rfl := h.frozen hz
    rw [hactive] at hz
    cases hz

theorem distant_of_ages (x y x' y' : ImbalanceZone) (hx : Ages x x') (hy : Ages y y')
    (h : Distant x y) : Distant x' y' := by
  intro hactive hactive' hdirection
  rw [hx.direction, hy.direction] at hdirection
  rw [hx.anchorPrice, hy.anchorPrice]
  exact h (active_of_ages hx hactive) (active_of_ages hy hactive') hdirection

/-- The anchor by which a scan finds its zones is the anchor of the zone. -/
theorem anchor_eq (side : Side) {z : ImbalanceZone} (h : z.direction = side.scan.direction) :
    side.scan.anchor z = z.anchorPrice := by
  cases side <;> simp [Side.scan, buyScan, sellScan] at h ⊢ <;> simp [ImbalanceZone.anchorPrice, h]

theorem ages_extended (side : Side) {streak : Streak} {z : ImbalanceZone}
    (h : side.scan.found streak z = true) (ts : Int) : Ages z (side.scan.extended streak ts z) := by
  obtain ⟨hdirection, hactive, -⟩ := found_iff.mp h
  cases side <;> simp only [Side.scan, buyScan, sellScan] at hdirection <;>
    constructor <;>
    simp [Side.scan, Scan.extended, buyScan, sellScan, ImbalanceZone.anchorPrice, hdirection, hactive]

theorem ages_updateZone (bar : BarRecord) (tickSize : Rat) (z : ImbalanceZone) :
    Ages z (updateZone bar tickSize z) := by
  unfold updateZone
  split
  · rename_i hactive
    split
    · exact ⟨rfl, rfl, rfl, rfl, fun hz => by rw [hactive] at hz; cases hz⟩
    · exact ages_refl z
  · exact ages_refl z

/-- A new zone is made only away from the active zones of its side. -/
theorem distant_newZone (input : ScanInput) (item : Side × Streak) (zones : List ImbalanceZone)
    (zoneId : String) (hnew : isNew (zoneUpsert input.config input.barCloseTs) zones item = true) :
    ∀ z ∈ zones, Distant z
      (item.1.scan.newZone input.config item.2 input.barCloseTs zoneId) := by
  intro z hz hactive _ hdirection
  have hside : (item.1.scan.newZone input.config item.2 input.barCloseTs zoneId).direction =
      item.1.scan.direction := rfl
  have hfound := found_iff.mp
    (found_newZone item.1 item.2 input.config input.barCloseTs zoneId)
  have hnot : item.1.scan.found item.2 z = false := by
    simpa [zoneUpsert] using List.all_eq_true.mp hnew z hz
  have hfar : ¬ |item.1.scan.anchor z -
      item.1.scan.anchorPrice item.2.zoneLow item.2.zoneHigh| < 1 / 1000000 := by
    intro hnear
    have hyes := found_iff.mpr ⟨hdirection.trans hside, hactive, hnear⟩
    rw [hnot] at hyes
    cases hyes
  have hanchor : item.1.scan.anchor
      (item.1.scan.newZone input.config item.2 input.barCloseTs zoneId) =
        item.1.scan.anchorPrice item.2.zoneLow item.2.zoneHigh := by
    cases item.1 <;> rfl
  rw [anchor_eq item.1 (hdirection.trans hside), ← hanchor, anchor_eq item.1 hside] at hfar
  exact not_lt.mp hfar

/-- One streak keeps the registry in order. -/
theorem registry_build (input : ScanInput) (s : Stacked) (item : Side × Streak)
    (h : s.zones.Pairwise Distant) :
    (buildSided input s item).zones.Pairwise Distant ∧
      Grows Ages s.zones (buildSided input s item).zones := by
  rw [buildSided_eq]
  split
  · rename_i hnew
    have hdistant := distant_newZone input item s.zones (input.makeZoneId s.zones.length) hnew
    constructor
    · rw [List.pairwise_append]
      exact ⟨h, List.pairwise_singleton _ _,
        fun z hz new hmem => List.mem_singleton.mp hmem ▸ hdistant z hz⟩
    · exact grows_append ages_refl _ _
  · have hgrows : Grows Ages s.zones
        (updateFirst (zoneUpsert input.config input.barCloseTs) item s.zones) :=
      grows_updateFirst ages_refl (fun z hz => ages_extended item.1 hz input.barCloseTs) s.zones
    exact ⟨pairwise_of_grows hgrows (length_updateFirst _ _) distant_of_ages h, hgrows⟩

/-- And so do all streaks of a bar, those for zones made on the way included. -/
theorem registry_foldl (input : ScanInput) (items : List (Side × Streak)) (s : Stacked)
    (h : s.zones.Pairwise Distant) :
    (items.foldl (buildSided input) s).zones.Pairwise Distant ∧
      Grows Ages s.zones (items.foldl (buildSided input) s).zones := by
  induction items generalizing s with
  | nil => exact ⟨h, grows_refl ages_refl _⟩
  | cons item items ih =>
    obtain ⟨hdistant, hgrows⟩ := registry_build input s item h
    obtain ⟨hdistant', hgrows'⟩ := ih (buildSided input s item) hdistant
    exact ⟨hdistant', grows_trans ages_trans hgrows hgrows'⟩

theorem registry_updateZoneRegistry (zones : List ImbalanceZone) (bar : BarRecord) (tickSize : Rat)
    (h : zones.Pairwise Distant) :
    (updateZoneRegistry zones bar tickSize).Pairwise Distant ∧
      Grows Ages zones (updateZoneRegistry zones bar tickSize) := by
  have hgrows : Grows Ages zones (updateZoneRegistry zones bar tickSize) :=
    grows_map (ages_updateZone bar tickSize) zones
  exact ⟨pairwise_of_grows hgrows (List.length_map _) distant_of_ages h, hgrows⟩

/-- The configurations that a sequence of calls sets are in range. -/
def InRange (calls : List Call) : Prop :=
  ∀ config, .setConfig config ∈ calls → 1 ≤ config.stackedMinCount

/-- What a call does to a detector whose registry is in order. -/
theorem registry_call {d : Detector} (hmin : 1 ≤ d.config.stackedMinCount)
    (h : d.activeZones.Pairwise Distant) (call : Call) (hcall : InRange [call]) :
    ∃ d', d.call call = some d' ∧ 1 ≤ d'.config.stackedMinCount ∧
      d'.activeZones.Pairwise Distant ∧ Grows Ages d.activeZones d'.activeZones := by
  cases call with
  | setConfig config =>
    exact ⟨_, rfl, hcall config (List.mem_singleton_self _), h, grows_refl ages_refl _⟩
  | detectStacked makeZoneId levels barId barCloseTs =>
    obtain ⟨hdistant, hgrows⟩ := registry_foldl ⟨d.config, makeZoneId, levels, barId, barCloseTs⟩
      (sidedStreaks d.config.stackedMinCount levels) ⟨d.activeZones, []⟩ h
    have hcalled := call_detectStacked hmin makeZoneId levels barId barCloseTs
    exact ⟨_, hcalled, hmin, hdistant, hgrows⟩
  | updateZoneRegistry bar tickSize =>
    obtain ⟨hdistant, hgrows⟩ := registry_updateZoneRegistry d.activeZones bar tickSize h
    exact ⟨_, rfl, hmin, hdistant, hgrows⟩

theorem registry_run {d : Detector} (hmin : 1 ≤ d.config.stackedMinCount)
    (h : d.activeZones.Pairwise Distant) (calls : List Call) (hcalls : InRange calls) :
    ∃ d', d.run calls = some d' ∧ 1 ≤ d'.config.stackedMinCount ∧
      d'.activeZones.Pairwise Distant ∧ Grows Ages d.activeZones d'.activeZones := by
  induction calls generalizing d with
  | nil => exact ⟨d, rfl, hmin, h, grows_refl ages_refl _⟩
  | cons call calls ih =>
    have hfirst : InRange [call] := fun config hconfig =>
      hcalls config (List.mem_singleton.mp hconfig ▸ List.mem_cons_self)
    have hrest : InRange calls := fun config hconfig =>
      hcalls config (List.mem_cons_of_mem _ hconfig)
    obtain ⟨d₁, hcall, hmin₁, h₁, hgrows₁⟩ := registry_call hmin h call hfirst
    obtain ⟨d₂, hrun, hmin₂, h₂, hgrows₂⟩ := ih hmin₁ h₁ hrest
    refine ⟨d₂, ?_, hmin₂, h₂, grows_trans ages_trans hgrows₁ hgrows₂⟩
    rw [Detector.run, List.foldlM_cons, hcall]
    exact hrun

/-- From an empty registry on, and between any two moments of its history: the
active zones of a side keep their distance, and every zone stays where it is and
ages as zones may. -/
theorem registry_history (config : ImbalanceConfig) (hmin : 1 ≤ config.stackedMinCount)
    (earlier later : List Call) (hcalls : InRange (earlier ++ later)) :
    ∃ before after, (Detector.mk config []).run earlier = some before ∧
      (Detector.mk config []).run (earlier ++ later) = some after ∧
      after.activeZones.Pairwise Distant ∧ Grows Ages before.activeZones after.activeZones := by
  have hearlier : InRange earlier := fun c hc => hcalls c (List.mem_append_left _ hc)
  have hlater : InRange later := fun c hc => hcalls c (List.mem_append_right _ hc)
  obtain ⟨before, hbefore, hmin', hdistant, -⟩ :=
    registry_run (d := ⟨config, []⟩) hmin List.Pairwise.nil earlier hearlier
  obtain ⟨after, hafter, -, hdistant', hgrows⟩ := registry_run hmin' hdistant later hlater
  refine ⟨before, after, hbefore, ?_, hdistant', hgrows⟩
  have hsplit := run_append ⟨config, []⟩ earlier later
  rw [hbefore] at hsplit
  rw [hsplit]
  exact hafter

/-- A buying stack at 2 to 4, extended upwards, resolved by a bar that trades
through it, and made again. -/
def stackedTwice : List Call :=
  let lvl (price : Rat) : PriceLevelRecord := { price := price, isBuyImbalance := true }
  [.detectStacked (fun _ => "a") [lvl 2, lvl 3, lvl 4] "first" 10,
    .detectStacked (fun _ => "b") [lvl 2, lvl 3, lvl 4, lvl 5] "second" 20,
    .updateZoneRegistry { barSize := ⟨.time, 60⟩, low := 1, high := 5, barCloseTsNs := 30 } 1]

def stackedAgain : List Call :=
  let lvl (price : Rat) : PriceLevelRecord := { price := price, isBuyImbalance := true }
  [.setConfig { stackedMinCount := 2 }, .detectStacked (fun _ => "c") [lvl 2, lvl 3] "third" 40]

theorem registry_history_stackedAgain :
    ∃ before after, (Detector.mk {} []).run stackedTwice = some before ∧
      (Detector.mk {} []).run (stackedTwice ++ stackedAgain) = some after ∧
      after.activeZones.Pairwise Distant ∧ Grows Ages before.activeZones after.activeZones := by
  refine registry_history {} (by decide) stackedTwice stackedAgain ?_
  intro config hconfig
  simp only [stackedTwice, stackedAgain, List.cons_append, List.nil_append, List.mem_cons,
    reduceCtorEq, Call.setConfig.injEq, List.not_mem_nil, or_false, false_or] at hconfig
  rw [hconfig]
  decide

end SessionImbalance
