import OrderFlow.SessionZones

/-!
# The mirror of a bar

Prices are negated and bids exchanged with asks. The levels of the mirrored bar
are flagged as the mirrored levels, and its streaks are the mirrored ones from the
last to the first. The zones do not depend on that order, because no zone can be
found by two streaks of a bar.
-/
namespace SessionImbalance

open MaximalRuns SessionTypes TickGrid Upserts

def mirrorLevel (lvl : PriceLevelRecord) : PriceLevelRecord :=
  { lvl with
    price := -lvl.price
    bidVol := lvl.askVol
    askVol := lvl.bidVol
    delta := -lvl.delta
    isBuyImbalance := lvl.isSellImbalance
    isSellImbalance := lvl.isBuyImbalance }

def mirrorLevels (levels : List PriceLevelRecord) : List PriceLevelRecord :=
  (levels.map mirrorLevel).reverse

def mirrorBar (bar : BarRecord) : BarRecord :=
  { bar with
    openPrice := -bar.openPrice
    high := -bar.low
    low := -bar.high
    close := -bar.close
    barDelta := -bar.barDelta
    maxDelta := -bar.minDelta
    minDelta := -bar.maxDelta
    cumulativeDelta := -bar.cumulativeDelta
    deltaPct := -bar.deltaPct
    pocPrice := -bar.pocPrice
    cotPrice := -bar.cotPrice
    hasBuyImbalance := bar.hasSellImbalance
    hasSellImbalance := bar.hasBuyImbalance
    priceLevels := mirrorLevels bar.priceLevels }

def mirrorDirection : SignalDirection → SignalDirection
  | .long => .short
  | .short => .long
  | direction => direction

def mirrorType : SignalType → SignalType
  | .singleImbalanceBuy => .singleImbalanceSell
  | .singleImbalanceSell => .singleImbalanceBuy
  | .stackedImbalanceBuy => .stackedImbalanceSell
  | .stackedImbalanceSell => .stackedImbalanceBuy
  | .absorption => .absorption
  | .trappedBuyers => .trappedSellers
  | .trappedSellers => .trappedBuyers

def mirrorZone (z : ImbalanceZone) : ImbalanceZone :=
  { z with
    direction := mirrorDirection z.direction
    priceLow := -z.priceHigh
    priceHigh := -z.priceLow }

def forgetId (z : ImbalanceZone) : ImbalanceZone := { z with zoneId := "" }

/-- What a signal says, apart from where and when. -/
structure SignalKind where
  type : SignalType
  direction : SignalDirection
  strength : SignalStrength
  deriving DecidableEq, Repr

def SignalEvent.kind (e : SignalEvent) : SignalKind := ⟨e.type, e.direction, e.strength⟩

def mirrorKind (kind : SignalKind) : SignalKind :=
  ⟨mirrorType kind.type, mirrorDirection kind.direction, kind.strength⟩

theorem mirrorLevel_mirrorLevel (lvl : PriceLevelRecord) : mirrorLevel (mirrorLevel lvl) = lvl := by
  simp [mirrorLevel]

theorem mirrorLevels_mirrorLevels (levels : List PriceLevelRecord) :
    mirrorLevels (mirrorLevels levels) = levels := by
  simp [mirrorLevels, Function.comp_def, mirrorLevel_mirrorLevel]

theorem length_mirrorLevels (levels : List PriceLevelRecord) :
    (mirrorLevels levels).length = levels.length := by
  simp [mirrorLevels]

/-- The distance of a level from a price. -/
theorem abs_mirrorLevel_sub (lvl : PriceLevelRecord) (price : Rat) :
    |(mirrorLevel lvl).price - -price| = |lvl.price - price| := by
  rw [mirrorLevel, ← abs_neg]
  congr 1
  ring

theorem map_mirrorLevels {f g : PriceLevelRecord → PriceLevelRecord} {levels : List PriceLevelRecord}
    (h : ∀ lvl ∈ levels, f (mirrorLevel lvl) = mirrorLevel (g lvl)) :
    (mirrorLevels levels).map f = mirrorLevels (levels.map g) := by
  rw [mirrorLevels, mirrorLevels, List.map_reverse, List.map_map, List.map_map]
  exact congrArg List.reverse (List.map_congr_left h)

theorem filter_mirrorLevels {p q : PriceLevelRecord → Bool} {levels : List PriceLevelRecord}
    (h : ∀ lvl ∈ levels, p (mirrorLevel lvl) = q lvl) :
    (mirrorLevels levels).filter p = mirrorLevels (levels.filter q) := by
  rw [mirrorLevels, mirrorLevels, List.filter_reverse, List.filter_map]
  exact congrArg (fun ls => (List.map mirrorLevel ls).reverse) (List.filter_congr h)

theorem countP_mirrorLevels {p q : PriceLevelRecord → Bool} {levels : List PriceLevelRecord}
    (h : ∀ lvl ∈ levels, p (mirrorLevel lvl) = q lvl) :
    (mirrorLevels levels).countP p = levels.countP q := by
  rw [List.countP_eq_length_filter, List.countP_eq_length_filter, filter_mirrorLevels h,
    length_mirrorLevels]

theorem gridLevels_mirror {tickSize : Rat} {levels : List PriceLevelRecord}
    (h : GridLevels tickSize levels) : GridLevels tickSize (mirrorLevels levels) where
  ascending := by
    rw [mirrorLevels, List.pairwise_reverse, List.pairwise_map]
    exact h.ascending.imp fun hlt => neg_lt_neg hlt
  grid := by
    intro lvl hlvl
    rw [mirrorLevels, List.mem_reverse, List.mem_map] at hlvl
    obtain ⟨lvl, hlvl, rfl⟩ := hlvl
    exact onGrid_neg (h.grid lvl hlvl)

/-- A level is looked up from below, and so from above in the mirror. -/
theorem findLevel_mirror {tickSize : Rat} (hpos : 0 < tickSize) {levels : List PriceLevelRecord}
    (h : GridLevels tickSize levels) {price : Rat} (hprice : OnGrid tickSize price) :
    findLevel (mirrorLevels levels) (-price) tickSize =
      (findLevel levels price tickSize).map mirrorLevel := by
  have hone : ∀ lvl ∈ levels.reverse, ∀ lvl' ∈ levels.reverse,
      decide (|lvl.price - price| < tickSize * (1 / 100)) = true →
      decide (|lvl'.price - price| < tickSize * (1 / 100)) = true → lvl = lvl' := by
    intro lvl hlvl lvl' hlvl' hnear hnear'
    rw [List.mem_reverse] at hlvl hlvl'
    exact eq_of_price_eq h.distinct hlvl hlvl'
      ((price_of_near hpos h.distinct hprice hlvl (of_decide_eq_true hnear)).trans
        (price_of_near hpos h.distinct hprice hlvl' (of_decide_eq_true hnear')).symm)
  simp only [findLevel, mirrorLevels, ← List.map_reverse, List.find?_map, Function.comp_def,
    abs_mirrorLevel_sub]
  rw [find?_of_perm (List.reverse_perm levels) hone]

section Flags

variable (config : ImbalanceConfig) {tickSize : Rat} (hpos : 0 < tickSize)
  {levels : List PriceLevelRecord} (h : GridLevels tickSize levels)

include hpos h

theorem buyImbalance_mirror {lvl : PriceLevelRecord} (hlvl : OnGrid tickSize lvl.price) :
    buyImbalance config (mirrorLevels levels) tickSize (mirrorLevel lvl) =
      sellImbalance config levels tickSize lvl := by
  have hbelow : (mirrorLevel lvl).price - tickSize = -(lvl.price + tickSize) := by
    rw [mirrorLevel]
    ring
  rw [buyImbalance, sellImbalance, hbelow,
    findLevel_mirror hpos h (onGrid_add hlvl (onGrid_tick tickSize))]
  cases findLevel levels (lvl.price + tickSize) tickSize <;> rfl

theorem sellImbalance_mirror {lvl : PriceLevelRecord} (hlvl : OnGrid tickSize lvl.price) :
    sellImbalance config (mirrorLevels levels) tickSize (mirrorLevel lvl) =
      buyImbalance config levels tickSize lvl := by
  have hmirror : OnGrid tickSize (mirrorLevel lvl).price := onGrid_neg hlvl
  have hback := buyImbalance_mirror config hpos (gridLevels_mirror h) hmirror
  rw [mirrorLevels_mirrorLevels, mirrorLevel_mirrorLevel] at hback
  exact hback.symm

theorem flagLevel_mirror {lvl : PriceLevelRecord} (hlvl : OnGrid tickSize lvl.price) :
    flagLevel config (mirrorLevels levels) tickSize (mirrorLevel lvl) =
      mirrorLevel (flagLevel config levels tickSize lvl) := by
  simp only [flagLevel, buyImbalance_mirror config hpos h hlvl, sellImbalance_mirror config hpos h hlvl]
  rfl

theorem detectSingleImbalances_mirror :
    detectSingleImbalances config (mirrorLevels levels) tickSize =
      let singles := detectSingleImbalances config levels tickSize
      ⟨mirrorLevels singles.levels, singles.sellCount, singles.buyCount⟩ := by
  rw [detectSingleImbalances_eq, detectSingleImbalances_eq,
    map_mirrorLevels fun lvl hlvl => flagLevel_mirror config hpos h (h.grid lvl hlvl),
    countP_mirrorLevels fun lvl hlvl => buyImbalance_mirror config hpos h (h.grid lvl hlvl),
    countP_mirrorLevels fun lvl hlvl => sellImbalance_mirror config hpos h (h.grid lvl hlvl)]

end Flags

theorem flagBar_mirror {config : ImbalanceConfig} {tickSize : Rat} (hpos : 0 < tickSize)
    {bar : BarRecord} (h : GridLevels tickSize bar.priceLevels) :
    flagBar config (mirrorBar bar) tickSize = mirrorBar (flagBar config bar tickSize) := by
  have hsingles := detectSingleImbalances_mirror config hpos h
  simp only [flagBar, mirrorBar, hsingles]

/-- The signals of one list are those of the other, mirrored. -/
def Mirrored (mirrored events : List SignalEvent) : Prop :=
  (mirrored.map (·.kind)).Perm ((events.map (·.kind)).map mirrorKind)

theorem mirrored_append {mirrored mirrored' events events' : List SignalEvent}
    (h : Mirrored mirrored events) (h' : Mirrored mirrored' events') :
    Mirrored (mirrored ++ mirrored') (events ++ events') := by
  unfold Mirrored
  simp only [List.map_append]
  exact h.append h'

/-- Two detectors that run in a fixed order mirror each other. -/
theorem mirrored_swap {mirrored mirrored' events events' : List SignalEvent}
    (h : Mirrored mirrored events') (h' : Mirrored mirrored' events) :
    Mirrored (mirrored ++ mirrored') (events ++ events') := by
  unfold Mirrored
  simp only [List.map_append]
  exact List.perm_append_comm.trans (h'.append h)

theorem mirrored_singleSignals (bar : BarRecord) (count : Nat) (type : SignalType)
    (direction : SignalDirection) :
    Mirrored (singleSignals (mirrorBar bar) count (mirrorType type) (mirrorDirection direction))
      (singleSignals bar count type direction) := by
  unfold Mirrored singleSignals
  split <;> exact List.Perm.refl _

theorem mirrored_detectAbsorption (config : ImbalanceConfig) (bar : BarRecord) :
    Mirrored (detectAbsorption config (mirrorBar bar)) (detectAbsorption config bar) := by
  have hexceeds : ∀ lvl : PriceLevelRecord,
      deltaRatioExceeds (mirrorLevel lvl) config.absorptionDeltaRatio =
        deltaRatioExceeds lvl config.absorptionDeltaRatio := by
    intro lvl
    simp [deltaRatioExceeds, mirrorLevel]
  unfold Mirrored
  simp only [detectAbsorption, mirrorBar, mirrorLevels, List.filterMap_reverse, List.filterMap_map,
    List.map_reverse, List.map_filterMap]
  refine (List.reverse_perm _).trans (List.Perm.of_eq (List.filterMap_congr fun lvl _ => ?_))
  simp only [Function.comp_apply, hexceeds]
  have hvolume : (mirrorLevel lvl).totalVol = lvl.totalVol := rfl
  rw [hvolume]
  split
  · rfl
  · split <;> rfl

/-- A trap is reported when there is a flagged level near the extreme. -/
theorem trapSignals_kind (bar : BarRecord) (flag : PriceLevelRecord → Bool)
    (extreme tolerance : Rat) (type : SignalType) (direction : SignalDirection) (stop : Rat) :
    (trapSignals bar flag extreme tolerance type direction stop).map (·.kind) =
      if bar.priceLevels.any fun lvl => flag lvl && decide (|lvl.price - extreme| ≤ tolerance) then
        [⟨type, direction, .strong⟩]
      else [] := by
  rw [← List.isSome_find?, trapSignals]
  cases bar.priceLevels.find? fun lvl => flag lvl && decide (|lvl.price - extreme| ≤ tolerance) <;> rfl

theorem mirrored_trapSignals (bar : BarRecord) {flag flag' : PriceLevelRecord → Bool}
    (hflag : ∀ lvl, flag' (mirrorLevel lvl) = flag lvl) (extreme tolerance : Rat) (type : SignalType)
    (direction : SignalDirection) (stop stop' : Rat) :
    Mirrored (trapSignals (mirrorBar bar) flag' (-extreme) tolerance (mirrorType type)
        (mirrorDirection direction) stop')
      (trapSignals bar flag extreme tolerance type direction stop) := by
  rw [Mirrored, trapSignals_kind, trapSignals_kind]
  simp only [mirrorBar, mirrorLevels, List.any_reverse, List.any_map, Function.comp_def,
    abs_mirrorLevel_sub, hflag]
  split <;> exact List.Perm.refl _

/-- Trapped sellers are looked for first, and so are trapped buyers in the mirror. -/
theorem mirrored_detectTrappedTraders (bar : BarRecord) (tickSize : Rat) :
    Mirrored (detectTrappedTraders (mirrorBar bar) tickSize) (detectTrappedTraders bar tickSize) := by
  have hup : (mirrorBar bar).close > (mirrorBar bar).openPrice +
      ((mirrorBar bar).high - (mirrorBar bar).low) * (1 / 2) * (1 / 2) ↔
      bar.close < bar.openPrice - (bar.high - bar.low) * (1 / 2) * (1 / 2) := by
    simp only [mirrorBar]
    constructor <;> intro <;> linarith
  have hdown : (mirrorBar bar).close < (mirrorBar bar).openPrice -
      ((mirrorBar bar).high - (mirrorBar bar).low) * (1 / 2) * (1 / 2) ↔
      bar.close > bar.openPrice + (bar.high - bar.low) * (1 / 2) * (1 / 2) := by
    simp only [mirrorBar]
    constructor <;> intro <;> linarith
  simp only [detectTrappedTraders, hup, hdown]
  refine mirrored_swap ?_ ?_
  · split
    · exact mirrored_trapSignals bar (fun _ => rfl) bar.high _ .trappedBuyers .short _ _
    · exact List.Perm.refl _
  · split
    · exact mirrored_trapSignals bar (fun _ => rfl) bar.low _ .trappedSellers .long _ _
    · exact List.Perm.refl _

end SessionImbalance
