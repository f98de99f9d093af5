import Mathlib.Data.Rat.Floor
import OrderFlow.SessionTypes

/-!
# The imbalance detector of `session1`

`detectAll` runs at the close of a bar. It flags the levels whose volume
outweighs the diagonal one, turns runs of flagged levels into zones of a registry
that outlives the bar, resolves the zones the bar has traded through, and looks
for absorption and for trapped traders.

Prices and single-precision numbers are exact rationals. An index into the levels
that is out of range makes the whole call `none`. The scans for buying and for
selling imbalances are one loop over the values in which they differ. The random
ids of zones come from `makeZoneId`, asked for by the size of the registry, and
the JSON text of a signal is kept as the values that are written into it. The
symbol `config_.absorption_vol_threshold` is the field `absorption_vol_thresh`.
-/
namespace SessionImbalance

open SessionTypes

inductive SignalType where
  | singleImbalanceBuy | singleImbalanceSell
  | stackedImbalanceBuy | stackedImbalanceSell
  | absorption | trappedBuyers | trappedSellers
  deriving DecidableEq, Repr

inductive SignalDirection where
  | long | short | neutral | reversal | warning
  deriving DecidableEq, Repr

inductive SignalStrength where
  | weak | moderate | strong | veryStrong
  deriving DecidableEq, Repr

/-- What a signal writes as JSON, by the names of the members. -/
inductive Metadata where
  | none
  | count (count : Nat)
  | zone (zoneId : String) (count : Int) (priceLow priceHigh strength : Rat)
  | level (price : Rat) (bidVol askVol totalVol delta : Int) (deltaRatio : Option Rat)
  | trap (trapPrice barExtreme : Rat) (bidVol askVol : Int)
  deriving DecidableEq, Repr

structure SignalEvent where
  type : SignalType
  direction : SignalDirection
  strength : SignalStrength
  symbolId : UInt32 := 0
  symbol : String := ""
  barOpenTsNs : Int := 0
  barCloseTsNs : Int := 0
  priceAtSignal : Rat := 0
  suggestedEntry : Rat := 0
  suggestedStop : Rat := 0
  barId : String := ""
  barDelta : Int := 0
  barVolume : Int := 0
  metadataJson : Metadata := .none
  deriving DecidableEq, Repr

structure ImbalanceZone where
  zoneId : String
  symbolId : UInt32 := 0
  direction : SignalDirection
  priceLow : Rat
  priceHigh : Rat
  imbalanceCount : Int
  avgRatio : Rat
  strengthScore : Rat := 0
  createdTsNs : Int := 0
  lastUpdatedTsNs : Int := 0
  resolvedTsNs : Int := 0
  isActive : Bool := false
  deriving DecidableEq, Repr

structure ImbalanceConfig where
  imbalanceRatio : Rat := 3
  stackedMinCount : Int := 3
  absorptionVolThresh : Rat := 500
  absorptionDeltaRatio : Rat := 1 / 10
  zoneStrengthWeight : Rat := 1
  deriving DecidableEq, Repr

def makeBaseSignal (bar : BarRecord) (type : SignalType) (direction : SignalDirection)
    (strength : SignalStrength) : SignalEvent where
  type := type
  direction := direction
  strength := strength
  symbolId := bar.symbolId
  symbol := bar.symbol
  barId := bar.barId
  barOpenTsNs := bar.barOpenTsNs
  barCloseTsNs := bar.barCloseTsNs
  barDelta := bar.barDelta
  barVolume := bar.totalVolume
  priceAtSignal := bar.close

def findLevel (levels : List PriceLevelRecord) (price tickSize : Rat) : Option PriceLevelRecord :=
  let tolerance := tickSize * (1 / 100)
  levels.find? fun lvl => decide (|lvl.price - price| < tolerance)

/-- The volume `own` of a level against the volume of its diagonal. -/
def outweighs (ratio : Rat) (own diagonal : Int) : Bool :=
  decide (diagonal > 0) && decide (own > 0) && decide ((own : Rat) ≥ ratio * diagonal)

def buyImbalance (config : ImbalanceConfig) (levels : List PriceLevelRecord) (tickSize : Rat)
    (lvl : PriceLevelRecord) : Bool :=
  match findLevel levels (lvl.price - tickSize) tickSize with
  | some below => outweighs config.imbalanceRatio lvl.askVol below.bidVol
  | none => false

def sellImbalance (config : ImbalanceConfig) (levels : List PriceLevelRecord) (tickSize : Rat)
    (lvl : PriceLevelRecord) : Bool :=
  match findLevel levels (lvl.price + tickSize) tickSize with
  | some above => outweighs config.imbalanceRatio lvl.bidVol above.askVol
  | none => false

structure SingleImbalances where
  levels : List PriceLevelRecord
  buyCount : Nat
  sellCount : Nat
  deriving DecidableEq, Repr

/-- One pass of the loop. The diagonal is looked up in the vector as it is then,
with the flags of this level cleared. -/
def detectSingleStep (config : ImbalanceConfig) (tickSize : Rat) (s : SingleImbalances) (i : Nat) :
    SingleImbalances :=
  match s.levels[i]? with
  | none => s
  | some lvl =>
    let cleared := { lvl with isBuyImbalance := false, isSellImbalance := false }
    let levels := s.levels.set i cleared
    let buy := buyImbalance config levels tickSize cleared
    let sell := sellImbalance config levels tickSize cleared
    { levels := levels.set i { cleared with isBuyImbalance := buy, isSellImbalance := sell }
      buyCount := s.buyCount + buy.toNat
      sellCount := s.sellCount + sell.toNat }

def detectSingleImbalances (config : ImbalanceConfig) (levels : List PriceLevelRecord)
    (tickSize : Rat) : SingleImbalances :=
  (List.range levels.length).foldl (detectSingleStep config tickSize) ⟨levels, 0, 0⟩

def computeZoneStrength (config : ImbalanceConfig) (zone : ImbalanceZone) : Rat :=
  let raw := zone.imbalanceCount * zone.avgRatio * config.zoneStrengthWeight
  min (max (raw / 3) 1) 10

/-- Where the two scans differ. `anchor` is the bound by which a zone is found
again, and `far` the one that an extension moves; `entry` is the price of the
signal and `stop` its stop, each given the low and the high price. -/
structure Scan where
  flag : PriceLevelRecord → Bool
  direction : SignalDirection
  anchor : ImbalanceZone → Rat
  anchorPrice : Rat → Rat → Rat
  extend : ImbalanceZone → Rat → Rat → ImbalanceZone
  signal : SignalType
  entry : Rat → Rat → Rat
  stop : Rat → Rat → Rat

def buyScan : Scan where
  flag := fun lvl => lvl.isBuyImbalance
  direction := .long
  anchor := fun z => z.priceLow
  anchorPrice := fun zoneLow _ => zoneLow
  extend := fun z _ zoneHigh => { z with priceHigh := zoneHigh }
  signal := .stackedImbalanceBuy
  entry := fun _ zoneHigh => zoneHigh
  stop := fun zoneLow _ => zoneLow - 1 / 100

def sellScan : Scan where
  flag := fun lvl => lvl.isSellImbalance
  direction := .short
  anchor := fun z => z.priceHigh
  anchorPrice := fun _ zoneHigh => zoneHigh
  extend := fun z zoneLow _ => { z with priceLow := zoneLow }
  signal := .stackedImbalanceSell
  entry := fun zoneLow _ => zoneLow
  stop := fun _ zoneHigh => zoneHigh + 1 / 100

/-- A streak of flagged levels that has ended. -/
structure Streak where
  zoneLow : Rat
  zoneHigh : Rat
  count : Nat
  deriving DecidableEq, Repr

structure Stacked where
  zones : List ImbalanceZone
  signals : List SignalEvent
  deriving DecidableEq, Repr

/-- The test by which a streak extends an existing zone. -/
def Scan.found (scan : Scan) (streak : Streak) (z : ImbalanceZone) : Bool :=
  decide (z.direction = scan.direction) && z.isActive &&
    decide (|scan.anchor z - scan.anchorPrice streak.zoneLow streak.zoneHigh| < 1 / 1000000)

def Scan.extended (scan : Scan) (streak : Streak) (barCloseTs : Int) (z : ImbalanceZone) :
    ImbalanceZone :=
  { scan.extend z streak.zoneLow streak.zoneHigh with
    imbalanceCount := streak.count
    lastUpdatedTsNs := barCloseTs }

def Scan.newZone (scan : Scan) (config : ImbalanceConfig) (streak : Streak) (barCloseTs : Int)
    (zoneId : String) : ImbalanceZone :=
  let zone : ImbalanceZone :=
    { zoneId := zoneId
      symbolId := 0
      direction := scan.direction
      priceLow := streak.zoneLow
      priceHigh := streak.zoneHigh
      imbalanceCount := streak.count
      avgRatio := config.imbalanceRatio }
  { zone with
    strengthScore := computeZoneStrength config zone
    createdTsNs := barCloseTs
    lastUpdatedTsNs := barCloseTs
    resolvedTsNs := 0
    isActive := true }

def Scan.newSignal (scan : Scan) (streak : Streak) (barId : String) (barCloseTs : Int)
    (zone : ImbalanceZone) : SignalEvent where
  type := scan.signal
  direction := scan.direction
  strength := if streak.count ≥ 5 then .veryStrong else .strong
  barId := barId
  barCloseTsNs := barCloseTs
  priceAtSignal := scan.entry streak.zoneLow streak.zoneHigh
  suggestedEntry := scan.entry streak.zoneLow streak.zoneHigh
  suggestedStop := scan.stop streak.zoneLow streak.zoneHigh
  metadataJson := .zone zone.zoneId streak.count streak.zoneLow streak.zoneHigh zone.strengthScore

/-- What is fixed while one bar is scanned. -/
structure ScanInput where
  config : ImbalanceConfig
  makeZoneId : Nat → String
  levels : List PriceLevelRecord
  barId : String
  barCloseTs : Int

/-- A streak extends the first zone it is found in, or makes a new one. -/
def Scan.build (scan : Scan) (input : ScanInput) (s : Stacked) (streak : Streak) : Stacked :=
  match s.zones.findIdx? (scan.found streak) with
  | some i => { s with zones := s.zones.modify i (scan.extended streak input.barCloseTs) }
  | none =>
    let zone := scan.newZone input.config streak input.barCloseTs (input.makeZoneId s.zones.length)
    { zones := s.zones ++ [zone]
      signals := s.signals ++ [scan.newSignal streak input.barId input.barCloseTs zone] }

/-- The variables of a scan. -/
structure ScanState where
  streak : Nat
  streakStartIdx : Nat
  stacked : Stacked

def levelAt (levels : List PriceLevelRecord) (i : Int) : Option PriceLevelRecord :=
  if i < 0 then none else levels[i.toNat]?

/-- One pass of the loop, in which the index may be one past the end. -/
def Scan.step (scan : Scan) (input : ScanInput) (s : ScanState) (i : Nat) : Option ScanState :=
  if (input.levels[i]?.map scan.flag).getD false then
    some { s with
      streakStartIdx := if s.streak = 0 then i else s.streakStartIdx
      streak := s.streak + 1 }
  else if (s.streak : Int) ≥ input.config.stackedMinCount then do
    let first ← levelAt input.levels s.streakStartIdx
    let last ← levelAt input.levels ((i : Int) - 1)
    some { s with
      streak := 0
      stacked := scan.build input s.stacked ⟨first.price, last.price, s.streak⟩ }
  else some { s with streak := 0 }

def Scan.run (scan : Scan) (input : ScanInput) (s : Stacked) : Option Stacked :=
  ((List.range (input.levels.length + 1)).foldlM (scan.step input) ⟨0, 0, s⟩).map (·.stacked)

def detectStacked (input : ScanInput) (activeZones : List ImbalanceZone) : Option Stacked := do
  let bought ← buyScan.run input ⟨activeZones, []⟩
  sellScan.run input bought

/-- The conversion of a number to an integer, towards zero. -/
def truncate (q : Rat) : Int := if 0 ≤ q then ⌊q⌋ else ⌈q⌉

/-- `delta_ratio > absorption_delta_ratio`. A ratio to a volume of zero is infinite,
or not a number when the delta is zero too, and then no comparison holds. -/
def deltaRatioExceeds (lvl : PriceLevelRecord) (ratio : Rat) : Bool :=
  if lvl.totalVol = 0 then decide (abs32 lvl.delta > 0)
  else decide ((abs32 lvl.delta : Rat) / lvl.totalVol > ratio)

/-- The percentage that is written, if it is a number. -/
def deltaRatioPercent (lvl : PriceLevelRecord) : Option Rat :=
  if lvl.totalVol = 0 then none else some ((abs32 lvl.delta : Rat) / lvl.totalVol * 100)

def absorptionSignal (bar : BarRecord) (lvl : PriceLevelRecord) : SignalEvent :=
  { makeBaseSignal bar .absorption .neutral .strong with
    priceAtSignal := lvl.price
    metadataJson := .level lvl.price lvl.bidVol lvl.askVol lvl.totalVol lvl.delta
      (deltaRatioPercent lvl) }

def detectAbsorption (config : ImbalanceConfig) (bar : BarRecord) : List SignalEvent :=
  bar.priceLevels.filterMap fun lvl =>
    if lvl.totalVol < truncate config.absorptionVolThresh then none
    else if deltaRatioExceeds lvl config.absorptionDeltaRatio then none
    else some (absorptionSignal bar lvl)

/-- A trap reports the first flagged level near the extreme of the bar. -/
def trapSignals (bar : BarRecord) (flag : PriceLevelRecord → Bool) (extreme tolerance : Rat)
    (type : SignalType) (direction : SignalDirection) (stop : Rat) : List SignalEvent :=
  match bar.priceLevels.find? fun lvl => flag lvl && decide (|lvl.price - extreme| ≤ tolerance) with
  | none => []
  | some lvl =>
    [{ makeBaseSignal bar type direction .strong with
      priceAtSignal := lvl.price
      suggestedEntry := bar.close
      suggestedStop := stop
      metadataJson := .trap lvl.price extreme lvl.bidVol lvl.askVol }]

def detectTrappedTraders (bar : BarRecord) (tickSize : Rat) : List SignalEvent :=
  let barRange := bar.high - bar.low
  let halfRange := barRange * (1 / 2)
  let tolerance := tickSize * 2
  (if bar.close > bar.openPrice + halfRange * (1 / 2) then
    trapSignals bar (·.isSellImbalance) bar.low tolerance .trappedSellers .long (bar.low - tickSize)
  else []) ++
  (if bar.close < bar.openPrice - halfRange * (1 / 2) then
    trapSignals bar (·.isBuyImbalance) bar.high tolerance .trappedBuyers .short (bar.high + tickSize)
  else [])

def resolved (bar : BarRecord) (tickSize : Rat) (zone : ImbalanceZone) : Bool :=
  let tolerance := tickSize * (1 / 2)
  if zone.direction = .long then decide (bar.low < zone.priceLow - tolerance)
  else decide (bar.high > zone.priceHigh + tolerance)

def updateZone (bar : BarRecord) (tickSize : Rat) (zone : ImbalanceZone) : ImbalanceZone :=
  if zone.isActive = true then
    if resolved bar tickSize zone then
      { zone with isActive := false, resolvedTsNs := bar.barCloseTsNs }
    else zone
  else zone

def updateZoneRegistry (activeZones : List ImbalanceZone) (bar : BarRecord) (tickSize : Rat) :
    List ImbalanceZone :=
  activeZones.map (updateZone bar tickSize)

structure Detection where
  bar : BarRecord
  activeZones : List ImbalanceZone
  result : List SignalEvent
  deriving DecidableEq, Repr

def singleSignals (bar : BarRecord) (count : Nat) (type : SignalType) (direction : SignalDirection) :
    List SignalEvent :=
  if count > 0 then
    [{ makeBaseSignal bar type direction .moderate with metadataJson := .count count }]
  else []

/-- The bar with its levels flagged. -/
def flagBar (config : ImbalanceConfig) (bar : BarRecord) (tickSize : Rat) : BarRecord :=
  let singles := detectSingleImbalances config bar.priceLevels tickSize
  { bar with
    priceLevels := singles.levels
    hasBuyImbalance := bar.hasBuyImbalance || decide (singles.buyCount > 0)
    hasSellImbalance := bar.hasSellImbalance || decide (singles.sellCount > 0) }

def scanInput (config : ImbalanceConfig) (makeZoneId : Nat → String) (bar : BarRecord) : ScanInput :=
  ⟨config, makeZoneId, bar.priceLevels, bar.barId, bar.barCloseTsNs⟩

def detectAll (config : ImbalanceConfig) (makeZoneId : Nat → String) (bar : BarRecord)
    (activeZones : List ImbalanceZone) (tickSize : Rat) : Option Detection := do
  let singles := detectSingleImbalances config bar.priceLevels tickSize
  let flagged := flagBar config bar tickSize
  let stacked ← detectStacked (scanInput config makeZoneId flagged) activeZones
  let absorptions := detectAbsorption config flagged
  let absorbed := { flagged with
    hasAbsorption := flagged.hasAbsorption || decide (absorptions ≠ []) }
  some
    { bar := absorbed
      activeZones := updateZoneRegistry stacked.zones flagged tickSize
      result :=
        singleSignals bar singles.buyCount .singleImbalanceBuy .long ++
        singleSignals bar singles.sellCount .singleImbalanceSell .short ++
        stacked.signals ++ absorptions ++ detectTrappedTraders absorbed tickSize }

end SessionImbalance
