import OrderFlow.KeyedRecords
import OrderFlow.SessionTypes
import OrderFlow.TickGrid

/-!
# The bar series of `session1`

`BarSeries` collects the trades of one symbol in one open bar at a time, with the
volume of each price level kept apart by side. A bar is closed by a tick, by a
forced close or by the opening of a session; the test for a tick is made before
the tick is booked and acted on afterwards.

A bar series is built with a valid size and a positive tick, and keeps both as
fields. A reference to a level is its index, and the calls of `on_bar_close` are
the list `delivered`.
-/
namespace SessionBars

open KeyedRecords SessionTypes TickGrid

/-- What the constructor takes, with the two conditions it checks. -/
structure Settings where
  barSize : BarSize
  valid : barSize.isValid = true
  symbol : String
  symbolId : UInt32
  tickSize : Rat
  tickSizePos : 0 < tickSize
  onBarClose : Bool

structure BarSeries extends Settings where
  delivered : List BarRecord
  currentBar : Option BarRecord
  lastBar : Option BarRecord

inductive ConstructError where
  | invalidBarSize | tickSizeNotPositive
  deriving DecidableEq, Repr

def ConstructError.what : ConstructError → String
  | .invalidBarSize => "BarSeries: invalid bar size"
  | .tickSizeNotPositive => "BarSeries: tick_size must be positive"

def newSeries (settings : Settings) : BarSeries := ⟨settings, [], none, none⟩

/-- `onBarClose` is whether the callback is callable. -/
def construct (barSize : BarSize) (symbol : String) (symbolId : UInt32) (tickSize : Rat)
    (onBarClose : Bool) : Except ConstructError BarSeries :=
  if hvalid : barSize.isValid = true then
    if hpos : tickSize ≤ 0 then .error .tickSizeNotPositive
    else .ok (newSeries ⟨barSize, hvalid, symbol, symbolId, tickSize, lt_of_not_ge hpos, onBarClose⟩)
  else .error .invalidBarSize

def openNewBar (s : BarSeries) (openTsNs : Int) (openPrice : Rat) : BarRecord where
  symbolId := s.symbolId
  symbol := s.symbol
  barSize := s.barSize
  openPrice := openPrice
  high := openPrice
  low := openPrice
  close := openPrice
  barOpenTsNs := openTsNs
  isComplete := false
  totalVolume := 0
  barId := s.symbol ++ "_" ++ toString openTsNs ++ "_" ++ s.barSize.label

/-- The levels with the one for the price in them, and its index. -/
def getOrCreateLevel (tickSize : Rat) (levels : List PriceLevelRecord) (price : Rat) :
    List PriceLevelRecord × Nat :=
  let rounded := roundToTick tickSize price
  match levels.findIdx? fun lvl => decide (|lvl.price - rounded| < tickSize * (1 / 100)) with
  | some i => (levels, i)
  | none => (levels ++ [{ price := rounded }], levels.length)

def bookVolume (tick : UniversalTickRecord) (level : PriceLevelRecord) : PriceLevelRecord :=
  let askVol := if tick.side = .ask then wrap32 (level.askVol + wrap32 tick.volume) else level.askVol
  let bidVol := if tick.side = .ask then level.bidVol else wrap32 (level.bidVol + wrap32 tick.volume)
  { level with
    askVol := askVol
    bidVol := bidVol
    totalVol := wrap32 (askVol + bidVol)
    delta := wrap32 (askVol - bidVol) }

/-- The part of `on_tick` that books a tick into the open bar. -/
def accumulate (tickSize : Rat) (bar : BarRecord) (tick : UniversalTickRecord) : BarRecord :=
  let (levels, i) := getOrCreateLevel tickSize bar.priceLevels tick.price
  { bar with
    priceLevels := levels.modify i (bookVolume tick)
    totalVolume := bar.totalVolume + tick.volume
    high := if tick.price > bar.high then tick.price else bar.high
    low := if tick.price < bar.low then tick.price else bar.low
    close := tick.price }

def shouldClose (s : BarSeries) (tick : UniversalTickRecord) : Bool :=
  match s.currentBar with
  | none => false
  | some bar =>
    match s.barSize.type with
    | .time =>
      let barSizeNs : Int := s.barSize.sizeValue.toNat * 1000000000
      let barStartBoundary := bar.barOpenTsNs.tdiv barSizeNs * barSizeNs
      let barEndBoundary := barStartBoundary + barSizeNs
      decide (tick.exchangeTsNs ≥ barEndBoundary)
    | .range =>
      let range := |tick.price - bar.openPrice|
      let threshold := (s.barSize.sizeValue.toNat : Rat) * s.tickSize
      decide (range ≥ threshold)
    | .volume => decide (bar.totalVolume ≥ s.barSize.sizeValue.toNat)

/-- The part of `close_current_bar` that completes the bar. `maxElement` is
`std::max_element`. -/
def complete (bar : BarRecord) (closeTsNs : Int) : BarRecord :=
  let levels := bar.priceLevels.insertionSort fun a b => a.price ≤ b.price
  let closed := { bar with
    barCloseTsNs := closeTsNs
    isComplete := true
    isBullish := decide (bar.close > bar.openPrice)
    priceLevels := levels }
  match maxElement (fun a b => decide (a.totalVol < b.totalVol)) levels with
  | none => closed
  | some (poc, i) =>
    { closed with
      pocPrice := poc.price
      pocVolume := poc.totalVol
      priceLevels := levels.modify i fun lvl => { lvl with isPoc := true }
      cotPrice := poc.price }

def closeCurrentBar (s : BarSeries) (closeTsNs : Int) : BarSeries :=
  match s.currentBar with
  | none => s
  | some bar =>
    let closed := complete bar closeTsNs
    { s with
      delivered := if s.onBarClose then s.delivered ++ [closed] else s.delivered
      lastBar := some closed
      currentBar := none }

def withOpenBar (s : BarSeries) (tick : UniversalTickRecord) : BarSeries :=
  match s.currentBar with
  | none => { s with currentBar := some (openNewBar s tick.exchangeTsNs tick.price) }
  | some _ => s

/-- The session time is a parameter that `on_tick` does not use. -/
def onTick (s : BarSeries) (tick : UniversalTickRecord) (_sessionOpenTsNs : Int) : BarSeries :=
  if tick.isAccumulatable then
    let opened := withOpenBar s tick
    let closeBar := shouldClose opened tick
    let booked := { opened with
      currentBar := opened.currentBar.map fun bar => accumulate s.tickSize bar tick }
    if closeBar then closeCurrentBar booked tick.exchangeTsNs else booked
  else s

def forceCloseBar (s : BarSeries) (closeTsNs : Int) : BarSeries := closeCurrentBar s closeTsNs

def onSessionOpen (s : BarSeries) (sessionOpenTsNs : Int) : BarSeries :=
  { closeCurrentBar s sessionOpenTsNs with lastBar := none }

inductive Call where
  | onTick (tick : UniversalTickRecord) (sessionOpenTsNs : Int)
  | forceCloseBar (closeTsNs : Int)
  | onSessionOpen (sessionOpenTsNs : Int)
  deriving DecidableEq, Repr

def call (s : BarSeries) : Call → BarSeries
  | .onTick tick sessionOpenTsNs => onTick s tick sessionOpenTsNs
  | .forceCloseBar closeTsNs => forceCloseBar s closeTsNs
  | .onSessionOpen sessionOpenTsNs => onSessionOpen s sessionOpenTsNs

def run (s : BarSeries) (calls : List Call) : BarSeries := calls.foldl call s

theorem construct_ok_iff {barSize : BarSize} {symbol : String} {symbolId : UInt32}
    {tickSize : Rat} {onBarClose : Bool} {s : BarSeries} :
    construct barSize symbol symbolId tickSize onBarClose = .ok s ↔
      ∃ (hvalid : barSize.isValid = true) (hpos : 0 < tickSize),
        s = newSeries ⟨barSize, hvalid, symbol, symbolId, tickSize, hpos, onBarClose⟩ := by
  unfold construct
  split
  · rename_i hvalid
    split
    · rename_i hpos
      simp only [reduceCtorEq, false_iff]
      rintro ⟨-, hpos', -⟩
      exact absurd hpos' (not_lt_of_ge hpos)
    · rename_i hpos
      simp only [Except.ok.injEq]
      exact ⟨fun h => ⟨hvalid, lt_of_not_ge hpos, h.symm⟩, fun ⟨_, _, h⟩ => h.symm⟩
  · rename_i hvalid
    simp only [reduceCtorEq, false_iff]
    rintro ⟨hvalid', -⟩
    exact hvalid hvalid'

/-- A quote, or a trade of unknown side, leaves a series as it is. -/
theorem onTick_of_not_accumulatable {tick : UniversalTickRecord}
    (h : tick.isAccumulatable = false) (s : BarSeries) (sessionOpenTsNs : Int) :
    onTick s tick sessionOpenTsNs = s := by
  simp [onTick, h]

end SessionBars
