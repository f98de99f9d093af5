import OrderFlow.SessionBarSegments

/-!
# The bar engine of `session1`

A bar engine holds up to four bar series of one symbol and hands every call to each
of them in turn. All series share one callback. Its calls are the list `delivered`,
in which each bar stands with the series that closed it and the series that the
engine held at that moment; a series is known by its place among all series that
were ever added.
-/
namespace SessionBars

open SessionTypes

/-- A pointer of the vector: a series, and its place among all that were added. -/
structure Slot where
  serial : Nat
  series : BarSeries

/-- One call of the callback. -/
structure Delivery where
  serial : Nat
  bar : BarRecord
  existing : List Nat
  deriving DecidableEq, Repr

/-- `onBarClose` is whether the callback is callable. -/
structure BarEngine where
  symbol : String
  symbolId : UInt32
  tickSize : Rat
  onBarClose : Bool
  series : List Slot := []
  added : Nat := 0
  delivered : List Delivery := []

def newEngine (symbol : String) (symbolId : UInt32) (tickSize : Rat) (onBarClose : Bool) : BarEngine :=
  { symbol, symbolId, tickSize, onBarClose }

def Slot.hasSize (slot : Slot) (barSize : BarSize) : Bool :=
  decide (slot.series.barSize.type = barSize.type) &&
    decide (slot.series.barSize.sizeValue = barSize.sizeValue)

/-- The bars that a series has delivered from one moment to a later one. -/
def newlyDelivered (before after : BarSeries) : List BarRecord :=
  after.delivered.drop before.delivered.length

namespace BarEngine

/-- The result is what the source returns or throws. -/
def addSeries (e : BarEngine) (barSize : BarSize) : BarEngine × Except ConstructError Bool :=
  if e.series.length ≥ 4 then (e, .ok false)
  else if e.series.any (·.hasSize barSize) then (e, .ok false)
  else
    match construct barSize e.symbol e.symbolId e.tickSize e.onBarClose with
    | .error err => (e, .error err)
    | .ok s =>
      ({ e with
        series := e.series ++ [⟨e.added, s⟩]
        added := e.added + 1 }, .ok true)

def removeSeries (e : BarEngine) (barSize : BarSize) : BarEngine :=
  { e with series := e.series.filter fun slot => !slot.hasSize barSize }

/-- `for (auto& s : series_)`, with the calls of the callback as they come. -/
def forEach (e : BarEngine) (f : BarSeries → BarSeries) : BarEngine :=
  { e with
    series := e.series.map fun slot => { slot with series := f slot.series }
    delivered := e.delivered ++ e.series.flatMap fun slot =>
      (newlyDelivered slot.series (f slot.series)).map fun bar =>
        ⟨slot.serial, bar, e.series.map (·.serial)⟩ }

def onTick (e : BarEngine) (tick : UniversalTickRecord) (sessionOpenTsNs : Int) : BarEngine :=
  e.forEach fun s => SessionBars.onTick s tick sessionOpenTsNs

def onSessionOpen (e : BarEngine) (sessionOpenTsNs : Int) : BarEngine :=
  e.forEach fun s => SessionBars.onSessionOpen s sessionOpenTsNs

def onSessionClose (e : BarEngine) (sessionCloseTsNs : Int) : BarEngine :=
  e.forEach fun s => forceCloseBar s sessionCloseTsNs

def currentBar (e : BarEngine) (barSize : BarSize) : Option BarRecord :=
  (e.series.find? (·.hasSize barSize)).bind (·.series.currentBar)

def lastBar (e : BarEngine) (barSize : BarSize) : Option BarRecord :=
  (e.series.find? (·.hasSize barSize)).bind (·.series.lastBar)

end BarEngine

inductive EngineCall where
  | addSeries (barSize : BarSize)
  | removeSeries (barSize : BarSize)
  | onTick (tick : UniversalTickRecord) (sessionOpenTsNs : Int)
  | onSessionOpen (sessionOpenTsNs : Int)
  | onSessionClose (sessionCloseTsNs : Int)
  deriving DecidableEq, Repr

def BarEngine.call (e : BarEngine) : EngineCall → BarEngine
  | .addSeries barSize => (e.addSeries barSize).1
  | .removeSeries barSize => e.removeSeries barSize
  | .onTick tick sessionOpenTsNs => e.onTick tick sessionOpenTsNs
  | .onSessionOpen sessionOpenTsNs => e.onSessionOpen sessionOpenTsNs
  | .onSessionClose sessionCloseTsNs => e.onSessionClose sessionCloseTsNs

def BarEngine.run (e : BarEngine) (calls : List EngineCall) : BarEngine := calls.foldl BarEngine.call e

/-- The call of a series that a call of the engine makes, if it makes one. -/
def seriesCall : EngineCall → Option Call
  | .addSeries _ => none
  | .removeSeries _ => none
  | .onTick tick sessionOpenTsNs => some (.onTick tick sessionOpenTsNs)
  | .onSessionOpen sessionOpenTsNs => some (.onSessionOpen sessionOpenTsNs)
  | .onSessionClose sessionCloseTsNs => some (.forceCloseBar sessionCloseTsNs)

def seriesCalls (calls : List EngineCall) : List Call := calls.filterMap seriesCall

/-- The calls up to the removal of a size. -/
def lifetime (barSize : BarSize) (calls : List EngineCall) : List EngineCall :=
  calls.takeWhile fun c => decide (c ≠ .removeSeries barSize)

/-- The bars that the callback got from one series. -/
def BarEngine.deliveriesOf (e : BarEngine) (serial : Nat) : List BarRecord :=
  (e.delivered.filter fun d => d.serial = serial).map (·.bar)

theorem hasSize_iff (slot : Slot) (barSize : BarSize) :
    slot.hasSize barSize = true ↔ slot.series.barSize = barSize := by
  rw [Slot.hasSize, Bool.and_eq_true, decide_eq_true_iff, decide_eq_true_iff]
  constructor
  · intro h
    cases hs : slot.series.barSize
    cases barSize
    simp_all
  · rintro rfl
    exact ⟨rfl, rfl⟩

/-- A call of a series keeps its settings and adds to what it has delivered. -/
structure Extends (s t : BarSeries) : Prop where
  settings : t.toSettings = s.toSettings
  delivered : s.delivered <+: t.delivered

theorem closeCurrentBar_delivered (s : BarSeries) (closeTsNs : Int) :
    s.delivered <+: (closeCurrentBar s closeTsNs).delivered := by
  unfold closeCurrentBar
  split
  · exact List.prefix_refl _
  · dsimp only
    split
    · exact List.prefix_append _ _
    · exact List.prefix_refl _

theorem extends_call (s : BarSeries) (c : Call) : Extends s (call s c) := by
  have hclose : ∀ (t : BarSeries) closeTsNs, Extends t (closeCurrentBar t closeTsNs) := fun t ts =>
    ⟨closeCurrentBar_settings t ts, closeCurrentBar_delivered t ts⟩
  cases c with
  | onTick tick sessionOpenTsNs =>
    have hopen : (withOpenBar s tick).toSettings = s.toSettings ∧
        (withOpenBar s tick).delivered = s.delivered := by
      unfold withOpenBar
      split <;> exact ⟨rfl, rfl⟩
    simp only [call, onTick]
    split
    · split
      · have hbooked := hclose { withOpenBar s tick with
            currentBar := (withOpenBar s tick).currentBar.map fun bar =>
              accumulate s.tickSize bar tick } tick.exchangeTsNs
        exact ⟨hbooked.settings.trans hopen.1, hopen.2 ▸ hbooked.delivered⟩
      · exact ⟨hopen.1, hopen.2 ▸ List.prefix_refl _⟩
    · exact ⟨rfl, List.prefix_refl _⟩
  | forceCloseBar closeTsNs => exact hclose s closeTsNs
  | onSessionOpen sessionOpenTsNs =>
    exact ⟨(hclose s sessionOpenTsNs).settings, (hclose s sessionOpenTsNs).delivered⟩

theorem delivered_append_new {s t : BarSeries} (h : Extends s t) :
    t.delivered = s.delivered ++ newlyDelivered s t := by
  obtain ⟨rest, hrest⟩ := h.delivered
  rw [newlyDelivered, ← hrest, List.drop_left]

/-- Every call of the engine adds a series, removes some, or is a call of each series. -/
theorem call_eq (e : BarEngine) (c : EngineCall) :
    (∃ barSize, c = .addSeries barSize ∧ e.call c = (e.addSeries barSize).1) ∨
    (∃ barSize, c = .removeSeries barSize ∧ e.call c = e.removeSeries barSize) ∨
    (∃ c', seriesCall c = some c' ∧ e.call c = e.forEach fun s => call s c') := by
  cases c with
  | addSeries barSize => exact .inl ⟨barSize, rfl, rfl⟩
  | removeSeries barSize => exact .inr (.inl ⟨barSize, rfl, rfl⟩)
  | onTick tick sessionOpenTsNs => exact .inr (.inr ⟨_, rfl, rfl⟩)
  | onSessionOpen sessionOpenTsNs => exact .inr (.inr ⟨_, rfl, rfl⟩)
  | onSessionClose sessionCloseTsNs => exact .inr (.inr ⟨_, rfl, rfl⟩)

/-- Adding appends a new series or does nothing. -/
theorem addSeries_cases (e : BarEngine) (barSize : BarSize) :
    (∃ s, construct barSize e.symbol e.symbolId e.tickSize e.onBarClose = .ok s ∧
      e.series.length < 4 ∧ (∀ slot ∈ e.series, slot.series.barSize ≠ barSize) ∧
      e.addSeries barSize = ({ e with
        series := e.series ++ [⟨e.added, s⟩]
        added := e.added + 1 }, .ok true)) ∨
    (e.addSeries barSize = (e, .ok false) ∨ ∃ err, e.addSeries barSize = (e, .error err)) := by
  unfold BarEngine.addSeries
  split
  · exact .inr (.inl rfl)
  · rename_i hcount
    split
    · exact .inr (.inl rfl)
    · rename_i hsize
      have hnew : ∀ slot ∈ e.series, slot.series.barSize ≠ barSize := by
        intro slot hslot heq
        exact hsize (List.any_eq_true.mpr ⟨slot, hslot, (hasSize_iff slot barSize).mpr heq⟩)
      split
      · rename_i err herr
        exact .inr (.inr ⟨err, rfl⟩)
      · rename_i s hs
        exact .inl ⟨s, hs, by omega, hnew, rfl⟩

/-- What adding does to the engine. -/
theorem addSeries_adds_or_keeps (e : BarEngine) (barSize : BarSize) :
    (∃ s, construct barSize e.symbol e.symbolId e.tickSize e.onBarClose = .ok s ∧
      e.series.length < 4 ∧ (∀ slot ∈ e.series, slot.series.barSize ≠ barSize) ∧
      e.addSeries barSize = ({ e with
        series := e.series ++ [⟨e.added, s⟩]
        added := e.added + 1 }, .ok true)) ∨
    ((e.addSeries barSize).1 = e ∧ (e.addSeries barSize).2 ≠ .ok true) := by
  obtain hadd | hadd | ⟨err, hadd⟩ := addSeries_cases e barSize
  · exact .inl hadd
  · rw [hadd]
    exact .inr ⟨rfl, by simp⟩
  · rw [hadd]
    exact .inr ⟨rfl, by simp⟩

end SessionBars
