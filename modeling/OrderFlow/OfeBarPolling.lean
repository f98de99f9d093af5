import OrderFlow.OfeBarRuns

/-!
# Reading the bars and clearing them

A reader takes the completed bars of a series and clears the list, whenever it likes. Apart
from their indices, which count from the last clear, it gets the bars that a series makes
which is never cleared: `strip` leaves of a series what its next steps depend on.
-/
namespace OfeBars

def sansIndex (bar : BarRecord) : BarRecord := { bar with barIndex := 0 }

/-- A series without its completed bars and the index of the open one. -/
def strip (s : BarSeries) : BarSeries := { s with current := sansIndex s.current, completed := [] }

/-- The bars of a series, the open one last. -/
def BarSeries.bars (s : BarSeries) : List BarRecord :=
  s.completed ++ if s.active then [s.current] else []

/-- The bars that are completed at each clear. -/
def takenBy : BarSeries → List SeriesCall → List BarRecord
  | _, [] => []
  | s, .ingest tick :: calls => takenBy (s.ingest tick) calls
  | s, .clearCompleted :: calls => s.completed ++ takenBy s.clearCompleted calls

def fed (calls : List SeriesCall) : List UniversalTickRecord :=
  calls.filterMap fun
    | .ingest tick => some tick
    | .clearCompleted => none

/-- A series after a step, told from what the step makes of the stripped one. -/
structure Follows (s after stripped : BarSeries) : Prop where
  strip : strip after = OfeBars.strip stripped
  completed : after.completed.map sansIndex =
    s.completed.map sansIndex ++ stripped.completed.map sansIndex

/-- A step that makes the same of the series and of the stripped one. -/
def Blind (f : BarSeries → BarSeries) : Prop := ∀ s, Follows s (f s) (f (strip s))

theorem blind_id : Blind fun s => s := fun s => ⟨rfl, by simp [strip]⟩

theorem blind_startBar (tick : UniversalTickRecord) : Blind (·.startBar tick) :=
  fun s => ⟨rfl, by simp [BarSeries.startBar, strip]⟩

theorem blind_updateBar (tick : UniversalTickRecord) : Blind (·.updateBar tick) :=
  fun s => ⟨rfl, by simp [BarSeries.updateBar, strip]⟩

theorem blind_finalizeBar (ts : UInt64) : Blind (·.finalizeBar ts) :=
  fun s => ⟨rfl, by simp [BarSeries.finalizeBar, strip, sansIndex]⟩

theorem blind_deactivate : Blind fun s => { s with active := false } :=
  fun s => ⟨rfl, by simp [strip]⟩

theorem Blind.comp {f g : BarSeries → BarSeries} (hg : Blind g) (hf : Blind f) :
    Blind fun s => g (f s) := by
  intro s
  obtain ⟨hstrip, hcompleted⟩ := hf s
  obtain ⟨hstrip₁, hcompleted₁⟩ := hg (f s)
  obtain ⟨hstrip₂, hcompleted₂⟩ := hg (f (strip s))
  constructor
  · rw [hstrip₁, hstrip, ← hstrip₂]
  · rw [hcompleted₁, hcompleted, hcompleted₂, hstrip, List.append_assoc]

theorem Blind.ite {f g : BarSeries → BarSeries} {test : BarSeries → Bool} (hf : Blind f) (hg : Blind g)
    (htest : ∀ s, test (strip s) = test s) : Blind fun s => if test s then f s else g s := by
  intro s
  dsimp only
  rw [htest s]
  split
  · exact hf s
  · exact hg s

theorem blind_ingest (tick : UniversalTickRecord) : Blind (·.ingest tick) := by
  have hopen : Blind fun s => if s.active then s else s.startBar tick :=
    blind_id.ite (blind_startBar tick) fun _ => rfl
  have hturn : Blind fun s =>
      if s.timeUp tick then (s.finalizeBar tick.timestampNs).startBar tick else s :=
    ((blind_startBar tick).comp (blind_finalizeBar tick.timestampNs)).ite blind_id fun _ => rfl
  have hclose : Blind fun s =>
      if s.shouldFinalize then { s.finalizeBar tick.timestampNs with active := false } else s :=
    (blind_deactivate.comp (blind_finalizeBar tick.timestampNs)).ite blind_id fun _ => rfl
  exact hclose.comp ((blind_updateBar tick).comp (hturn.comp hopen))

/-- A series that is cleared, with what has been taken from it, beside one that is not. -/
structure Alike (taken : List BarRecord) (s plain : BarSeries) : Prop where
  strip : strip s = OfeBars.strip plain
  completed : (taken ++ s.completed).map sansIndex = plain.completed.map sansIndex

theorem alike_ingest {taken : List BarRecord} {s plain : BarSeries} (h : Alike taken s plain)
    (tick : UniversalTickRecord) : Alike taken (s.ingest tick) (plain.ingest tick) := by
  obtain ⟨hstrip, hcompleted⟩ := blind_ingest tick s
  obtain ⟨hstrip', hcompleted'⟩ := blind_ingest tick plain
  constructor
  · rw [hstrip, hstrip', h.strip]
  · rw [List.map_append, hcompleted, hcompleted', ← List.append_assoc, ← List.map_append, h.completed,
      h.strip]

theorem alike_clear {taken : List BarRecord} {s plain : BarSeries} (h : Alike taken s plain) :
    Alike (taken ++ s.completed) s.clearCompleted plain where
  strip := h.strip
  completed := by simpa [BarSeries.clearCompleted] using h.completed

theorem alike_run {taken : List BarRecord} {s plain : BarSeries} (h : Alike taken s plain)
    (calls : List SeriesCall) :
    Alike (taken ++ takenBy s calls) (s.run calls) (plain.ingestAll (fed calls)) := by
  induction calls generalizing taken s plain with
  | nil => simpa [takenBy, BarSeries.run, fed, BarSeries.ingestAll] using h
  | cons call calls ih =>
    cases call with
    | ingest tick => exact ih (alike_ingest h tick)
    | clearCompleted =>
      rw [takenBy, ← List.append_assoc]
      exact ih (alike_clear h)

theorem bars_of_alike {taken : List BarRecord} {s plain : BarSeries} (h : Alike taken s plain) :
    (taken ++ s.bars).map sansIndex = plain.bars.map sansIndex := by
  have hactive : s.active = plain.active := by
    change (strip s).active = (strip plain).active
    rw [h.strip]
  have hcurrent : sansIndex s.current = sansIndex plain.current := by
    change (strip s).current = (strip plain).current
    rw [h.strip]
  rw [BarSeries.bars, BarSeries.bars, ← List.append_assoc, List.map_append, h.completed,
    List.map_append, hactive]
  split
  · rw [List.map_singleton, List.map_singleton, hcurrent]
  · rfl

/-- However a reader polls a series, it loses no bar and sees none twice, and the bars are
those of the same ticks without a clear. -/
theorem polled_bars (type : BarType) (threshold : UInt64) (calls : List SeriesCall) :
    (takenBy (newSeries type threshold) calls ++ ((newSeries type threshold).run calls).bars).map
        sansIndex =
      ((newSeries type threshold).ingestAll (fed calls)).bars.map sansIndex := by
  have hnew : Alike [] (newSeries type threshold) (newSeries type threshold) := ⟨rfl, rfl⟩
  exact bars_of_alike (alike_run hnew calls)

end OfeBars
