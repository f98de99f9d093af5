import OrderFlow.SessionBarProduct
import OrderFlow.SessionVolumeTotals

/-!
# The volume that flows through the bars

A series that has a callback moves volume from its open bar to the bars it has delivered, and
takes in the volume of the ticks it books. What both hold together grows by each booked tick
and changes by nothing else, whatever the size of the bars. So all series of an engine grow
alike while they are in it.
-/
namespace SessionBars

open SessionTypes

/-- The volume of the booked ticks among some calls. -/
def bookedVolume (calls : List Call) : Int := volumeSum ((ticksOf calls).filter (·.isAccumulatable))

/-- The volume of delivered bars and an open one. -/
def barVolume (delivered : List BarRecord) (currentBar : Option BarRecord) : Int :=
  (delivered.map (·.totalVolume)).sum + (currentBar.map (·.totalVolume)).getD 0

def BarSeries.volume (s : BarSeries) : Int := barVolume s.delivered s.currentBar

theorem bookedVolume_append (calls calls' : List Call) :
    bookedVolume (calls ++ calls') = bookedVolume calls + bookedVolume calls' := by
  simp [bookedVolume, ticksOf]

/-- Closing a bar hands its volume over. -/
theorem volume_closeCurrentBar {s : BarSeries} (hcallback : s.onBarClose = true) (closeTsNs : Int) :
    (closeCurrentBar s closeTsNs).volume = s.volume := by
  unfold closeCurrentBar
  split
  · rfl
  · rename_i bar hbar
    simp [BarSeries.volume, barVolume, hcallback, hbar, complete_totalVolume]

theorem volume_withOpenBar (s : BarSeries) (tick : UniversalTickRecord) :
    (withOpenBar s tick).volume = s.volume := by
  unfold withOpenBar
  split
  · rename_i hbar
    simp [BarSeries.volume, barVolume, hbar, openNewBar]
  · rfl

theorem withOpenBar_currentBar (s : BarSeries) (tick : UniversalTickRecord) :
    ∃ bar, (withOpenBar s tick).currentBar = some bar := by
  unfold withOpenBar
  split
  · exact ⟨_, rfl⟩
  · rename_i bar hbar
    exact ⟨bar, hbar⟩

theorem withOpenBar_settings (s : BarSeries) (tick : UniversalTickRecord) :
    (withOpenBar s tick).toSettings = s.toSettings := by
  unfold withOpenBar
  split <;> rfl

/-- A booked tick adds its volume, whether it closes the bar or not. -/
theorem volume_onTick {s : BarSeries} (hcallback : s.onBarClose = true) {tick : UniversalTickRecord}
    (htick : tick.isAccumulatable) (sessionOpenTsNs : Int) :
    (onTick s tick sessionOpenTsNs).volume = s.volume + tick.volume := by
  obtain ⟨bar, hbar⟩ := withOpenBar_currentBar s tick
  have hsettings := withOpenBar_settings s tick
  have hopened := volume_withOpenBar s tick
  have hbooked : BarSeries.volume { withOpenBar s tick with
      currentBar := (withOpenBar s tick).currentBar.map fun bar => accumulate s.tickSize bar tick } =
        s.volume + tick.volume := by
    rw [← hopened]
    simp only [BarSeries.volume, barVolume, hbar, Option.map_some, Option.getD_some, accumulate]
    omega
  rw [onTick, if_pos htick]
  dsimp only
  split
  · rw [volume_closeCurrentBar, hbooked]
    exact (congrArg Settings.onBarClose hsettings).trans hcallback
  · exact hbooked

theorem volume_call {s : BarSeries} (hcallback : s.onBarClose = true) (c : Call) :
    (call s c).volume = s.volume + bookedVolume [c] := by
  cases c with
  | onTick tick sessionOpenTsNs =>
    by_cases htick : tick.isAccumulatable
    · rw [call, volume_onTick hcallback htick]
      simp [bookedVolume, ticksOf, htick]
    · have hskip : tick.isAccumulatable = false := by simpa using htick
      rw [call, onTick_of_not_accumulatable hskip]
      simp [bookedVolume, ticksOf, hskip]
  | forceCloseBar closeTsNs =>
    rw [call, forceCloseBar, volume_closeCurrentBar hcallback]
    simp [bookedVolume, ticksOf]
  | onSessionOpen sessionOpenTsNs =>
    have hclosed := volume_closeCurrentBar hcallback sessionOpenTsNs
    simpa [call, onSessionOpen, bookedVolume, ticksOf, BarSeries.volume] using hclosed

/-- The bars of a series grow by the volume that is booked, from any state on. -/
theorem volume_run {s : BarSeries} (hcallback : s.onBarClose = true) (calls : List Call) :
    (run s calls).volume = s.volume + bookedVolume calls := by
  induction calls using List.reverseRecOn with
  | nil => simp [run, bookedVolume, ticksOf]
  | append_singleton calls c ih =>
    have hsettings := congrArg Settings.onBarClose (run_settings s calls)
    have hstep := volume_call (hsettings.trans hcallback) c
    rw [bookedVolume_append, ← add_assoc, ← ih, ← hstep]
    simp [run]

/-- The volume that an engine has of one of its series, by its place. -/
def BarEngine.volumeOf (e : BarEngine) (slot : Slot) : Int :=
  barVolume (e.deliveriesOf slot.serial) slot.series.currentBar

/-- While a series is in the engine, its bars hold the volume booked since. -/
theorem volumeOf_stands {e : BarEngine} {serial : Nat} {s : BarSeries} (h : Stands e serial s) :
    e.volumeOf ⟨serial, s⟩ = s.volume := by
  rw [BarEngine.volumeOf, BarSeries.volume, h.delivered]

theorem stands_of_mem {new : BarEngine} (hnew : Keeps new) (hzero : new.added = 0)
    {calls : List EngineCall} {slot : Slot} (hslot : slot ∈ (new.run calls).series) :
    Stands (new.run calls) slot.serial slot.series := by
  obtain ⟨before, barSize, after, s, hadded, hkept, rfl⟩ := isAdded_of_mem hnew hzero hslot
  exact (alone_of_isAdded hnew hadded).present ((constructed hadded.constructed).1 ▸ hkept)

theorem onBarClose_of_mem {new : BarEngine} (hnew : Keeps new) (hzero : new.added = 0)
    {calls : List EngineCall} {slot : Slot} (hslot : slot ∈ (new.run calls).series) :
    slot.series.onBarClose = new.onBarClose := by
  obtain ⟨before, barSize, after, s, hadded, -, rfl⟩ := isAdded_of_mem hnew hzero hslot
  obtain ⟨hvalid, hpos, rfl⟩ := construct_ok_iff.mp hadded.constructed
  exact congrArg Settings.onBarClose (run_settings _ _)

/-- Over any stretch of calls in which a series stays in the engine, its bars take in what the
stretch books, whatever their size and whatever happens to other series. -/
theorem engine_books_alike (symbol : String) (symbolId : UInt32) (tickSize : Rat)
    (calls stretch : List EngineCall) :
    let before := (newEngine symbol symbolId tickSize true).run calls
    let after := before.run stretch
    ∀ slot ∈ before.series, .removeSeries slot.series.barSize ∉ stretch →
      ∃ slot' ∈ after.series, slot'.serial = slot.serial ∧
        slot'.series.toSettings = slot.series.toSettings ∧
        after.volumeOf slot' = before.volumeOf slot + bookedVolume (seriesCalls stretch) := by
  intro before after slot hslot hkept
  have hnew := keeps_new symbol symbolId tickSize true
  have hstands : Stands before slot.serial slot.series := stands_of_mem hnew rfl hslot
  have hcallback : slot.series.onBarClose = true := onBarClose_of_mem hnew rfl hslot
  have hlater := (alone_run (keeps_run hnew calls) hstands stretch).present hkept
  refine ⟨⟨slot.serial, run slot.series (seriesCalls stretch)⟩, hlater.mem, rfl,
    run_settings _ _, ?_⟩
  rw [volumeOf_stands hlater, volume_run hcallback, ← volumeOf_stands hstands]

/-- Bars of a minute and bars of fifty contracts. -/
def twoSizes : List EngineCall := [.addSeries ⟨.time, 60⟩, .addSeries ⟨.volume, 50⟩]

/-- Trades around the end of a session, in which the bars of a minute are removed. -/
def minutesRemoved : List EngineCall :=
  [.onTick ⟨10, 5000, 60, 1, .ask, .trade⟩ 0, .removeSeries ⟨.time, 60⟩,
    .onTick ⟨20, 5000, 7, 1, .unknown, .trade⟩ 0, .onTick ⟨30, 5000, 5, 1, .bid, .trade⟩ 0,
    .onSessionClose 40, .onTick ⟨50, 5000, 3, 1, .bid, .trade⟩ 0]

theorem engine_books_alike_minutesRemoved :
    let before := (newEngine "ES" 1 (1 / 4) true).run twoSizes
    let after := before.run minutesRemoved
    ∃ slot ∈ before.series, slot.series.barSize = ⟨.volume, 50⟩ ∧
      ∃ slot' ∈ after.series, slot'.serial = slot.serial ∧
        slot'.series.toSettings = slot.series.toSettings ∧
        after.volumeOf slot' = before.volumeOf slot + bookedVolume (seriesCalls minutesRemoved) := by
  intro before after
  have hany : before.series.any (·.hasSize ⟨.volume, 50⟩) = true := by decide +kernel
  obtain ⟨slot, hslot, hsize⟩ := List.any_eq_true.mp hany
  rw [hasSize_iff] at hsize
  exact ⟨slot, hslot, hsize, engine_books_alike "ES" 1 (1 / 4) twoSizes minutesRemoved slot hslot
    (hsize ▸ by decide)⟩

end SessionBars
