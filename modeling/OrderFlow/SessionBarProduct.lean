import OrderFlow.SessionBarEngine

/-!
# A bar engine is a product of bar series

Each series of an engine goes through the calls since it was added as if it were
alone, and the callback gets from it what it would deliver alone. The others show
only in the answers of `add_series`, which keep the sizes apart and the engine at
four series.
-/
namespace SessionBars

open KeyedRecords SessionTypes

/-- The series are few, of different sizes, and known by different serials. -/
structure Keeps (e : BarEngine) : Prop where
  count : e.series.length ≤ 4
  sizes : (e.series.map (·.series.barSize)).Nodup
  serials : (e.series.map (·.serial)).Nodup
  fresh : ∀ slot ∈ e.series, slot.serial < e.added
  past : ∀ d ∈ e.delivered, d.serial < e.added

theorem keeps_new (symbol : String) (symbolId : UInt32) (tickSize : Rat) (onBarClose : Bool) :
    Keeps (newEngine symbol symbolId tickSize onBarClose) := by
  constructor <;> simp [newEngine]

/-- A new series, as the constructor leaves it. -/
theorem constructed {barSize : BarSize} {symbol : String} {symbolId : UInt32} {tickSize : Rat}
    {onBarClose : Bool} {s : BarSeries}
    (h : construct barSize symbol symbolId tickSize onBarClose = .ok s) :
    s.barSize = barSize ∧ s.delivered = [] := by
  obtain ⟨_, _, rfl⟩ := construct_ok_iff.mp h
  exact ⟨rfl, rfl⟩

theorem keeps_addSeries {e : BarEngine} (h : Keeps e) (barSize : BarSize) :
    Keeps (e.addSeries barSize).1 := by
  obtain ⟨s, hs, hcount, hnew, hadd⟩ | ⟨hadd, -⟩ := addSeries_adds_or_keeps e barSize
  · rw [hadd]
    have hsize : s.barSize = barSize := (constructed hs).1
    refine ⟨?_, ?_, ?_, ?_, fun d hd => (h.past d hd).trans (Nat.lt_succ_self _)⟩
    · simp only [List.length_append, List.length_singleton]
      omega
    · exact nodup_snoc _ h.sizes fun slot hslot => hsize.symm ▸ hnew slot hslot
    · exact nodup_snoc _ h.serials fun slot hslot => (h.fresh slot hslot).ne
    · intro slot hslot
      rcases List.mem_append.mp hslot with hslot | hslot
      · exact (h.fresh slot hslot).trans (Nat.lt_succ_self _)
      · rw [List.mem_singleton.mp hslot]
        exact Nat.lt_succ_self _
  · rwa [hadd]

theorem keeps_removeSeries {e : BarEngine} (h : Keeps e) (barSize : BarSize) :
    Keeps (e.removeSeries barSize) := by
  have hsub : (e.removeSeries barSize).series.Sublist e.series := List.filter_sublist
  exact ⟨hsub.length_le.trans h.count, h.sizes.sublist (hsub.map _), h.serials.sublist (hsub.map _),
    fun slot hslot => h.fresh slot (hsub.subset hslot), h.past⟩

theorem serials_forEach (e : BarEngine) (f : BarSeries → BarSeries) :
    (e.forEach f).series.map (·.serial) = e.series.map (·.serial) := by
  rw [BarEngine.forEach, List.map_map]
  rfl

theorem sizes_forEach (e : BarEngine) {f : BarSeries → BarSeries} (hf : ∀ s, Extends s (f s)) :
    (e.forEach f).series.map (·.series.barSize) = e.series.map (·.series.barSize) := by
  rw [BarEngine.forEach, List.map_map]
  apply List.map_congr_left
  intro slot _
  exact congrArg Settings.barSize (hf slot.series).settings

theorem keeps_forEach {e : BarEngine} (h : Keeps e) {f : BarSeries → BarSeries}
    (hf : ∀ s, Extends s (f s)) : Keeps (e.forEach f) := by
  refine ⟨?_, sizes_forEach e hf ▸ h.sizes, serials_forEach e f ▸ h.serials, ?_, ?_⟩
  · rw [BarEngine.forEach, List.length_map]
    exact h.count
  · intro slot hslot
    obtain ⟨slot', hslot', rfl⟩ := List.mem_map.mp hslot
    exact h.fresh slot' hslot'
  · intro d hd
    rcases List.mem_append.mp hd with hd | hd
    · exact h.past d hd
    · obtain ⟨slot, hslot, hd⟩ := List.mem_flatMap.mp hd
      obtain ⟨bar, -, rfl⟩ := List.mem_map.mp hd
      exact h.fresh slot hslot

theorem keeps_call {e : BarEngine} (h : Keeps e) (c : EngineCall) : Keeps (e.call c) := by
  obtain ⟨barSize, -, hcall⟩ | ⟨barSize, -, hcall⟩ | ⟨c', -, hcall⟩ := call_eq e c
  · exact hcall ▸ keeps_addSeries h barSize
  · exact hcall ▸ keeps_removeSeries h barSize
  · exact hcall ▸ keeps_forEach h fun s => extends_call s c'

theorem keeps_run {e : BarEngine} (h : Keeps e) (calls : List EngineCall) : Keeps (e.run calls) := by
  induction calls generalizing e with
  | nil => exact h
  | cons c calls ih => exact ih (keeps_call h c)

/-- What the callback gets from a call of every series, sorted by series. -/
theorem deliveriesOf_forEach (e : BarEngine) (f : BarSeries → BarSeries) (serial : Nat) :
    (e.forEach f).deliveriesOf serial = e.deliveriesOf serial ++
      (e.series.filter fun slot => slot.serial = serial).flatMap fun slot =>
        newlyDelivered slot.series (f slot.series) := by
  have hone : ∀ (existing : List Nat) (slots : List Slot),
      ((slots.flatMap fun slot => (newlyDelivered slot.series (f slot.series)).map fun bar =>
        (⟨slot.serial, bar, existing⟩ : Delivery)).filter fun d => d.serial = serial).map (·.bar) =
      (slots.filter fun slot => slot.serial = serial).flatMap fun slot =>
        newlyDelivered slot.series (f slot.series) := by
    intro existing slots
    induction slots with
    | nil => rfl
    | cons slot slots ih =>
      rw [List.flatMap_cons, List.filter_append, List.map_append, ih]
      by_cases hserial : slot.serial = serial
      · simp [hserial, List.filter_map, Function.comp_def]
      · simp [hserial, List.filter_map, Function.comp_def]
  rw [BarEngine.deliveriesOf, BarEngine.forEach, List.filter_append, List.map_append, hone]
  rfl

/-- A series that is gone does not come back, and delivers no more. -/
theorem gone_run {e : BarEngine} (h : Keeps e) {serial : Nat} (hold : serial < e.added)
    (hgone : serial ∉ e.series.map (·.serial)) (calls : List EngineCall) :
    serial ∉ (e.run calls).series.map (·.serial) ∧
      (e.run calls).deliveriesOf serial = e.deliveriesOf serial := by
  induction calls generalizing e with
  | nil => exact ⟨hgone, rfl⟩
  | cons c calls ih =>
    have hstep : serial < (e.call c).added ∧ serial ∉ (e.call c).series.map (·.serial) ∧
        (e.call c).deliveriesOf serial = e.deliveriesOf serial := by
      obtain ⟨barSize, -, hcall⟩ | ⟨barSize, -, hcall⟩ | ⟨c', -, hcall⟩ := call_eq e c
      · rw [hcall]
        obtain ⟨s, -, -, -, hadd⟩ | ⟨hadd, -⟩ := addSeries_adds_or_keeps e barSize
        · rw [hadd]
          refine ⟨hold.trans (Nat.lt_succ_self _), ?_, rfl⟩
          rw [List.map_append, List.mem_append]
          rintro (hmem | hmem)
          · exact hgone hmem
          · rw [List.map_singleton, List.mem_singleton] at hmem
            exact absurd hmem hold.ne
        · rw [hadd]
          exact ⟨hold, hgone, rfl⟩
      · rw [hcall]
        refine ⟨hold, ?_, rfl⟩
        intro hmem
        obtain ⟨slot, hslot, heq⟩ := List.mem_map.mp hmem
        exact hgone (List.mem_map.mpr ⟨slot, List.mem_of_mem_filter hslot, heq⟩)
      · rw [hcall, deliveriesOf_forEach, serials_forEach]
        have hnone : e.series.filter (fun slot => slot.serial = serial) = [] := by
          rw [List.filter_eq_nil_iff]
          intro slot hslot heq
          exact hgone (List.mem_map.mpr ⟨slot, hslot, by simpa using heq⟩)
        refine ⟨hold, hgone, ?_⟩
        rw [hnone, List.flatMap_nil, List.append_nil]
    have hrest := ih (keeps_call h c) hstep.1 hstep.2.1
    exact ⟨hrest.1, hrest.2.trans hstep.2.2⟩

/-- A series of the engine, with all that the callback got from it. -/
structure Stands (e : BarEngine) (serial : Nat) (s : BarSeries) : Prop where
  mem : ⟨serial, s⟩ ∈ e.series
  delivered : e.deliveriesOf serial = s.delivered

theorem stands_addSeries {e : BarEngine} {serial : Nat} {s : BarSeries} (h : Stands e serial s)
    (barSize : BarSize) : Stands (e.addSeries barSize).1 serial s := by
  obtain ⟨s', -, -, -, hadd⟩ | ⟨hadd, -⟩ := addSeries_adds_or_keeps e barSize
  · rw [hadd]
    exact ⟨List.mem_append_left _ h.mem, h.delivered⟩
  · rwa [hadd]

theorem stands_removeSeries {e : BarEngine} {serial : Nat} {s : BarSeries} (h : Stands e serial s)
    {barSize : BarSize} (hne : s.barSize ≠ barSize) : Stands (e.removeSeries barSize) serial s := by
  refine ⟨List.mem_filter.mpr ⟨h.mem, ?_⟩, h.delivered⟩
  rw [Bool.not_eq_true', ← Bool.not_eq_true, hasSize_iff]
  exact hne

theorem stands_forEach {e : BarEngine} (hkeeps : Keeps e) {serial : Nat} {s : BarSeries}
    (h : Stands e serial s) {f : BarSeries → BarSeries} (hf : ∀ s, Extends s (f s)) :
    Stands (e.forEach f) serial (f s) := by
  refine ⟨List.mem_map.mpr ⟨⟨serial, s⟩, h.mem, rfl⟩, ?_⟩
  rw [deliveriesOf_forEach, filter_key (·.serial) hkeeps.serials h.mem, h.delivered, List.flatMap_cons,
    List.flatMap_nil, List.append_nil, ← delivered_append_new (hf s)]

theorem not_mem_removeSeries {e : BarEngine} (h : Keeps e) {serial : Nat} {s : BarSeries}
    (hmem : ⟨serial, s⟩ ∈ e.series) : serial ∉ (e.removeSeries s.barSize).series.map (·.serial) := by
  intro hserial
  obtain ⟨slot, hslot, heq⟩ := List.mem_map.mp hserial
  obtain ⟨hslot, hsize⟩ := List.mem_filter.mp hslot
  have hone : slot ∈ e.series.filter fun s' => s'.serial = serial :=
    List.mem_filter.mpr ⟨hslot, by simpa using heq⟩
  rw [filter_key (·.serial) h.serials hmem, List.mem_singleton] at hone
  rw [hone, Bool.not_eq_true', ← Bool.not_eq_true, hasSize_iff] at hsize
  exact hsize rfl

/-- What an engine holds of a series after some calls: until its removal, what the
series would be alone. -/
structure Alone (e : BarEngine) (serial : Nat) (s : BarSeries) (calls : List EngineCall) : Prop where
  delivered : e.deliveriesOf serial = (run s (seriesCalls (lifetime s.barSize calls))).delivered
  present : .removeSeries s.barSize ∉ calls → Stands e serial (run s (seriesCalls calls))
  gone : .removeSeries s.barSize ∈ calls → serial ∉ e.series.map (·.serial)

/-- A call that does not remove a series takes it a step further. -/
theorem alone_cons {e : BarEngine} {serial : Nat} {s s' : BarSeries} {c : EngineCall}
    {calls : List EngineCall} (h : Alone e serial s' calls) (hsize : s'.barSize = s.barSize)
    (hc : c ≠ .removeSeries s.barSize) (hrun : run s (seriesCalls [c]) = s') :
    Alone e serial s (c :: calls) := by
  have hsplit : ∀ rest, run s (seriesCalls (c :: rest)) = run s' (seriesCalls rest) := by
    intro rest
    rw [← hrun, ← List.singleton_append, seriesCalls, List.filterMap_append, run, List.foldl_append]
    rfl
  have hlife : lifetime s.barSize (c :: calls) = c :: lifetime s.barSize calls := by
    simp [lifetime, hc]
  constructor
  · rw [hlife, hsplit, ← hsize]
    exact h.delivered
  · intro hnot
    rw [hsplit]
    exact h.present fun hmem => hnot (List.mem_cons_of_mem _ (hsize ▸ hmem))
  · intro hmem
    rcases List.mem_cons.mp hmem with heq | hmem
    · exact absurd heq.symm hc
    · exact h.gone (hsize.symm ▸ hmem)

/-- A series of an engine does, until it is removed, what it would do alone. -/
theorem alone_run {e : BarEngine} (hkeeps : Keeps e) {serial : Nat} {s : BarSeries}
    (h : Stands e serial s) (calls : List EngineCall) : Alone (e.run calls) serial s calls := by
  induction calls generalizing e s with
  | nil => exact ⟨h.delivered, fun _ => h, fun hmem => absurd hmem List.not_mem_nil⟩
  | cons c calls ih =>
    have hnext : ∀ s', Stands (e.call c) serial s' → Alone (e.run (c :: calls)) serial s' calls :=
      fun s' hs' => ih (keeps_call hkeeps c) hs'
    obtain ⟨barSize, rfl, hcall⟩ | ⟨barSize, rfl, hcall⟩ | ⟨c', hc', hcall⟩ := call_eq e c
    · exact alone_cons (hnext s (hcall ▸ stands_addSeries h barSize)) rfl (by simp) rfl
    · by_cases hsize : s.barSize = barSize
      · -- the series is removed, and the callback hears no more of it
        subst hsize
        have hold : serial < (e.removeSeries s.barSize).added := hkeeps.fresh _ h.mem
        obtain ⟨hgone, hsilent⟩ := gone_run (keeps_removeSeries hkeeps s.barSize) hold
          (not_mem_removeSeries hkeeps h.mem) calls
        refine ⟨?_, fun hnot => absurd List.mem_cons_self hnot, fun _ => hgone⟩
        have hlife : lifetime s.barSize (.removeSeries s.barSize :: calls) = [] := by
          simp [lifetime]
        rw [hlife]
        exact hsilent.trans h.delivered
      · exact alone_cons (hnext s (hcall ▸ stands_removeSeries h hsize)) rfl
          (by simpa using Ne.symm hsize) rfl
    · have hstep := stands_forEach hkeeps h fun s => extends_call s c'
      refine alone_cons (hnext (call s c') (hcall ▸ hstep))
        (congrArg Settings.barSize (extends_call s c').settings) ?_ ?_
      · rintro rfl
        cases hc'
      · rw [seriesCalls, List.filterMap_cons, hc', List.filterMap_nil]
        rfl

/-- The call of `add_series` in front of `after` has added a series, which its
constructor left as `s`. -/
structure IsAdded (new : BarEngine) (calls before : List EngineCall) (barSize : BarSize)
    (after : List EngineCall) (s : BarSeries) : Prop where
  split : calls = before ++ .addSeries barSize :: after
  added : ((new.run before).addSeries barSize).2 = .ok true
  constructed : construct barSize new.symbol new.symbolId new.tickSize new.onBarClose = .ok s

/-- Two engines of one symbol, tick and callback. -/
structure SameSettings (e e' : BarEngine) : Prop where
  symbol : e'.symbol = e.symbol
  symbolId : e'.symbolId = e.symbolId
  tickSize : e'.tickSize = e.tickSize
  onBarClose : e'.onBarClose = e.onBarClose

theorem sameSettings_call (e : BarEngine) (c : EngineCall) : SameSettings e (e.call c) := by
  obtain ⟨barSize, -, hcall⟩ | ⟨barSize, -, hcall⟩ | ⟨c', -, hcall⟩ := call_eq e c
  · rw [hcall]
    obtain ⟨s, -, -, -, hadd⟩ | ⟨hadd, -⟩ := addSeries_adds_or_keeps e barSize
    · rw [hadd]
      exact ⟨rfl, rfl, rfl, rfl⟩
    · rw [hadd]
      exact ⟨rfl, rfl, rfl, rfl⟩
  · rw [hcall]
    exact ⟨rfl, rfl, rfl, rfl⟩
  · rw [hcall]
    exact ⟨rfl, rfl, rfl, rfl⟩

theorem sameSettings_run (e : BarEngine) (calls : List EngineCall) : SameSettings e (e.run calls) := by
  induction calls generalizing e with
  | nil => exact ⟨rfl, rfl, rfl, rfl⟩
  | cons c calls ih =>
    have hstep := sameSettings_call e c
    have hrest := ih (e.call c)
    exact ⟨hrest.symbol.trans hstep.symbol, hrest.symbolId.trans hstep.symbolId,
      hrest.tickSize.trans hstep.tickSize, hrest.onBarClose.trans hstep.onBarClose⟩

theorem engine_run_append (e : BarEngine) (calls calls' : List EngineCall) :
    e.run (calls ++ calls') = (e.run calls).run calls' := by
  rw [BarEngine.run, List.foldl_append]
  rfl

/-- What was added goes through the later calls alone. -/
theorem alone_of_isAdded {new : BarEngine} (hnew : Keeps new) {calls before : List EngineCall}
    {barSize : BarSize} {after : List EngineCall} {s : BarSeries}
    (h : IsAdded new calls before barSize after s) :
    Alone (new.run calls) (new.run before).added s after := by
  have hkeeps := keeps_run hnew before
  have hsame := sameSettings_run new before
  have hrun : new.run calls = ((new.run before).call (.addSeries barSize)).run after := by
    rw [h.split, engine_run_append]
    rfl
  rw [hrun]
  apply alone_run (keeps_call hkeeps _)
  obtain ⟨s', hs', -, -, hadd⟩ | ⟨-, hadd⟩ := addSeries_adds_or_keeps (new.run before) barSize
  · rw [hsame.symbol, hsame.symbolId, hsame.tickSize, hsame.onBarClose, h.constructed] at hs'
    obtain rfl := Except.ok.inj hs'
    have hnone : (new.run before).deliveriesOf (new.run before).added = [] := by
      rw [BarEngine.deliveriesOf, List.map_eq_nil_iff, List.filter_eq_nil_iff]
      intro d hd heq
      exact absurd (by simpa using heq) (hkeeps.past d hd).ne
    constructor
    · rw [BarEngine.call, hadd]
      exact List.mem_append_right _ List.mem_cons_self
    · rw [BarEngine.call, hadd, (constructed h.constructed).2]
      exact hnone
  · exact absurd h.added hadd

/-- Every serial given out is that of a series that was added. -/
theorem isAdded_of_lt {new : BarEngine} (hzero : new.added = 0) (calls : List EngineCall) {serial : Nat}
    (hserial : serial < (new.run calls).added) :
    ∃ before barSize after s, IsAdded new calls before barSize after s ∧
      serial = (new.run before).added := by
  induction calls using List.reverseRecOn with
  | nil =>
    rw [BarEngine.run, List.foldl_nil, hzero] at hserial
    exact absurd hserial (Nat.not_lt_zero _)
  | append_singleton calls c ih =>
    have hearlier : serial < (new.run calls).added → ∃ before barSize after s,
        IsAdded new (calls ++ [c]) before barSize after s ∧ serial = (new.run before).added := by
      intro hlt
      obtain ⟨before, barSize, after, s, hadded, heq⟩ := ih hlt
      refine ⟨before, barSize, after ++ [c], s, ⟨?_, hadded.added, hadded.constructed⟩, heq⟩
      rw [hadded.split, List.append_assoc, List.cons_append]
    have hrun : new.run (calls ++ [c]) = (new.run calls).call c := engine_run_append new calls [c]
    obtain ⟨barSize, rfl, hcall⟩ | ⟨barSize, -, hcall⟩ | ⟨c', -, hcall⟩ := call_eq (new.run calls) c
    · have hsame := sameSettings_run new calls
      obtain ⟨s, hs, -, -, hadd⟩ | ⟨hadd, -⟩ := addSeries_adds_or_keeps (new.run calls) barSize
      · rw [hsame.symbol, hsame.symbolId, hsame.tickSize, hsame.onBarClose] at hs
        rw [hrun, hcall, hadd] at hserial
        rcases Nat.lt_succ_iff_lt_or_eq.mp hserial with hlt | heq
        · exact hearlier hlt
        · exact ⟨calls, barSize, [], s, ⟨rfl, by rw [hadd], hs⟩, heq⟩
      · rw [hrun, hcall, hadd] at hserial
        exact hearlier hserial
    · rw [hrun, hcall] at hserial
      exact hearlier hserial
    · rw [hrun, hcall] at hserial
      exact hearlier hserial

/-- A series is found by its size. -/
theorem find_of_mem {e : BarEngine} (h : Keeps e) {slot : Slot} (hslot : slot ∈ e.series) :
    e.series.find? (·.hasSize slot.series.barSize) = some slot := by
  have hpick : (e.series.filter fun s => s.hasSize slot.series.barSize) = [slot] := by
    rw [← filter_key (·.series.barSize) h.sizes hslot]
    apply List.filter_congr
    intro s _
    rw [Bool.eq_iff_iff, hasSize_iff, decide_eq_true_iff]
  rw [← List.head?_filter, hpick]
  rfl

theorem run_settings (s : BarSeries) (calls : List Call) : (run s calls).toSettings = s.toSettings := by
  induction calls generalizing s with
  | nil => rfl
  | cons c calls ih => exact (ih (call s c)).trans (extends_call s c).settings

/-- A series that was added and not removed is in the engine, and found by its size. -/
theorem present_of_isAdded {new : BarEngine} (hnew : Keeps new) {calls before : List EngineCall}
    {barSize : BarSize} {after : List EngineCall} {s : BarSeries}
    (h : IsAdded new calls before barSize after s) (hkept : .removeSeries barSize ∉ after) :
    ⟨(new.run before).added, run s (seriesCalls after)⟩ ∈ (new.run calls).series ∧
      (new.run calls).currentBar barSize = (run s (seriesCalls after)).currentBar ∧
      (new.run calls).lastBar barSize = (run s (seriesCalls after)).lastBar := by
  have hsize := (constructed h.constructed).1
  have hmem := ((alone_of_isAdded hnew h).present (hsize ▸ hkept)).mem
  have hfind := find_of_mem (keeps_run hnew calls) hmem
  have hfinal : (run s (seriesCalls after)).barSize = barSize :=
    (congrArg Settings.barSize (run_settings s (seriesCalls after))).trans hsize
  rw [hfinal] at hfind
  refine ⟨hmem, ?_, ?_⟩
  · rw [BarEngine.currentBar, hfind]
    rfl
  · rw [BarEngine.lastBar, hfind]
    rfl

/-- A series of the engine was added, and not removed since. -/
theorem isAdded_of_mem {new : BarEngine} (hnew : Keeps new) (hzero : new.added = 0)
    {calls : List EngineCall} {slot : Slot} (hslot : slot ∈ (new.run calls).series) :
    ∃ before barSize after s, IsAdded new calls before barSize after s ∧
      .removeSeries barSize ∉ after ∧ slot = ⟨(new.run before).added, run s (seriesCalls after)⟩ := by
  have hkeeps := keeps_run hnew calls
  obtain ⟨before, barSize, after, s, hadded, hserial⟩ :=
    isAdded_of_lt hzero calls (hkeeps.fresh slot hslot)
  have halone := alone_of_isAdded hnew hadded
  have hsize := (constructed hadded.constructed).1
  have hkept : .removeSeries barSize ∉ after := by
    intro hmem
    exact halone.gone (hsize.symm ▸ hmem) (List.mem_map.mpr ⟨slot, hslot, hserial⟩)
  refine ⟨before, barSize, after, s, hadded, hkept, ?_⟩
  -- no other slot has its serial
  have hmem := (halone.present (hsize ▸ hkept)).mem
  have hone := filter_key (·.serial) hkeeps.serials hmem
  have hin : slot ∈ (new.run calls).series.filter fun s => s.serial = (new.run before).added :=
    List.mem_filter.mpr ⟨hslot, by simpa using hserial⟩
  rwa [hone, List.mem_singleton] at hin

/-- What the calls leave is a product of series, each of them alone with the calls
since it was added. -/
structure IsProduct (new : BarEngine) (calls : List EngineCall) : Prop where
  count : (new.run calls).series.length ≤ 4
  valid : ∀ slot ∈ (new.run calls).series, slot.series.barSize.isValid = true
  sizes : ((new.run calls).series.map (·.series.barSize)).Nodup
  add : ∀ barSize,
    (∃ s, construct barSize new.symbol new.symbolId new.tickSize new.onBarClose = .ok s ∧
      (new.run calls).addSeries barSize = ({ new.run calls with
        series := (new.run calls).series ++ [⟨(new.run calls).added, s⟩]
        added := (new.run calls).added + 1 }, .ok true)) ∨
    ((new.run calls).addSeries barSize = (new.run calls, .ok false) ∨
      ∃ err, (new.run calls).addSeries barSize = (new.run calls, .error err))
  delivered : ∀ before barSize after s, IsAdded new calls before barSize after s →
    (new.run calls).deliveriesOf (new.run before).added =
      (run s (seriesCalls (lifetime barSize after))).delivered
  present : ∀ before barSize after s, IsAdded new calls before barSize after s →
    .removeSeries barSize ∉ after →
    ⟨(new.run before).added, run s (seriesCalls after)⟩ ∈ (new.run calls).series ∧
      (new.run calls).currentBar barSize = (run s (seriesCalls after)).currentBar ∧
      (new.run calls).lastBar barSize = (run s (seriesCalls after)).lastBar
  only : ∀ slot ∈ (new.run calls).series, ∃ before barSize after s,
    IsAdded new calls before barSize after s ∧ .removeSeries barSize ∉ after ∧
      slot = ⟨(new.run before).added, run s (seriesCalls after)⟩
  heard : ∀ d ∈ (new.run calls).delivered, ∃ before barSize after s,
    IsAdded new calls before barSize after s ∧ d.serial = (new.run before).added

/-- A bar engine is a product of independent series. -/
theorem engine_isProduct (symbol : String) (symbolId : UInt32) (tickSize : Rat) (onBarClose : Bool)
    (calls : List EngineCall) : IsProduct (newEngine symbol symbolId tickSize onBarClose) calls := by
  have hnew := keeps_new symbol symbolId tickSize onBarClose
  have hzero : (newEngine symbol symbolId tickSize onBarClose).added = 0 := rfl
  generalize newEngine symbol symbolId tickSize onBarClose = new at hnew hzero ⊢
  have hkeeps := keeps_run hnew calls
  have hsame := sameSettings_run new calls
  refine ⟨hkeeps.count, fun slot _ => slot.series.valid, hkeeps.sizes, ?_, ?_, ?_, ?_, ?_⟩
  · intro barSize
    obtain ⟨s, hs, -, -, hadd⟩ | hadd := addSeries_cases (new.run calls) barSize
    · rw [hsame.symbol, hsame.symbolId, hsame.tickSize, hsame.onBarClose] at hs
      exact .inl ⟨s, hs, hadd⟩
    · exact .inr hadd
  · intro before barSize after s hadded
    have halone := alone_of_isAdded hnew hadded
    rw [← (constructed hadded.constructed).1]
    exact halone.delivered
  · intro before barSize after s hadded hkept
    exact present_of_isAdded hnew hadded hkept
  · intro slot hslot
    exact isAdded_of_mem hnew hzero hslot
  · intro d hd
    exact isAdded_of_lt hzero calls (hkeeps.past d hd)

end SessionBars
