import OrderFlow.SessionBarIds

/-!
# Unique ids of the bars of an engine

Two bars that the callback gets have different ids while no two series with one label
stand side by side: bars of one series open at different ticks, and bars of two series
carry different labels. A series added beside one of the same thousands breaks this at
the next tick that both open a bar with.
-/
namespace SessionBars

open GuardedRuns KeyedRecords SessionTypes

/-- Two bars have different ids if both series stood at both deliveries. -/
def UniqueIds (delivered : List Delivery) : Prop :=
  delivered.Pairwise fun d d' =>
    d.serial ∈ d'.existing ∧ d'.serial ∈ d.existing → d.bar.barId ≠ d'.bar.barId

/-- A call that adds a series beside another of the same thousands. -/
def Clashes (e : BarEngine) : EngineCall → Prop
  | .addSeries barSize => (e.addSeries barSize).2 = .ok true ∧
      ∃ slot ∈ e.series, SameThousands slot.series.barSize barSize
  | _ => False

def NeverClashes (e : BarEngine) (calls : List EngineCall) : Prop :=
  Guarded BarEngine.call (fun e c => ¬ Clashes e c) e calls

/-- A series with the settings of its engine, and ids with its own label. -/
structure Belongs (e : BarEngine) (s : BarSeries) : Prop where
  symbol : s.symbol = e.symbol
  callback : s.onBarClose = e.onBarClose
  ids : ∀ x ∈ stamps s, x.1 = idOf e.symbol x.2 s.barSize.label

theorem belongs_call {e : BarEngine} {s : BarSeries} (h : Belongs e s) (c : Call) :
    Belongs e (call s c) := by
  have hsettings := (extends_call s c).settings
  refine ⟨(congrArg Settings.symbol hsettings).trans h.symbol,
    (congrArg Settings.onBarClose hsettings).trans h.callback, fun x hx => ?_⟩
  rw [congrArg Settings.barSize hsettings]
  rcases List.mem_append.mp ((stamps_call s c).subset hx) with hx | hx
  · exact h.ids x hx
  · obtain ⟨t, -, rfl⟩ := List.mem_map.mp hx
    rw [h.symbol]

theorem belongs_new {e : BarEngine} {barSize : BarSize} {s : BarSeries}
    (h : construct barSize e.symbol e.symbolId e.tickSize e.onBarClose = .ok s) : Belongs e s := by
  obtain ⟨_, _, rfl⟩ := construct_ok_iff.mp h
  exact ⟨rfl, rfl, by simp [stamps, newSeries]⟩

/-- Every serial has had one size, and series that stood side by side have had labels
of their own. -/
structure Labelled (e : BarEngine) (sizeAt : Nat → BarSize) : Prop where
  slots : ∀ slot ∈ e.series, slot.series.barSize = sizeAt slot.serial
  belongs : ∀ slot ∈ e.series, Belongs e slot.series
  labels : (e.series.map (·.series.barSize.label)).Nodup
  past : ∀ d ∈ e.delivered, ∀ m ∈ d.existing, m < e.added
  apart : ∀ d ∈ e.delivered, ∀ m ∈ d.existing, m ≠ d.serial →
    (sizeAt m).label ≠ (sizeAt d.serial).label
  ids : ∀ d ∈ e.delivered,
    d.bar.barId = idOf e.symbol d.bar.barOpenTsNs (sizeAt d.serial).label

theorem labelled_addSeries {e : BarEngine} (hkeeps : Keeps e) {sizeAt : Nat → BarSize}
    (h : Labelled e sizeAt) {barSize : BarSize} (hclash : ¬ Clashes e (.addSeries barSize)) :
    ∃ sizeAt', Labelled (e.addSeries barSize).1 sizeAt' := by
  obtain ⟨s, hs, -, hnew, hadd⟩ | ⟨hadd, -⟩ := addSeries_adds_or_keeps e barSize
  · have hsize := (constructed hs).1
    have hold : ∀ m, m < e.added → Function.update sizeAt e.added barSize m = sizeAt m :=
      fun m hm => Function.update_of_ne hm.ne _ _
    have hlabel : ∀ slot ∈ e.series, slot.series.barSize.label ≠ barSize.label := by
      intro slot hslot heq
      rcases (label_eq_iff _ _).mp heq with heq | hsame
      · exact hnew slot hslot heq
      · exact hclash ⟨by rw [hadd], slot, hslot, hsame⟩
    rw [hadd]
    refine ⟨Function.update sizeAt e.added barSize, ?_, ?_, ?_, ?_, ?_, ?_⟩
    · intro slot hslot
      rcases List.mem_append.mp hslot with hslot | hslot
      · rw [hold _ (hkeeps.fresh slot hslot)]
        exact h.slots slot hslot
      · rw [List.mem_singleton.mp hslot, Function.update_self]
        exact hsize
    · intro slot hslot
      have hbelongs : Belongs e slot.series := by
        rcases List.mem_append.mp hslot with hslot | hslot
        · exact h.belongs slot hslot
        · rw [List.mem_singleton.mp hslot]
          exact belongs_new hs
      exact ⟨hbelongs.symbol, hbelongs.callback, hbelongs.ids⟩
    · exact nodup_snoc _ h.labels fun slot hslot => hsize.symm ▸ hlabel slot hslot
    · exact fun d hd m hm => (h.past d hd m hm).trans (Nat.lt_succ_self _)
    · intro d hd m hm hne
      rw [hold m (h.past d hd m hm), hold _ (hkeeps.past d hd)]
      exact h.apart d hd m hm hne
    · intro d hd
      rw [hold _ (hkeeps.past d hd)]
      exact h.ids d hd
  · rw [hadd]
    exact ⟨sizeAt, h⟩

theorem labelled_removeSeries {e : BarEngine} {sizeAt : Nat → BarSize} (h : Labelled e sizeAt)
    (barSize : BarSize) : Labelled (e.removeSeries barSize) sizeAt := by
  have hsub : (e.removeSeries barSize).series.Sublist e.series := List.filter_sublist
  refine ⟨fun slot hslot => h.slots slot (hsub.subset hslot), fun slot hslot => ?_,
    h.labels.sublist (hsub.map _), h.past, h.apart, h.ids⟩
  have hbelongs := h.belongs slot (hsub.subset hslot)
  exact ⟨hbelongs.symbol, hbelongs.callback, hbelongs.ids⟩

/-- A delivery is an old one, or of a bar that a series of the engine has just closed. -/
theorem mem_delivered_forEach {e : BarEngine} {f : BarSeries → BarSeries}
    (hf : ∀ s, Extends s (f s)) {d : Delivery} (hd : d ∈ (e.forEach f).delivered) :
    d ∈ e.delivered ∨ ∃ slot ∈ e.series, d.serial = slot.serial ∧
      d.existing = e.series.map (·.serial) ∧ d.bar ∈ (f slot.series).delivered := by
  rcases List.mem_append.mp hd with hd | hd
  · exact .inl hd
  · obtain ⟨slot, hslot, hd⟩ := List.mem_flatMap.mp hd
    obtain ⟨bar, hbar, rfl⟩ := List.mem_map.mp hd
    refine .inr ⟨slot, hslot, rfl, rfl, ?_⟩
    rw [delivered_append_new (hf slot.series)]
    exact List.mem_append_right _ hbar

theorem labelled_forEach {e : BarEngine} (hkeeps : Keeps e) {sizeAt : Nat → BarSize}
    (h : Labelled e sizeAt) (c : Call) : Labelled (e.forEach fun s => call s c) sizeAt := by
  have hf : ∀ s, Extends s (call s c) := fun s => extends_call s c
  have hsizes : ∀ s, (call s c).barSize = s.barSize := fun s =>
    congrArg Settings.barSize (hf s).settings
  constructor
  · intro slot hslot
    obtain ⟨slot', hslot', rfl⟩ := List.mem_map.mp hslot
    exact (hsizes slot'.series).trans (h.slots slot' hslot')
  · intro slot hslot
    obtain ⟨slot', hslot', rfl⟩ := List.mem_map.mp hslot
    have hbelongs := belongs_call (h.belongs slot' hslot') c
    exact ⟨hbelongs.symbol, hbelongs.callback, hbelongs.ids⟩
  · have hlabels := congrArg (List.map BarSize.label) (sizes_forEach e hf)
    rw [List.map_map, List.map_map] at hlabels
    exact (congrArg List.Nodup hlabels).mpr h.labels
  · intro d hd m hm
    rcases mem_delivered_forEach hf hd with hd | ⟨slot, hslot, -, hexisting, -⟩
    · exact h.past d hd m hm
    · rw [hexisting] at hm
      obtain ⟨slot', hslot', rfl⟩ := List.mem_map.mp hm
      exact hkeeps.fresh slot' hslot'
  · intro d hd m hm hne
    rcases mem_delivered_forEach hf hd with hd | ⟨slot, hslot, hserial, hexisting, -⟩
    · exact h.apart d hd m hm hne
    · rw [hexisting] at hm
      obtain ⟨slot', hslot', rfl⟩ := List.mem_map.mp hm
      rw [hserial, ← h.slots slot' hslot', ← h.slots slot hslot]
      intro heq
      apply hne
      rw [hserial, List.inj_on_of_nodup_map h.labels hslot' hslot heq]
  · intro d hd
    rcases mem_delivered_forEach hf hd with hd | ⟨slot, hslot, hserial, -, hbar⟩
    · exact h.ids d hd
    · rw [hserial, ← h.slots slot hslot, ← hsizes slot.series]
      exact (belongs_call (h.belongs slot hslot) c).ids (d.bar.barId, d.bar.barOpenTsNs)
        (List.mem_map.mpr ⟨d.bar, List.mem_append_left _ hbar, rfl⟩)

/-- What calls without a clash preserve. -/
def Ordered (e : BarEngine) : Prop := Keeps e ∧ ∃ sizeAt, Labelled e sizeAt

theorem ordered_call (e : BarEngine) (c : EngineCall) (h : Ordered e) (hclash : ¬ Clashes e c) :
    Ordered (e.call c) := by
  obtain ⟨hkeeps, sizeAt, hlabelled⟩ := h
  refine ⟨keeps_call hkeeps c, ?_⟩
  obtain ⟨barSize, rfl, hcall⟩ | ⟨barSize, -, hcall⟩ | ⟨c', -, hcall⟩ := call_eq e c
  · rw [hcall]
    exact labelled_addSeries hkeeps hlabelled hclash
  · rw [hcall]
    exact ⟨sizeAt, labelled_removeSeries hlabelled barSize⟩
  · rw [hcall]
    exact ⟨sizeAt, labelled_forEach hkeeps hlabelled c'⟩

theorem ordered_new (symbol : String) (symbolId : UInt32) (tickSize : Rat) (onBarClose : Bool) :
    Ordered (newEngine symbol symbolId tickSize onBarClose) := by
  refine ⟨keeps_new symbol symbolId tickSize onBarClose, fun _ => ⟨.time, 0⟩, ?_⟩
  constructor <;> simp [newEngine]

/-- Bars that the callback got from one series opened one after the other. -/
theorem delivered_increasing {new : BarEngine} (hnew : Keeps new) (hzero : new.added = 0)
    {calls : List EngineCall} (htimes : (tickTimes (seriesCalls calls)).Pairwise (· < ·)) :
    (new.run calls).delivered.Pairwise fun d d' =>
      d.serial = d'.serial → d.bar.barOpenTsNs < d'.bar.barOpenTsNs := by
  have hone : ∀ serial, ((new.run calls).delivered.filter fun d => d.serial = serial).Pairwise
      fun d d' => d.bar.barOpenTsNs < d'.bar.barOpenTsNs := by
    intro serial
    by_cases hserial : serial < (new.run calls).added
    · obtain ⟨before, barSize, after, s, hadded, rfl⟩ := isAdded_of_lt hzero calls hserial
      have hdelivered := (alone_of_isAdded hnew hadded).delivered
      have hstamps : stamps s = [] := by
        obtain ⟨_, _, rfl⟩ := construct_ok_iff.mp hadded.constructed
        rfl
      have hsub : (tickTimes (seriesCalls (lifetime s.barSize after))).Sublist
          (tickTimes (seriesCalls calls)) := by
        rw [hadded.split]
        apply List.Sublist.map
        apply List.Sublist.filterMap
        apply List.Sublist.filterMap
        exact ((List.takeWhile_sublist _).trans (List.sublist_cons_self _ _)).trans
          (List.sublist_append_right _ _)
      obtain ⟨hincreasing, -⟩ := times_increasing hstamps (htimes.sublist hsub)
      have hbars : ((new.run calls).deliveriesOf (new.run before).added).Pairwise
          fun b b' => b.barOpenTsNs < b'.barOpenTsNs := by
        rw [hdelivered]
        rw [stamps, List.map_map, List.map_append, List.pairwise_append] at hincreasing
        exact List.pairwise_map.mp hincreasing.1
      rw [BarEngine.deliveriesOf, List.pairwise_map] at hbars
      exact hbars
    · have hnone : (new.run calls).delivered.filter (fun d => d.serial = serial) = [] := by
        rw [List.filter_eq_nil_iff]
        intro d hd heq
        have hpast := (keeps_run hnew calls).past d hd
        rw [decide_eq_true_eq.mp heq] at hpast
        exact hserial hpast
      rw [hnone]
      exact .nil
  rw [List.pairwise_iff_getElem]
  intro i j hi hj hij hsame
  have hfilter := List.pairwise_filter.mp (hone (new.run calls).delivered[i].serial)
  exact List.pairwise_iff_getElem.mp hfilter i j hi hj hij (by simp) (by simp [hsame])

/-- Without a clash the ids of all bars are unique. -/
theorem uniqueIds_of_ordered {new : BarEngine} (hnew : Keeps new) (hzero : new.added = 0)
    {calls : List EngineCall} (hordered : Ordered (new.run calls))
    (htimes : (tickTimes (seriesCalls calls)).Pairwise (· < ·)) :
    UniqueIds (new.run calls).delivered := by
  obtain ⟨-, sizeAt, hlabelled⟩ := hordered
  refine (delivered_increasing hnew hzero htimes).imp_of_mem ?_
  rintro d d' hd hd' htime ⟨-, hexisting⟩ heq
  rw [hlabelled.ids d hd, hlabelled.ids d' hd'] at heq
  obtain ⟨hopen, hlabel⟩ := idOf_inj heq
  by_cases hserial : d.serial = d'.serial
  · exact absurd hopen (htime hserial).ne
  · exact hlabelled.apart d hd d'.serial hexisting (Ne.symm hserial) hlabel.symm

/-- A trade of one contract. -/
def oneContract (exchangeTsNs : Int) : UniversalTickRecord :=
  ⟨exchangeTsNs, 5000, 1, 1, .ask, .trade⟩

/-- A series of a large volume opens a bar with the first trade after a forced close. -/
theorem opens_after_close {s : BarSeries} (htype : s.barSize.type = .volume)
    (hlarge : s.barSize.sizeValue ≥ 1000) (t : Int) :
    ∃ bar, (onTick (forceCloseBar s 0) (oneContract t) 0).currentBar = some bar ∧
      bar.barId = idOf s.symbol t s.barSize.label := by
  have hidle := closeCurrentBar_currentBar s 0
  have hsettings := closeCurrentBar_settings s 0
  generalize hclosed : closeCurrentBar s 0 = closed at hidle hsettings
  have hopened : withOpenBar closed (oneContract t) =
      { closed with currentBar := some (openNewBar closed t 5000) } := by
    simp [withOpenBar, hidle, oneContract]
  have hsize : closed.barSize = s.barSize := congrArg Settings.barSize hsettings
  have hpos : closed.barSize.sizeValue.toNat ≠ 0 := by
    have hle : 1000 ≤ s.barSize.sizeValue.toNat := UInt32.le_iff_toNat_le.mp hlarge
    rw [hsize]
    omega
  have hstays : shouldClose (withOpenBar closed (oneContract t)) (oneContract t) = false := by
    rw [hopened]
    simp only [shouldClose, hsize, htype, openNewBar, decide_eq_false_iff_not, ge_iff_le]
    rw [← hsize]
    omega
  have hstep : (onTick (forceCloseBar s 0) (oneContract t) 0).currentBar =
      some (accumulate closed.tickSize (openNewBar closed t 5000) (oneContract t)) := by
    rw [forceCloseBar, hclosed, onTick, if_pos (by rfl)]
    dsimp only
    rw [hstays, hopened]
    rfl
  refine ⟨_, hstep, ?_⟩
  rw [(accumulate_stamp _ _ _).1, ← congrArg Settings.symbol hsettings, ← hsize]
  rfl

/-- An open bar is delivered by a forced close. -/
theorem newlyDelivered_close {s : BarSeries} (hcallback : s.onBarClose = true) {bar : BarRecord}
    (hbar : s.currentBar = some bar) :
    newlyDelivered s (forceCloseBar s 0) = [complete bar 0] := by
  simp [newlyDelivered, forceCloseBar, closeCurrentBar, hbar, hcallback]

/-- A close, a trade and a close bring a bar of every series of a large volume. -/
theorem delivers_after_close {e : BarEngine} (hcallback : e.onBarClose = true) {slot : Slot}
    (hslot : slot ∈ e.series) (hbelongs : Belongs e slot.series)
    (htype : slot.series.barSize.type = .volume) (hlarge : slot.series.barSize.sizeValue ≥ 1000)
    (t : Int) :
    ∃ d ∈ (((e.onSessionClose 0).onTick (oneContract t) 0).onSessionClose 0).delivered,
      d.serial = slot.serial ∧ d.existing = e.series.map (·.serial) ∧
        d.bar.barId = idOf e.symbol t slot.series.barSize.label := by
  obtain ⟨bar, hbar, hid⟩ := opens_after_close htype hlarge t
  let fed := onTick (forceCloseBar slot.series 0) (oneContract t) 0
  have hfed : fed.onBarClose = true := by
    have hclose := (extends_call slot.series (.forceCloseBar 0)).settings
    have htick := (extends_call (forceCloseBar slot.series 0) (.onTick (oneContract t) 0)).settings
    have hsame := congrArg Settings.onBarClose (htick.trans hclose)
    exact hsame.trans (hbelongs.callback.trans hcallback)
  have hserials : ((e.onSessionClose 0).onTick (oneContract t) 0).series.map (·.serial) =
      e.series.map (·.serial) := by
    rw [BarEngine.onTick, serials_forEach, BarEngine.onSessionClose, serials_forEach]
  have hmem : ⟨slot.serial, fed⟩ ∈ ((e.onSessionClose 0).onTick (oneContract t) 0).series :=
    List.mem_map.mpr ⟨⟨slot.serial, forceCloseBar slot.series 0⟩,
      List.mem_map.mpr ⟨slot, hslot, rfl⟩, rfl⟩
  refine ⟨⟨slot.serial, complete bar 0, e.series.map (·.serial)⟩, ?_, rfl, rfl, ?_⟩
  · apply List.mem_append_right
    rw [List.mem_flatMap]
    refine ⟨_, hmem, ?_⟩
    rw [newlyDelivered_close hfed hbar, hserials]
    exact List.mem_cons_self
  · rw [(complete_stamp bar 0).1, hid, hbelongs.symbol]

theorem exists_later (times : List Int) : ∃ t : Int, ∀ x ∈ times, x < t := by
  induction times with
  | nil => exact ⟨0, by simp⟩
  | cons x times ih =>
    obtain ⟨t, ht⟩ := ih
    refine ⟨max (x + 1) t, fun y hy => ?_⟩
    rcases List.mem_cons.mp hy with rfl | hy
    · omega
    · have hlt := ht y hy
      omega

/-- Only adding can clash. -/
theorem adds_of_clashes {e : BarEngine} {c : EngineCall} (h : Clashes e c) :
    ∃ barSize, c = .addSeries barSize ∧ (e.addSeries barSize).2 = .ok true ∧
      ∃ slot ∈ e.series, SameThousands slot.series.barSize barSize := by
  cases c with
  | addSeries barSize => exact ⟨barSize, rfl, h⟩
  | removeSeries barSize => exact h.elim
  | onTick tick sessionOpenTsNs => exact h.elim
  | onSessionOpen sessionOpenTsNs => exact h.elim
  | onSessionClose sessionCloseTsNs => exact h.elim

/-- Two series of the same thousands get bars of one id from the next trade. -/
theorem clash_breaks {e : BarEngine} (hordered : Ordered e) (hcallback : e.onBarClose = true)
    {c : EngineCall} (hclash : Clashes e c) (t : Int) :
    ¬ UniqueIds
      (((e.call c).onSessionClose 0).onTick (oneContract t) 0 |>.onSessionClose 0).delivered := by
  obtain ⟨hkeeps, sizeAt, hlabelled⟩ := hordered
  obtain ⟨barSize, rfl, hok, slot, hslot, hsame⟩ := adds_of_clashes hclash
  obtain ⟨s, hs, -, -, hadd⟩ | ⟨-, hadd⟩ := addSeries_adds_or_keeps e barSize
  · have hsize := (constructed hs).1
    have hcall : e.call (.addSeries barSize) = { e with
        series := e.series ++ [⟨e.added, s⟩]
        added := e.added + 1 } := by
      rw [BarEngine.call, hadd]
    have hold := hlabelled.belongs slot hslot
    have hnew : Belongs e s := belongs_new hs
    let both : BarEngine := { e with
      series := e.series ++ [⟨e.added, s⟩]
      added := e.added + 1 }
    have hboth : both.onBarClose = true := hcallback
    have hnext : (⟨e.added, s⟩ : Slot) ∈ both.series :=
      List.mem_append_right _ List.mem_cons_self
    rw [hcall]
    obtain ⟨d, hd, hserial, hexisting, hid⟩ := delivers_after_close hboth
      (List.mem_append_left _ hslot : slot ∈ both.series)
      ⟨hold.symbol, hold.callback, hold.ids⟩ hsame.left hsame.left_large t
    obtain ⟨d', hd', hserial', hexisting', hid'⟩ := delivers_after_close hboth hnext
      ⟨hnew.symbol, hnew.callback, hnew.ids⟩ (hsize ▸ hsame.right) (hsize ▸ hsame.right_large) t
    intro hunique
    have hne : d ≠ d' := by
      rintro rfl
      exact absurd (hserial.symm.trans hserial') (hkeeps.fresh slot hslot).ne
    have hsymm : Std.Symm fun d d' : Delivery =>
        d.serial ∈ d'.existing ∧ d'.serial ∈ d.existing → d.bar.barId ≠ d'.bar.barId :=
      ⟨fun x y hxy hyx => (hxy hyx.symm).symm⟩
    apply hunique.forall hd hd' hne
    · rw [hexisting, hexisting', hserial, hserial']
      constructor
      · exact List.mem_map.mpr ⟨slot, List.mem_append_left _ hslot, rfl⟩
      · exact List.mem_map.mpr ⟨⟨e.added, s⟩, List.mem_append_right _ List.mem_cons_self, rfl⟩
    · rw [hid, hid']
      dsimp only
      rw [(label_eq_iff slot.series.barSize s.barSize).mpr (.inr (hsize ▸ hsame))]
  · exact absurd hok hadd

theorem seriesCalls_append (calls calls' : List EngineCall) :
    seriesCalls (calls ++ calls') = seriesCalls calls ++ seriesCalls calls' :=
  List.filterMap_append

/-- A forced close of all series around one trade. -/
def closedTrade (t : Int) : List EngineCall :=
  [.onSessionClose 0, .onTick (oneContract t) 0, .onSessionClose 0]

theorem times_of_start {calls before : List EngineCall}
    (htimes : (tickTimes (seriesCalls calls)).Pairwise (· < ·)) (hbefore : before <+: calls) :
    (tickTimes (seriesCalls before)).Pairwise (· < ·) := by
  obtain ⟨rest, rfl⟩ := hbefore
  rw [seriesCalls_append, tickTimes_append] at htimes
  exact (List.pairwise_append.mp htimes).1

/-- The callback gets bars of different ids in every state of a run that never adds a
series beside another of the same thousands, and the first call that does can be
followed by a trade after which two bars have one id. -/
theorem ids_unique (symbol : String) (symbolId : UInt32) (tickSize : Rat) (onBarClose : Bool)
    (calls : List EngineCall) (htimes : (tickTimes (seriesCalls calls)).Pairwise (· < ·))
    (hclash : NeverClashes (newEngine symbol symbolId tickSize onBarClose) calls) :
    (∀ before, before <+: calls →
      UniqueIds ((newEngine symbol symbolId tickSize onBarClose).run before).delivered) ∧
    (∀ c, Clashes ((newEngine symbol symbolId tickSize onBarClose).run calls) c →
      onBarClose = true →
      ∃ t, (tickTimes (seriesCalls (calls ++ c :: closedTrade t))).Pairwise (· < ·) ∧
        ¬ UniqueIds ((newEngine symbol symbolId tickSize onBarClose).run
          (calls ++ c :: closedTrade t)).delivered) := by
  have hkeeps := keeps_new symbol symbolId tickSize onBarClose
  have hnew := ordered_new symbol symbolId tickSize onBarClose
  have hordered : ∀ before, before <+: calls →
      Ordered ((newEngine symbol symbolId tickSize onBarClose).run before) := fun before hbefore =>
    inv_of_guarded Ordered ordered_call hnew hclash hbefore
  constructor
  · intro before hbefore
    exact uniqueIds_of_ordered hkeeps rfl (hordered before hbefore) (times_of_start htimes hbefore)
  · intro c hc hcallback
    obtain ⟨t, ht⟩ := exists_later (tickTimes (seriesCalls calls))
    refine ⟨t, ?_, ?_⟩
    · have hlast : tickTimes (seriesCalls (c :: closedTrade t)) = [t] := by
        obtain ⟨barSize, rfl, -⟩ := adds_of_clashes hc
        rfl
      rw [seriesCalls_append, tickTimes_append, hlast, List.pairwise_append]
      refine ⟨htimes, List.pairwise_singleton _ _, fun x hx y hy => ?_⟩
      rw [List.mem_singleton.mp hy]
      exact ht x hx
    · have hsame := (sameSettings_run (newEngine symbol symbolId tickSize onBarClose) calls).onBarClose
      rw [engine_run_append]
      exact clash_breaks (hordered calls (List.prefix_refl calls)) (hsame.trans hcallback) hc t

/-- A thousand contracts leave before fifteen hundred come. -/
def removedThousand : List EngineCall :=
  [.addSeries ⟨.volume, 1000⟩, .addSeries ⟨.volume, 2500⟩, .onTick (oneContract 1) 0,
    .onSessionClose 2, .removeSeries ⟨.volume, 1000⟩, .addSeries ⟨.volume, 1500⟩,
    .onTick (oneContract 3) 0, .onSessionClose 4]

/-- Both series of one thousand contracts open a bar with the first trade. -/
def sameThousandsBeside : List EngineCall :=
  [.addSeries ⟨.volume, 1000⟩, .addSeries ⟨.volume, 1500⟩, .onTick (oneContract 1) 0,
    .onSessionClose 2]

theorem ids_unique_removedThousand :
    UniqueIds ((newEngine "ES" 1 (1 / 4) true).run removedThousand).delivered := by
  have hclash : NeverClashes (newEngine "ES" 1 (1 / 4) true) removedThousand := by
    simp only [removedThousand, NeverClashes, Guarded, Clashes, not_false_iff, true_and, and_true]
    decide +kernel
  exact (ids_unique "ES" 1 (1 / 4) true removedThousand (by decide) hclash).1 _
    (List.prefix_refl _)

theorem sameThousandsBeside_not_unique :
    (tickTimes (seriesCalls sameThousandsBeside)).Pairwise (· < ·) ∧
      ¬ UniqueIds ((newEngine "ES" 1 (1 / 4) true).run sameThousandsBeside).delivered := by
  refine ⟨by decide, ?_⟩
  unfold UniqueIds
  decide +kernel

end SessionBars
