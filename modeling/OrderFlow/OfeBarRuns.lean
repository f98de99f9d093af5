import Mathlib.Data.List.Chain
import Mathlib.Data.List.Nodup
import Mathlib.Data.List.Range
import Mathlib.Tactic.Linarith
import OrderFlow.GuardedRuns
import OrderFlow.OfeBars

/-!
# Runs of one bar series

What one tick does to the open bar and to the completed ones, for the closing time
of a time bar and for the indices of the bars. The closing time is the sum of two
words, so it is the time the threshold stands for until the sum wraps. The index
of a bar is the number of completed bars when it opens, so it counts the bars until
the list is cleared under an open one.
-/
namespace OfeBars

open GuardedRuns

/-- A tick joins the bar that is open, and closes it if it is full. -/
def BarSeries.book (s : BarSeries) (tick : UniversalTickRecord) : BarSeries :=
  if (s.updateBar tick).shouldFinalize then
    { (s.updateBar tick).finalizeBar tick.timestampNs with active := false }
  else s.updateBar tick

/-- Before it is booked, a tick opens a bar if none is open or the time of the open one
is up. -/
theorem ingest_cases (s : BarSeries) (tick : UniversalTickRecord) :
    (s.active = false ∧ s.ingest tick = (s.startBar tick).book tick) ∨
    (s.active = true ∧ s.timeUp tick = true ∧
      s.ingest tick = ((s.finalizeBar tick.timestampNs).startBar tick).book tick) ∨
    (s.active = true ∧ s.timeUp tick = false ∧ s.ingest tick = s.book tick) := by
  cases hactive : s.active with
  | false =>
    have hup : (s.startBar tick).timeUp tick = false := by
      simp [BarSeries.timeUp, BarSeries.startBar]
    exact .inl ⟨rfl, by simp [BarSeries.ingest, BarSeries.book, hactive, hup]⟩
  | true =>
    cases hup : s.timeUp tick with
    | true => exact .inr (.inl ⟨rfl, rfl, by simp [BarSeries.ingest, BarSeries.book, hactive, hup]⟩)
    | false => exact .inr (.inr ⟨rfl, rfl, by simp [BarSeries.ingest, BarSeries.book, hactive, hup]⟩)

theorem book_of_time {s : BarSeries} (htype : s.type = .time) (tick : UniversalTickRecord) :
    s.book tick = s.updateBar tick := by
  have hfull : (s.updateBar tick).shouldFinalize = false := by
    simp [BarSeries.shouldFinalize, BarSeries.updateBar, htype]
  rw [BarSeries.book, hfull, if_neg Bool.false_ne_true]

/-- The time from the start of the open bar to a tick. -/
def elapsed (s : BarSeries) (tick : UniversalTickRecord) : Int :=
  (tick.timestampNs.toNat : Int) - s.current.startTimestampNs.toNat

def Closes (s : BarSeries) (tick : UniversalTickRecord) : Prop :=
  (s.ingest tick).completed = s.completed ++ [{ s.current with endTimestampNs := tick.timestampNs }]

def Joins (s : BarSeries) (tick : UniversalTickRecord) : Prop := s.ingest tick = s.updateBar tick

/-- The tick closes the open bar exactly when the threshold has elapsed, and joins
it otherwise. -/
def ClosesOnElapsed (s : BarSeries) (tick : UniversalTickRecord) : Prop :=
  (Closes s tick ↔ elapsed s tick ≥ s.threshold.toNat) ∧
    (elapsed s tick < s.threshold.toNat → Joins s tick)

theorem ingest_time {s : BarSeries} (htype : s.type = .time) (hactive : s.active = true)
    (tick : UniversalTickRecord) :
    s.ingest tick =
      if s.timeUp tick then ((s.finalizeBar tick.timestampNs).startBar tick).updateBar tick
      else s.updateBar tick := by
  obtain ⟨hidle, -⟩ | ⟨-, hup, hingest⟩ | ⟨-, hup, hingest⟩ := ingest_cases s tick
  · exact absurd (hactive.symm.trans hidle) (by simp)
  · rw [hingest, hup, if_pos rfl]
    exact book_of_time (s := (s.finalizeBar tick.timestampNs).startBar tick) htype tick
  · rw [hingest, hup, if_neg Bool.false_ne_true]
    exact book_of_time htype tick

/-- The code compares with the sum of two words. -/
theorem timeUp_iff {s : BarSeries} (htype : s.type = .time) (hcount : 0 < s.current.tradeCount)
    (tick : UniversalTickRecord) :
    s.timeUp tick = true ↔
      (s.current.startTimestampNs.toNat + s.threshold.toNat) % 2 ^ 64 ≤ tick.timestampNs.toNat := by
  simp [BarSeries.timeUp, htype, hcount, UInt64.le_iff_toNat_le]

theorem closes_iff_timeUp {s : BarSeries} (htype : s.type = .time) (hactive : s.active = true)
    (tick : UniversalTickRecord) : Closes s tick ↔ s.timeUp tick = true := by
  unfold Closes
  rw [ingest_time htype hactive]
  split
  · rename_i hup
    simp [hup, BarSeries.updateBar, BarSeries.startBar, BarSeries.finalizeBar]
  · rename_i hup
    simp [hup, BarSeries.updateBar]

theorem joins_iff_not_timeUp {s : BarSeries} (htype : s.type = .time) (hactive : s.active = true)
    (tick : UniversalTickRecord) : Joins s tick ↔ ¬ s.timeUp tick = true := by
  constructor
  · intro hjoins hup
    have hcloses := (closes_iff_timeUp htype hactive tick).mpr hup
    rw [Closes, hjoins] at hcloses
    simp [BarSeries.updateBar] at hcloses
  · intro hup
    rw [Joins, ingest_time htype hactive, if_neg hup]

/-- A time bar closes on elapsed time exactly where the closing time does not wrap, or
wraps to a time that the tick has not reached. -/
theorem closesOnElapsed_iff {s : BarSeries} (htype : s.type = .time) (hactive : s.active = true)
    (hcount : 0 < s.current.tradeCount) (tick : UniversalTickRecord) :
    ClosesOnElapsed s tick ↔
      s.current.startTimestampNs.toNat + s.threshold.toNat < 2 ^ 64 ∨
        tick.timestampNs.toNat + 2 ^ 64 < s.current.startTimestampNs.toNat + s.threshold.toNat := by
  have hstart := s.current.startTimestampNs.toNat_lt
  have hthreshold := s.threshold.toNat_lt
  have htick := tick.timestampNs.toNat_lt
  unfold ClosesOnElapsed elapsed
  rw [closes_iff_timeUp htype hactive, joins_iff_not_timeUp htype hactive,
    timeUp_iff htype hcount]
  omega

/-- A bar opened at the time 1, with the largest threshold. -/
def endless : BarSeries :=
  (newSeries .time 18446744073709551615).ingest ⟨1, 7, 100, 1, 99, 100, 1, 1⟩

theorem closesOnElapsed_late :
    ClosesOnElapsed ((newSeries .time 10).ingest ⟨20, 7, 100, 1, 99, 100, 1, 1⟩)
      ⟨15, 7, 100, 1, 99, 100, 1, 1⟩ :=
  (closesOnElapsed_iff (by decide +kernel) (by decide +kernel) (by decide +kernel) _).mpr
    (.inl (by decide +kernel))

/-- The next nanosecond closes it. -/
theorem endless_closes : ¬ ClosesOnElapsed endless ⟨2, 7, 100, 1, 99, 100, 1, 1⟩ := by
  rintro ⟨hcloses, -⟩
  have hclosed : Closes endless ⟨2, 7, 100, 1, 99, 100, 1, 1⟩ := by
    unfold Closes
    decide +kernel
  have helapsed := hcloses.mp hclosed
  revert helapsed
  decide +kernel

inductive SeriesCall where
  | ingest (tick : UniversalTickRecord)
  | clearCompleted
  deriving DecidableEq, Repr

def BarSeries.call (s : BarSeries) : SeriesCall → BarSeries
  | .ingest tick => s.ingest tick
  | .clearCompleted => s.clearCompleted

def BarSeries.run (s : BarSeries) (calls : List SeriesCall) : BarSeries := calls.foldl BarSeries.call s

/-- The indices count the bars from zero, the open one last. -/
structure Indexed (s : BarSeries) : Prop where
  completed : s.completed.map (·.barIndex) = (List.range s.completed.length).map UInt32.ofNat
  current : s.active = true → s.current.barIndex = UInt32.ofNat s.completed.length

theorem indexed_new (type : BarType) (threshold : UInt64) : Indexed (newSeries type threshold) :=
  ⟨rfl, nofun⟩

theorem indexed_start {s : BarSeries}
    (h : s.completed.map (·.barIndex) = (List.range s.completed.length).map UInt32.ofNat)
    (tick : UniversalTickRecord) : Indexed (s.startBar tick) :=
  ⟨h, fun _ => rfl⟩

theorem indexed_update {s : BarSeries} (h : Indexed s) (tick : UniversalTickRecord) :
    Indexed (s.updateBar tick) :=
  ⟨h.completed, h.current⟩

/-- The bar that closes has the next index. -/
theorem indexed_finalize {s : BarSeries} (h : Indexed s) (hactive : s.active = true) (ts : UInt64) :
    (s.finalizeBar ts).completed.map (·.barIndex) =
      (List.range (s.finalizeBar ts).completed.length).map UInt32.ofNat := by
  simp only [BarSeries.finalizeBar, List.map_append, List.map_singleton, List.length_append,
    List.length_singleton, List.range_succ, h.completed, h.current hactive]

theorem indexed_book {s : BarSeries} (h : Indexed s) (hactive : s.active = true)
    (tick : UniversalTickRecord) : Indexed (s.book tick) := by
  unfold BarSeries.book
  split
  · exact ⟨indexed_finalize (indexed_update h tick) hactive _, nofun⟩
  · exact indexed_update h tick

theorem indexed_ingest {s : BarSeries} (h : Indexed s) (tick : UniversalTickRecord) :
    Indexed (s.ingest tick) := by
  obtain ⟨-, hingest⟩ | ⟨hactive, -, hingest⟩ | ⟨hactive, -, hingest⟩ := ingest_cases s tick
  · rw [hingest]
    exact indexed_book (indexed_start h.completed tick) rfl tick
  · rw [hingest]
    exact indexed_book (indexed_start (indexed_finalize h hactive _) tick) rfl tick
  · rw [hingest]
    exact indexed_book h hactive tick

/-- Clearing leaves the indices in order if it takes no bar from under an open one. -/
def ClearsIdle (s : BarSeries) : SeriesCall → Prop
  | .ingest _ => True
  | .clearCompleted => s.active = false ∨ s.completed = []

theorem indexed_call {s : BarSeries} (h : Indexed s) {call : SeriesCall} (hcall : ClearsIdle s call) :
    Indexed (s.call call) := by
  cases call with
  | ingest tick => exact indexed_ingest h tick
  | clearCompleted =>
    refine ⟨rfl, fun hactive => ?_⟩
    rcases hcall with hidle | hnone
    · exact absurd (hactive.symm.trans hidle) (by simp)
    · have hcurrent := h.current hactive
      rwa [hnone] at hcurrent

/-- Every call of a run clears idly. -/
def AllClearIdle (s : BarSeries) (calls : List SeriesCall) : Prop :=
  Guarded BarSeries.call ClearsIdle s calls

theorem indexed_run {s : BarSeries} (h : Indexed s) {calls before : List SeriesCall}
    (hcalls : AllClearIdle s calls) (hbefore : before <+: calls) : Indexed (s.run before) :=
  inv_of_guarded Indexed (fun _ _ hs hcall => indexed_call hs hcall) h hcalls hbefore

/-- The indices are consecutive, as numbers, and no two bars share one. -/
structure InOrder (bars : List BarRecord) : Prop where
  consecutive : bars.IsChain fun a b => b.barIndex.toNat = a.barIndex.toNat + 1
  nodup : (bars.map (·.barIndex)).Nodup

theorem inOrder_of_indexed {s : BarSeries} (h : Indexed s) (hlength : s.completed.length ≤ 2 ^ 32) :
    InOrder s.completed := by
  have hword : ∀ i < s.completed.length, (UInt32.ofNat i).toNat = i := by
    intro i hi
    rw [UInt32.toNat_ofNat']
    exact Nat.mod_eq_of_lt (hi.trans_le hlength)
  constructor
  · have hchain : ((List.range s.completed.length).map UInt32.ofNat).IsChain
        fun a b => b.toNat = a.toNat + 1 := by
      rw [List.isChain_map, List.isChain_range]
      intro i hi
      rw [hword _ (by omega), hword _ (by omega)]
    rw [← h.completed] at hchain
    exact (List.isChain_map _).mp hchain
  · rw [h.completed]
    apply List.Nodup.map_on _ List.nodup_range
    intro i hi j hj hij
    rw [← hword i (List.mem_range.mp hi), ← hword j (List.mem_range.mp hj), hij]

/-- An open bar has the index of its place and a tick. -/
def Placed (s : BarSeries) : Prop :=
  s.active = true → s.current.barIndex = UInt32.ofNat s.completed.length ∧ 0 < s.current.tradeCount

/-- A tick of the latest time, of a price and a size that fill the open bar. -/
def closingTick (s : BarSeries) : UniversalTickRecord where
  timestampNs := UInt64.ofNat (2 ^ 64 - 1)
  symbolId := 0
  price := s.current.low + s.threshold.toNat
  size := s.threshold.toNat - s.current.volume
  bidPrice := 0
  askPrice := 0
  bidSize := 0
  askSize := 0

theorem ingest_closingTick {s : BarSeries} (hactive : s.active = true)
    (hcount : 0 < s.current.tradeCount) :
    ∃ b, (s.ingest (closingTick s)).completed = s.completed ++ [b] ∧
      b.barIndex = s.current.barIndex ∧ Placed (s.ingest (closingTick s)) := by
  by_cases htype : s.type = .time
  · have hup : s.timeUp (closingTick s) = true := by
      have hlast : (closingTick s).timestampNs.toNat = 2 ^ 64 - 1 := rfl
      rw [timeUp_iff htype hcount, hlast]
      omega
    rw [ingest_time htype hactive, if_pos hup]
    exact ⟨_, rfl, rfl, fun _ => ⟨rfl, Nat.succ_pos _⟩⟩
  · have hfull : (s.updateBar (closingTick s)).shouldFinalize = true := by
      have hhigh := le_max_right s.current.high (s.current.low + s.threshold.toNat)
      have hlow := min_le_left s.current.low (s.current.low + s.threshold.toNat)
      cases hkind : s.type with
      | time => exact absurd hkind htype
      | range =>
        simp only [BarSeries.shouldFinalize, BarSeries.updateBar, hkind, closingTick,
          decide_eq_true_eq]
        linarith
      | volume => simp [BarSeries.shouldFinalize, BarSeries.updateBar, hkind, closingTick]
    obtain ⟨hidle, -⟩ | ⟨-, hup, -⟩ | ⟨-, -, hingest⟩ := ingest_cases s (closingTick s)
    · exact absurd (hactive.symm.trans hidle) (by simp)
    · simp [BarSeries.timeUp, htype] at hup
    · rw [hingest, BarSeries.book, if_pos hfull]
      exact ⟨_, rfl, rfl, nofun⟩

/-- The next bar to close takes its index from the completed bars. -/
theorem next_bar {s : BarSeries} (h : Placed s) :
    ∃ ticks b, (s.ingestAll ticks).completed = s.completed ++ [b] ∧
      b.barIndex = UInt32.ofNat s.completed.length := by
  cases hactive : s.active with
  | true =>
    obtain ⟨hindex, hcount⟩ := h hactive
    obtain ⟨b, hcompleted, hb, -⟩ := ingest_closingTick hactive hcount
    exact ⟨[closingTick s], b, hcompleted, hb.trans hindex⟩
  | false =>
    -- the first tick opens the bar, and may fill it
    let tick := closingTick s
    let opened := (s.startBar tick).updateBar tick
    have hingest : s.ingest tick = (s.startBar tick).book tick := by
      obtain ⟨-, hingest⟩ | ⟨hopen, -⟩ | ⟨hopen, -⟩ := ingest_cases s tick
      · exact hingest
      · exact absurd (hactive.symm.trans hopen) (by simp)
      · exact absurd (hactive.symm.trans hopen) (by simp)
    by_cases hfull : opened.shouldFinalize = true
    · refine ⟨[tick], { opened.current with endTimestampNs := tick.timestampNs }, ?_, rfl⟩
      rw [BarSeries.ingestAll, List.foldl_cons, List.foldl_nil, hingest, BarSeries.book, if_pos hfull]
      rfl
    · obtain ⟨b, hcompleted, hb, -⟩ :=
        ingest_closingTick (s := opened) rfl (Nat.succ_pos (s.startBar tick).current.tradeCount)
      refine ⟨[tick, closingTick opened], b, ?_, hb⟩
      rw [BarSeries.ingestAll, List.foldl_cons, hingest, BarSeries.book, if_neg hfull]
      exact hcompleted

theorem count_pos_book (s : BarSeries) (tick : UniversalTickRecord)
    (h : (s.book tick).active = true) : 0 < (s.book tick).current.tradeCount := by
  revert h
  unfold BarSeries.book
  split
  · nofun
  · exact fun _ => Nat.succ_pos _

theorem count_pos_ingest (s : BarSeries) (tick : UniversalTickRecord)
    (h : (s.ingest tick).active = true) : 0 < (s.ingest tick).current.tradeCount := by
  obtain ⟨-, hingest⟩ | ⟨-, -, hingest⟩ | ⟨-, -, hingest⟩ := ingest_cases s tick <;>
  · rw [hingest] at h ⊢
    exact count_pos_book _ tick h

theorem count_pos_run (type : BarType) (threshold : UInt64) (calls : List SeriesCall)
    (h : ((newSeries type threshold).run calls).active = true) :
    0 < ((newSeries type threshold).run calls).current.tradeCount := by
  induction calls using List.reverseRecOn with
  | nil => cases h
  | append_singleton calls call ih =>
    rw [BarSeries.run, List.foldl_append] at h ⊢
    cases call with
    | ingest tick => exact count_pos_ingest _ tick h
    | clearCompleted => exact ih h

/-- When a clear takes bars from under an open one, that bar closes with an index out
of line with the next. -/
theorem clear_breaks {s : BarSeries} (h : Indexed s) (hactive : s.active = true)
    (hcount : 0 < s.current.tradeCount) (hne : s.completed ≠ [])
    (hlength : s.completed.length < 2 ^ 32) :
    ∃ ticks, ¬ InOrder (s.clearCompleted.ingestAll ticks).completed := by
  obtain ⟨b, hcompleted, hb, hplaced⟩ := ingest_closingTick (s := s.clearCompleted) hactive hcount
  obtain ⟨ticks, b', hcompleted', hb'⟩ := next_bar hplaced
  refine ⟨closingTick s.clearCompleted :: ticks, fun horder => ?_⟩
  have hbars : (s.clearCompleted.ingestAll (closingTick s.clearCompleted :: ticks)).completed =
      [b, b'] := by
    rw [BarSeries.ingestAll, List.foldl_cons]
    exact hcompleted'.trans (by rw [hcompleted]; rfl)
  have hone : b'.barIndex.toNat = 1 := by
    rw [hb', hcompleted]
    rfl
  have hfirst : b.barIndex.toNat = s.completed.length := by
    have hindex : b.barIndex = UInt32.ofNat s.completed.length := hb.trans (h.current hactive)
    rw [hindex, UInt32.toNat_ofNat']
    exact Nat.mod_eq_of_lt hlength
  have hchain := horder.consecutive
  rw [hbars, List.isChain_pair, hone, hfirst] at hchain
  have hpos : 0 < s.completed.length := List.length_pos_iff.mpr hne
  omega

theorem run_append (s : BarSeries) (calls calls' : List SeriesCall) :
    s.run (calls ++ calls') = (s.run calls).run calls' := by
  rw [BarSeries.run, List.foldl_append]
  rfl

theorem run_ingest (s : BarSeries) (ticks : List UniversalTickRecord) :
    s.run (ticks.map .ingest) = s.ingestAll ticks := by
  rw [BarSeries.run, List.foldl_map]
  rfl

/-- The indices of the completed bars are in order in every state of a run that clears
idly, and the first call that does not can be followed by ticks that leave them out of
order. -/
theorem bars_inOrder (type : BarType) (threshold : UInt64) (calls : List SeriesCall)
    (hcalls : AllClearIdle (newSeries type threshold) calls) :
    (∀ before, before <+: calls → ((newSeries type threshold).run before).completed.length ≤ 2 ^ 32 →
      InOrder ((newSeries type threshold).run before).completed) ∧
    (∀ call, ¬ ClearsIdle ((newSeries type threshold).run calls) call →
      ((newSeries type threshold).run calls).completed.length < 2 ^ 32 →
      ∃ ticks : List UniversalTickRecord,
        ¬ InOrder ((newSeries type threshold).run (calls ++ call :: ticks.map .ingest)).completed) := by
  constructor
  · intro before hbefore hlength
    exact inOrder_of_indexed (indexed_run (indexed_new type threshold) hcalls hbefore) hlength
  · intro call hcall hlength
    cases call with
    | ingest tick => exact absurd trivial hcall
    | clearCompleted =>
      obtain ⟨hactive, hne⟩ := not_or.mp hcall
      rw [Bool.not_eq_false] at hactive
      have hindexed := indexed_run (indexed_new type threshold) hcalls (List.prefix_refl calls)
      obtain ⟨ticks, hbroken⟩ :=
        clear_breaks hindexed hactive (count_pos_run type threshold calls hactive) hne hlength
      refine ⟨ticks, ?_⟩
      rw [run_append, ← List.singleton_append, run_append, run_ingest]
      exact hbroken

/-- Volume bars of two ticks each. -/
def unitTick (ts : UInt64) : UniversalTickRecord := ⟨ts, 7, 100, 1, 99, 100, 1, 1⟩

def clearedIdle : List SeriesCall :=
  [.ingest (unitTick 1), .ingest (unitTick 2), .clearCompleted, .ingest (unitTick 3),
    .clearCompleted, .ingest (unitTick 4), .ingest (unitTick 5), .ingest (unitTick 6)]

theorem bars_inOrder_clearedIdle :
    InOrder ((newSeries .volume 2).run clearedIdle).completed := by
  have hidle : AllClearIdle (newSeries .volume 2) clearedIdle := by
    simp only [clearedIdle, AllClearIdle, Guarded, ClearsIdle, true_and, and_true]
    decide +kernel
  exact (bars_inOrder .volume 2 clearedIdle hidle).1 _ (List.prefix_refl _) (by decide +kernel)

/-- The list is cleared under the second bar, which has the index 1, as has the next. -/
def clearedOpen : List SeriesCall :=
  [.ingest (unitTick 1), .ingest (unitTick 2), .ingest (unitTick 3), .clearCompleted,
    .ingest (unitTick 4), .ingest (unitTick 5), .ingest (unitTick 6)]

theorem clearedOpen_not_inOrder :
    ¬ InOrder ((newSeries .volume 2).run clearedOpen).completed := by
  intro h
  have hnodup := h.nodup
  revert hnodup
  decide +kernel

end OfeBars
