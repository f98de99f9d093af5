import Mathlib.Algebra.Order.BigOperators.Group.List
import OrderFlow.GreedySegments
import OrderFlow.SessionBars

/-!
# What a footprint bar says of its ticks

`OpenBar` reads the fields of an open bar off the ticks booked into it. The
volumes of a level are sums modulo `2^32`, whatever the ticks are; `Footprint` is
what the closed bar says when the volumes are not negative and the bar stays
below `2^31`.
-/
namespace SessionBars

open GreedySegments KeyedRecords SessionTypes TickGrid

def volumeSum (seg : List UniversalTickRecord) : Int := (seg.map (·.volume)).sum

/-- The ticks of a bar at a price of the grid. -/
def ticksAt (tickSize price : Rat) (seg : List UniversalTickRecord) : List UniversalTickRecord :=
  seg.filter fun tick => roundToTick tickSize tick.price = price

def sideVolume (side : TickSide) (tickSize price : Rat) (seg : List UniversalTickRecord) : Int :=
  volumeSum ((ticksAt tickSize price seg).filter fun tick => tick.side = side)

@[simp] theorem volumeSum_nil : volumeSum [] = 0 := rfl

@[simp] theorem volumeSum_append (xs ys : List UniversalTickRecord) :
    volumeSum (xs ++ ys) = volumeSum xs + volumeSum ys := by
  simp [volumeSum]

@[simp] theorem volumeSum_singleton (tick : UniversalTickRecord) :
    volumeSum [tick] = tick.volume := by
  simp [volumeSum]

theorem sideVolume_snoc (side : TickSide) (tickSize price : Rat) (seg : List UniversalTickRecord)
    (tick : UniversalTickRecord) :
    sideVolume side tickSize price (seg ++ [tick]) = sideVolume side tickSize price seg +
      if roundToTick tickSize tick.price = price ∧ tick.side = side then tick.volume else 0 := by
  by_cases hprice : roundToTick tickSize tick.price = price <;>
    by_cases hside : tick.side = side <;> simp [sideVolume, ticksAt, hprice, hside]

/-- One level of an open bar. -/
structure LevelOf (tickSize : Rat) (seg : List UniversalTickRecord) (lvl : PriceLevelRecord) :
    Prop where
  askVol : lvl.askVol = wrap32 (sideVolume .ask tickSize lvl.price seg)
  bidVol : lvl.bidVol = wrap32 (sideVolume .bid tickSize lvl.price seg)
  totalVol : lvl.totalVol = wrap32 (lvl.askVol + lvl.bidVol)
  delta : lvl.delta = wrap32 (lvl.askVol - lvl.bidVol)
  isPoc : lvl.isPoc = false

/-- The levels of an open bar, in the order in which their prices first traded. -/
structure Grouped (tickSize : Rat) (seg : List UniversalTickRecord)
    (levels : List PriceLevelRecord) : Prop where
  nodup : (levels.map (·.price)).Nodup
  prices : ∀ p, p ∈ levels.map (·.price) ↔ ∃ tick ∈ seg, roundToTick tickSize tick.price = p
  level : ∀ lvl ∈ levels, LevelOf tickSize seg lvl

theorem grouped_nil (tickSize : Rat) : Grouped tickSize [] [] := by
  constructor <;> simp

theorem onGrid_price {tickSize : Rat} {seg : List UniversalTickRecord}
    {levels : List PriceLevelRecord} (h : Grouped tickSize seg levels) {lvl : PriceLevelRecord}
    (hlvl : lvl ∈ levels) : OnGrid tickSize lvl.price := by
  obtain ⟨tick, -, hprice⟩ := (h.prices lvl.price).mp (List.mem_map_of_mem hlvl)
  exact hprice ▸ onGrid_roundToTick tickSize tick.price

/-- The scan within a hundredth of a tick finds the level of the rounded price,
and a new level is appended only where there is none. -/
theorem getOrCreateLevel_spec {tickSize : Rat} (hpos : 0 < tickSize)
    {levels : List PriceLevelRecord} (hgrid : ∀ lvl ∈ levels, OnGrid tickSize lvl.price)
    (price : Rat) :
    ∃ (i : Nat) (hi : i < (getOrCreateLevel tickSize levels price).1.length),
      (getOrCreateLevel tickSize levels price).2 = i ∧
      (getOrCreateLevel tickSize levels price).1[i].price = roundToTick tickSize price ∧
      (getOrCreateLevel tickSize levels price).1 =
        if roundToTick tickSize price ∈ levels.map (·.price) then levels
        else levels ++ [{ price := roundToTick tickSize price }] := by
  have htest : ∀ lvl ∈ levels, |lvl.price - roundToTick tickSize price| < tickSize * (1 / 100) ↔
      lvl.price = roundToTick tickSize price := fun lvl hlvl =>
    abs_sub_lt_iff hpos (by linarith) (by linarith) (hgrid lvl hlvl) (onGrid_roundToTick _ _)
  cases hfind : levels.findIdx? fun lvl =>
      decide (|lvl.price - roundToTick tickSize price| < tickSize * (1 / 100)) with
  | some i =>
    obtain ⟨hi, hnear, -⟩ := List.findIdx?_eq_some_iff_getElem.mp hfind
    have hprice := (htest _ (List.getElem_mem hi)).mp (of_decide_eq_true hnear)
    have hmem : roundToTick tickSize price ∈ levels.map (·.price) :=
      List.mem_map.mpr ⟨_, List.getElem_mem hi, hprice⟩
    have hget : getOrCreateLevel tickSize levels price = (levels, i) := by
      simp only [getOrCreateLevel, hfind]
    rw [hget, if_pos hmem]
    exact ⟨i, hi, rfl, hprice, rfl⟩
  | none =>
    have hmem : roundToTick tickSize price ∉ levels.map (·.price) := by
      intro hmem
      obtain ⟨lvl, hlvl, hprice⟩ := List.mem_map.mp hmem
      have hfar := List.findIdx?_eq_none_iff.mp hfind lvl hlvl
      exact of_decide_eq_false hfar ((htest lvl hlvl).mpr hprice)
    have hget : getOrCreateLevel tickSize levels price =
        (levels ++ [{ price := roundToTick tickSize price }], levels.length) := by
      simp only [getOrCreateLevel, hfind]
    rw [hget, if_neg hmem]
    exact ⟨levels.length, by simp, rfl, by simp, rfl⟩

theorem levelOf_new {tickSize : Rat} {seg : List UniversalTickRecord} {price : Rat}
    (hnew : ¬ ∃ tick ∈ seg, roundToTick tickSize tick.price = price) :
    LevelOf tickSize seg { price := price } := by
  have hnone : ticksAt tickSize price seg = [] := by
    rw [ticksAt, List.filter_eq_nil_iff]
    intro tick htick hprice
    exact hnew ⟨tick, htick, of_decide_eq_true hprice⟩
  constructor <;> simp [sideVolume, hnone, wrap32]

/-- Booking a tick into its level, and what the other levels keep. -/
theorem levelOf_book {tickSize : Rat} {seg : List UniversalTickRecord} {lvl : PriceLevelRecord}
    (h : LevelOf tickSize seg lvl) {tick : UniversalTickRecord} (htick : tick.isAccumulatable) :
    LevelOf tickSize (seg ++ [tick])
      (if lvl.price = roundToTick tickSize tick.price then bookVolume tick lvl else lvl) := by
  by_cases hprice : lvl.price = roundToTick tickSize tick.price
  · rw [if_pos hprice]
    by_cases hask : tick.side = .ask
    · have hbid : tick.side ≠ .bid := by simp [hask]
      constructor <;> simp only [bookVolume, hask, if_true]
      · rw [sideVolume_snoc, h.askVol, wrap32_add_wrap32, hprice]
        simp [hask]
      · rw [sideVolume_snoc, h.bidVol]
        simp [hask]
      · exact h.isPoc
    · have hbid : tick.side = .bid := by
        cases hside : tick.side with
        | ask => exact absurd hside hask
        | bid => rfl
        | unknown => simp [UniversalTickRecord.isAccumulatable, hside] at htick
      constructor <;> simp only [bookVolume, hask, if_false]
      · rw [sideVolume_snoc, h.askVol]
        simp [hbid]
      · rw [sideVolume_snoc, h.bidVol, wrap32_add_wrap32, hprice]
        simp [hbid]
      · exact h.isPoc
  · rw [if_neg hprice]
    have hsame : ∀ side, sideVolume side tickSize lvl.price (seg ++ [tick]) =
        sideVolume side tickSize lvl.price seg := by
      intro side
      rw [sideVolume_snoc, if_neg fun hat => hprice hat.1.symm, add_zero]
    exact ⟨by rw [hsame, h.askVol], by rw [hsame, h.bidVol], h.totalVol, h.delta, h.isPoc⟩

/-- A level that is there for the rounded price of a tick, before it is booked. -/
structure Prepared (tickSize : Rat) (seg : List UniversalTickRecord) (tick : UniversalTickRecord)
    (levels : List PriceLevelRecord) : Prop where
  nodup : (levels.map (·.price)).Nodup
  prices : ∀ p, p ∈ levels.map (·.price) ↔
    ∃ t ∈ seg ++ [tick], roundToTick tickSize t.price = p
  level : ∀ lvl ∈ levels, LevelOf tickSize seg lvl

theorem prepared_found {tickSize : Rat} {seg : List UniversalTickRecord}
    {levels : List PriceLevelRecord} (h : Grouped tickSize seg levels) {tick : UniversalTickRecord}
    (hmem : roundToTick tickSize tick.price ∈ levels.map (·.price)) :
    Prepared tickSize seg tick levels := by
  refine ⟨h.nodup, fun p => ?_, h.level⟩
  rw [h.prices p]
  constructor
  · rintro ⟨t, ht, hp⟩
    exact ⟨t, List.mem_append_left _ ht, hp⟩
  · rintro ⟨t, ht, hp⟩
    rcases List.mem_append.mp ht with ht | ht
    · exact ⟨t, ht, hp⟩
    · obtain rfl := List.mem_singleton.mp ht
      exact (h.prices p).mp (hp ▸ hmem)

theorem prepared_created {tickSize : Rat} {seg : List UniversalTickRecord}
    {levels : List PriceLevelRecord} (h : Grouped tickSize seg levels) {tick : UniversalTickRecord}
    (hmem : roundToTick tickSize tick.price ∉ levels.map (·.price)) :
    Prepared tickSize seg tick (levels ++ [{ price := roundToTick tickSize tick.price }]) := by
  have hprices : (levels ++ [({ price := roundToTick tickSize tick.price } : PriceLevelRecord)]).map
      (·.price) = levels.map (·.price) ++ [roundToTick tickSize tick.price] := by simp
  refine ⟨?_, fun p => ?_, ?_⟩
  · rw [hprices, List.nodup_append]
    refine ⟨h.nodup, by simp, ?_⟩
    rintro p hp q hq rfl
    exact hmem (List.mem_singleton.mp hq ▸ hp)
  · rw [hprices, List.mem_append, h.prices p, List.mem_singleton]
    constructor
    · rintro (⟨t, ht, hp⟩ | hp)
      · exact ⟨t, List.mem_append_left _ ht, hp⟩
      · exact ⟨tick, by simp, hp.symm⟩
    · rintro ⟨t, ht, hp⟩
      rcases List.mem_append.mp ht with ht | ht
      · exact .inl ⟨t, ht, hp⟩
      · obtain rfl := List.mem_singleton.mp ht
        exact .inr hp.symm
  · intro lvl hlvl
    rcases List.mem_append.mp hlvl with hlvl | hlvl
    · exact h.level lvl hlvl
    · rw [List.mem_singleton.mp hlvl]
      exact levelOf_new fun hex => hmem ((h.prices _).mpr hex)

/-- The levels after one more tick. -/
theorem grouped_book {tickSize : Rat} (hpos : 0 < tickSize) {seg : List UniversalTickRecord}
    {levels : List PriceLevelRecord} (h : Grouped tickSize seg levels)
    {tick : UniversalTickRecord} (htick : tick.isAccumulatable) :
    Grouped tickSize (seg ++ [tick])
      ((getOrCreateLevel tickSize levels tick.price).1.modify
        (getOrCreateLevel tickSize levels tick.price).2 (bookVolume tick)) := by
  obtain ⟨i, hi, hindex, hprice, hlevels⟩ :=
    getOrCreateLevel_spec hpos (fun lvl hlvl => onGrid_price h hlvl) tick.price
  have hprepared : Prepared tickSize seg tick (getOrCreateLevel tickSize levels tick.price).1 := by
    rw [hlevels]
    split
    · exact prepared_found h ‹_›
    · exact prepared_created h ‹_›
  have hkeys := map_key_update PriceLevelRecord.price (f := bookVolume tick)
    (fun _ => rfl) (getOrCreateLevel tickSize levels tick.price).1 (roundToTick tickSize tick.price)
  rw [hindex, modify_eq_map PriceLevelRecord.price hprepared.nodup (bookVolume tick) hi, hprice]
  refine ⟨?_, ?_, ?_⟩
  · rw [hkeys]
    exact hprepared.nodup
  · intro p
    rw [hkeys]
    exact hprepared.prices p
  · intro lvl hlvl
    obtain ⟨old, hold, rfl⟩ := List.mem_map.mp hlvl
    exact levelOf_book (hprepared.level old hold) htick

/-- The open bar, read off the ticks booked into it. -/
structure OpenBar (tickSize : Rat) (seg : List UniversalTickRecord) (bar : BarRecord) : Prop where
  barOpenTsNs : seg.head?.map (·.exchangeTsNs) = some bar.barOpenTsNs
  openPrice : seg.head?.map (·.price) = some bar.openPrice
  close : seg.getLast?.map (·.price) = some bar.close
  high : IsGreatest {p | p ∈ seg.map (·.price)} bar.high
  low : IsLeast {p | p ∈ seg.map (·.price)} bar.low
  totalVolume : bar.totalVolume = volumeSum seg
  levels : Grouped tickSize seg bar.priceLevels

theorem openBar_ne_nil {tickSize : Rat} {seg : List UniversalTickRecord} {bar : BarRecord}
    (h : OpenBar tickSize seg bar) : seg ≠ [] := by
  rintro rfl
  simpa using h.openPrice

/-- The tick that opens a bar is booked into it. -/
theorem openBar_first (s : BarSeries) {tick : UniversalTickRecord} (htick : tick.isAccumulatable) :
    OpenBar s.tickSize [tick]
      (accumulate s.tickSize (openNewBar s tick.exchangeTsNs tick.price) tick) := by
  have hlevels := grouped_book s.tickSizePos (grouped_nil s.tickSize) htick
  refine ⟨rfl, rfl, rfl, ?_, ?_, ?_, hlevels⟩
  · simp [accumulate, openNewBar]
  · simp [accumulate, openNewBar]
  · simp [accumulate, openNewBar]

/-- One more tick, booked into an open bar. -/
theorem openBar_accumulate {tickSize : Rat} (hpos : 0 < tickSize) {seg : List UniversalTickRecord}
    {bar : BarRecord} (h : OpenBar tickSize seg bar) {tick : UniversalTickRecord}
    (htick : tick.isAccumulatable) :
    OpenBar tickSize (seg ++ [tick]) (accumulate tickSize bar tick) := by
  have hne := openBar_ne_nil h
  have hhigh : (if tick.price > bar.high then tick.price else bar.high) = max bar.high tick.price := by
    rw [max_def_lt]
  have hlow : (if tick.price < bar.low then tick.price else bar.low) = min bar.low tick.price := by
    rw [min_comm, min_def_lt]
  constructor
  case barOpenTsNs => rw [List.head?_append_of_ne_nil _ hne]; exact h.barOpenTsNs
  case openPrice => rw [List.head?_append_of_ne_nil _ hne]; exact h.openPrice
  case close => simp [accumulate]
  case high =>
    simp only [accumulate, hhigh, List.map_append]
    exact isGreatest_snoc h.high tick.price
  case low =>
    simp only [accumulate, hlow, List.map_append]
    exact isLeast_snoc h.low tick.price
  case totalVolume => simp [accumulate, h.totalVolume]
  case levels => exact grouped_book hpos h.levels htick

/-- A bar that was open with these ticks and has been completed. -/
def ClosedBar (tickSize : Rat) (seg : List UniversalTickRecord) (bar : BarRecord) : Prop :=
  ∃ opened closeTsNs, OpenBar tickSize seg opened ∧ bar = complete opened closeTsNs

/-- What a closed bar says of its ticks. -/
structure Footprint (tickSize : Rat) (seg : List UniversalTickRecord) (bar : BarRecord) : Prop where
  complete : bar.isComplete = true
  barOpenTsNs : seg.head?.map (·.exchangeTsNs) = some bar.barOpenTsNs
  openPrice : seg.head?.map (·.price) = some bar.openPrice
  close : seg.getLast?.map (·.price) = some bar.close
  high : IsGreatest {p | p ∈ seg.map (·.price)} bar.high
  low : IsLeast {p | p ∈ seg.map (·.price)} bar.low
  open_between : bar.low ≤ bar.openPrice ∧ bar.openPrice ≤ bar.high
  close_between : bar.low ≤ bar.close ∧ bar.close ≤ bar.high
  ascending : bar.priceLevels.Pairwise fun a b => a.price < b.price
  prices : ∀ p, p ∈ bar.priceLevels.map (·.price) ↔
    ∃ tick ∈ seg, roundToTick tickSize tick.price = p
  askVol : ∀ lvl ∈ bar.priceLevels, lvl.askVol = sideVolume .ask tickSize lvl.price seg
  bidVol : ∀ lvl ∈ bar.priceLevels, lvl.bidVol = sideVolume .bid tickSize lvl.price seg
  totalVol : ∀ lvl ∈ bar.priceLevels, lvl.totalVol = lvl.askVol + lvl.bidVol
  delta : ∀ lvl ∈ bar.priceLevels, lvl.delta = lvl.askVol - lvl.bidVol
  totalVolume : bar.totalVolume = (bar.priceLevels.map (·.totalVol)).sum
  poc : ∃ poc ∈ bar.priceLevels, (∀ lvl ∈ bar.priceLevels, lvl.isPoc = true ↔ lvl = poc) ∧
    (∀ lvl ∈ bar.priceLevels, lvl.totalVol ≤ poc.totalVol) ∧
    (∀ lvl ∈ bar.priceLevels, lvl.totalVol = poc.totalVol → poc.price ≤ lvl.price) ∧
    bar.pocPrice = poc.price ∧ bar.cotPrice = poc.price ∧ bar.pocVolume = poc.totalVol

/-- The ticks of a bar whose volumes stay in the range of a level. -/
structure SmallVolume (seg : List UniversalTickRecord) : Prop where
  nonneg : ∀ tick ∈ seg, 0 ≤ tick.volume
  below : volumeSum seg < 2 ^ 31

theorem volumeSum_nonneg {seg : List UniversalTickRecord} (h : ∀ tick ∈ seg, 0 ≤ tick.volume) :
    0 ≤ volumeSum seg := by
  apply List.sum_nonneg
  intro v hv
  obtain ⟨tick, htick, rfl⟩ := List.mem_map.mp hv
  exact h tick htick

theorem volumeSum_filter_le {seg : List UniversalTickRecord} (h : ∀ tick ∈ seg, 0 ≤ tick.volume)
    (p : UniversalTickRecord → Bool) : volumeSum (seg.filter p) ≤ volumeSum seg := by
  apply List.Sublist.sum_le_sum (List.filter_sublist.map _)
  intro v hv
  obtain ⟨tick, htick, rfl⟩ := List.mem_map.mp hv
  exact h tick htick

/-- A booked tick is on one of the two sides. -/
theorem ask_add_bid {seg : List UniversalTickRecord} (h : ∀ tick ∈ seg, tick.isAccumulatable)
    (tickSize price : Rat) :
    sideVolume .ask tickSize price seg + sideVolume .bid tickSize price seg =
      volumeSum (ticksAt tickSize price seg) := by
  induction seg using List.reverseRecOn with
  | nil => simp [sideVolume, ticksAt]
  | append_singleton seg tick ih =>
    have htick := h tick (by simp)
    have hprev := ih fun t ht => h t (by simp [ht])
    rw [sideVolume_snoc, sideVolume_snoc]
    by_cases hprice : roundToTick tickSize tick.price = price
    · cases hside : tick.side with
      | unknown => simp [UniversalTickRecord.isAccumulatable, hside] at htick
      | ask =>
        simp only [ticksAt, hprice, List.filter_append, volumeSum_append] at hprev ⊢
        simp [hprice, ← hprev]
        ring
      | bid =>
        simp only [ticksAt, hprice, List.filter_append, volumeSum_append] at hprev ⊢
        simp [hprice, ← hprev]
        ring
    · simp only [ticksAt, List.filter_append, volumeSum_append] at hprev ⊢
      simp [hprice, hprev]

/-- With small volumes nothing has wrapped. -/
structure ExactLevel (tickSize : Rat) (seg : List UniversalTickRecord) (lvl : PriceLevelRecord) :
    Prop where
  askVol : lvl.askVol = sideVolume .ask tickSize lvl.price seg
  bidVol : lvl.bidVol = sideVolume .bid tickSize lvl.price seg
  totalVol : lvl.totalVol = lvl.askVol + lvl.bidVol
  delta : lvl.delta = lvl.askVol - lvl.bidVol
  total : lvl.totalVol = volumeSum (ticksAt tickSize lvl.price seg)

theorem exactLevel_of_small {tickSize : Rat} {seg : List UniversalTickRecord}
    (hbooked : ∀ tick ∈ seg, tick.isAccumulatable) (hsmall : SmallVolume seg)
    {lvl : PriceLevelRecord} (h : LevelOf tickSize seg lvl) : ExactLevel tickSize seg lvl := by
  have hat : ∀ t ∈ ticksAt tickSize lvl.price seg, 0 ≤ t.volume := fun t ht =>
    hsmall.nonneg t (List.mem_of_mem_filter ht)
  have hside : ∀ side, 0 ≤ sideVolume side tickSize lvl.price seg := fun side =>
    volumeSum_nonneg fun t ht => hat t (List.mem_of_mem_filter ht)
  have hask := hside .ask
  have hbid := hside .bid
  have hsum := ask_add_bid hbooked tickSize lvl.price
  have hle : volumeSum (ticksAt tickSize lvl.price seg) ≤ volumeSum seg :=
    volumeSum_filter_le hsmall.nonneg _
  have hbelow := hsmall.below
  have haskVol : lvl.askVol = sideVolume .ask tickSize lvl.price seg := by
    rw [h.askVol, wrap32_of_small (by omega) (by omega)]
  have hbidVol : lvl.bidVol = sideVolume .bid tickSize lvl.price seg := by
    rw [h.bidVol, wrap32_of_small (by omega) (by omega)]
  have htotal : lvl.totalVol = lvl.askVol + lvl.bidVol := by
    rw [h.totalVol, wrap32_of_small (by omega) (by omega)]
  refine ⟨haskVol, hbidVol, htotal, ?_, ?_⟩
  · rw [h.delta, wrap32_of_small (by omega) (by omega)]
  · rw [htotal, haskVol, hbidVol, hsum]

/-- Marking the point of control changes no price and no volume. -/
theorem exactLevel_mark {tickSize : Rat} {seg : List UniversalTickRecord} {lvl : PriceLevelRecord}
    (h : ExactLevel tickSize seg lvl) (isPoc : Bool) :
    ExactLevel tickSize seg { lvl with isPoc := isPoc } :=
  ⟨h.askVol, h.bidVol, h.totalVol, h.delta, h.total⟩

/-- The levels of a closed bar: sorted, the first of the largest marked. -/
structure ClosedLevels (tickSize : Rat) (seg : List UniversalTickRecord)
    (levels : List PriceLevelRecord) (poc : PriceLevelRecord) : Prop where
  ascending : levels.Pairwise fun a b => a.price < b.price
  prices : ∀ p, p ∈ levels.map (·.price) ↔ ∃ tick ∈ seg, roundToTick tickSize tick.price = p
  level : ∀ lvl ∈ levels, ExactLevel tickSize seg lvl
  marked : { poc with isPoc := true } ∈ levels
  unique : ∀ lvl ∈ levels, lvl.isPoc = true ↔ lvl = { poc with isPoc := true }
  largest : ∀ lvl ∈ levels, lvl.totalVol ≤ poc.totalVol
  lowest : ∀ lvl ∈ levels, lvl.totalVol = poc.totalVol → poc.price ≤ lvl.price

theorem closedLevels_of_grouped {tickSize : Rat} {seg : List UniversalTickRecord}
    (hbooked : ∀ tick ∈ seg, tick.isAccumulatable) (hsmall : SmallVolume seg)
    {levels : List PriceLevelRecord} (h : Grouped tickSize seg levels) {poc : PriceLevelRecord}
    {i : Nat}
    (hmax : FirstLargest (·.totalVol) (levels.insertionSort fun a b => a.price ≤ b.price) (poc, i)) :
    ClosedLevels tickSize seg
      ((levels.insertionSort fun a b => a.price ≤ b.price).modify i
        fun lvl => { lvl with isPoc := true }) poc := by
  have hstrict := insertionSort_strict PriceLevelRecord.price h.nodup
  have hmem : ∀ lvl, lvl ∈ levels.insertionSort (fun a b => a.price ≤ b.price) ↔ lvl ∈ levels :=
    fun lvl => List.mem_insertionSort _
  generalize levels.insertionSort (fun a b => a.price ≤ b.price) = sorted at hmax hstrict hmem ⊢
  obtain ⟨hi, hpoc⟩ := List.getElem?_eq_some_iff.mp hmax.at_index
  dsimp only at hi hpoc
  have hnodup : (sorted.map (·.price)).Nodup :=
    List.pairwise_map.mpr (hstrict.imp fun hlt => ne_of_lt hlt)
  have hkeys := map_key_update PriceLevelRecord.price
    (f := fun lvl => { lvl with isPoc := true }) (fun _ => rfl) sorted poc.price
  rw [modify_eq_map PriceLevelRecord.price hnodup _ hi, hpoc]
  have hpocMem : poc ∈ sorted := hpoc ▸ List.getElem_mem hi
  have hsame : ∀ lvl ∈ sorted, lvl.price = poc.price → lvl = poc := fun lvl hlvl hprice =>
    List.inj_on_of_nodup_map hnodup hlvl hpocMem hprice
  constructor
  case ascending =>
    have := List.pairwise_map.mpr hstrict
    exact List.pairwise_map.mp (hkeys ▸ this)
  case prices =>
    intro p
    rw [hkeys, ← h.prices p, List.mem_map, List.mem_map]
    simp only [hmem]
  case level =>
    intro lvl hlvl
    obtain ⟨old, hold, rfl⟩ := List.mem_map.mp hlvl
    have hexact := exactLevel_of_small hbooked hsmall (h.level old ((hmem old).mp hold))
    split
    · exact exactLevel_mark hexact true
    · exact hexact
  case marked => exact List.mem_map.mpr ⟨poc, hpocMem, by simp⟩
  case unique =>
    intro lvl hlvl
    obtain ⟨old, hold, rfl⟩ := List.mem_map.mp hlvl
    by_cases hprice : old.price = poc.price
    · simp [hsame old hold hprice]
    · have hunmarked := (h.level old ((hmem old).mp hold)).isPoc
      simp only [hprice, if_false, hunmarked, Bool.false_eq_true, false_iff]
      rintro rfl
      exact hprice rfl
  case largest =>
    intro lvl hlvl
    obtain ⟨old, hold, rfl⟩ := List.mem_map.mp hlvl
    have hle := hmax.largest_le old hold
    split <;> exact hle
  case lowest =>
    intro lvl hlvl heq
    obtain ⟨old, hold, rfl⟩ := List.mem_map.mp hlvl
    have hold' : old.totalVol = poc.totalVol := by
      revert heq
      split <;> exact id
    have hprice := hmax.key_le hstrict hold hold'
    split <;> exact hprice

theorem closedLevels_total {tickSize : Rat} {seg : List UniversalTickRecord}
    {levels : List PriceLevelRecord} {poc : PriceLevelRecord}
    (h : ClosedLevels tickSize seg levels poc) : (levels.map (·.totalVol)).sum = volumeSum seg := by
  have hnodup : (levels.map (·.price)).Nodup :=
    List.pairwise_map.mpr (h.ascending.imp fun hlt => ne_of_lt hlt)
  have hcover : ∀ tick ∈ seg, roundToTick tickSize tick.price ∈ levels.map (·.price) :=
    fun tick htick => (h.prices _).mpr ⟨tick, htick, rfl⟩
  have hlevel : levels.map (·.totalVol) =
      (levels.map (·.price)).map fun p => volumeSum (ticksAt tickSize p seg) := by
    rw [List.map_map]
    exact List.map_congr_left fun lvl hlvl => (h.level lvl hlvl).total
  have hsum := sum_by_key (M := Int) hnodup
    (fun tick : UniversalTickRecord => roundToTick tickSize tick.price) (fun tick => tick.volume) seg
    hcover
  rw [hlevel]
  simpa only [volumeSum, ticksAt] using hsum

theorem complete_barOpenTsNs (bar : BarRecord) (closeTsNs : Int) :
    (complete bar closeTsNs).barOpenTsNs = bar.barOpenTsNs := by
  simp only [complete]
  split <;> rfl

/-- Completing a bar sorts its levels and marks one, which leaves their other fields alone. -/
theorem map_complete_levels {β : Type} (f : PriceLevelRecord → β)
    (hf : ∀ lvl, f { lvl with isPoc := true } = f lvl) (bar : BarRecord) (closeTsNs : Int) :
    (complete bar closeTsNs).priceLevels.map f =
      (bar.priceLevels.insertionSort fun a b => a.price ≤ b.price).map f := by
  simp only [complete]
  split
  · rfl
  · exact map_modify hf _ _

/-- A closed bar with small volumes. -/
theorem footprint_of_closedBar {tickSize : Rat} {seg : List UniversalTickRecord} {closed : BarRecord}
    (hclosed : ClosedBar tickSize seg closed) (hbooked : ∀ tick ∈ seg, tick.isAccumulatable)
    (hsmall : SmallVolume seg) : Footprint tickSize seg closed := by
  obtain ⟨bar, closeTsNs, h, rfl⟩ := hclosed
  have hsorted : bar.priceLevels.insertionSort (fun a b => a.price ≤ b.price) ≠ [] := by
    intro hnil
    have hperm := List.perm_insertionSort (fun a b : PriceLevelRecord => a.price ≤ b.price)
      bar.priceLevels
    rw [hnil, List.nil_perm] at hperm
    obtain ⟨tick, htick⟩ := List.exists_mem_of_ne_nil seg (openBar_ne_nil h)
    have hmem := (h.levels.prices _).mpr ⟨tick, htick, rfl⟩
    simp [hperm] at hmem
  cases hmax : maxElement (fun a b : PriceLevelRecord => decide (a.totalVol < b.totalVol))
      (bar.priceLevels.insertionSort fun a b => a.price ≤ b.price) with
  | none => exact absurd ((maxElement_eq_none _ _).mp hmax) hsorted
  | some largest =>
    obtain ⟨poc, i⟩ := largest
    have hlevels := closedLevels_of_grouped hbooked hsmall h.levels (firstLargest_maxElement hmax)
    have htotal := closedLevels_total hlevels
    simp only [complete, hmax]
    have hopen : bar.openPrice ∈ seg.map (·.price) := by
      obtain ⟨tick, htick, hprice⟩ := Option.map_eq_some_iff.mp h.openPrice
      exact List.mem_map.mpr ⟨tick, List.mem_of_head? htick, hprice⟩
    have hclose : bar.close ∈ seg.map (·.price) := by
      obtain ⟨tick, htick, hprice⟩ := Option.map_eq_some_iff.mp h.close
      exact List.mem_map.mpr ⟨tick, List.mem_of_getLast? htick, hprice⟩
    constructor
    case complete => rfl
    case barOpenTsNs => exact h.barOpenTsNs
    case openPrice => exact h.openPrice
    case close => exact h.close
    case high => exact h.high
    case low => exact h.low
    case open_between => exact ⟨h.low.2 hopen, h.high.2 hopen⟩
    case close_between => exact ⟨h.low.2 hclose, h.high.2 hclose⟩
    case ascending => exact hlevels.ascending
    case prices => exact hlevels.prices
    case askVol => exact fun lvl hlvl => (hlevels.level lvl hlvl).askVol
    case bidVol => exact fun lvl hlvl => (hlevels.level lvl hlvl).bidVol
    case totalVol => exact fun lvl hlvl => (hlevels.level lvl hlvl).totalVol
    case delta => exact fun lvl hlvl => (hlevels.level lvl hlvl).delta
    case totalVolume => exact h.totalVolume.trans htotal.symm
    case poc =>
      exact ⟨_, hlevels.marked, hlevels.unique, hlevels.largest, hlevels.lowest, rfl, rfl, rfl⟩

end SessionBars
