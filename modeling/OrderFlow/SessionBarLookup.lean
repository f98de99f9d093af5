import OrderFlow.GuardedRuns
import OrderFlow.LowerBounds
import OrderFlow.SessionBarSegments

/-!
# Looking up a level

`get_level` is a binary search in the levels of a bar, within a tolerance. The levels of an open
bar stand in the order in which their prices first traded, and they are sorted only when the
bar is closed. So a search finds all of them as long as each new price is above the ones
before it, and no two prices are within the tolerance.
-/
namespace SessionBars

open GuardedRuns KeyedRecords LowerBounds SessionTypes TickGrid

def epsilon : Rat := 1 / 10000000

def priceBelow (price : Rat) (lvl : PriceLevelRecord) : Bool := decide (lvl.price < price - epsilon)

/-- A pointer to a level is its index. -/
def getLevel (bar : BarRecord) (price : Rat) : Option Nat :=
  let it := lowerBound (priceBelow price) bar.priceLevels
  match bar.priceLevels[it]? with
  | none => none
  | some lvl => if |lvl.price - price| < epsilon then some it else none

/-- The levels of a bar are found by their prices, and nothing else is. -/
structure FindsLevels (bar : BarRecord) : Prop where
  found : ∀ i lvl, bar.priceLevels[i]? = some lvl → getLevel bar lvl.price = some i
  others : ∀ price, (∀ lvl ∈ bar.priceLevels, epsilon ≤ |lvl.price - price|) →
    getLevel bar price = none

structure LevelsFound (s : BarSeries) : Prop where
  current : ∀ bar, s.currentBar = some bar → FindsLevels bar
  last : ∀ bar, s.lastBar = some bar → FindsLevels bar

def openPrices (s : BarSeries) : List Rat :=
  (s.currentBar.map fun bar => bar.priceLevels.map (·.price)).getD []

/-- A price without a level in the open bar is above those of all levels, unless its tick closes
the bar, and it is out of the tolerance of each. -/
def InOrder (s : BarSeries) : Call → Prop
  | .onTick tick _ =>
    let rounded := roundToTick s.tickSize tick.price
    tick.isAccumulatable = true → rounded ∉ openPrices s → ∀ price ∈ openPrices s,
      epsilon < |rounded - price| ∧ (price < rounded ∨ shouldClose s tick = true)
  | .forceCloseBar _ => True
  | .onSessionOpen _ => True

theorem epsilon_pos : 0 < epsilon := by decide +kernel

theorem getLevel_others {bar : BarRecord} {price : Rat}
    (h : ∀ lvl ∈ bar.priceLevels, epsilon ≤ |lvl.price - price|) : getLevel bar price = none := by
  simp only [getLevel]
  split
  · rfl
  · rename_i lvl hlvl
    exact if_neg (not_lt_of_ge (h lvl (List.mem_of_getElem? hlvl)))

theorem getLevel_iff {bar : BarRecord} {i : Nat} {lvl : PriceLevelRecord}
    (hlvl : bar.priceLevels[i]? = some lvl) :
    getLevel bar lvl.price = some i ↔ lowerBound (priceBelow lvl.price) bar.priceLevels = i := by
  constructor
  · intro h
    simp only [getLevel] at h
    split at h
    · cases h
    · split at h
      · exact Option.some.inj h
      · cases h
  · intro h
    simp [getLevel, h, hlvl, epsilon_pos]

/-- Each price is above the one before it, out of the tolerance. -/
def Spaced (prices : List Rat) : Prop := prices.Pairwise fun p q => p < q - epsilon

theorem findsLevels_iff (bar : BarRecord) :
    FindsLevels bar ↔ Spaced (bar.priceLevels.map (·.price)) := by
  have hpos := epsilon_pos
  have hirrefl : ∀ lvl : PriceLevelRecord, priceBelow lvl.price lvl = false := by
    intro lvl
    rw [priceBelow, decide_eq_false_iff_not]
    linarith
  have htrans : ∀ a b c : PriceLevelRecord, priceBelow b.price a = true →
      priceBelow c.price b = true → priceBelow c.price a = true := by
    intro a b c hab hbc
    rw [priceBelow, decide_eq_true_iff] at hab hbc ⊢
    linarith
  have hall := finds_all_iff (fun a b => priceBelow b.price a) hirrefl htrans bar.priceLevels
  have hspaced : Spaced (bar.priceLevels.map (·.price)) ↔
      bar.priceLevels.Pairwise fun a b => priceBelow b.price a = true := by
    rw [Spaced, List.pairwise_map]
    simp only [priceBelow, decide_eq_true_iff]
  rw [hspaced, ← hall]
  constructor
  · exact fun h i lvl hlvl => (getLevel_iff hlvl).mp (h.found i lvl hlvl)
  · exact fun h => ⟨fun i lvl hlvl => (getLevel_iff hlvl).mpr (h i lvl hlvl), fun _ => getLevel_others⟩

theorem spaced_snoc (prices : List Rat) (price : Rat) :
    Spaced (prices ++ [price]) ↔ Spaced prices ∧ ∀ p ∈ prices, p < price - epsilon := by
  simp [Spaced, List.pairwise_append]

theorem spaced_apart {prices : List Rat} (h : Spaced prices) :
    prices.Pairwise fun p q => epsilon < |p - q| := by
  refine h.imp fun {p q} hlt => ?_
  rw [lt_abs]
  right
  linarith

/-- Sorted prices are spaced if they are out of tolerance of each other. -/
theorem spaced_sorted_iff {levels : List PriceLevelRecord} (hnodup : (levels.map (·.price)).Nodup) :
    Spaced ((levels.insertionSort fun a b => a.price ≤ b.price).map (·.price)) ↔
      (levels.map (·.price)).Pairwise fun p q => epsilon < |p - q| := by
  have hperm := (List.perm_insertionSort (fun a b : PriceLevelRecord => a.price ≤ b.price)
    levels).map (·.price)
  have hsorted := List.pairwise_map.mpr (insertionSort_strict PriceLevelRecord.price hnodup)
  have hsymm : ∀ {p q : Rat}, epsilon < |p - q| → epsilon < |q - p| := by
    intro p q h
    rwa [abs_sub_comm]
  rw [← hperm.pairwise_iff hsymm]
  constructor
  · exact spaced_apart
  · intro hapart
    refine (hsorted.and hapart).imp fun {p q} h => ?_
    obtain ⟨hlt, hfar⟩ := h
    rw [abs_sub_comm, abs_of_pos (by linarith)] at hfar
    linarith

theorem complete_prices (bar : BarRecord) (closeTsNs : Int) :
    (complete bar closeTsNs).priceLevels.map (·.price) =
      (bar.priceLevels.insertionSort fun a b => a.price ≤ b.price).map (·.price) :=
  map_complete_levels _ (fun _ => rfl) bar closeTsNs

theorem complete_findsLevels_iff {bar : BarRecord}
    (hnodup : (bar.priceLevels.map (·.price)).Nodup) (closeTsNs : Int) :
    FindsLevels (complete bar closeTsNs) ↔
      (bar.priceLevels.map (·.price)).Pairwise fun p q => epsilon < |p - q| := by
  rw [findsLevels_iff, complete_prices, spaced_sorted_iff hnodup]

/-- The prices with one more, if it is not there yet. -/
def withPrice (prices : List Rat) (price : Rat) : List Rat :=
  if price ∈ prices then prices else prices ++ [price]

theorem spaced_withPrice_iff {prices : List Rat} (h : Spaced prices) (price : Rat) :
    Spaced (withPrice prices price) ↔
      (price ∉ prices → ∀ p ∈ prices, epsilon < |price - p| ∧ p < price) := by
  have hpos := epsilon_pos
  unfold withPrice
  split
  · rename_i hmem
    simp [h, hmem]
  · rename_i hmem
    rw [spaced_snoc]
    constructor
    · intro habove _ p hp
      have hlt := habove.2 p hp
      refine ⟨?_, by linarith⟩
      rw [abs_of_pos (by linarith)]
      linarith
    · intro habove
      refine ⟨h, fun p hp => ?_⟩
      obtain ⟨hfar, hlt⟩ := habove hmem p hp
      rw [abs_of_pos (by linarith)] at hfar
      linarith

theorem apart_withPrice_iff {prices : List Rat} (h : Spaced prices) (price : Rat) :
    ((withPrice prices price).Pairwise fun p q => epsilon < |p - q|) ↔
      (price ∉ prices → ∀ p ∈ prices, epsilon < |price - p|) := by
  unfold withPrice
  split
  · rename_i hmem
    simp [spaced_apart h, hmem]
  · rename_i hmem
    simp only [List.pairwise_append, spaced_apart h, List.pairwise_singleton, List.mem_singleton,
      forall_eq, true_and, hmem, not_false_eq_true, true_imp_iff, abs_sub_comm price]

theorem accumulate_prices {tickSize : Rat} (hpos : 0 < tickSize) {bar : BarRecord}
    (hgrid : ∀ lvl ∈ bar.priceLevels, OnGrid tickSize lvl.price) (tick : UniversalTickRecord) :
    (accumulate tickSize bar tick).priceLevels.map (·.price) =
      withPrice (bar.priceLevels.map (·.price)) (roundToTick tickSize tick.price) := by
  obtain ⟨-, -, -, -, hlevels⟩ := getOrCreateLevel_spec hpos hgrid tick.price
  have hkept := map_modify (g := PriceLevelRecord.price) (f := bookVolume tick) (fun _ => rfl)
  simp only [accumulate, hkept, hlevels, withPrice]
  split
  · rfl
  · simp

/-- The open bar that a tick finds or opens. -/
def barFor (s : BarSeries) (tick : UniversalTickRecord) : BarRecord :=
  s.currentBar.getD (openNewBar s tick.exchangeTsNs tick.price)

/-- The open bar has ticks of its own in it. -/
def Booked (s : BarSeries) : Prop := ∀ bar, s.currentBar = some bar → ∃ seg, OpenBar s.tickSize seg bar

theorem barFor_prices (s : BarSeries) (tick : UniversalTickRecord) :
    (barFor s tick).priceLevels.map (·.price) = openPrices s := by
  cases hbar : s.currentBar <;> simp [barFor, openPrices, hbar, openNewBar]

theorem barFor_onGrid {s : BarSeries} (h : Booked s) (tick : UniversalTickRecord) :
    ∀ lvl ∈ (barFor s tick).priceLevels, OnGrid s.tickSize lvl.price := by
  cases hbar : s.currentBar with
  | none => simp [barFor, hbar, openNewBar]
  | some bar =>
    obtain ⟨seg, hopen⟩ := h bar hbar
    simp only [barFor, hbar, Option.getD_some]
    exact fun lvl hlvl => onGrid_price hopen.levels hlvl

theorem openBar_barFor {s : BarSeries} (h : Booked s) {tick : UniversalTickRecord}
    (htick : tick.isAccumulatable) :
    ∃ seg, OpenBar s.tickSize seg (accumulate s.tickSize (barFor s tick) tick) := by
  cases hbar : s.currentBar with
  | none =>
    simp only [barFor, hbar, Option.getD_none]
    exact ⟨_, openBar_first s htick⟩
  | some bar =>
    obtain ⟨seg, hopen⟩ := h bar hbar
    simp only [barFor, hbar, Option.getD_some]
    exact ⟨_, openBar_accumulate s.tickSizePos hopen htick⟩

theorem onTick_barFor (s : BarSeries) {tick : UniversalTickRecord} (htick : tick.isAccumulatable)
    (sessionOpenTsNs : Int) :
    onTick s tick sessionOpenTsNs =
      if shouldClose (withOpenBar s tick) tick then
        closeCurrentBar { s with currentBar := some (accumulate s.tickSize (barFor s tick) tick) }
          tick.exchangeTsNs
      else { s with currentBar := some (accumulate s.tickSize (barFor s tick) tick) } := by
  cases hbar : s.currentBar <;> simp [onTick, htick, withOpenBar, barFor, hbar]

theorem booked_close {s : BarSeries} (closeTsNs : Int) : Booked (closeCurrentBar s closeTsNs) := by
  intro bar hbar
  rw [closeCurrentBar_currentBar] at hbar
  cases hbar

theorem booked_call {s : BarSeries} (h : Booked s) (c : Call) : Booked (call s c) := by
  cases c with
  | onTick tick sessionOpenTsNs =>
    by_cases htick : tick.isAccumulatable = true
    · simp only [call, onTick_barFor s htick]
      split
      · exact booked_close _
      · intro bar hbar
        cases hbar
        exact openBar_barFor h htick
    · rw [call, onTick_of_not_accumulatable (by simpa using htick)]
      exact h
  | forceCloseBar closeTsNs => exact booked_close _
  | onSessionOpen sessionOpenTsNs =>
    intro bar hbar
    exact booked_close sessionOpenTsNs bar hbar

theorem spaced_openPrices {s : BarSeries} (h : LevelsFound s) : Spaced (openPrices s) := by
  cases hbar : s.currentBar with
  | none => simp [openPrices, hbar, Spaced]
  | some bar => simpa [openPrices, hbar] using (findsLevels_iff bar).mp (h.current bar hbar)

theorem levelsFound_opened_iff {s : BarSeries} (h : LevelsFound s) (bar : BarRecord) :
    LevelsFound { s with currentBar := some bar } ↔ FindsLevels bar := by
  constructor
  · exact fun hfound => hfound.current bar rfl
  · intro hfinds
    refine ⟨fun b hb => ?_, h.last⟩
    cases hb
    exact hfinds

theorem levelsFound_closed_iff (s : BarSeries) (bar : BarRecord) (closeTsNs : Int) :
    LevelsFound (closeCurrentBar { s with currentBar := some bar } closeTsNs) ↔
      FindsLevels (complete bar closeTsNs) := by
  constructor
  · exact fun hfound => hfound.last _ rfl
  · intro hfinds
    refine ⟨fun b hb => ?_, fun b hb => ?_⟩
    · cases hb
    · cases hb
      exact hfinds

/-- The levels of a bar that were found are found when the bar is closed. -/
theorem levelsFound_close {s : BarSeries} (hbooked : Booked s) (h : LevelsFound s) (closeTsNs : Int) :
    LevelsFound (closeCurrentBar s closeTsNs) := by
  cases hbar : s.currentBar with
  | none =>
    rw [closeCurrentBar, hbar]
    exact h
  | some bar =>
    obtain ⟨seg, hopen⟩ := hbooked bar hbar
    have hsame : s = { s with currentBar := some bar } := by rw [← hbar]
    rw [hsame, levelsFound_closed_iff, complete_findsLevels_iff hopen.levels.nodup]
    exact spaced_apart ((findsLevels_iff bar).mp (h.current bar hbar))

/-- A tick keeps the levels found exactly if it is in order. -/
theorem onTick_levelsFound_iff {s : BarSeries} (hbooked : Booked s) (h : LevelsFound s)
    {tick : UniversalTickRecord} (htick : tick.isAccumulatable) (sessionOpenTsNs : Int) :
    LevelsFound (onTick s tick sessionOpenTsNs) ↔ InOrder s (.onTick tick sessionOpenTsNs) := by
  have hspaced := spaced_openPrices h
  obtain ⟨seg, hopen⟩ := openBar_barFor hbooked htick
  have hprices := accumulate_prices s.tickSizePos (barFor_onGrid hbooked tick) tick
  rw [barFor_prices] at hprices
  have hsame : ∀ price ∈ openPrices s, withOpenBar s tick = s := by
    intro price hprice
    cases hbar : s.currentBar with
    | none => simp [openPrices, hbar] at hprice
    | some bar => simp [withOpenBar, hbar]
  rw [onTick_barFor s htick]
  split
  · rename_i hcloses
    rw [levelsFound_closed_iff, complete_findsLevels_iff hopen.levels.nodup, hprices,
      apart_withPrice_iff hspaced]
    constructor
    · intro hfar _ hnew price hprice
      exact ⟨hfar hnew price hprice, .inr (hsame price hprice ▸ hcloses)⟩
    · exact fun hinOrder hnew price hprice => (hinOrder htick hnew price hprice).1
  · rename_i hstays
    rw [levelsFound_opened_iff h, findsLevels_iff, hprices, spaced_withPrice_iff hspaced]
    constructor
    · intro habove _ hnew price hprice
      exact ⟨(habove hnew price hprice).1, .inl (habove hnew price hprice).2⟩
    · intro hinOrder hnew price hprice
      obtain ⟨hfar, hlt | hcloses⟩ := hinOrder htick hnew price hprice
      · exact ⟨hfar, hlt⟩
      · rw [hsame price hprice] at hstays
        exact absurd hcloses hstays

theorem levelsFound_call_iff {s : BarSeries} (c : Call) (hbooked : Booked s) (h : LevelsFound s) :
    LevelsFound (call s c) ↔ InOrder s c := by
  cases c with
  | onTick tick sessionOpenTsNs =>
    by_cases htick : tick.isAccumulatable = true
    · exact onTick_levelsFound_iff hbooked h htick sessionOpenTsNs
    · rw [call, onTick_of_not_accumulatable (by simpa using htick)]
      exact ⟨fun _ haccumulated => absurd haccumulated htick, fun _ => h⟩
  | forceCloseBar closeTsNs => exact iff_of_true (levelsFound_close hbooked h closeTsNs) trivial
  | onSessionOpen sessionOpenTsNs =>
    have hclosed := levelsFound_close hbooked h sessionOpenTsNs
    refine iff_of_true ⟨hclosed.current, ?_⟩ trivial
    intro bar hbar
    cases hbar

/-- All levels are found all the time exactly if every tick is in order. -/
theorem levelsFound_iff (settings : Settings) (calls : List Call) :
    (∀ seen, seen <+: calls → LevelsFound (run (newSeries settings) seen)) ↔
      Guarded call InOrder (newSeries settings) calls := by
  refine prefixes_iff_guarded Booked LevelsFound (fun s c _ h => booked_call h c)
    (fun s c _ hbooked h => levelsFound_call_iff c hbooked h) ?_ ?_
  · intro bar hbar
    cases hbar
  · constructor <;> intro bar hbar <;> cases hbar

/-- A trade, and one at a lower price. -/
def fallingTrades : List Call :=
  [.onTick ⟨10, 5001, 1, 1, .ask, .trade⟩ 0, .onTick ⟨20, 5000, 1, 1, .bid, .trade⟩ 0]

/-- The trades have two levels, and neither is found. -/
theorem not_levelsFound_fallingTrades :
    ¬ LevelsFound (run (newSeries fiftyContracts) fallingTrades) := by
  have hlookups : ((run (newSeries fiftyContracts) fallingTrades).currentBar.map fun bar =>
      bar.priceLevels.map fun lvl => (lvl.price, getLevel bar lvl.price)) =
        some [(5001, none), (5000, none)] := by decide +kernel
  intro h
  obtain ⟨bar, hbar, hlevels⟩ := Option.map_eq_some_iff.mp hlookups
  have hfirst := congrArg (·[0]?) hlevels
  rw [List.getElem?_map, List.getElem?_cons_zero, Option.map_eq_some_iff] at hfirst
  obtain ⟨lvl, hlvl, hlookup⟩ := hfirst
  have hfound := (h.current bar hbar).found 0 lvl hlvl
  rw [(Prod.mk.inj hlookup).2] at hfound
  cases hfound

end SessionBars
