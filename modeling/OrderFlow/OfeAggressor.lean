import OrderFlow.OfeBars
import OrderFlow.OfeSignalDetector

/-!
# The side of a tick in its bar and in its trade direction

`update_bar` books a tick on a side of the quote only if that side has a size;
`classify` reads no sizes.
-/
namespace OfeAggressor

open OfeBars OfeDeltaEngine OfeLeeReady OfeSignalDetector

/-- The trade direction of a tick, from its own quote. -/
def tradeDirection (tick : UniversalTickRecord) : TradeDirection :=
  classify ⟨tick.bidPrice, tick.askPrice, tick.price⟩ none

/-- What a tick adds to the delta of its bar. -/
def addedDelta (s : BarSeries) (tick : UniversalTickRecord) : Rat :=
  (s.updateBar tick).current.delta - (s.current.buyVolume - s.current.sellVolume)

/-- The booking of a tick, its direction and the trade score of any signal on it go
together: the delta the tick adds, if any, is its size with the sign of the score. -/
structure Consistent (s : BarSeries) (tick : UniversalTickRecord) : Prop where
  buy : booking tick = .buy → tradeDirection tick = .buy
  sell : booking tick = .sell → tradeDirection tick = .sell
  cot : ∀ delta imbalance vwap profile, addedDelta s tick = 0 ∨
    addedDelta s tick =
      (score delta imbalance vwap profile (tradeDirection tick)).cot * tick.size
  sign : ∀ delta imbalance vwap profile,
    0 ≤ (score delta imbalance vwap profile (tradeDirection tick)).cot * addedDelta s tick

theorem addedDelta_eq (s : BarSeries) (tick : UniversalTickRecord) :
    addedDelta s tick =
      match booking tick with
      | .buy => tick.size
      | .sell => -tick.size
      | .neither => 0 := by
  rw [addedDelta, BarSeries.updateBar]
  cases booking tick <;> simp

theorem booking_buy_iff (tick : UniversalTickRecord) :
    booking tick = .buy ↔ tick.askPrice ≤ tick.price ∧ 0 < tick.askSize := by
  rw [booking]
  by_cases h : tick.price ≥ tick.askPrice ∧ tick.askSize > 0
  · rw [if_pos h]
    exact ⟨fun _ => h, fun _ => rfl⟩
  · rw [if_neg h]
    refine ⟨fun hbuy => ?_, fun hask => absurd hask h⟩
    split at hbuy <;> cases hbuy

theorem booking_sell_iff (tick : UniversalTickRecord) :
    booking tick = .sell ↔ ¬ (tick.askPrice ≤ tick.price ∧ 0 < tick.askSize) ∧
      tick.price ≤ tick.bidPrice ∧ 0 < tick.bidSize := by
  rw [booking]
  by_cases h : tick.price ≥ tick.askPrice ∧ tick.askSize > 0
  · rw [if_pos h]
    exact ⟨nofun, fun hsell => absurd h hsell.1⟩
  · rw [if_neg h]
    by_cases hbid : tick.price ≤ tick.bidPrice ∧ tick.bidSize > 0
    · rw [if_pos hbid]
      exact ⟨fun _ => ⟨h, hbid⟩, fun _ => rfl⟩
    · rw [if_neg hbid]
      exact ⟨nofun, fun hsell => absurd hsell.2 hbid⟩

/-- A tick at or through both quotes of a market without an ask. -/
def Askless (tick : UniversalTickRecord) : Prop :=
  tick.askSize = 0 ∧ 0 < tick.bidSize ∧ tick.askPrice ≤ tick.price ∧ tick.price ≤ tick.bidPrice

theorem tradeDirection_of_buy {tick : UniversalTickRecord} (h : booking tick = .buy) :
    tradeDirection tick = .buy := by
  have hask := ((booking_buy_iff tick).mp h).1
  rw [tradeDirection, classify_none]
  exact if_pos (.inr hask)

theorem tradeDirection_of_sell {tick : UniversalTickRecord} (h : booking tick = .sell) :
    tradeDirection tick = .sell ↔ ¬ Askless tick := by
  obtain ⟨hnotBuy, hbid, hsize⟩ := (booking_sell_iff tick).mp h
  rw [tradeDirection, classify_none]
  by_cases hask : tick.askPrice ≤ tick.price
  · have hzero : tick.askSize = 0 := by
      by_contra hne
      exact hnotBuy ⟨hask, UInt32.pos_iff_ne_zero.mpr hne⟩
    rw [if_pos (.inr hask)]
    exact ⟨nofun, fun hnot => absurd ⟨hzero, hsize, hask, hbid⟩ hnot⟩
  · rw [if_neg (by rintro (hlt | hle); exacts [not_lt.mpr hbid hlt, hask hle])]
    exact ⟨fun _ hno => hask hno.2.2.1, fun _ => rfl⟩

theorem addedDelta_eq_cot (s : BarSeries) {tick : UniversalTickRecord} (hno : ¬ Askless tick)
    (delta : DeltaState) (imbalance : ImbalanceSnapshot) (vwap : VwapSnapshot)
    (profile : VolumeProfileSnapshot) :
    addedDelta s tick = 0 ∨ addedDelta s tick =
      (score delta imbalance vwap profile (tradeDirection tick)).cot * tick.size := by
  rw [addedDelta_eq]
  cases hbooking : booking tick with
  | buy => exact .inr (by simp [score, tradeDirection_of_buy hbooking])
  | sell => exact .inr (by simp [score, (tradeDirection_of_sell hbooking).mpr hno])
  | neither => exact .inl rfl

/-- A tick that trades at or through a side of the quote that has a size. -/
def AtAQuote (tick : UniversalTickRecord) : Prop :=
  (tick.askPrice ≤ tick.price ∧ 0 < tick.askSize) ∨ (tick.price ≤ tick.bidPrice ∧ 0 < tick.bidSize)

theorem booking_neither_iff (tick : UniversalTickRecord) :
    booking tick = .neither ↔ ¬ AtAQuote tick := by
  have hbuy := booking_buy_iff tick
  have hsell := booking_sell_iff tick
  rw [AtAQuote]
  cases hbooking : booking tick with
  | buy => simp [hbuy.mp hbooking]
  | sell => simp [(hsell.mp hbooking).2]
  | neither =>
    rw [hbooking] at hbuy hsell
    simp only [reduceCtorEq, false_iff] at hbuy hsell
    exact ⟨fun _ => by tauto, fun _ => rfl⟩

/-- The score has the sign of the delta unless a tick of negative size is booked. -/
theorem cot_mul_addedDelta_nonneg_iff (s : BarSeries) {tick : UniversalTickRecord}
    (hno : ¬ Askless tick) (delta : DeltaState) (imbalance : ImbalanceSnapshot)
    (vwap : VwapSnapshot) (profile : VolumeProfileSnapshot) :
    0 ≤ (score delta imbalance vwap profile (tradeDirection tick)).cot * addedDelta s tick ↔
      0 ≤ tick.size ∨ ¬ AtAQuote tick := by
  rw [addedDelta_eq, ← booking_neither_iff]
  cases hbooking : booking tick with
  | buy => simp [score, tradeDirection_of_buy hbooking]
  | sell => simp [score, (tradeDirection_of_sell hbooking).mpr hno]
  | neither => simp

/-- The booking, the direction and the score go together for every tick but those of a market
without an ask, at or through both its quotes, and those of negative size that are booked. -/
theorem consistent_iff (s : BarSeries) (tick : UniversalTickRecord) :
    Consistent s tick ↔ ¬ Askless tick ∧ ¬ (tick.size < 0 ∧ AtAQuote tick) := by
  have hsized : ¬ (tick.size < 0 ∧ AtAQuote tick) ↔ 0 ≤ tick.size ∨ ¬ AtAQuote tick := by
    rw [not_and_or, not_lt]
  rw [hsized]
  constructor
  · intro h
    have hno : ¬ Askless tick := by
      intro hno
      have hsell : booking tick = .sell := by
        refine (booking_sell_iff tick).mpr ⟨fun hbuy => ?_, hno.2.2.2, hno.2.1⟩
        exact UInt32.lt_irrefl _ (hno.1 ▸ hbuy.2)
      exact (tradeDirection_of_sell hsell).mp (h.sell hsell) hno
    have hsign := h.sign {} {} {} {}
    exact ⟨hno, (cot_mul_addedDelta_nonneg_iff s hno _ _ _ _).mp hsign⟩
  · rintro ⟨hno, hsize⟩
    refine ⟨tradeDirection_of_buy, fun h => (tradeDirection_of_sell h).mpr hno,
      addedDelta_eq_cot s hno, fun delta imbalance vwap profile => ?_⟩
    exact (cot_mul_addedDelta_nonneg_iff s hno _ _ _ _).mpr hsize

/-- A trade at a bid of 100 while nothing is offered. -/
def bidOnly : UniversalTickRecord := ⟨0, 0, 100, 5, 100, 0, 1, 0⟩

/-- The tick is booked as sold and its direction is a buy. -/
theorem not_consistent_bidOnly : ¬ Consistent (newSeries .volume 10) bidOnly := by
  intro h
  have hsell := h.sell (by decide +kernel)
  revert hsell
  decide +kernel

end OfeAggressor
