import OrderFlow.OfeLeeReady
import OrderFlow.SessionLeeReady

/-!
# The two trade classifiers on a quoted market

Both classifiers call a trade at or below the bid a sell and one at or above the ask a
buy. Between the quotes the one of `session1` compares with the midpoint, and the one
of `include/ofe` with the bid.
-/
namespace LeeReadyAgreement

open OfeLeeReady SessionLeeReady

/-- The answer of `include/ofe` to a trade, in the quote that a state of `session1` has. -/
def direction (state : LeeReadyState) (price : Rat) : TradeDirection :=
  classify ⟨state.prevailingBid, state.prevailingAsk, price⟩ none

/-- Both classifiers see the same side, and inside the spread a buy is above the midpoint. -/
structure Agree (state : LeeReadyState) (price : Rat) : Prop where
  buy : direction state price = .buy ↔ (classifyTrade price 0 state).1 = .ask
  sell : direction state price = .sell ↔ (classifyTrade price 0 state).1 = .bid
  inside : state.prevailingBid < price → price < state.prevailingAsk →
    direction state price = .buy → state.midpoint < price

/-- On a quoted market the test against the bid decides alone. -/
theorem direction_quoted {state : LeeReadyState} (hask : state.prevailingBid < state.prevailingAsk)
    (price : Rat) :
    direction state price = if state.prevailingBid < price then .buy else .sell := by
  rw [direction, classify_none]
  by_cases hbid : state.prevailingBid < price
  · simp [hbid]
  · have hbelow : ¬ state.prevailingAsk ≤ price := fun h => hbid (lt_of_lt_of_le hask h)
    simp [hbid, hbelow]

theorem bid_lt_midpoint {state : LeeReadyState} (hask : state.prevailingBid < state.prevailingAsk) :
    state.prevailingBid < state.midpoint := by
  rw [LeeReadyState.midpoint]
  linarith

/-- The classifiers agree exactly on the trades that are not between the bid and the
midpoint. -/
theorem agree_iff (state : LeeReadyState) (price : Rat) (hbid : 0 < state.prevailingBid)
    (hask : state.prevailingBid < state.prevailingAsk) (hfar : epsilon < |price - state.midpoint|) :
    Agree state price ↔ price ≤ state.prevailingBid ∨ state.midpoint < price := by
  have hofe := direction_quoted hask price
  have hsession := classifyTrade_quoted hbid hask hfar
  have hmid := bid_lt_midpoint hask
  constructor
  · intro h
    by_cases habove : state.prevailingBid < price
    · have hbuy : direction state price = .buy := by rw [hofe, if_pos habove]
      have hside := h.buy.mp hbuy
      rw [hsession] at hside
      by_contra hnot
      rw [if_neg fun hlt => hnot (.inr hlt)] at hside
      cases hside
    · exact .inl (not_lt.mp habove)
  · rintro (hbelow | habove)
    · have hnotMid : ¬ state.midpoint < price := not_lt.mpr (hbelow.trans hmid.le)
      rw [if_neg (not_lt.mpr hbelow)] at hofe
      rw [if_neg hnotMid] at hsession
      exact ⟨by simp [hofe, hsession], by simp [hofe, hsession],
        fun hbuy => absurd hbuy (not_lt.mpr hbelow)⟩
    · rw [if_pos (hmid.trans habove)] at hofe
      rw [if_pos habove] at hsession
      exact ⟨by simp [hofe, hsession], by simp [hofe, hsession], fun _ _ _ => habove⟩

/-- A quote of 99 to 101. -/
def wideQuote : LeeReadyState := { prevailingBid := 99, prevailingAsk := 101 }

theorem agree_above_midpoint : Agree wideQuote (201 / 2) :=
  (agree_iff wideQuote (201 / 2) (by decide) (by decide) (by decide +kernel)).mpr
    (.inr (by decide +kernel))

/-- A trade at 99.5 is a buy for the one and at the bid for the other. -/
theorem not_agree_below_midpoint : ¬ Agree wideQuote (199 / 2) := by
  intro h
  have hbuy := h.buy.mp (by decide +kernel)
  revert hbuy
  decide +kernel

end LeeReadyAgreement
