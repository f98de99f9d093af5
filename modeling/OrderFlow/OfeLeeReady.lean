import Mathlib.Algebra.Order.Ring.Rat

/-!
# The trade classifier of `include/ofe`

`classify` reads one quote and the price of one trade. An override is only asked for
where the tests before it leave the trade open.
-/
namespace OfeLeeReady

inductive TradeDirection where
  | unknown | buy | sell
  deriving DecidableEq, Repr

structure QuoteSnapshot where
  bid : Rat := 0
  ask : Rat := 0
  lastTrade : Rat := 0
  deriving DecidableEq, Repr

def classify (quote : QuoteSnapshot) (directOverride : Option TradeDirection) : TradeDirection :=
  if quote.ask > quote.bid ∧ quote.lastTrade ≥ quote.ask then .buy
  else if quote.ask > quote.bid ∧ quote.lastTrade ≤ quote.bid then .sell
  else if quote.lastTrade > quote.bid then .buy
  else if quote.lastTrade < quote.ask then .sell
  else
    match directOverride with
    | some direction => direction
    | none =>
      if quote.lastTrade ≥ quote.ask then .buy
      else if quote.lastTrade ≤ quote.bid then .sell
      else .unknown

/-- Without an override every trade is a buy or a sell, and a sell only below the ask
and not above the bid. -/
theorem classify_none (quote : QuoteSnapshot) :
    classify quote none =
      if quote.bid < quote.lastTrade ∨ quote.ask ≤ quote.lastTrade then .buy else .sell := by
  rw [classify]
  by_cases hbid : quote.bid < quote.lastTrade
  · have hsell : ¬ quote.lastTrade ≤ quote.bid := not_le.mpr hbid
    simp [hbid, hsell]
  · by_cases hask : quote.ask ≤ quote.lastTrade
    · have hcrossed : quote.ask ≤ quote.bid := hask.trans (not_lt.mp hbid)
      simp [hbid, hask, not_lt.mpr hask, not_lt.mpr hcrossed]
    · simp [hbid, hask, not_le.mp hask]

end OfeLeeReady
