import OrderFlow.SessionTypes
import Mathlib.Tactic.Linarith

/-!
# The trade classifier of `session1`

The quote rule compares a trade with the midpoint of the quote, the tick rule with
the trade before it. Each symbol has a state, which every classified trade updates.
-/
namespace SessionLeeReady

open SessionTypes

structure LeeReadyState where
  prevTradePrice : Rat := 0
  prevailingBid : Rat := 0
  prevailingAsk : Rat := 0
  lastClassified : TickSide := .unknown
  deriving DecidableEq, Repr

def LeeReadyState.isReady (state : LeeReadyState) : Bool :=
  decide (state.prevailingBid > 0) && decide (state.prevailingAsk > 0)

def LeeReadyState.midpoint (state : LeeReadyState) : Rat :=
  (state.prevailingBid + state.prevailingAsk) * (1 / 2)

/-- `EPSILON`, the same in both rules. -/
def epsilon : Rat := 1 / 10 ^ 9

def quoteRule (price midpoint : Rat) : TickSide :=
  if price > midpoint + epsilon then .ask
  else if price < midpoint - epsilon then .bid
  else .unknown

def tickRule (price prevPrice : Rat) (lastClassified : TickSide) : TickSide :=
  if price > prevPrice + epsilon then .ask
  else if price < prevPrice - epsilon then .bid
  else lastClassified

/-- The side of a trade, before the state takes note of it. -/
def tradeSide (tradePrice : Rat) (exchangeAggressor : UInt8) (state : LeeReadyState) : TickSide :=
  if exchangeAggressor = 1 then .ask
  else if exchangeAggressor = 2 then .bid
  else if state.isReady then
    if quoteRule tradePrice state.midpoint = .unknown ∧ state.prevTradePrice ≠ 0 then
      tickRule tradePrice state.prevTradePrice state.lastClassified
    else quoteRule tradePrice state.midpoint
  else if state.prevTradePrice ≠ 0 then
    tickRule tradePrice state.prevTradePrice state.lastClassified
  else .unknown

def classifyTrade (tradePrice : Rat) (exchangeAggressor : UInt8) (state : LeeReadyState) :
    TickSide × LeeReadyState :=
  (tradeSide tradePrice exchangeAggressor state,
    { state with
      prevTradePrice := tradePrice
      lastClassified := tradeSide tradePrice exchangeAggressor state })

def updateQuote (tickType : TickType) (price : Rat) (state : LeeReadyState) : LeeReadyState :=
  match tickType with
  | .bidQuote => { state with prevailingBid := price }
  | .askQuote => { state with prevailingAsk := price }
  | _ => state

def classifyInplace (tick : UniversalTickRecord) (state : LeeReadyState) :
    UniversalTickRecord × LeeReadyState :=
  match tick.tickType with
  | .trade =>
    ({ tick with side := (classifyTrade tick.price 0 state).1 },
      (classifyTrade tick.price 0 state).2)
  | .bidQuote | .askQuote => (tick, updateQuote tick.tickType tick.price state)
  | .summary => (tick, state)

/-- On a quoted market, away from the midpoint, only the quote rule speaks. -/
theorem classifyTrade_quoted {state : LeeReadyState} {price : Rat} (hbid : 0 < state.prevailingBid)
    (hask : state.prevailingBid < state.prevailingAsk) (hfar : epsilon < |price - state.midpoint|) :
    (classifyTrade price 0 state).1 = if state.midpoint < price then .ask else .bid := by
  have hready : state.isReady = true := by simp [LeeReadyState.isReady, hbid, hbid.trans hask]
  have hrule : quoteRule price state.midpoint = if state.midpoint < price then .ask else .bid := by
    rw [quoteRule]
    rcases lt_abs.mp hfar with habove | hbelow
    · have heps : 0 < epsilon := by norm_num [epsilon]
      rw [if_pos (by linarith), if_pos (by linarith)]
    · have heps : 0 < epsilon := by norm_num [epsilon]
      rw [if_neg (by linarith), if_pos (by linarith), if_neg (by linarith)]
  have hspoken : ¬ (quoteRule price state.midpoint = .unknown ∧ state.prevTradePrice ≠ 0) := by
    rw [hrule]
    split
    · simp
    · simp
  have hnone : ¬ (0 : UInt8) = 1 ∧ ¬ (0 : UInt8) = 2 := by decide
  simp only [classifyTrade, tradeSide, hnone.1, hnone.2, hready, if_false, if_true]
  rw [if_neg hspoken, hrule]

end SessionLeeReady
