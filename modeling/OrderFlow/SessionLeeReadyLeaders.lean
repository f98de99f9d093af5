import OrderFlow.LatestVerdicts
import OrderFlow.SessionLeeReadyRuns

/-!
# Who decides the side of a trade

Read off the history alone, a trade is decided by the exchange, by the quotes that prevail or
by a move from the trade before it; a first trade that none of them decides has no side. All
other trades are carried along: their side is that of the latest trade with a verdict.
-/
namespace SessionLeeReady

open LatestVerdicts SessionTypes

def quoteOf (side : TickType) : Call → Option Rat
  | .updateQuote tickType price => if tickType = side then some price else none
  | .classifyTrade _ _ => none

def tradePriceOf : Call → Option Rat
  | .updateQuote _ _ => none
  | .classifyTrade price _ => some price

/-- The last quote of a side, and zero before the first one. -/
def prevailing (side : TickType) (history : List Call) : Rat :=
  (history.filterMap (quoteOf side)).getLast?.getD 0

/-- The price of the last trade. A price of zero stands for no trade. -/
def priceBefore (history : List Call) : Option Rat :=
  (history.filterMap tradePriceOf).getLast?.filter (· ≠ 0)

def Quoted (history : List Call) : Prop :=
  0 < prevailing .bidQuote history ∧ 0 < prevailing .askQuote history

instance (history : List Call) : Decidable (Quoted history) :=
  inferInstanceAs (Decidable (_ ∧ _))

/-- The side of a price that is off the reference by more than the tolerance. -/
def moved (reference price : Rat) : Option TickSide :=
  if |price - reference| ≤ epsilon then none
  else some (if reference < price then .ask else .bid)

def quoteVerdict (history : List Call) (price : Rat) : Option TickSide :=
  if Quoted history then
    moved ((prevailing .bidQuote history + prevailing .askQuote history) / 2) price
  else none

def tickVerdict (history : List Call) (price : Rat) : Option TickSide :=
  match priceBefore history with
  | none => some .unknown
  | some before => moved before price

/-- What decides the side of a trade, if anything does. -/
def verdict (history : List Call) : Call → Option TickSide
  | .updateQuote _ _ => none
  | .classifyTrade price exchangeAggressor =>
    if exchangeAggressor = 1 then some .ask
    else if exchangeAggressor = 2 then some .bid
    else (quoteVerdict history price).or (tickVerdict history price)

theorem moved_getD (reference price : Rat) (side : TickSide) :
    (moved reference price).getD side =
      if price > reference + epsilon then .ask
      else if price < reference - epsilon then .bid
      else side := by
  have heps : 0 < epsilon := by norm_num [epsilon]
  unfold moved
  split
  · rename_i hnear
    obtain ⟨hlow, hhigh⟩ := abs_le.mp hnear
    rw [Option.getD_none, if_neg (by linarith), if_neg (by linarith)]
  · rename_i hfar
    rcases lt_abs.mp (not_le.mp hfar) with habove | hbelow
    · rw [Option.getD_some, if_pos (by linarith), if_pos (by linarith)]
    · rw [Option.getD_some, if_neg (by linarith), if_neg (by linarith), if_pos (by linarith)]

theorem quoteRule_eq (price midpoint : Rat) :
    quoteRule price midpoint = (moved midpoint price).getD .unknown :=
  (moved_getD midpoint price .unknown).symm

theorem tickRule_eq (price prevPrice : Rat) (lastClassified : TickSide) :
    tickRule price prevPrice lastClassified = (moved prevPrice price).getD lastClassified :=
  (moved_getD prevPrice price lastClassified).symm

theorem moved_ne_unknown {reference price : Rat} {side : TickSide}
    (h : moved reference price = some side) : side ≠ .unknown := by
  unfold moved at h
  split at h
  · cases h
  · obtain rfl := Option.some.inj h
    split <;> simp

def apply (state : LeeReadyState) : Call → LeeReadyState
  | .updateQuote tickType price => updateQuote tickType price state
  | .classifyTrade price exchangeAggressor => (classifyTrade price exchangeAggressor state).2

/-- The state that a history leaves. -/
def stateAfter (history : List Call) : LeeReadyState := history.foldl apply {}

theorem stateAfter_snoc (history : List Call) (call : Call) :
    stateAfter (history ++ [call]) = apply (stateAfter history) call := by
  simp [stateAfter]

/-- Quotes and the price of the last trade, as the history has them. -/
structure Remembers (history : List Call) (state : LeeReadyState) : Prop where
  bid : state.prevailingBid = prevailing .bidQuote history
  ask : state.prevailingAsk = prevailing .askQuote history
  price : state.prevTradePrice = (priceBefore history).getD 0

theorem getD_filter_ne_zero (last : Option Rat) :
    (last.filter (· ≠ 0)).getD 0 = last.getD 0 := by
  cases last with
  | none => rfl
  | some price =>
    by_cases hzero : price = 0
    · simp [Option.filter, hzero]
    · simp [Option.filter, hzero]

theorem remembers_stateAfter (history : List Call) : Remembers history (stateAfter history) := by
  induction history using List.reverseRecOn with
  | nil => exact ⟨rfl, rfl, rfl⟩
  | append_singleton history call ih =>
    rw [stateAfter_snoc]
    cases call with
    | updateQuote tickType price =>
      have hprice : priceBefore (history ++ [.updateQuote tickType price]) = priceBefore history := by
        simp [priceBefore, tradePriceOf]
      cases tickType with
      | bidQuote =>
        exact ⟨by simp [apply, updateQuote, prevailing, quoteOf],
          by simpa [apply, updateQuote, prevailing, quoteOf] using ih.ask, hprice ▸ ih.price⟩
      | askQuote =>
        exact ⟨by simpa [apply, updateQuote, prevailing, quoteOf] using ih.bid,
          by simp [apply, updateQuote, prevailing, quoteOf], hprice ▸ ih.price⟩
      | trade | summary =>
        exact ⟨by simpa [apply, updateQuote, prevailing, quoteOf] using ih.bid,
          by simpa [apply, updateQuote, prevailing, quoteOf] using ih.ask, hprice ▸ ih.price⟩
    | classifyTrade price exchangeAggressor =>
      have hlast : priceBefore (history ++ [.classifyTrade price exchangeAggressor]) =
          (some price).filter (· ≠ 0) := by
        simp [priceBefore, tradePriceOf]
      refine ⟨by simpa [apply, classifyTrade, prevailing, quoteOf] using ih.bid,
        by simpa [apply, classifyTrade, prevailing, quoteOf] using ih.ask, ?_⟩
      rw [hlast, getD_filter_ne_zero]
      rfl

/-- A price that is remembered is not zero. -/
theorem priceBefore_ne_zero {history : List Call} {price : Rat}
    (h : priceBefore history = some price) : price ≠ 0 := by
  unfold priceBefore at h
  simpa using (Option.filter_eq_some_iff.mp h).2

/-- The verdict of the history is the side of a trade, and a trade without one keeps the side
before it. -/
theorem tradeSide_eq {history : List Call} {state : LeeReadyState} (h : Remembers history state)
    (price : Rat) (exchangeAggressor : UInt8) :
    tradeSide price exchangeAggressor state =
      (verdict history (.classifyTrade price exchangeAggressor)).getD state.lastClassified := by
  have hready : state.isReady = decide (Quoted history) := by
    rw [LeeReadyState.isReady, h.bid, h.ask]
    exact (Bool.decide_and _ _).symm
  have hmid : state.midpoint = (prevailing .bidQuote history + prevailing .askQuote history) / 2 := by
    rw [LeeReadyState.midpoint, h.bid, h.ask, mul_one_div]
  rw [tradeSide, verdict]
  split
  · rfl
  split
  · rfl
  rw [hready, hmid, quoteRule_eq, tickRule_eq]
  rw [quoteVerdict]
  by_cases hquoted : Quoted history
  · simp only [hquoted, decide_true, if_true]
    cases hquote : moved ((prevailing .bidQuote history + prevailing .askQuote history) / 2) price with
    | some side => simp [moved_ne_unknown hquote]
    | none =>
      simp only [tickVerdict, h.price]
      cases hprice : priceBefore history with
      | none => simp
      | some before => simp [priceBefore_ne_zero hprice]
  · simp only [hquoted, decide_false, Bool.false_eq_true, if_false, Option.none_or, tickVerdict, h.price]
    cases hprice : priceBefore history with
    | none => simp
    | some before => simp [priceBefore_ne_zero hprice]

/-- The side that the state carries is a register of verdicts. -/
theorem holds_lastClassified : Holds verdict apply (·.lastClassified) {} where
  step := by
    intro history call
    cases call with
    | updateQuote tickType price => exact (updateQuote_frame tickType price _).2
    | classifyTrade price exchangeAggressor =>
      exact tradeSide_eq (remembers_stateAfter history) price exchangeAggressor

/-- A history without a verdict has no trade, as its first trade would have one. -/
theorem tradeless_of_silent {history : List Call} (h : Silent verdict [] history) :
    history.filterMap tradePriceOf = [] := by
  induction history using List.reverseRecOn with
  | nil => rfl
  | append_singleton history call ih =>
    obtain ⟨hsilent, hcall⟩ := silent_snoc.mp h
    have hnone := ih hsilent
    rw [List.filterMap_append, hnone, List.nil_append]
    cases call with
    | updateQuote tickType price => rfl
    | classifyTrade price exchangeAggressor =>
      have hbefore : priceBefore ([] ++ history) = none := by
        rw [List.nil_append, priceBefore, hnone]
        rfl
      rw [verdict] at hcall
      split at hcall
      · cases hcall
      split at hcall
      · cases hcall
      · rw [tickVerdict, hbefore, Option.or_eq_none_iff] at hcall
        exact absurd hcall.2 (by simp)

theorem tradesFrom_append (state : LeeReadyState) (calls calls' : List Call) :
    tradesFrom state (calls ++ calls') =
      tradesFrom state calls ++ tradesFrom (calls.foldl apply state) calls' := by
  induction calls generalizing state with
  | nil => rfl
  | cons call calls ih =>
    cases call with
    | updateQuote tickType price => exact ih _
    | classifyTrade price exchangeAggressor => exact congrArg (List.cons _) (ih _)

/-- The side of a trade is the latest verdict on the trades up to it, its own if it has one. -/
theorem side_stateAfter (history : List Call) (price : Rat) (exchangeAggressor : UInt8) :
    Latest verdict (history ++ [.classifyTrade price exchangeAggressor])
      (classifyTrade price exchangeAggressor (stateAfter history)).1 := by
  have hside : (stateAfter (history ++ [.classifyTrade price exchangeAggressor])).lastClassified =
      (classifyTrade price exchangeAggressor (stateAfter history)).1 := by
    rw [stateAfter_snoc]
    rfl
  rw [← hside]
  rcases latest_or_silent holds_lastClassified
    (history ++ [.classifyTrade price exchangeAggressor]) with hlatest | ⟨hsilent, -⟩
  · exact hlatest
  · have hnone := tradeless_of_silent hsilent
    simp [tradePriceOf] at hnone

/-- Every trade of a run has the side that the latest verdict gives: of the exchange, of the
quotes, of a move in price, or of a first trade that nothing decides. -/
theorem trades_by_latest_verdict (earlier later : List Call) (price : Rat)
    (exchangeAggressor : UInt8) :
    ∃ trade, (trades (earlier ++ .classifyTrade price exchangeAggressor :: later))[
        (trades earlier).length]? = some trade ∧
      trade.price = price ∧ trade.exchangeAggressor = exchangeAggressor ∧
      Latest verdict (earlier ++ [.classifyTrade price exchangeAggressor]) trade.side := by
  refine ⟨⟨price, exchangeAggressor, stateAfter earlier⟩, ?_, rfl, rfl,
    side_stateAfter earlier price exchangeAggressor⟩
  rw [trades, tradesFrom_append, trades, List.getElem?_append_right le_rfl, Nat.sub_self]
  rfl

end SessionLeeReady
