import Mathlib.Data.List.Chain
import OrderFlow.SessionLeeReady

/-!
# The classifier over whole runs

Each trade leaves its price and its side in the state, and quotes touch neither. So a trade
after a classified one finds a side to carry forward, unless the price of the trade before
it was zero, which the tick rule takes for no trade at all.
-/
namespace SessionLeeReady

open SessionTypes

inductive Call where
  | updateQuote (tickType : TickType) (price : Rat)
  | classifyTrade (tradePrice : Rat) (exchangeAggressor : UInt8)
  deriving DecidableEq, Repr

/-- A trade of a run, with the state in which it was classified. -/
structure Trade where
  price : Rat
  exchangeAggressor : UInt8
  state : LeeReadyState
  deriving DecidableEq, Repr

def Trade.side (trade : Trade) : TickSide :=
  (classifyTrade trade.price trade.exchangeAggressor trade.state).1

def tradesFrom (state : LeeReadyState) : List Call → List Trade
  | [] => []
  | .updateQuote tickType price :: calls => tradesFrom (updateQuote tickType price state) calls
  | .classifyTrade price exchangeAggressor :: calls =>
    ⟨price, exchangeAggressor, state⟩ ::
      tradesFrom (classifyTrade price exchangeAggressor state).2 calls

/-- The trades of a run, on a fresh state. -/
def trades (calls : List Call) : List Trade := tradesFrom {} calls

def Classified (side : TickSide) : Prop := side = .ask ∨ side = .bid

theorem classified_iff {side : TickSide} : Classified side ↔ side ≠ .unknown := by
  cases side <;> simp [Classified]

theorem updateQuote_frame (tickType : TickType) (price : Rat) (state : LeeReadyState) :
    (updateQuote tickType price state).prevTradePrice = state.prevTradePrice ∧
      (updateQuote tickType price state).lastClassified = state.lastClassified := by
  cases tickType <;> exact ⟨rfl, rfl⟩

theorem tickRule_classified (price prevPrice : Rat) {lastClassified : TickSide}
    (h : Classified lastClassified) : Classified (tickRule price prevPrice lastClassified) := by
  rw [tickRule]
  split
  · exact .inl rfl
  · split
    · exact .inr rfl
    · exact h

/-- With a price and a side to compare with, every trade is classified. -/
theorem tradeSide_classified (price : Rat) (exchangeAggressor : UInt8) {state : LeeReadyState}
    (hprice : state.prevTradePrice ≠ 0) (hlast : Classified state.lastClassified) :
    Classified (tradeSide price exchangeAggressor state) := by
  have htick := tickRule_classified price state.prevTradePrice hlast
  rw [tradeSide]
  split
  · exact .inl rfl
  split
  · exact .inr rfl
  split
  · split
    · exact htick
    · rename_i hspoken
      rw [classified_iff]
      exact fun hnone => hspoken ⟨hnone, hprice⟩
  · exact htick

/-- An unclassified trade has no aggressor, and the quotes do not tell its side. -/
theorem tradeSide_unknown {price : Rat} {exchangeAggressor : UInt8} {state : LeeReadyState}
    (h : tradeSide price exchangeAggressor state = .unknown) :
    exchangeAggressor ≠ 1 ∧ exchangeAggressor ≠ 2 ∧
      (state.isReady = false ∨ quoteRule price state.midpoint = .unknown) := by
  rw [tradeSide] at h
  split at h
  · cases h
  · rename_i hbuyer
    split at h
    · cases h
    · rename_i hseller
      refine ⟨hbuyer, hseller, ?_⟩
      cases hready : state.isReady with
      | false => exact .inl rfl
      | true =>
        right
        simp only [hready, if_true] at h
        split at h
        · rename_i hundecided
          exact hundecided.1
        · exact h

/-- A trade finds what the trade before it has left. -/
structure Follows (trade next : Trade) : Prop where
  prevTradePrice : next.state.prevTradePrice = trade.price
  lastClassified : next.state.lastClassified = trade.side

/-- The first trade finds the state, and every other one what the trade before it has left. -/
theorem tradesFrom_follow (state : LeeReadyState) (calls : List Call) :
    (∀ first ∈ (tradesFrom state calls).head?,
        first.state.prevTradePrice = state.prevTradePrice ∧
          first.state.lastClassified = state.lastClassified) ∧
      (tradesFrom state calls).IsChain Follows := by
  induction calls generalizing state with
  | nil => exact ⟨by simp [tradesFrom], List.IsChain.nil⟩
  | cons call calls ih =>
    cases call with
    | updateQuote tickType price =>
      obtain ⟨hfirst, hchain⟩ := ih (updateQuote tickType price state)
      obtain ⟨hprice, hlast⟩ := updateQuote_frame tickType price state
      rw [hprice, hlast] at hfirst
      exact ⟨hfirst, hchain⟩
    | classifyTrade price exchangeAggressor =>
      obtain ⟨hfirst, hchain⟩ := ih (classifyTrade price exchangeAggressor state).2
      rw [tradesFrom]
      refine ⟨by simp, List.isChain_cons.mpr ⟨?_, hchain⟩⟩
      intro next hnext
      obtain ⟨hprice, hlast⟩ := hfirst next hnext
      exact ⟨hprice, hlast⟩

/-- A side is carried from trade to trade as long as no price is zero. -/
theorem classified_of_follows {run : List Trade} (hchain : run.IsChain Follows) {i j : Nat}
    (hij : i ≤ j) (hstart : ∀ trade ∈ run[i]?, Classified trade.side)
    (hprices : ∀ k, i ≤ k → k < j → ∀ trade ∈ run[k]?, trade.price ≠ 0) :
    ∀ trade ∈ run[j]?, Classified trade.side := by
  induction j, hij using Nat.le_induction with
  | base => exact hstart
  | succ j hij ih =>
    intro next hnext
    obtain ⟨hlt, hget⟩ := List.getElem?_eq_some_iff.mp hnext
    have hbefore : run[j]? = some run[j] := List.getElem?_eq_getElem (by omega)
    have hclassified := ih (fun k hk hkj => hprices k hk (by omega)) _ hbefore
    have hprice := hprices j hij (by omega) _ hbefore
    have hfollows := List.isChain_iff_getElem.mp hchain j hlt
    rw [hget] at hfollows
    refine tradeSide_classified _ _ ?_ ?_
    · rw [hfollows.prevTradePrice]
      exact hprice
    · rw [hfollows.lastClassified]
      exact hclassified

/-- A classified symbol stays classified while no trade has the price zero, and a trade is not
classified only if neither the exchange nor the quotes tell its side. -/
theorem trades_stay_classified (calls : List Call) :
    (∀ (i j : Nat) (first last : Trade), i < j → (trades calls)[i]? = some first →
        Classified first.side → (trades calls)[j]? = some last →
        (∀ k, i ≤ k → k < j → ∀ trade ∈ (trades calls)[k]?, trade.price ≠ 0) →
          Classified last.side) ∧
      ∀ trade ∈ trades calls, trade.side = .unknown →
        trade.exchangeAggressor ≠ 1 ∧ trade.exchangeAggressor ≠ 2 ∧
          (trade.state.isReady = false ∨
            quoteRule trade.price trade.state.midpoint = .unknown) := by
  obtain ⟨-, hchain⟩ := tradesFrom_follow {} calls
  constructor
  · intro i j first last hij hfirst hclassified hlast hprices
    refine classified_of_follows hchain hij.le ?_ hprices last hlast
    intro trade htrade
    rw [← trades, hfirst] at htrade
    cases htrade
    exact hclassified
  · intro trade _ hunknown
    exact tradeSide_unknown hunknown

/-- A trade over the midpoint, a bid that goes away, and two more trades at the same price. -/
def bidGone : List Call :=
  [.updateQuote .bidQuote 100, .updateQuote .askQuote 101, .classifyTrade 101 0,
    .updateQuote .bidQuote 0, .classifyTrade 101 0, .classifyTrade 101 0]

theorem trades_stay_classified_bidGone :
    ∀ last, (trades bidGone)[2]? = some last → Classified last.side := by
  intro last hlast
  refine (trades_stay_classified bidGone).1 0 2 _ last (by decide) rfl
    (.inl (by decide +kernel)) hlast ?_
  intro k _ hk trade htrade
  have hall : ∀ trade ∈ trades bidGone, trade.price ≠ 0 := by decide +kernel
  exact hall trade (List.mem_of_getElem? htrade)

end SessionLeeReady
