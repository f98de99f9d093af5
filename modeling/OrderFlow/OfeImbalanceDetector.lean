import Mathlib.Algebra.Order.Field.Basic
import Mathlib.Tactic.NormNum
import OrderFlow.OfeSignalDetector

/-!
# The imbalance detector of `include/ofe`

`compare` sets four volumes against each other along two diagonals and keeps both quotients
and both flags.  A quotient with no denominator is zero while its flag is set, so a flag
does not say that its quotient is positive, nor the other way round.
-/
namespace OfeImbalanceDetector

open OfeDeltaEngine OfeLeeReady OfeSignalDetector OfeSignalTypes

def isBuyImbalance (askAtPrice bidPreviousPrice : Rat) (threshold : Rat := 3) : Bool :=
  if askAtPrice ≤ 0 then decide (bidPreviousPrice > 0)
  else decide (bidPreviousPrice ≥ askAtPrice * threshold)

def isSellImbalance (bidAtPrice askNextPrice : Rat) (threshold : Rat := 3) : Bool :=
  if bidAtPrice ≤ 0 then decide (askNextPrice > 0)
  else decide (askNextPrice ≥ bidAtPrice * threshold)

def compare (askAtPrice bidPreviousPrice bidAtPrice askNextPrice : Rat)
    (threshold : Rat := 3) : ImbalanceSnapshot :=
  let buyImbalance := isBuyImbalance askAtPrice bidPreviousPrice threshold
  let sellImbalance := isSellImbalance bidAtPrice askNextPrice threshold
  { diagonalBuyRatio := if askAtPrice > 0 then bidPreviousPrice / askAtPrice else 0
    diagonalSellRatio := if bidAtPrice > 0 then askNextPrice / bidAtPrice else 0
    buyImbalance := buyImbalance
    sellImbalance := sellImbalance
    stacked := buyImbalance || sellImbalance
    absorption := decide (bidPreviousPrice > askAtPrice ∧ askNextPrice > bidAtPrice) }

section Published

variable {timestampNs : UInt64} {symbolId : UInt32} {delta : DeltaState} {s : ImbalanceSnapshot}
  {vwap : VwapSnapshot} {profile : VolumeProfileSnapshot} {direction : TradeDirection}

theorem zone_buyEdge_iff :
    (evaluate timestampNs symbolId delta s vwap profile direction).imbalanceZone = .buyEdge ↔
      s.buyImbalance = true := by
  cases hbuy : s.buyImbalance <;> cases hsell : s.sellImbalance <;> simp [evaluate, hbuy, hsell]

theorem zone_sellEdge_iff :
    (evaluate timestampNs symbolId delta s vwap profile direction).imbalanceZone = .sellEdge ↔
      s.buyImbalance = false ∧ s.sellImbalance = true := by
  cases hbuy : s.buyImbalance <;> cases hsell : s.sellImbalance <;> simp [evaluate, hbuy, hsell]

/-- The published ratio is the buy side's unless that one is zero and the other is not. -/
theorem ratio_eq_buy_iff (hbuy : 0 ≤ s.diagonalBuyRatio) :
    (evaluate timestampNs symbolId delta s vwap profile direction).imbalanceRatio =
        s.diagonalBuyRatio ↔
      (s.diagonalBuyRatio = 0 → s.diagonalSellRatio = 0) := by
  simp only [evaluate]
  rcases hbuy.eq_or_lt with hzero | hpos
  · simp [← hzero]
  · simp [hpos, hpos.ne']

theorem ratio_eq_sell_iff (hbuy : 0 ≤ s.diagonalBuyRatio) :
    (evaluate timestampNs symbolId delta s vwap profile direction).imbalanceRatio =
        s.diagonalSellRatio ↔
      s.diagonalBuyRatio = 0 ∨ s.diagonalBuyRatio = s.diagonalSellRatio := by
  simp only [evaluate]
  rcases hbuy.eq_or_lt with hzero | hpos
  · simp [← hzero]
  · simp [hpos, hpos.ne']

/-- The ratio an event publishes is that of the side its zone names. -/
def RatioOfZone (s : ImbalanceSnapshot) (event : SignalEvent) : Prop :=
  (event.imbalanceZone = .buyEdge → event.imbalanceRatio = s.diagonalBuyRatio) ∧
    (event.imbalanceZone = .sellEdge → event.imbalanceRatio = s.diagonalSellRatio)

theorem ratioOfZone_iff (hbuy : 0 ≤ s.diagonalBuyRatio) :
    RatioOfZone s (evaluate timestampNs symbolId delta s vwap profile direction) ↔
      (s.buyImbalance = true → s.diagonalBuyRatio = 0 → s.diagonalSellRatio = 0) ∧
        (s.buyImbalance = false → s.sellImbalance = true →
          s.diagonalBuyRatio = 0 ∨ s.diagonalBuyRatio = s.diagonalSellRatio) := by
  rw [RatioOfZone, zone_buyEdge_iff, zone_sellEdge_iff, ratio_eq_buy_iff hbuy,
    ratio_eq_sell_iff hbuy, and_imp]

end Published

section Quotients

variable {a b c d threshold : Rat}

/-- The quotient `compare` keeps of a diagonal. -/
def quotient (a b : Rat) : Rat := if a > 0 then b / a else 0

theorem quotient_nonneg (ha : 0 ≤ a) (hb : 0 ≤ b) : 0 ≤ quotient a b := by
  rw [quotient]
  split
  · exact div_nonneg hb ha
  · exact le_refl 0

theorem quotient_eq_zero_iff (ha : 0 ≤ a) : quotient a b = 0 ↔ a = 0 ∨ b = 0 := by
  rw [quotient]
  rcases ha.eq_or_lt with hzero | hpos
  · simp [← hzero]
  · simp [hpos, hpos.ne']

theorem isBuyImbalance_iff (ha : 0 ≤ a) (hb : 0 ≤ b) (hthreshold : 0 < threshold) :
    isBuyImbalance a b threshold = true ↔ 0 < b ∧ a * threshold ≤ b := by
  rw [isBuyImbalance]
  rcases ha.eq_or_lt with hzero | hpos
  · simp [← hzero, hb]
  · have hmin : 0 < a * threshold := mul_pos hpos hthreshold
    simp only [not_le.mpr hpos, if_false, decide_eq_true_eq, ge_iff_le]
    exact ⟨fun h => ⟨hmin.trans_le h, h⟩, fun h => h.2⟩

/-- Both sides are flagged by one formula. -/
theorem isSellImbalance_iff (hc : 0 ≤ c) (hd : 0 ≤ d) (hthreshold : 0 < threshold) :
    isSellImbalance c d threshold = true ↔ 0 < d ∧ c * threshold ≤ d :=
  isBuyImbalance_iff hc hd hthreshold

/-- A quotient under the threshold is not that of a flagged side. -/
theorem quotient_ne_of_flagged (ha : 0 < a) (hb : 0 < b) (hsmall : b < a * threshold)
    (hflagged : c * threshold ≤ d) : quotient a b ≠ quotient c d := by
  have hpos : 0 < b / a := div_pos hb ha
  have hbuy : b / a < threshold := by rwa [div_lt_iff₀' ha]
  rw [quotient, if_pos ha, quotient]
  by_cases hc : c > 0
  · have hlarge : threshold ≤ d / c := by rwa [le_div_iff₀' hc]
    rw [if_pos hc]
    exact (hbuy.trans_le hlarge).ne
  · rw [if_neg hc]
    exact hpos.ne'

/-- A flagged buy side with no quotient leaves the ratio to the sell side. -/
theorem buyEdge_ratio_iff (ha : 0 ≤ a) (hb : 0 ≤ b) (hc : 0 ≤ c) (hd : 0 ≤ d)
    (hthreshold : 0 < threshold) :
    (isBuyImbalance a b threshold = true → quotient a b = 0 → quotient c d = 0) ↔
      ¬ (a = 0 ∧ 0 < b ∧ 0 < c ∧ 0 < d) := by
  rw [isBuyImbalance_iff ha hb hthreshold, quotient_eq_zero_iff ha, quotient_eq_zero_iff hc]
  constructor
  · rintro h ⟨hzero, hbpos, hcpos, hdpos⟩
    have hflag : 0 < b ∧ a * threshold ≤ b := ⟨hbpos, by simp [hzero, hb]⟩
    rcases h hflag (.inl hzero) with h | h
    · exact hcpos.ne' h
    · exact hdpos.ne' h
  · rintro h ⟨hbpos, -⟩ (hzero | hzero)
    · by_contra hnone
      rw [not_or] at hnone
      exact h ⟨hzero, hbpos, lt_of_le_of_ne hc (Ne.symm hnone.1),
        lt_of_le_of_ne hd (Ne.symm hnone.2)⟩
    · exact absurd hzero hbpos.ne'

/-- A buy side that is not flagged still takes the ratio from a flagged sell side. -/
theorem sellEdge_ratio_iff (ha : 0 ≤ a) (hb : 0 ≤ b) (hc : 0 ≤ c) (hd : 0 ≤ d)
    (hthreshold : 0 < threshold) :
    (isBuyImbalance a b threshold = false → isSellImbalance c d threshold = true →
        quotient a b = 0 ∨ quotient a b = quotient c d) ↔
      ¬ (0 < b ∧ b < a * threshold ∧ 0 < d ∧ c * threshold ≤ d) := by
  rw [← Bool.not_eq_true, isBuyImbalance_iff ha hb hthreshold, isSellImbalance_iff hc hd hthreshold,
    quotient_eq_zero_iff ha]
  constructor
  · rintro h ⟨hbpos, hsmall, hsell⟩
    have ha' : 0 < a := by
      rcases ha.eq_or_lt with hzero | hpos
      · rw [← hzero, zero_mul] at hsmall
        exact absurd hsmall hb.not_gt
      · exact hpos
    rcases h (fun h => absurd h.2 hsmall.not_ge) hsell with (h | h) | h
    · exact ha'.ne' h
    · exact hbpos.ne' h
    · exact quotient_ne_of_flagged ha' hbpos hsmall hsell.2 h
  · intro h hquiet hsell
    by_contra hnone
    rw [not_or, not_or] at hnone
    have hbpos : 0 < b := lt_of_le_of_ne hb (Ne.symm hnone.1.2)
    have hsmall : b < a * threshold := not_le.mp fun hle => hquiet ⟨hbpos, hle⟩
    exact h ⟨hbpos, hsmall, hsell⟩

end Quotients

/-- The published ratio belongs to the published side exactly if, first, a buy imbalance with
no ask volume at the price does not meet a sell diagonal with volume at both ends and, second,
a sell imbalance does not meet a buy diagonal with a positive quotient under the threshold. -/
theorem compare_ratioOfZone_iff
    (askAtPrice bidPreviousPrice bidAtPrice askNextPrice threshold : Rat)
    (timestampNs : UInt64) (symbolId : UInt32) (delta : DeltaState) (vwap : VwapSnapshot)
    (profile : VolumeProfileSnapshot) (direction : TradeDirection)
    (hask : 0 ≤ askAtPrice) (hbidPrevious : 0 ≤ bidPreviousPrice) (hbid : 0 ≤ bidAtPrice)
    (haskNext : 0 ≤ askNextPrice) (hthreshold : 0 < threshold) :
    RatioOfZone (compare askAtPrice bidPreviousPrice bidAtPrice askNextPrice threshold)
        (evaluate timestampNs symbolId delta
          (compare askAtPrice bidPreviousPrice bidAtPrice askNextPrice threshold)
          vwap profile direction) ↔
      ¬ (askAtPrice = 0 ∧ 0 < bidPreviousPrice ∧ 0 < bidAtPrice ∧ 0 < askNextPrice) ∧
        ¬ (0 < bidPreviousPrice ∧ bidPreviousPrice < askAtPrice * threshold ∧
          0 < askNextPrice ∧ bidAtPrice * threshold ≤ askNextPrice) := by
  have hnonneg : 0 ≤ (compare askAtPrice bidPreviousPrice bidAtPrice askNextPrice
      threshold).diagonalBuyRatio := quotient_nonneg hask hbidPrevious
  refine (ratioOfZone_iff hnonneg).trans ?_
  exact and_congr (buyEdge_ratio_iff hask hbidPrevious hbid haskNext hthreshold)
    (sellEdge_ratio_iff hask hbidPrevious hbid haskNext hthreshold)

/-- A bid of 30 under an ask of 10, and no ask over the bid of 10. -/
theorem compare_ratioOfZone_thirty :
    RatioOfZone (compare 10 30 10 0 3) (evaluate 0 0 {} (compare 10 30 10 0 3) {} {} .buy) :=
  (compare_ratioOfZone_iff 10 30 10 0 3 0 0 {} {} {} .buy (by norm_num) (by norm_num)
    (by norm_num) (by norm_num) (by norm_num)).mpr
    ⟨by norm_num, by norm_num⟩

/-- A bid of 4 under an ask of 2, an ask of 3 over a bid of 1. The event names the sell edge,
whose ratio is 3, and publishes the ratio 2 of the buy side. -/
theorem compare_not_ratioOfZone :
    ¬ RatioOfZone (compare 2 4 1 3 3) (evaluate 0 0 {} (compare 2 4 1 3 3) {} {} .buy) := by
  intro h
  have hratio := h.2
  revert hratio
  decide +kernel

end OfeImbalanceDetector
