import OrderFlow.OfeSignalDetector
import Mathlib.Algebra.Order.Group.MinMax
import Mathlib.Data.List.Induction
import Mathlib.Tactic.Linarith
import Mathlib.Tactic.Ring

/-!
# Mirrored markets and their signals

The mirror image of a market has every price negated and buys and sells exchanged.
The pulse and the trade direction change sign with it. The turn score does not: a
price change times a delta and the size of a delta are the same on both sides. Under
absorption the signal is a sweep buy on both sides.
-/
namespace OfeSignalDetector

open OfeDeltaEngine OfeLeeReady OfeSignalTypes

def mirrorUpdate (u : Update) : Update := ⟨-u.price, u.sellVolume, u.buyVolume⟩

def mirrorImbalance (imbalance : ImbalanceSnapshot) : ImbalanceSnapshot :=
  { imbalance with
    diagonalBuyRatio := imbalance.diagonalSellRatio
    diagonalSellRatio := imbalance.diagonalBuyRatio
    buyImbalance := imbalance.sellImbalance
    sellImbalance := imbalance.buyImbalance }

def mirrorVwap (vwap : VwapSnapshot) : VwapSnapshot := { vwap with vwap := -vwap.vwap }

def mirrorProfile (profile : VolumeProfileSnapshot) : VolumeProfileSnapshot :=
  { profile with pocPrice := -profile.pocPrice }

def mirrorDirection : TradeDirection → TradeDirection
  | .buy => .sell
  | .sell => .buy
  | .unknown => .unknown

def mirrorType : SignalType → SignalType
  | .sweepBuy => .sweepSell
  | .sweepSell => .sweepBuy
  | .pulseLong => .pulseShort
  | .pulseShort => .pulseLong
  | .turnLong => .turnShort
  | .turnShort => .turnLong
  | .cotLong => .cotShort
  | .cotShort => .cotLong
  | .unknown => .unknown

/-- The signal of the mirrored market mirrors the signal. -/
structure Mirrored (event mirrored : SignalEvent) : Prop where
  pulse : mirrored.pulseScore = -event.pulseScore
  turn : mirrored.turnScore = -event.turnScore
  cot : mirrored.cotScore = -event.cotScore
  sweep : mirrored.sweepScore = event.sweepScore
  strength : mirrored.strength = event.strength
  type : mirrored.signalType = mirrorType event.signalType

/-- The last update has equal volumes, or it is not the first one and the price went
one point against its delta. -/
def TurnFree (updates : List Update) : Prop :=
  match updates.reverse with
  | [] => True
  | [last] => last.buyVolume = last.sellVolume
  | last :: before :: _ =>
    last.buyVolume = last.sellVolume ∨
      last.sellVolume < last.buyVolume ∧ last.price = before.price - 1 ∨
      last.buyVolume < last.sellVolume ∧ last.price = before.price + 1

def mirrorState (delta : DeltaState) : DeltaState :=
  { delta with
    barDelta := -delta.barDelta
    maxDelta := -delta.minDelta
    minDelta := -delta.maxDelta
    cumulativeVolumeDelta := -delta.cumulativeVolumeDelta }

def mirrorEngine (e : DeltaEngine) : DeltaEngine := ⟨mirrorState e.state, -e.lastPrice⟩

theorem delta_mirrorUpdate (u : Update) : (mirrorUpdate u).delta = -u.delta := by
  simp [Update.delta, mirrorUpdate]

theorem update_mirror (e : DeltaEngine) (u : Update) :
    update (mirrorEngine e) (mirrorUpdate u) = mirrorEngine (update e u) := by
  have hsum : -e.state.cumulativeVolumeDelta + -u.delta =
      -(e.state.cumulativeVolumeDelta + u.delta) := by ring
  have hprice : (-u.price - -e.lastPrice) * -u.delta = (u.price - e.lastPrice) * u.delta := by ring
  simp only [update, delta_mirrorUpdate, mirrorEngine, mirrorState, hsum, max_neg_neg, min_neg_neg,
    abs_neg]
  simp only [mirrorUpdate, hprice]

theorem run_mirror (updates : List Update) :
    run (updates.map mirrorUpdate) = mirrorEngine (run updates) := by
  induction updates using List.reverseRecOn with
  | nil => simp [run, mirrorEngine, mirrorState]
  | append_singleton updates u ih =>
    rw [run] at ih ⊢
    rw [run] at ih ⊢
    simp only [List.map_append, List.map_cons, List.map_nil, List.foldl_append, List.foldl_cons,
      List.foldl_nil, ih, update_mirror]

theorem clamp_neg (value : Rat) : clamp (-value) (-1) 1 = -clamp value (-1) 1 := by
  unfold clamp
  split <;> split <;> grind

theorem clamp_eq_zero (value : Rat) : clamp value (-1) 1 = 0 ↔ value = 0 := by
  unfold clamp
  grind

theorem normalizedDelta_mirror (delta : DeltaState) :
    normalizedDelta (mirrorState delta) = -normalizedDelta delta := by
  by_cases h : delta.cumulativeVolumeDelta = 0
  · simp [normalizedDelta, mirrorState, h]
  · simp [normalizedDelta, mirrorState, h, neg_div]

theorem imbalanceComponent_mirror {imbalance : ImbalanceSnapshot}
    (hone : ¬ (imbalance.buyImbalance = true ∧ imbalance.sellImbalance = true)) :
    imbalanceComponent (mirrorImbalance imbalance) = -imbalanceComponent imbalance := by
  rw [imbalanceComponent, imbalanceComponent, mirrorImbalance]
  cases hbuy : imbalance.buyImbalance with
  | false => cases imbalance.sellImbalance <;> simp
  | true =>
    have hsell : imbalance.sellImbalance = false := by simpa [hbuy] using hone
    simp [hsell]

theorem vwapComponent_mirror (vwap : VwapSnapshot) (profile : VolumeProfileSnapshot) :
    vwapComponent (mirrorVwap vwap) (mirrorProfile profile) = -vwapComponent vwap profile := by
  by_cases h : vwap.totalVolume > 0
  · have hneg : -vwap.vwap - -profile.pocPrice = -(vwap.vwap - profile.pocPrice) := by ring
    simp only [vwapComponent, mirrorVwap, mirrorProfile, h, if_true, hneg, abs_neg, neg_div]
  · simp [vwapComponent, mirrorVwap, h]

/-- The turn score and the sweep score stay, the others change sign. -/
theorem score_mirror (delta : DeltaState) {imbalance : ImbalanceSnapshot} (vwap : VwapSnapshot)
    (profile : VolumeProfileSnapshot) (direction : TradeDirection)
    (hone : ¬ (imbalance.buyImbalance = true ∧ imbalance.sellImbalance = true)) :
    score (mirrorState delta) (mirrorImbalance imbalance) (mirrorVwap vwap) (mirrorProfile profile)
        (mirrorDirection direction) =
      { pulse := -(score delta imbalance vwap profile direction).pulse
        turns := (score delta imbalance vwap profile direction).turns
        cot := -(score delta imbalance vwap profile direction).cot
        sweep := (score delta imbalance vwap profile direction).sweep } := by
  have hpulse : (-normalizedDelta delta + -imbalanceComponent imbalance +
      -vwapComponent vwap profile) / 3 = -((normalizedDelta delta + imbalanceComponent imbalance +
        vwapComponent vwap profile) / 3) := by ring
  simp only [score, normalizedDelta_mirror, imbalanceComponent_mirror hone, vwapComponent_mirror,
    hpulse, clamp_neg]
  cases direction <;> simp [mirrorDirection, mirrorState, mirrorImbalance]

theorem strength_mirror (scores : CompositeSignalScores) :
    strength { scores with
      pulse := -scores.pulse
      cot := -scores.cot } = strength scores := by
  simp only [strength, abs_neg]

/-- Without a turn or a sweep the types of mirrored scores are mirrored. -/
theorem selectSignalType_mirror {scores : CompositeSignalScores} (hturns : scores.turns = 0)
    (hsweep : ¬ scores.sweep > 4 / 5) :
    selectSignalType { scores with
      pulse := -scores.pulse
      cot := -scores.cot } = mirrorType (selectSignalType scores) := by
  unfold selectSignalType
  grind [mirrorType]

theorem turns_eq_zero (delta : DeltaState) (imbalance : ImbalanceSnapshot) (vwap : VwapSnapshot)
    (profile : VolumeProfileSnapshot) (direction : TradeDirection) :
    (score delta imbalance vwap profile direction).turns = 0 ↔
      delta.divergence + delta.surge = 0 := by
  have hpos : |delta.surge| + 1 ≠ 0 := by positivity
  rw [score, clamp_eq_zero, div_eq_zero_iff]
  exact or_iff_left hpos

/-- A price change times a delta cancels the size of the delta. -/
theorem mul_add_abs_eq_zero (change delta : Rat) :
    change * delta + |delta| = 0 ↔
      delta = 0 ∨ 0 < delta ∧ change = -1 ∨ delta < 0 ∧ change = 1 := by
  rcases lt_trichotomy delta 0 with hneg | hzero | hpos
  · have hfactor : change * delta + |delta| = (change - 1) * delta := by
      rw [abs_of_neg hneg]
      ring
    rw [hfactor, mul_eq_zero, sub_eq_zero]
    simp [hneg, hneg.ne, hneg.not_gt]
  · simp [hzero]
  · have hfactor : change * delta + |delta| = (change + 1) * delta := by
      rw [abs_of_pos hpos]
      ring
    rw [hfactor, mul_eq_zero, add_eq_zero_iff_eq_neg]
    simp [hpos, hpos.ne', hpos.not_gt]

/-- The turn score vanishes exactly on these updates. -/
theorem turnFree_iff (updates : List Update) :
    (run updates).state.divergence + (run updates).state.surge = 0 ↔ TurnFree updates := by
  rcases List.eq_nil_or_concat updates with rfl | ⟨earlier, last, rfl⟩
  · simp [run, TurnFree]
  · rw [List.concat_eq_append, run_snoc]
    rcases List.eq_nil_or_concat earlier with rfl | ⟨first, before, rfl⟩
    · simp [run, update, TurnFree, Update.delta, sub_eq_zero]
    · rw [List.concat_eq_append, run_snoc]
      simp only [update, Nat.succ_ne_zero, if_false, mul_add_abs_eq_zero, Update.delta, sub_eq_zero,
        sub_pos, sub_neg]
      simp only [TurnFree, List.reverse_append, List.reverse_cons, List.reverse_nil, List.nil_append,
        List.cons_append]
      constructor
      · rintro (h | ⟨h, hprice⟩ | ⟨h, hprice⟩)
        · exact .inl h
        · exact .inr (.inl ⟨h, by linarith⟩)
        · exact .inr (.inr ⟨h, by linarith⟩)
      · rintro (h | ⟨h, hprice⟩ | ⟨h, hprice⟩)
        · exact .inl h
        · exact .inr (.inl ⟨h, by linarith⟩)
        · exact .inr (.inr ⟨h, by linarith⟩)

theorem sweep_gt_iff (delta : DeltaState) (imbalance : ImbalanceSnapshot) (vwap : VwapSnapshot)
    (profile : VolumeProfileSnapshot) (direction : TradeDirection) :
    (score delta imbalance vwap profile direction).sweep > 4 / 5 ↔ imbalance.absorption = true := by
  cases h : imbalance.absorption with
  | true => norm_num [score, h]
  | false => cases hstacked : imbalance.stacked <;> norm_num [score, h, hstacked]

/-- A mirrored market gives the mirrored signal exactly if there is no absorption and
the last update gives no turn score. -/
theorem evaluate_mirrored_iff (timestampNs : UInt64) (symbolId : UInt32) (updates : List Update)
    (imbalance : ImbalanceSnapshot) (vwap : VwapSnapshot) (profile : VolumeProfileSnapshot)
    (direction : TradeDirection)
    (hone : ¬ (imbalance.buyImbalance = true ∧ imbalance.sellImbalance = true)) :
    Mirrored
        (evaluate timestampNs symbolId (run updates).state imbalance vwap profile direction)
        (evaluate timestampNs symbolId (run (updates.map mirrorUpdate)).state
          (mirrorImbalance imbalance) (mirrorVwap vwap) (mirrorProfile profile)
          (mirrorDirection direction)) ↔
      imbalance.absorption = false ∧ TurnFree updates := by
  rw [run_mirror, mirrorEngine, ← turnFree_iff,
    ← turns_eq_zero (run updates).state imbalance vwap profile direction]
  have hscore := score_mirror (run updates).state vwap profile direction hone
  have hsweep := sweep_gt_iff (run updates).state imbalance vwap profile direction
  constructor
  · intro h
    have hturn := h.turn
    have htype := h.type
    simp only [evaluate, hscore] at hturn htype
    refine ⟨?_, by linarith⟩
    cases habsorption : imbalance.absorption with
    | false => rfl
    | true => simp [selectSignalType, hsweep.mpr habsorption, mirrorType] at htype
  · rintro ⟨habsorption, hturns⟩
    have hquiet : ¬ (score (run updates).state imbalance vwap profile direction).sweep > 4 / 5 :=
      fun h => by simp [hsweep.mp h] at habsorption
    constructor
    case pulse => simp only [evaluate, hscore]
    case turn => simp only [evaluate, hscore, hturns, neg_zero]
    case cot => simp only [evaluate, hscore]
    case sweep => simp only [evaluate, hscore]
    case strength =>
      simp only [evaluate, hscore]
      exact strength_mirror _
    case type =>
      simp only [evaluate, hscore]
      exact selectSignalType_mirror hturns hquiet

/-- Ten contracts bought at 100 after as many at 101. -/
def fallingBuys : List Update := [⟨101, 10, 0⟩, ⟨100, 10, 0⟩]

theorem evaluate_mirrored_fallingBuys :
    Mirrored (evaluate 0 0 (run fallingBuys).state { buyImbalance := true } {} {} .buy)
      (evaluate 0 0 (run (fallingBuys.map mirrorUpdate)).state
        (mirrorImbalance { buyImbalance := true }) (mirrorVwap {}) (mirrorProfile {})
        (mirrorDirection .buy)) :=
  (evaluate_mirrored_iff 0 0 fallingBuys { buyImbalance := true } {} {} .buy (by decide)).mpr
    ⟨rfl, .inr (.inl ⟨by norm_num, by norm_num⟩)⟩

/-- One update of ten contracts bought, at an absorbed buy imbalance. Both turn scores
are positive, and both signals are sweep buys. -/
theorem evaluate_not_mirrored :
    ¬ Mirrored
        (evaluate 0 0 (run [⟨100, 10, 0⟩]).state { buyImbalance := true, absorption := true } {} {}
          .buy)
        (evaluate 0 0 (run ([⟨100, 10, 0⟩].map mirrorUpdate)).state
          (mirrorImbalance { buyImbalance := true, absorption := true }) (mirrorVwap {})
          (mirrorProfile {}) (mirrorDirection .buy)) := by
  intro h
  have htype := h.type
  revert htype
  decide +kernel

end OfeSignalDetector
