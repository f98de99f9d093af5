import OrderFlow.OfeDeltaExtremes
import OrderFlow.OfeImbalanceDetector
import OrderFlow.OfeSignalMirror
import OrderFlow.OfeValueArea

/-!
# What a published signal says

A signal event is made of the states of four analytics and the side of a trade. Over
all runs of these analytics it is read off as a whole: its scores and its strength stay in
their ranges, and its type says what was in the market.
-/
namespace OfeSignalDetector

open OfeDeltaEngine OfeImbalanceDetector OfeLeeReady OfeSignalTypes

/-- The market behind an event: the calls of the delta engine, the four volumes that
`compare` sets against each other and its threshold, and the quote and the override of the
trade. -/
structure Market where
  calls : List (ResetRuns.Call Update)
  askAtPrice : Rat
  bidPreviousPrice : Rat
  bidAtPrice : Rat
  askNextPrice : Rat
  threshold : Rat
  quote : QuoteSnapshot
  directOverride : Option TradeDirection

namespace Market

def updates (m : Market) : List Update := ResetRuns.sinceReset m.calls

def imbalance (m : Market) : ImbalanceSnapshot :=
  compare m.askAtPrice m.bidPreviousPrice m.bidAtPrice m.askNextPrice m.threshold

def direction (m : Market) : TradeDirection := classify m.quote m.directOverride

/-- Along both diagonals the volume grows. -/
def Absorbed (m : Market) : Prop :=
  m.askAtPrice < m.bidPreviousPrice ∧ m.bidAtPrice < m.askNextPrice

instance (m : Market) : Decidable m.Absorbed := inferInstanceAs (Decidable (_ ∧ _))

def lastDelta (m : Market) : Rat :=
  match m.updates.reverse with
  | [] => 0
  | last :: _ => last.delta

/-- The last price change times the last delta. -/
def lastTurn (m : Market) : Rat :=
  match m.updates.reverse with
  | last :: before :: _ => (last.price - before.price) * last.delta
  | _ => 0

/-- The type that the market asks for, given the pulse. -/
def typeOf (m : Market) (pulse : Rat) : SignalType :=
  if m.Absorbed then .sweepBuy
  else if 1 / 2 < pulse then .pulseLong
  else if pulse < -1 / 2 then .pulseShort
  else if 1 - |m.lastDelta| < 2 * m.lastTurn then .turnLong
  else if 2 * m.lastTurn < -(1 + 3 * |m.lastDelta|) then .turnShort
  else
    match m.direction with
    | .buy => .cotLong
    | .sell => .cotShort
    | .unknown => .unknown

end Market

/-- The fields of a profile that the detector reads. -/
def areaOf (profile : OfeVolumeProfile.VolumeProfileSnapshot) : VolumeProfileSnapshot :=
  ⟨profile.pocPrice, profile.valueAreaLow, profile.valueAreaHigh⟩

structure InRange (scores : CompositeSignalScores) : Prop where
  pulse : |scores.pulse| ≤ 1
  turns : |scores.turns| ≤ 1
  cot : |scores.cot| ≤ 1
  sweep : |scores.sweep| ≤ 1

def meanScore (scores : CompositeSignalScores) : Rat :=
  (|scores.pulse| + |scores.turns| + |scores.cot| + |scores.sweep|) / 4

def scoresOf (event : SignalEvent) : CompositeSignalScores :=
  ⟨event.pulseScore, event.turnScore, event.cotScore, event.sweepScore⟩

/-- What an event says of its market. -/
structure Tells (m : Market) (event : SignalEvent) : Prop where
  inRange : InRange (scoresOf event)
  strength : event.strength = meanScore (scoresOf event)
  confidence : event.confidence = meanScore (scoresOf event)
  type : event.signalType = m.typeOf event.pulseScore
  typed : event.signalType ≠ .unknown → 1 / 8 < event.strength
  untyped : event.signalType = .unknown → event.strength ≤ 3 / 8 ∧
    m.quote.ask ≤ m.quote.lastTrade ∧ m.quote.lastTrade ≤ m.quote.bid ∧
    m.directOverride = some .unknown
  oneEdge : m.imbalance.buyImbalance = true → m.imbalance.sellImbalance = true →
    event.signalType = .sweepBuy
  edge : event.imbalanceZone ≠ .neutral ↔
    m.imbalance.buyImbalance = true ∨ m.imbalance.sellImbalance = true
  sweep : event.imbalanceZone ≠ .neutral → 1 / 2 ≤ event.sweepScore
  cvd : event.cvd = (m.updates.map Update.delta).sum
  area : event.valueAreaLow ≤ event.pocPrice ∧ event.pocPrice ≤ event.valueAreaHigh

theorem abs_clamp (value : Rat) : |clamp value (-1) 1| ≤ 1 := by
  rw [abs_le]
  unfold clamp
  split
  · norm_num
  · split
    · norm_num
    · constructor <;> linarith

theorem clamp_of_mem {value : Rat} (hlow : 0 ≤ value) (hhigh : value ≤ 1) :
    clamp value 0 1 = value := by
  rw [clamp, if_neg (not_lt.mpr hlow), if_neg (not_lt.mpr hhigh)]

theorem half_lt_clamp_iff (value : Rat) : clamp value (-1) 1 > 1 / 2 ↔ 1 / 2 < value := by
  unfold clamp
  grind

theorem clamp_lt_half_iff (value : Rat) : clamp value (-1) 1 < -1 / 2 ↔ value < -1 / 2 := by
  unfold clamp
  grind

section Scores

variable (delta : DeltaState) (imbalance : ImbalanceSnapshot) (vwap : VwapSnapshot)
  (profile : VolumeProfileSnapshot) (direction : TradeDirection)

theorem cot_score : (score delta imbalance vwap profile direction).cot =
    match direction with
    | .buy => 1
    | .sell => -1
    | .unknown => 0 := by
  cases direction <;> rfl

theorem sweep_score : (score delta imbalance vwap profile direction).sweep =
    match imbalance.absorption, imbalance.stacked with
    | true, _ => 1
    | false, true => 1 / 2
    | false, false => 0 := by
  cases habsorption : imbalance.absorption <;> cases hstacked : imbalance.stacked <;>
    simp [score, habsorption, hstacked]

theorem inRange_score : InRange (score delta imbalance vwap profile direction) where
  pulse := abs_clamp _
  turns := abs_clamp _
  cot := by
    rw [cot_score]
    cases direction <;> norm_num
  sweep := by
    rw [sweep_score]
    cases imbalance.absorption <;> cases imbalance.stacked <;> norm_num

end Scores

/-- The clamp of the strength never acts. -/
theorem strength_of_inRange {scores : CompositeSignalScores} (h : InRange scores) :
    strength scores = meanScore scores := by
  have hpulse := h.pulse
  have hturns := h.turns
  have hcot := h.cot
  have hsweep := h.sweep
  have hnonneg : 0 ≤ meanScore scores := by
    unfold meanScore
    positivity
  refine clamp_of_mem hnonneg ?_
  linarith

/-- A named type has a score beyond a half, and so an eighth of the strength. -/
theorem strong_of_named {scores : CompositeSignalScores}
    (h : selectSignalType scores ≠ .unknown) : 1 / 8 < meanScore scores := by
  have hpulse := abs_nonneg scores.pulse
  have hturns := abs_nonneg scores.turns
  have hcot := abs_nonneg scores.cot
  have hsweep := abs_nonneg scores.sweep
  have hloud : 1 / 2 < |scores.pulse| ∨ 1 / 2 < |scores.turns| ∨ 1 / 2 < |scores.cot| ∨
      1 / 2 < |scores.sweep| := by
    simp only [lt_abs]
    unfold selectSignalType at h
    grind
  unfold meanScore
  rcases hloud with hloud | hloud | hloud | hloud <;> linarith

/-- No score is loud enough for a type. -/
structure Quiet (scores : CompositeSignalScores) : Prop where
  sweep : scores.sweep ≤ 4 / 5
  pulse : |scores.pulse| ≤ 1 / 2
  turns : |scores.turns| ≤ 1 / 2
  cot : |scores.cot| ≤ 1 / 2

theorem quiet_of_unknown {scores : CompositeSignalScores}
    (h : selectSignalType scores = .unknown) : Quiet scores := by
  unfold selectSignalType at h
  constructor
  case sweep => grind
  all_goals
    rw [abs_le]
    grind

/-- The override is asked for only where the quote leaves the trade open. -/
theorem undecided_of_classify {quote : QuoteSnapshot} {directOverride : Option TradeDirection}
    (h : classify quote directOverride = .unknown) :
    quote.ask ≤ quote.lastTrade ∧ quote.lastTrade ≤ quote.bid ∧ directOverride = some .unknown := by
  unfold classify at h
  grind

/-- With a threshold over one, volume grows along a flagged diagonal. -/
theorem lt_of_isBuyImbalance {a b threshold : Rat} (hthreshold : 1 < threshold)
    (h : isBuyImbalance a b threshold = true) : a < b := by
  rw [isBuyImbalance] at h
  split at h
  · exact lt_of_le_of_lt ‹_› (of_decide_eq_true h)
  · have hpos : 0 < a := not_le.mp ‹_›
    have hlarge : a * threshold ≤ b := of_decide_eq_true h
    have hgrown : a < a * threshold := lt_mul_of_one_lt_right hpos hthreshold
    exact hgrown.trans_le hlarge

theorem absorbed_of_flags {m : Market} (hthreshold : 1 < m.threshold)
    (hbuy : m.imbalance.buyImbalance = true) (hsell : m.imbalance.sellImbalance = true) :
    m.Absorbed :=
  ⟨lt_of_isBuyImbalance hthreshold hbuy, lt_of_isBuyImbalance hthreshold hsell⟩

theorem absorption_iff (m : Market) : m.imbalance.absorption = true ↔ m.Absorbed :=
  decide_eq_true_iff

/-- The surge and the divergence are those of the last two updates. -/
theorem state_run (m : Market) :
    (OfeDeltaEngine.run m.updates).state.surge = |m.lastDelta| ∧
      (OfeDeltaEngine.run m.updates).state.divergence = m.lastTurn := by
  rw [Market.lastDelta, Market.lastTurn]
  rcases List.eq_nil_or_concat m.updates with hnil | ⟨earlier, last, hlast⟩
  · rw [hnil]
    exact ⟨by simp [OfeDeltaEngine.run], rfl⟩
  · rw [List.concat_eq_append] at hlast
    rcases List.eq_nil_or_concat earlier with hnil | ⟨front, before, hbefore⟩
    · rw [hlast, hnil]
      exact ⟨rfl, rfl⟩
    · rw [List.concat_eq_append] at hbefore
      have htwo : m.updates = front ++ [before, last] := by simp [hlast, hbefore]
      rw [divergence_run.2 front before last htwo, hlast, hbefore]
      refine ⟨?_, by simp⟩
      rw [run_snoc]
      simp [update]

section Types

variable (m : Market) (vwap : VwapSnapshot) (profile : VolumeProfileSnapshot)

/-- The scores of a market. -/
def Market.scores : CompositeSignalScores :=
  score (OfeDeltaEngine.run m.updates).state m.imbalance vwap profile m.direction

theorem turns_high_iff : (m.scores vwap profile).turns > 1 / 2 ↔
    1 - |m.lastDelta| < 2 * m.lastTurn := by
  obtain ⟨hsurge, hturn⟩ := state_run m
  have hpos : 0 < |m.lastDelta| + 1 := by positivity
  rw [Market.scores, score, half_lt_clamp_iff, hsurge, hturn, abs_abs, lt_div_iff₀ hpos]
  constructor <;> intro h <;> linarith

theorem turns_low_iff : (m.scores vwap profile).turns < -1 / 2 ↔
    2 * m.lastTurn < -(1 + 3 * |m.lastDelta|) := by
  obtain ⟨hsurge, hturn⟩ := state_run m
  have hpos : 0 < |m.lastDelta| + 1 := by positivity
  rw [Market.scores, score, clamp_lt_half_iff, hsurge, hturn, abs_abs, div_lt_iff₀ hpos]
  constructor <;> intro h <;> linarith

/-- The scores ask for the type that the market asks for. -/
theorem select_scores : selectSignalType (m.scores vwap profile) =
    m.typeOf (m.scores vwap profile).pulse := by
  have hsweep := (sweep_gt_iff (OfeDeltaEngine.run m.updates).state m.imbalance vwap profile
    m.direction).trans (absorption_iff m)
  rw [← Market.scores] at hsweep
  rw [selectSignalType, Market.typeOf]
  simp only [hsweep, turns_high_iff, turns_low_iff, gt_iff_lt]
  cases hdirection : m.direction <;> norm_num [Market.scores, hdirection, cot_score]

/-- Only a trade that nobody decides leaves an event without a type. -/
theorem direction_of_untyped {pulse : Rat} (h : m.typeOf pulse = .unknown) :
    m.direction = .unknown := by
  rw [Market.typeOf] at h
  cases hdirection : m.direction with
  | unknown => rfl
  | buy => grind
  | sell => grind

end Types

/-- The event of a market, a VWAP snapshot and a profile. -/
def Market.event (m : Market) (timestampNs : UInt64) (symbolId : UInt32) (vwap : VwapSnapshot)
    (profile : VolumeProfileSnapshot) : SignalEvent :=
  evaluate timestampNs symbolId (OfeDeltaEngine.run m.updates).state m.imbalance vwap profile
    m.direction

section Events

variable (m : Market) (timestampNs : UInt64) (symbolId : UInt32) (vwap : VwapSnapshot)
  (profile : VolumeProfileSnapshot)

theorem strength_event : (m.event timestampNs symbolId vwap profile).strength =
    meanScore (m.scores vwap profile) :=
  strength_of_inRange (inRange_score _ _ _ _ _)

/-- The two flags of `compare` are all that makes a zone or a stack. -/
theorem edge_iff : (m.event timestampNs symbolId vwap profile).imbalanceZone ≠ .neutral ↔
    m.imbalance.buyImbalance = true ∨ m.imbalance.sellImbalance = true := by
  cases hbuy : m.imbalance.buyImbalance <;> cases hsell : m.imbalance.sellImbalance <;>
    simp [Market.event, evaluate, hbuy, hsell]

theorem stacked_iff : m.imbalance.stacked = true ↔
    m.imbalance.buyImbalance = true ∨ m.imbalance.sellImbalance = true :=
  Bool.or_eq_true _ _ ▸ Iff.rfl

theorem half_le_sweep (h : m.imbalance.stacked = true) : 1 / 2 ≤ (m.scores vwap profile).sweep := by
  rw [Market.scores, sweep_score, h]
  cases m.imbalance.absorption <;> norm_num

theorem sweep_le_half (h : (m.scores vwap profile).sweep ≤ 4 / 5) :
    (m.scores vwap profile).sweep ≤ 1 / 2 := by
  rw [Market.scores, sweep_score] at h ⊢
  revert h
  cases m.imbalance.absorption <;> cases m.imbalance.stacked <;> norm_num

/-- Without a type no score is above a half, and the one of the trade is zero. -/
theorem weak_of_untyped (h : selectSignalType (m.scores vwap profile) = .unknown) :
    meanScore (m.scores vwap profile) ≤ 3 / 8 := by
  have hquiet := quiet_of_unknown h
  have hdirection : m.direction = .unknown := by
    rw [select_scores] at h
    exact direction_of_untyped m h
  have hcot : (m.scores vwap profile).cot = 0 := by
    rw [Market.scores, cot_score, hdirection]
  have hnonneg : 0 ≤ (m.scores vwap profile).sweep := by
    rw [Market.scores, sweep_score]
    cases m.imbalance.absorption <;> cases m.imbalance.stacked <;> norm_num
  have hsweep := sweep_le_half m vwap profile hquiet.sweep
  have hpulse := hquiet.pulse
  have hturns := hquiet.turns
  rw [meanScore, hcot, abs_zero, abs_of_nonneg hnonneg]
  linarith

end Events

/-- Over all runs of the delta engine and of the profile, whatever the VWAP engine says. -/
theorem event_tells (m : Market) (trades : List (ResetRuns.Call (Rat × Rat))) (ratio : Rat)
    (timestampNs : UInt64) (symbolId : UInt32) (vwap : VwapSnapshot) (hthreshold : 1 < m.threshold) :
    Tells m (evaluate timestampNs symbolId (runCalls m.calls).state m.imbalance vwap
      (areaOf (OfeVolumeProfile.snapshot (OfeVolumeProfile.run trades) ratio)) m.direction) := by
  rw [runCalls_eq, ← Market.updates]
  generalize hprofile : areaOf (OfeVolumeProfile.snapshot (OfeVolumeProfile.run trades) ratio) =
    profile
  have hstrength := strength_event m timestampNs symbolId vwap profile
  have htype : (m.event timestampNs symbolId vwap profile).signalType =
      m.typeOf (m.scores vwap profile).pulse := select_scores m vwap profile
  constructor
  case inRange => exact inRange_score _ _ _ _ _
  case strength => exact hstrength
  case confidence => exact hstrength
  case type => exact htype
  case typed =>
    intro h
    exact hstrength ▸ strong_of_named h
  case untyped =>
    intro h
    refine ⟨hstrength ▸ weak_of_untyped m vwap profile h, undecided_of_classify ?_⟩
    exact direction_of_untyped m (htype ▸ h)
  case oneEdge =>
    intro hbuy hsell
    refine htype.trans ?_
    rw [Market.typeOf, if_pos (absorbed_of_flags hthreshold hbuy hsell)]
  case edge => exact edge_iff m timestampNs symbolId vwap profile
  case sweep =>
    intro h
    refine half_le_sweep m vwap profile ((stacked_iff m).mpr ?_)
    exact (edge_iff m timestampNs symbolId vwap profile).mp h
  case cvd => exact cumulativeVolumeDelta_run m.updates
  case area => exact hprofile ▸ OfeVolumeProfile.snapshot_encloses (OfeVolumeProfile.run trades) ratio

/-- After a reset ten contracts bought and twenty sold a point lower, at a flagged buy
diagonal; the trade is under both sides of a crossed quote. -/
def soldDown : Market where
  calls := [.feed ⟨90, 1, 0⟩, .reset, .feed ⟨101, 10, 0⟩, .feed ⟨100, 0, 20⟩]
  askAtPrice := 2
  bidPreviousPrice := 8
  bidAtPrice := 5
  askNextPrice := 1
  threshold := 3
  quote := ⟨101, 100, 99⟩
  directOverride := none

theorem event_tells_soldDown :
    Tells soldDown (evaluate 1 7 (runCalls soldDown.calls).state soldDown.imbalance {}
      (areaOf (OfeVolumeProfile.snapshot
        (OfeVolumeProfile.run [.feed (101, 10), .feed (100, 20)]) (7 / 10)))
      soldDown.direction) :=
  event_tells soldDown [.feed (101, 10), .feed (100, 20)] (7 / 10) 1 7 {} (by decide +kernel)

/-- The price went with the flow, so the turn is a long one, though all was sold. -/
example : soldDown.typeOf 0 = .turnLong := by decide +kernel

end OfeSignalDetector
