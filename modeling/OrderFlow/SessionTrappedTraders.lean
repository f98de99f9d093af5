import OrderFlow.SessionRoutingKeys

/-!
# Trapped traders and the halves of the bar

A trap is documented by the half of the bar in which it closes. The code compares the close
with the open moved by a quarter of the range, which is the middle of the bar only for an
open a quarter of the range away from it. The two tests agree unless the close lies between
the two prices.
-/
namespace SessionImbalance

open SessionTypes

/-- Some flagged level is within the tolerance of an extreme of the bar. -/
def FlaggedNear (bar : BarRecord) (flag : PriceLevelRecord → Bool) (extreme tolerance : Rat) :
    Prop :=
  ∃ lvl ∈ bar.priceLevels, flag lvl = true ∧ |lvl.price - extreme| ≤ tolerance

/-- The middle of the bar. -/
def midpoint (bar : BarRecord) : Rat := (bar.high + bar.low) / 2

/-- A quarter of the range of the bar. -/
def quarter (bar : BarRecord) : Rat := (bar.high - bar.low) / 4

/-- What the documentation says of trapped traders: at most one signal for each side, by a flagged
level near the extreme and the half in which the bar closed, and no other signal. -/
structure ReportsTraps (bar : BarRecord) (tickSize : Rat) (signals : List SignalEvent) : Prop where
  sellersOnce : signals.countP (fun e => decide (e.type = .trappedSellers)) ≤ 1
  sellers : (∃ e ∈ signals, e.type = .trappedSellers) ↔
    FlaggedNear bar (·.isSellImbalance) bar.low (tickSize * 2) ∧ midpoint bar < bar.close
  buyersOnce : signals.countP (fun e => decide (e.type = .trappedBuyers)) ≤ 1
  buyers : (∃ e ∈ signals, e.type = .trappedBuyers) ↔
    FlaggedNear bar (·.isBuyImbalance) bar.high (tickSize * 2) ∧ bar.close < midpoint bar
  only : ∀ e ∈ signals, e.type = .trappedSellers ∨ e.type = .trappedBuyers

/-- A trap is reported if a level is near, and then once. -/
theorem trapSignals_ne_nil_iff (bar : BarRecord) (flag : PriceLevelRecord → Bool)
    (extreme tolerance : Rat) (type : SignalType) (direction : SignalDirection) (stop : Rat) :
    trapSignals bar flag extreme tolerance type direction stop ≠ [] ↔
      FlaggedNear bar flag extreme tolerance := by
  rw [trapSignals]
  split
  · rename_i hnone
    simp only [ne_eq, not_true_eq_false, false_iff]
    rintro ⟨lvl, hlvl, hflag, hnear⟩
    have hnot := List.find?_eq_none.mp hnone lvl hlvl
    simp [hflag, hnear] at hnot
  · rename_i lvl hfind
    have htest := List.find?_some hfind
    rw [Bool.and_eq_true, decide_eq_true_eq] at htest
    simp only [ne_eq, List.cons_ne_self, not_false_eq_true, true_iff]
    exact ⟨lvl, List.mem_of_find?_eq_some hfind, htest⟩

theorem length_trapSignals_le (bar : BarRecord) (flag : PriceLevelRecord → Bool)
    (extreme tolerance : Rat) (type : SignalType) (direction : SignalDirection) (stop : Rat) :
    (trapSignals bar flag extreme tolerance type direction stop).length ≤ 1 := by
  rw [trapSignals]
  split <;> simp

/-- The signals of one test of the close. -/
structure TrapPart (type : SignalType) (signals : List SignalEvent) : Prop where
  type : ∀ e ∈ signals, e.type = type
  once : signals.length ≤ 1

theorem trapPart_if (c : Prop) [Decidable c] (bar : BarRecord) (flag : PriceLevelRecord → Bool)
    (extreme tolerance : Rat) (type : SignalType) (direction : SignalDirection) (stop : Rat) :
    TrapPart type
      (if c then trapSignals bar flag extreme tolerance type direction stop else []) := by
  split
  · exact ⟨fun e he => (basedOn_trapSignals _ _ _ _ _ _ _ e he).type,
      length_trapSignals_le _ _ _ _ _ _ _⟩
  · exact ⟨by simp, by simp⟩

theorem trapPart_ne_nil_iff (c : Prop) [Decidable c] (bar : BarRecord)
    (flag : PriceLevelRecord → Bool) (extreme tolerance : Rat) (type : SignalType)
    (direction : SignalDirection) (stop : Rat) :
    (if c then trapSignals bar flag extreme tolerance type direction stop else []) ≠ [] ↔
      FlaggedNear bar flag extreme tolerance ∧ c := by
  by_cases hc : c
  · rw [if_pos hc, trapSignals_ne_nil_iff]
    simp [hc]
  · simp [hc]

theorem exists_type_iff {type : SignalType} {signals others : List SignalEvent}
    (h : ∀ e ∈ signals, e.type = type) (hothers : ∀ e ∈ others, e.type ≠ type) :
    (∃ e ∈ signals ++ others, e.type = type) ↔ signals ≠ [] := by
  constructor
  · rintro ⟨e, he, htype⟩
    rcases List.mem_append.mp he with he | he
    · exact List.ne_nil_of_mem he
    · exact absurd htype (hothers e he)
  · intro hne
    obtain ⟨e, he⟩ := List.exists_mem_of_ne_nil signals hne
    exact ⟨e, List.mem_append_left _ he, h e he⟩

theorem countP_type_le {type : SignalType} {signals others : List SignalEvent}
    (honce : signals.length ≤ 1) (hothers : ∀ e ∈ others, e.type ≠ type) :
    (signals ++ others).countP (fun e => decide (e.type = type)) ≤ 1 := by
  have hzero : others.countP (fun e => decide (e.type = type)) = 0 :=
    List.countP_eq_zero.mpr fun e he => by simpa using hothers e he
  rw [List.countP_append, hzero]
  exact (List.countP_le_length).trans honce

/-- The signals of the two tests, one after the other. -/
theorem reportsTraps_append_iff {bar : BarRecord} {tickSize : Rat}
    {sellers buyers : List SignalEvent} (hsellers : TrapPart .trappedSellers sellers)
    (hbuyers : TrapPart .trappedBuyers buyers) :
    ReportsTraps bar tickSize (sellers ++ buyers) ↔
      (sellers ≠ [] ↔ FlaggedNear bar (·.isSellImbalance) bar.low (tickSize * 2) ∧
        midpoint bar < bar.close) ∧
      (buyers ≠ [] ↔ FlaggedNear bar (·.isBuyImbalance) bar.high (tickSize * 2) ∧
        bar.close < midpoint bar) := by
  have hbought : ∀ e ∈ buyers, e.type ≠ .trappedSellers := fun e he => by simp [hbuyers.type e he]
  have hsold : ∀ e ∈ sellers, e.type ≠ .trappedBuyers := fun e he => by simp [hsellers.type e he]
  have hfirst := exists_type_iff hsellers.type hbought
  have hsecond := exists_type_iff hbuyers.type hsold
  have hswap : (∃ e ∈ sellers ++ buyers, e.type = .trappedBuyers) ↔
      ∃ e ∈ buyers ++ sellers, e.type = .trappedBuyers := by
    simp only [List.mem_append, or_comm]
  rw [← hswap] at hsecond
  constructor
  · intro h
    exact ⟨hfirst.symm.trans h.sellers, hsecond.symm.trans h.buyers⟩
  · rintro ⟨hseller, hbuyer⟩
    constructor
    case sellersOnce => exact countP_type_le hsellers.once hbought
    case sellers => exact hfirst.trans hseller
    case buyersOnce =>
      have honce := countP_type_le hbuyers.once hsold
      rw [List.countP_append, Nat.add_comm] at honce
      rw [List.countP_append]
      exact honce
    case buyers => exact hsecond.trans hbuyer
    case only =>
      intro e he
      rcases List.mem_append.mp he with he | he
      · exact .inl (hsellers.type e he)
      · exact .inr (hbuyers.type e he)

/-- Two bounds are passed together exactly outside of what lies between them. -/
theorem lt_iff_lt_iff {α : Type} [LinearOrder α] {a b close : α} :
    (a < close ↔ b < close) ↔ close ≤ min a b ∨ max a b < close := by
  rw [le_min_iff, max_lt_iff]
  constructor
  · intro h
    by_cases ha : a < close
    · exact .inr ⟨ha, h.mp ha⟩
    · exact .inl ⟨not_lt.mp ha, not_lt.mp fun hb => ha (h.mpr hb)⟩
  · rintro (⟨ha, hb⟩ | ⟨ha, hb⟩)
    · exact iff_of_false ha.not_gt hb.not_gt
    · exact iff_of_true ha hb

theorem gt_iff_gt_iff {α : Type} [LinearOrder α] {a b close : α} :
    (close < a ↔ close < b) ↔ close < min a b ∨ max a b ≤ close := by
  rw [or_comm]
  exact lt_iff_lt_iff (α := αᵒᵈ)

/-- The signals are the documented ones exactly if the close of a bar with a flagged level
near its extreme does not lie between the middle and the open moved by a quarter of the range. -/
theorem detectTrappedTraders_iff (bar : BarRecord) (tickSize : Rat) :
    ReportsTraps bar tickSize (detectTrappedTraders bar tickSize) ↔
      (FlaggedNear bar (·.isSellImbalance) bar.low (tickSize * 2) →
        bar.close ≤ min (bar.openPrice + quarter bar) (midpoint bar) ∨
          max (bar.openPrice + quarter bar) (midpoint bar) < bar.close) ∧
      (FlaggedNear bar (·.isBuyImbalance) bar.high (tickSize * 2) →
        bar.close < min (bar.openPrice - quarter bar) (midpoint bar) ∨
          max (bar.openPrice - quarter bar) (midpoint bar) ≤ bar.close) := by
  have hquarter : (bar.high - bar.low) * (1 / 2) * (1 / 2) = quarter bar := by
    rw [quarter]
    ring
  rw [detectTrappedTraders, reportsTraps_append_iff (trapPart_if ..) (trapPart_if ..),
    trapPart_ne_nil_iff, trapPart_ne_nil_iff, ← lt_iff_lt_iff, ← gt_iff_gt_iff]
  simp only [hquarter, gt_iff_lt, and_congr_right_iff]

/-- A bar that opens at three quarters of its range and closes there, in its upper half, with
a selling imbalance at its low. -/
def quietClose : BarRecord :=
  { barSize := ⟨.time, 60⟩, openPrice := 3, high := 4, low := 0, close := 3
    priceLevels := [{ price := 0, isSellImbalance := true }] }

theorem detectTrappedTraders_silent :
    quietClose.low ≤ quietClose.openPrice ∧ quietClose.openPrice ≤ quietClose.high ∧
      quietClose.low ≤ quietClose.close ∧ quietClose.close ≤ quietClose.high ∧
      ¬ ReportsTraps quietClose 1 (detectTrappedTraders quietClose 1) := by
  refine ⟨by decide +kernel, by decide +kernel, by decide +kernel, by decide +kernel, ?_⟩
  intro h
  have hnone : detectTrappedTraders quietClose 1 = [] := by decide +kernel
  have hsellers := h.sellers
  rw [hnone] at hsellers
  obtain ⟨e, he, -⟩ := hsellers.mpr ⟨⟨_, List.mem_singleton_self _, rfl, by decide +kernel⟩,
    by unfold midpoint; decide +kernel⟩
  cases he

end SessionImbalance
