import Mathlib.Analysis.Real.Sqrt
import OrderFlow.ResetRuns
import OrderFlow.WeightedMeans

/-!
# The VWAP engine of `include/ofe`

Every `double` is a real number, and `std::sqrt` the root of the reals. The three
running sums of the engine are the weight and the moments of its trades, so its
bands are the mean and the deviation that they are named after.
-/
noncomputable section

namespace OfeVwapEngine

open ResetRuns WeightedMeans

/-- A value-initialised snapshot is all zeros. -/
structure VwapSnapshot where
  vwap : ℝ := 0
  stddev : ℝ := 0
  upperBand1 : ℝ := 0
  lowerBand1 : ℝ := 0
  upperBand2 : ℝ := 0
  lowerBand2 : ℝ := 0
  totalVolume : ℝ := 0

structure VwapEngine where
  sumPriceVolume : ℝ := 0
  sumPrice2Volume : ℝ := 0
  sumVolume : ℝ := 0

def reset (_ : VwapEngine) : VwapEngine := {}

def add (e : VwapEngine) (price volume : ℝ) : VwapEngine :=
  if volume ≤ 0 then e
  else
    { sumPriceVolume := e.sumPriceVolume + price * volume
      sumPrice2Volume := e.sumPrice2Volume + price * price * volume
      sumVolume := e.sumVolume + volume }

/-- The argument of `std::max` beside zero. -/
def unclampedVariance (e : VwapEngine) : ℝ :=
  let vwap := e.sumPriceVolume / e.sumVolume
  let meanSquare := e.sumPrice2Volume / e.sumVolume
  meanSquare - vwap * vwap

def snapshot (e : VwapEngine) : VwapSnapshot :=
  if e.sumVolume ≤ 0 then { totalVolume := e.sumVolume }
  else
    let vwap := e.sumPriceVolume / e.sumVolume
    let variance := max 0 (unclampedVariance e)
    let stddev := √variance
    { vwap := vwap
      stddev := stddev
      upperBand1 := vwap + stddev
      lowerBand1 := vwap - stddev
      upperBand2 := vwap + 2 * stddev
      lowerBand2 := vwap - 2 * stddev
      totalVolume := e.sumVolume }

/-- A call of `add` carries its price and its volume. -/
def run (calls : List (Call (ℝ × ℝ))) : VwapEngine :=
  ResetRuns.run (fun e x => add e x.1 x.2) reset {} calls

/-- The trades of positive volume since the last reset. -/
def trades (calls : List (Call (ℝ × ℝ))) : List (ℝ × ℝ) := (sinceReset calls).filter fun x => 0 < x.2

/-- The sums of an engine are those of its trades. -/
structure Holds (e : VwapEngine) (xs : List (ℝ × ℝ)) : Prop where
  sumPriceVolume : e.sumPriceVolume = moment xs
  sumPrice2Volume : e.sumPrice2Volume = moment2 xs
  sumVolume : e.sumVolume = weight xs

/-- A trade is booked when its volume is positive, and ignored otherwise. -/
theorem holds_add {e : VwapEngine} {xs : List (ℝ × ℝ)}
    (h : Holds e (xs.filter fun x => 0 < x.2)) (x : ℝ × ℝ) :
    Holds (add e x.1 x.2) ((xs ++ [x]).filter fun x => 0 < x.2) := by
  unfold add
  split
  · rename_i hle
    have hskip : ¬ 0 < x.2 := not_lt.mpr hle
    simpa [hskip] using h
  · rename_i hnot
    have hbook : 0 < x.2 := not_le.mp hnot
    rw [List.filter_append]
    constructor
    · simp [h.sumPriceVolume, moment, hbook]
    · simp [h.sumPrice2Volume, moment2, hbook]
    · simp [h.sumVolume, weight, hbook]

theorem holds_run (calls : List (Call (ℝ × ℝ))) : Holds (run calls) (trades calls) := by
  have hreset : ∀ e, reset e = ({} : VwapEngine) := fun _ => rfl
  rw [run, run_eq_foldl hreset, trades]
  induction sinceReset calls using List.reverseRecOn with
  | nil => exact ⟨rfl, rfl, rfl⟩
  | append_singleton xs x ih =>
    rw [List.foldl_append]
    exact holds_add ih x

/-- What a snapshot says of the trades it was taken over. -/
structure IsVwap (xs : List (ℝ × ℝ)) (s : VwapSnapshot) : Prop where
  totalVolume : s.totalVolume = (xs.map (·.2)).sum
  vwap : s.vwap = (xs.map fun x => x.1 * x.2).sum / (xs.map (·.2)).sum
  between : ∃ least greatest, IsLeast {p | p ∈ xs.map (·.1)} least ∧
    IsGreatest {p | p ∈ xs.map (·.1)} greatest ∧ least ≤ s.vwap ∧ s.vwap ≤ greatest
  stddev_nonneg : 0 ≤ s.stddev
  stddev_sq : s.stddev ^ 2 = (xs.map fun x => x.2 * (x.1 - s.vwap) ^ 2).sum / (xs.map (·.2)).sum
  stddev_eq_zero : s.stddev = 0 ↔ ∀ x ∈ xs, ∀ y ∈ xs, x.1 = y.1
  band1 : s.lowerBand1 = s.vwap - s.stddev ∧ s.upperBand1 = s.vwap + s.stddev
  band2 : s.lowerBand2 = s.vwap - 2 * s.stddev ∧ s.upperBand2 = s.vwap + 2 * s.stddev
  ordered : s.lowerBand2 ≤ s.lowerBand1 ∧ s.lowerBand1 ≤ s.vwap ∧ s.vwap ≤ s.upperBand1 ∧
    s.upperBand1 ≤ s.upperBand2

theorem unclampedVariance_eq {e : VwapEngine} {xs : List (ℝ × ℝ)} (h : Holds e xs)
    (hw : weight xs ≠ 0) :
    unclampedVariance e = spread (moment xs / weight xs) xs / weight xs := by
  rw [spread_mean hw, unclampedVariance, h.sumPriceVolume, h.sumPrice2Volume, h.sumVolume]

/-- All values are the mean exactly where they are one another. -/
theorem all_eq_mean_iff {xs : List (ℝ × ℝ)} (hne : xs ≠ []) (hpos : ∀ x ∈ xs, 0 < x.2) :
    (∀ x ∈ xs, x.1 = moment xs / weight xs) ↔ ∀ x ∈ xs, ∀ y ∈ xs, x.1 = y.1 := by
  constructor
  · intro hmean x hx y hy
    rw [hmean x hx, hmean y hy]
  · intro hsame x hx
    have hbounds := mean_mem_Icc (fun y hy => (hpos y hy).le) (weight_pos hne hpos)
      (fun y hy => (hsame x hx y hy).le) (fun y hy => (hsame y hy x hx).le)
    exact le_antisymm hbounds.1 hbounds.2

/-- The mean lies between the least and the greatest of the prices. -/
theorem mean_between {xs : List (ℝ × ℝ)} (hne : xs ≠ []) (hpos : ∀ x ∈ xs, 0 < x.2) :
    ∃ least greatest, IsLeast {p | p ∈ xs.map (·.1)} least ∧
      IsGreatest {p | p ∈ xs.map (·.1)} greatest ∧
        least ≤ moment xs / weight xs ∧ moment xs / weight xs ≤ greatest := by
  have hprices : (xs.map (·.1)).toFinset.Nonempty := by simpa using hne
  let least := (xs.map (·.1)).toFinset.min' hprices
  let greatest := (xs.map (·.1)).toFinset.max' hprices
  have hleast : IsLeast {p | p ∈ xs.map (·.1)} least := by
    simpa using (xs.map (·.1)).toFinset.isLeast_min' hprices
  have hgreatest : IsGreatest {p | p ∈ xs.map (·.1)} greatest := by
    simpa using (xs.map (·.1)).toFinset.isGreatest_max' hprices
  have hmem : ∀ x ∈ xs, x.1 ∈ xs.map (·.1) := fun x hx => List.mem_map.mpr ⟨x, hx, rfl⟩
  exact ⟨least, greatest, hleast, hgreatest,
    mean_mem_Icc (fun x hx => (hpos x hx).le) (weight_pos hne hpos)
      (fun x hx => hleast.2 (hmem x hx)) (fun x hx => hgreatest.2 (hmem x hx))⟩

/-- Over some volume, and with a variance of its own, a snapshot is the mean and the
bands around it. -/
theorem snapshot_eq {e : VwapEngine} (hsum : 0 < e.sumVolume) (hnonneg : 0 ≤ unclampedVariance e) :
    snapshot e =
      { vwap := e.sumPriceVolume / e.sumVolume
        stddev := √(unclampedVariance e)
        upperBand1 := e.sumPriceVolume / e.sumVolume + √(unclampedVariance e)
        lowerBand1 := e.sumPriceVolume / e.sumVolume - √(unclampedVariance e)
        upperBand2 := e.sumPriceVolume / e.sumVolume + 2 * √(unclampedVariance e)
        lowerBand2 := e.sumPriceVolume / e.sumVolume - 2 * √(unclampedVariance e)
        totalVolume := e.sumVolume } := by
  rw [snapshot, if_neg (not_le.mpr hsum), max_eq_right hnonneg]

theorem isVwap_snapshot {e : VwapEngine} {xs : List (ℝ × ℝ)} (h : Holds e xs) (hne : xs ≠ [])
    (hpos : ∀ x ∈ xs, 0 < x.2) : 0 ≤ unclampedVariance e ∧ IsVwap xs (snapshot e) := by
  have hweight : 0 < weight xs := weight_pos hne hpos
  have hvariance := unclampedVariance_eq h hweight.ne'
  have hnonneg : 0 ≤ unclampedVariance e := by
    rw [hvariance]
    exact div_nonneg (spread_nonneg _ fun x hx => (hpos x hx).le) hweight.le
  have hroot : 0 ≤ √(unclampedVariance e) := Real.sqrt_nonneg _
  have hvwap : e.sumPriceVolume / e.sumVolume = moment xs / weight xs := by
    rw [h.sumPriceVolume, h.sumVolume]
  rw [snapshot_eq (h.sumVolume ▸ hweight) hnonneg, hvwap]
  refine ⟨hnonneg, h.sumVolume, rfl, mean_between hne hpos, hroot, ?_, ?_, ⟨rfl, rfl⟩, ⟨rfl, rfl⟩, ?_⟩
  · rw [Real.sq_sqrt hnonneg, hvariance]
    rfl
  · rw [Real.sqrt_eq_zero hnonneg, hvariance, div_eq_zero_iff, or_iff_left hweight.ne',
      spread_eq_zero_iff _ hpos, all_eq_mean_iff hne hpos]
  · dsimp only
    refine ⟨?_, ?_, ?_, ?_⟩ <;> linarith

/-- Whatever was added and reset, a snapshot is the volume-weighted mean of the
trades since the last reset, with its deviation; the clamp never acts. -/
theorem snapshot_isVwap (calls : List (Call (ℝ × ℝ))) :
    (trades calls = [] → snapshot (run calls) = {}) ∧
      (trades calls ≠ [] → max 0 (unclampedVariance (run calls)) = unclampedVariance (run calls) ∧
        IsVwap (trades calls) (snapshot (run calls))) := by
  have hholds := holds_run calls
  constructor
  · intro hnil
    rw [hnil] at hholds
    have hzero : (run calls).sumVolume = 0 := hholds.sumVolume
    simp [snapshot, hzero]
  · intro hne
    have hpos : ∀ x ∈ trades calls, 0 < x.2 := by
      intro x hx
      simpa using (List.mem_filter.mp hx).2
    obtain ⟨hnonneg, hvwap⟩ := isVwap_snapshot hholds hne hpos
    exact ⟨max_eq_right hnonneg, hvwap⟩

/-- A trade before a reset, a trade of no volume, and two trades. -/
def twoTrades : List (Call (ℝ × ℝ)) :=
  [.feed (7, 5), .reset, .feed (10, 1), .feed (90, 0), .feed (14, 3)]

theorem snapshot_isVwap_twoTrades :
    (snapshot (run twoTrades)).vwap = 13 ∧ (snapshot (run twoTrades)).stddev ^ 2 = 3 := by
  have htrades : trades twoTrades = [(10, 1), (14, 3)] := by
    simp [trades, twoTrades, sinceReset, keep]
  have hne : trades twoTrades ≠ [] := by
    rw [htrades]
    simp
  obtain ⟨-, hvwap⟩ := (snapshot_isVwap twoTrades).2 hne
  rw [htrades] at hvwap
  have hmean : (snapshot (run twoTrades)).vwap = 13 := by
    rw [hvwap.vwap]
    norm_num
  refine ⟨hmean, ?_⟩
  rw [hvwap.stddev_sq, hmean]
  norm_num

end OfeVwapEngine

end
