import OrderFlow.GuardedRuns
import OrderFlow.SessionImbalanceLoops

/-!
# The indices of the stacked scans

A scan reads the first and the last level of a streak when the streak ends, which is at the
earliest one level behind its start. With a minimum count that is not positive an empty
streak passes the test on its length too. At the first index that streak is read behind
nothing, and the index of its last level is negative.
-/
namespace SessionImbalance

open GuardedRuns SessionTypes

/-- An index is read exactly if it lies in the vector. -/
theorem levelAt_isSome_iff (levels : List PriceLevelRecord) (i : Int) :
    (levelAt levels i).isSome = true ↔ 0 ≤ i ∧ i < levels.length := by
  rw [levelAt]
  split
  · simp
    omega
  · rw [isSome_getElem?]
    omega

theorem exists_levelAt {levels : List PriceLevelRecord} {i : Int} (hnonneg : 0 ≤ i)
    (hlt : i < levels.length) : ∃ lvl, levelAt levels i = some lvl :=
  Option.isSome_iff_exists.mp ((levelAt_isSome_iff levels i).mpr ⟨hnonneg, hlt⟩)

/-- The levels begin with a flagged one. -/
def Scan.starts (scan : Scan) (levels : List PriceLevelRecord) : Prop :=
  ∃ first rest, levels = first :: rest ∧ scan.flag first = true

/-- Behind the first level every pass finds the ends of its streak, or of an empty one. -/
theorem step_behind (scan : Scan) (input : ScanInput) {s : ScanState} {i : Nat}
    (hstart : s.streakStartIdx < input.levels.length) (hpos : 1 ≤ i)
    (hlast : i ≤ input.levels.length) :
    ∃ s', scan.step input s i = some s' ∧ s'.streakStartIdx < input.levels.length := by
  rw [Scan.step]
  split
  · rename_i hflag
    have hlt : i < input.levels.length := by
      by_contra hge
      rw [List.getElem?_eq_none (by omega)] at hflag
      cases hflag
    refine ⟨_, rfl, ?_⟩
    simp only
    split <;> assumption
  · split
    · have hfirst : ∃ first, levelAt input.levels s.streakStartIdx = some first :=
        exists_levelAt (by omega) (by omega)
      have hlast : ∃ last, levelAt input.levels ((i : Int) - 1) = some last :=
        exists_levelAt (by omega) (by omega)
      obtain ⟨first, hfirst⟩ := hfirst
      obtain ⟨last, hlast⟩ := hlast
      rw [hfirst, hlast]
      exact ⟨_, rfl, hstart⟩
    · exact ⟨_, rfl, hstart⟩

/-- A scan that takes empty streaks for zones needs a flagged level at the first index. -/
theorem run_inRange_iff (scan : Scan) {input : ScanInput}
    (hmin : ¬ 1 ≤ input.config.stackedMinCount) (s : Stacked) :
    (∃ s', scan.run input s = some s') ↔ scan.starts input.levels := by
  have hrange : List.range (input.levels.length + 1) = 0 :: List.range' 1 input.levels.length := by
    rw [List.range_eq_range', List.range'_succ]
  rw [Scan.run, hrange, List.foldlM_cons]
  cases hlevels : input.levels with
  | nil =>
    have hstep : scan.step input ⟨0, 0, s⟩ 0 = none := by
      have hempty : (0 : Int) ≥ input.config.stackedMinCount := by omega
      simp [Scan.step, hlevels, hempty, levelAt]
    simp [hstep, Scan.starts]
  | cons first rest =>
    cases hflag : scan.flag first with
    | false =>
      have hstep : scan.step input ⟨0, 0, s⟩ 0 = none := by
        have hempty : (0 : Int) ≥ input.config.stackedMinCount := by omega
        simp [Scan.step, hlevels, hflag, hempty, levelAt]
      simp [hstep, Scan.starts, hflag]
    | true =>
      have hstep : scan.step input ⟨0, 0, s⟩ 0 = some ⟨1, 0, s⟩ := by
        simp [Scan.step, hlevels, hflag]
      have hgood : ∀ t : ScanState, t.streakStartIdx < input.levels.length →
          ∀ i ∈ List.range' 1 input.levels.length,
            ∃ t', scan.step input t i = some t' ∧ t'.streakStartIdx < input.levels.length := by
        intro t ht i hi
        obtain ⟨hlow, hhigh⟩ := List.mem_range'_1.mp hi
        exact step_behind scan input ht hlow (by omega)
      obtain ⟨last, hlast⟩ := exists_foldlM _ hgood (s := ⟨1, 0, s⟩) (by simp [hlevels])
      rw [hlevels, List.length_cons] at hlast
      simp [hstep, hlast, Scan.starts, hflag]

/-- No index leaves the bar exactly if the minimum count is positive or the first level
of the bar is flagged on both sides. -/
theorem detectStacked_inRange_iff (input : ScanInput) (activeZones : List ImbalanceZone) :
    (∃ s, detectStacked input activeZones = some s) ↔
      1 ≤ input.config.stackedMinCount ∨
        ∃ first rest, input.levels = first :: rest ∧
          first.isBuyImbalance = true ∧ first.isSellImbalance = true := by
  by_cases hmin : 1 ≤ input.config.stackedMinCount
  · rw [detectStacked_eq input hmin]
    simp [hmin]
  · have hbuy := run_inRange_iff buyScan hmin ⟨activeZones, []⟩
    simp only [hmin, false_or]
    constructor
    · rintro ⟨s, hs⟩
      rw [detectStacked, Option.bind_eq_bind, Option.bind_eq_some_iff] at hs
      obtain ⟨bought, hbought, hsold⟩ := hs
      obtain ⟨first, rest, hlevels, hflag⟩ := hbuy.mp ⟨bought, hbought⟩
      obtain ⟨first', rest', hlevels', hflag'⟩ := (run_inRange_iff sellScan hmin bought).mp ⟨s, hsold⟩
      rw [hlevels] at hlevels'
      cases hlevels'
      exact ⟨first, rest, hlevels, hflag, hflag'⟩
    · rintro ⟨first, rest, hlevels, hflag, hflag'⟩
      obtain ⟨bought, hbought⟩ := hbuy.mpr ⟨first, rest, hlevels, hflag⟩
      rw [detectStacked, hbought]
      exact (run_inRange_iff sellScan hmin bought).mpr ⟨first, rest, hlevels, hflag'⟩

/-- A minimum count of zero and a bar without levels: the first pass reads the levels at
index 0 and at index -1. -/
theorem detectStacked_not_inRange :
    ¬ ∃ s, detectStacked ⟨{ stackedMinCount := 0 }, fun _ => "", [], "", 0⟩ [] = some s := by
  rintro ⟨s, hs⟩
  cases hs

end SessionImbalance
