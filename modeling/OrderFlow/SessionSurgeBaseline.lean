import OrderFlow.SessionDeltaBars

/-!
# The surge baseline

The baseline is meant to be the moving average of the absolute deltas, seeded by the first bar
of the session. The code takes a baseline of zero for one that was never seeded. Flat bars and
the truncation of the average bring it to zero at any time, and the next bar seeds it again.
The least delta of 32 bits has no absolute value there, and enters the average as it is.
-/
namespace SessionDeltaEngine

open SessionTypes SessionImbalance

/-- The baseline of a session is not negative, and zero while no bar has been closed. -/
structure Baseline (s : Session) : Prop where
  nonneg : 0 ≤ s.state.sessionAvgAbsDelta
  unseeded : s.deltas = [] → s.state.sessionAvgAbsDelta = 0

theorem average_nonneg {a : Rat} (hlow : 0 ≤ a) (hhigh : a ≤ 1) {d avg : Int} (hd : 0 ≤ d)
    (havg : 0 ≤ avg) : 0 ≤ a * d + (1 - a) * avg := by
  have hd' : (0 : Rat) ≤ d := by exact_mod_cast hd
  have havg' : (0 : Rat) ≤ avg := by exact_mod_cast havg
  exact add_nonneg (mul_nonneg hlow hd') (mul_nonneg (by linarith) havg')

theorem floor_mul_eq_iff {a : Rat} (hhigh : a ≤ 1) {d : Int} (hd : 0 ≤ d) :
    ⌊a * d⌋ = d ↔ d = 0 ∨ a = 1 := by
  have hd' : (0 : Rat) ≤ d := by exact_mod_cast hd
  constructor
  · intro hfloor
    have hle : (d : Rat) ≤ a * d := (Int.floor_eq_iff.mp hfloor).1
    rcases hd'.eq_or_lt with hzero | hpos
    · left
      exact_mod_cast hzero.symm
    · right
      have hone : 1 ≤ a := le_of_mul_le_mul_right (by linarith) hpos
      exact le_antisymm hhigh hone
  · rintro (rfl | rfl)
    · simp
    · simp

/-- Two numbers, the greater from 1 on, are cut to the same integer exactly if there is none
between them. -/
theorem truncate_eq_floor_iff {x y : Rat} (hle : x ≤ y) (hone : 1 ≤ y) :
    truncate x = ⌊y⌋ ↔ ¬ ∃ n : Int, x < n ∧ n ≤ y := by
  rw [truncate]
  split
  · constructor
    · rintro heq ⟨n, hlow, hhigh⟩
      have hbelow := Int.floor_lt.mpr hlow
      have habove := Int.le_floor.mpr hhigh
      omega
    · intro hnone
      refine le_antisymm (Int.floor_le_floor hle) (not_lt.mp fun hlt => hnone ⟨⌊y⌋, ?_, Int.floor_le y⟩)
      exact Int.floor_lt.mp hlt
  · rename_i hneg
    have hneg' : x < 0 := not_le.mp hneg
    have hceil : ⌈x⌉ ≤ 0 := Int.ceil_le.mpr (by exact_mod_cast hneg'.le)
    have hfloor : 1 ≤ ⌊y⌋ := Int.le_floor.mpr (by exact_mod_cast hone)
    constructor
    · intro heq
      omega
    · intro hnone
      exact absurd ⟨0, by exact_mod_cast hneg', by exact_mod_cast (by linarith : (0 : Rat) ≤ y)⟩ hnone

/-- The bar after a baseline `avg` follows the average unless it seeds the baseline again. -/
theorem nextAvgAbsDelta_eq_iff {engine : DeltaEngine} (hlow : 0 ≤ engine.surgeEmaAlpha)
    (hhigh : engine.surgeEmaAlpha ≤ 1) {avg d : Int} (havg : 0 ≤ avg) (hd : 0 ≤ d) :
    nextAvgAbsDelta engine avg d =
        ⌊engine.surgeEmaAlpha * d + (1 - engine.surgeEmaAlpha) * avg⌋ ↔
      avg ≠ 0 ∨ d = 0 ∨ engine.surgeEmaAlpha = 1 := by
  rw [nextAvgAbsDelta]
  split
  · rename_i hzero
    rw [hzero, Int.cast_zero, mul_zero, add_zero, eq_comm, floor_mul_eq_iff hhigh hd]
    simp
  · rename_i hne
    rw [truncate, if_pos (average_nonneg hlow hhigh hd havg)]
    simp [hne]

/-- A bar of the least delta is taken for one of that delta, not of its absolute value. The
average comes out the same if no integer lies between the two. -/
theorem nextAvgAbsDelta_least_iff {engine : DeltaEngine} (hlow : 0 ≤ engine.surgeEmaAlpha)
    (hhigh : engine.surgeEmaAlpha ≤ 1) {avg : Int} (havg : 0 ≤ avg) :
    nextAvgAbsDelta engine avg (-(2 ^ 31)) =
        ⌊engine.surgeEmaAlpha * (2 ^ 31 : Int) + (1 - engine.surgeEmaAlpha) * avg⌋ ↔
      avg ≠ 0 ∧ ¬ ∃ n : Int, (1 - engine.surgeEmaAlpha) * avg - engine.surgeEmaAlpha * 2 ^ 31 < n ∧
        n ≤ (1 - engine.surgeEmaAlpha) * avg + engine.surgeEmaAlpha * 2 ^ 31 := by
  have havg' : (0 : Rat) ≤ avg := by exact_mod_cast havg
  rw [nextAvgAbsDelta]
  split
  · rename_i hzero
    have hfloor := Int.floor_nonneg.mpr (average_nonneg hlow hhigh (by norm_num : (0 : Int) ≤ 2 ^ 31) havg)
    constructor
    · intro heq
      omega
    · rintro ⟨hne, -⟩
      exact absurd hzero hne
  · rename_i hne
    have hone : (1 : Rat) ≤ avg := by exact_mod_cast (by omega : 1 ≤ avg)
    have hweight : (1 - engine.surgeEmaAlpha) * 1 ≤ (1 - engine.surgeEmaAlpha) * avg :=
      mul_le_mul_of_nonneg_left hone (by linarith)
    have hleast : engine.surgeEmaAlpha * ((-(2 ^ 31) : Int) : Rat) +
        (1 - engine.surgeEmaAlpha) * avg =
          (1 - engine.surgeEmaAlpha) * avg - engine.surgeEmaAlpha * 2 ^ 31 := by
      push_cast
      ring
    have hmost : engine.surgeEmaAlpha * ((2 ^ 31 : Int) : Rat) + (1 - engine.surgeEmaAlpha) * avg =
        (1 - engine.surgeEmaAlpha) * avg + engine.surgeEmaAlpha * 2 ^ 31 := by
      push_cast
      ring
    rw [hleast, hmost, truncate_eq_floor_iff (by linarith) (by linarith)]
    simp [hne]

/-- The close of a bar leaves the seeded average: the absolute delta of the bar if it is the
first of its session, else the average of it and the baseline before. -/
def SeededAt (engine : DeltaEngine) (before : List Call) (bar : BarRecord) : Prop :=
  (onBarClose engine bar (run engine before)).state.sessionAvgAbsDelta =
    if sessionDeltas engine before = [] then |openDelta (run engine before)|
    else ⌊engine.surgeEmaAlpha * (|openDelta (run engine before)| : Int) +
      (1 - engine.surgeEmaAlpha) * (run engine before).sessionAvgAbsDelta⌋

def SeededEma (engine : DeltaEngine) (calls : List Call) : Prop :=
  ∀ before bar after, calls = before ++ .onBarClose bar :: after → SeededAt engine before bar

/-- The bar is the first of its session, or is closed on a baseline that is not zero, unless its
delta is zero too or the average is the newest delta. A bar of the least delta is not the
first, and its weight is too small for the average to tell its sign. -/
def SeedsNothing (engine : DeltaEngine) (before : List Call) : Prop :=
  let a := engine.surgeEmaAlpha
  let avg := (run engine before).sessionAvgAbsDelta
  if openDelta (run engine before) = -(2 ^ 31) then
    sessionDeltas engine before ≠ [] ∧ avg ≠ 0 ∧
      ¬ ∃ n : Int, (1 - a) * avg - a * 2 ^ 31 < n ∧ n ≤ (1 - a) * avg + a * 2 ^ 31
  else
    sessionDeltas engine before = [] ∨ avg ≠ 0 ∨ openDelta (run engine before) = 0 ∨ a = 1

def SeedsOnce (engine : DeltaEngine) (calls : List Call) : Prop :=
  ∀ before bar after, calls = before ++ .onBarClose bar :: after → SeedsNothing engine before

/-- One close, on a baseline that is not negative. -/
theorem seededAt_iff {engine : DeltaEngine} (hlow : 0 ≤ engine.surgeEmaAlpha)
    (hhigh : engine.surgeEmaAlpha ≤ 1) {before : List Call} (h : Baseline (sessionOf engine before))
    (bar : BarRecord) : SeededAt engine before bar ↔ SeedsNothing engine before := by
  have hnonneg := h.nonneg
  have hunseeded := h.unseeded
  rw [sessionOf_state] at hnonneg hunseeded
  have hclosed : (onBarClose engine bar (run engine before)).state.sessionAvgAbsDelta =
      nextAvgAbsDelta engine (run engine before).sessionAvgAbsDelta
        (abs32 (openDelta (run engine before))) := rfl
  simp only [SeededAt, SeedsNothing]
  rw [hclosed]
  by_cases hleast : openDelta (run engine before) = -(2 ^ 31)
  · rw [if_pos hleast, hleast, abs32_least]
    by_cases hfirst : sessionDeltas engine before = []
    · simp [hfirst, hunseeded hfirst, nextAvgAbsDelta]
    · have habs : |(-(2 ^ 31) : Int)| = 2 ^ 31 := by decide
      rw [if_neg hfirst, habs, nextAvgAbsDelta_least_iff hlow hhigh hnonneg]
      simp [hfirst]
  · rw [if_neg hleast, abs32_openDelta hleast]
    by_cases hfirst : sessionDeltas engine before = []
    · simp [hfirst, hunseeded hfirst, nextAvgAbsDelta]
    · rw [if_neg hfirst, nextAvgAbsDelta_eq_iff hlow hhigh hnonneg (abs_nonneg _), abs_eq_zero]
      simp [hfirst]

/-- A close that leaves the seeded average leaves one that is not negative. -/
theorem seededAt_nonneg {engine : DeltaEngine} (hlow : 0 ≤ engine.surgeEmaAlpha)
    (hhigh : engine.surgeEmaAlpha ≤ 1) {before : List Call} {bar : BarRecord}
    (h : Baseline (sessionOf engine before)) (hseeded : SeededAt engine before bar) :
    0 ≤ (onBarClose engine bar (run engine before)).state.sessionAvgAbsDelta := by
  have hnonneg := h.nonneg
  rw [sessionOf_state] at hnonneg
  rw [hseeded]
  split
  · exact abs_nonneg _
  · exact Int.floor_nonneg.mpr (average_nonneg hlow hhigh (abs_nonneg _) hnonneg)

/-- While every close leaves the seeded average, the baseline is not negative. -/
theorem baseline_sessionOf {engine : DeltaEngine} (hlow : 0 ≤ engine.surgeEmaAlpha)
    (hhigh : engine.surgeEmaAlpha ≤ 1) (calls : List Call)
    (hseeded : ∀ before bar after, calls = before ++ .onBarClose bar :: after →
      Baseline (sessionOf engine before) → SeededAt engine before bar) :
    Baseline (sessionOf engine calls) := by
  induction calls using List.reverseRecOn with
  | nil => exact ⟨le_refl _, fun _ => rfl⟩
  | append_singleton calls call ih =>
    have h := ih fun before bar after hcalls =>
      hseeded before bar (after ++ [call]) (by rw [hcalls]; simp)
    cases call with
    | onTick tick =>
      rw [sessionOf_snoc]
      obtain ⟨-, -, havg⟩ := onTick_session tick (sessionOf engine calls).state
      constructor
      · simpa only [Session.step, step, havg] using h.nonneg
      · simpa only [Session.step, step, havg] using h.unseeded
    | onBarClose bar =>
      rw [sessionOf_onBarClose]
      refine ⟨seededAt_nonneg hlow hhigh h (hseeded calls bar [] rfl h), fun hnil => ?_⟩
      simp at hnil
    | onSessionOpen =>
      rw [sessionOf_snoc]
      exact ⟨le_refl _, fun _ => rfl⟩

/-- A run keeps the seeded average exactly if only first bars seed it, and no bar of the least
delta tells in it. -/
theorem seededEma_iff (engine : DeltaEngine) (hlow : 0 ≤ engine.surgeEmaAlpha)
    (hhigh : engine.surgeEmaAlpha ≤ 1) (calls : List Call) :
    SeededEma engine calls ↔ SeedsOnce engine calls := by
  constructor
  · intro h before bar after hcalls
    have hbaseline := baseline_sessionOf hlow hhigh before fun earlier bar' between hbefore _ =>
      h earlier bar' (between ++ .onBarClose bar :: after) (by rw [hcalls, hbefore]; simp)
    exact (seededAt_iff hlow hhigh hbaseline bar).mp (h before bar after hcalls)
  · intro h before bar after hcalls
    have hbaseline := baseline_sessionOf hlow hhigh before fun earlier bar' between hbefore hearlier =>
      (seededAt_iff hlow hhigh hearlier bar').mpr
        (h earlier bar' (between ++ .onBarClose bar :: after) (by rw [hcalls, hbefore]; simp))
    exact (seededAt_iff hlow hhigh hbaseline bar).mpr (h before bar after hcalls)

def emptyBar : BarRecord := { barSize := ⟨.time, 60⟩ }

/-- A flat bar, and one of a hundred contracts bought. -/
def flatStart : List Call :=
  [.onBarClose emptyBar, .onTick ⟨0, 100, 100, 1, .ask, .trade⟩, .onBarClose emptyBar]

theorem seededEma_flatStart :
    SeededEma ⟨1333 / 10000⟩ flatStart ↔ SeedsOnce ⟨1333 / 10000⟩ flatStart :=
  seededEma_iff ⟨1333 / 10000⟩ (by norm_num) (by norm_num) flatStart

/-- The second bar seeds the baseline with 100, where the average is 13. -/
theorem not_seededEma_flatStart : ¬ SeededEma ⟨1333 / 10000⟩ flatStart := by
  intro h
  have hsecond := h [.onBarClose emptyBar, .onTick ⟨0, 100, 100, 1, .ask, .trade⟩] emptyBar [] rfl
  rw [SeededAt] at hsecond
  revert hsecond
  decide +kernel

end SessionDeltaEngine
