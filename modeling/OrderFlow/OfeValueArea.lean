import Mathlib.Algebra.Order.BigOperators.Group.List
import Mathlib.Order.Bounds.Basic
import Mathlib.Order.Interval.Set.Basic
import Mathlib.Tactic.NormNum
import OrderFlow.OfeVolumeProfile

/-!
# The value area

A window of prices absorbs the heavier of the two levels next to it, both when
they are equal, the only one at an edge. The loop of `snapshot` is this relation,
followed from the point of control to the first window that reaches the target.
Its path does not depend on the target, so the areas of a profile are nested.
-/
namespace OfeVolumeProfile

open KeyedRecords SortedTallies WhileLoops

structure Window where
  low : Rat
  high : Rat
  deriving DecidableEq, Repr

def Window.contains (w : Window) (level : Rat × Rat) : Bool :=
  decide (w.low ≤ level.1) && decide (level.1 ≤ w.high)

theorem Window.contains_iff (w : Window) (level : Rat × Rat) :
    w.contains level = true ↔ w.low ≤ level.1 ∧ level.1 ≤ w.high := by
  simp [Window.contains]

def windowVolume (levels : List (Rat × Rat)) (w : Window) : Rat :=
  totalVolume (levels.filter w.contains)

structure NextBelow (levels : List (Rat × Rat)) (w : Window) (level : Rat × Rat) : Prop where
  mem : level ∈ levels
  outside : level.1 < w.low
  nearest : ∀ x ∈ levels, x.1 < w.low → x.1 ≤ level.1

structure NextAbove (levels : List (Rat × Rat)) (w : Window) (level : Rat × Rat) : Prop where
  mem : level ∈ levels
  outside : w.high < level.1
  nearest : ∀ x ∈ levels, w.high < x.1 → level.1 ≤ x.1

/-- A window takes the heavier of its neighbours; a level without a rival on the
other side counts as the heavier one. -/
inductive Absorbs (levels : List (Rat × Rat)) (w : Window) : Window → Prop
  | below {l : Rat × Rat} (hl : NextBelow levels w l)
      (heavier : ∀ r, NextAbove levels w r → r.2 < l.2) : Absorbs levels w ⟨l.1, w.high⟩
  | above {r : Rat × Rat} (hr : NextAbove levels w r)
      (heavier : ∀ l, NextBelow levels w l → l.2 < r.2) : Absorbs levels w ⟨w.low, r.1⟩
  | both {l r : Rat × Rat} (hl : NextBelow levels w l) (hr : NextAbove levels w r)
      (equal : l.2 = r.2) : Absorbs levels w ⟨l.1, r.1⟩

/-- A window absorbs levels until it holds the target, and no longer. -/
inductive Grows (levels : List (Rat × Rat)) (target : Rat) : Window → Window → Prop
  | reached {w : Window} (h : target ≤ windowVolume levels w) : Grows levels target w w
  | absorb {w w' w'' : Window} (hbelow : windowVolume levels w < target)
      (hstep : Absorbs levels w w') (hrest : Grows levels target w' w'') : Grows levels target w w''

def Expansion.window (s : Expansion) : Window := ⟨s.valueAreaLow, s.valueAreaHigh⟩

/-- The invariant of the loop: the levels from `left` to `right` are `inside`, and
the others lie on either side of them. -/
structure Around (levels : List (Rat × Rat)) (s : Expansion) (inside : List (Rat × Rat)) :
    Prop where
  sorted : Sorted levels
  split : levels = s.beforeLeft.reverse ++ inside ++ s.afterRight
  low : inside.head?.map (·.1) = some s.valueAreaLow
  high : inside.getLast?.map (·.1) = some s.valueAreaHigh
  accumulated : s.accumulated = totalVolume inside

theorem totalVolume_append (xs ys : List (Rat × Rat)) :
    totalVolume (xs ++ ys) = totalVolume xs + totalVolume ys := by
  simp [totalVolume]

theorem around_startAt {levels : List (Rat × Rat)} (hsorted : Sorted levels) {poc : Rat × Rat}
    {i : Nat} (hsplit : levels = levels.take i ++ poc :: levels.drop (i + 1)) :
    Around levels (startAt levels poc i) [poc] where
  sorted := hsorted
  split := by simpa [startAt] using hsplit
  low := rfl
  high := rfl
  accumulated := by simp [startAt, totalVolume]

section Bounds

variable {levels inside : List (Rat × Rat)} {s : Expansion} {x : Rat × Rat}

theorem Around.inside_bounds (h : Around levels s inside) (hx : x ∈ inside) :
    s.valueAreaLow ≤ x.1 ∧ x.1 ≤ s.valueAreaHigh := by
  have hsorted := h.sorted
  rw [Sorted, h.split, List.append_assoc, List.pairwise_append, List.pairwise_append] at hsorted
  have hinside := hsorted.2.1.1
  constructor
  · obtain ⟨first, hfirst, hlow⟩ := Option.map_eq_some_iff.mp h.low
    obtain ⟨rest, rfl⟩ := List.head?_eq_some_iff.mp hfirst
    rcases List.mem_cons.mp hx with rfl | hx
    · exact hlow.ge
    · exact hlow ▸ ((List.pairwise_cons.mp hinside).1 x hx).le
  · obtain ⟨last, hlast, hhigh⟩ := Option.map_eq_some_iff.mp h.high
    obtain ⟨front, rfl⟩ := List.getLast?_eq_some_iff.mp hlast
    rcases List.mem_append.mp hx with hx | hx
    · exact hhigh ▸ ((List.pairwise_append.mp hinside).2.2 x hx last (by simp)).le
    · rw [List.mem_singleton.mp hx, hhigh]

theorem Around.before_lt (h : Around levels s inside) (hx : x ∈ s.beforeLeft) :
    x.1 < s.valueAreaLow := by
  have hsorted := h.sorted
  rw [Sorted, h.split, List.append_assoc, List.pairwise_append] at hsorted
  obtain ⟨first, hfirst, hlow⟩ := Option.map_eq_some_iff.mp h.low
  have hmem : first ∈ inside ++ s.afterRight := List.mem_append_left _ (List.mem_of_head? hfirst)
  exact hlow ▸ hsorted.2.2 x (List.mem_reverse.mpr hx) first hmem

theorem Around.lt_after (h : Around levels s inside) (hx : x ∈ s.afterRight) :
    s.valueAreaHigh < x.1 := by
  have hsorted := h.sorted
  rw [Sorted, h.split, List.pairwise_append] at hsorted
  obtain ⟨last, hlast, hhigh⟩ := Option.map_eq_some_iff.mp h.high
  have hmem : last ∈ s.beforeLeft.reverse ++ inside :=
    List.mem_append_right _ (List.mem_of_getLast? hlast)
  exact hhigh ▸ hsorted.2.2 last hmem x hx

theorem Around.low_le_high (h : Around levels s inside) : s.valueAreaLow ≤ s.valueAreaHigh := by
  obtain ⟨first, hfirst, hlow⟩ := Option.map_eq_some_iff.mp h.low
  exact hlow ▸ (h.inside_bounds (List.mem_of_head? hfirst)).2

/-- What the loop has accumulated is the volume between its bounds. -/
theorem Around.windowVolume_eq (h : Around levels s inside) :
    windowVolume levels s.window = s.accumulated := by
  have hbefore : s.beforeLeft.reverse.filter s.window.contains = [] := by
    rw [List.filter_eq_nil_iff]
    intro x hx hin
    have hlt := h.before_lt (List.mem_reverse.mp hx)
    exact absurd hlt (not_lt_of_ge ((Window.contains_iff _ _).mp hin).1)
  have hinside : inside.filter s.window.contains = inside := by
    rw [List.filter_eq_self]
    intro x hx
    exact (Window.contains_iff _ _).mpr (h.inside_bounds hx)
  have hafter : s.afterRight.filter s.window.contains = [] := by
    rw [List.filter_eq_nil_iff]
    intro x hx hin
    exact absurd (h.lt_after hx) (not_lt_of_ge ((Window.contains_iff _ _).mp hin).2)
  rw [windowVolume, h.split, List.filter_append, List.filter_append, hbefore, hinside, hafter,
    List.nil_append, List.append_nil, h.accumulated]

theorem Around.mem_below (h : Around levels s inside) (hx : x ∈ levels)
    (hlt : x.1 < s.valueAreaLow) : x ∈ s.beforeLeft := by
  rw [h.split, List.append_assoc, List.mem_append, List.mem_append, List.mem_reverse] at hx
  rcases hx with hx | hx | hx
  · exact hx
  · exact absurd hlt (not_lt_of_ge (h.inside_bounds hx).1)
  · exact absurd hlt (lt_asymm (h.low_le_high.trans_lt (h.lt_after hx)))

theorem Around.mem_above (h : Around levels s inside) (hx : x ∈ levels)
    (hlt : s.valueAreaHigh < x.1) : x ∈ s.afterRight := by
  rw [h.split, List.append_assoc, List.mem_append, List.mem_append, List.mem_reverse] at hx
  rcases hx with hx | hx | hx
  · exact absurd hlt (lt_asymm ((h.before_lt hx).trans_le h.low_le_high))
  · exact absurd hlt (not_lt_of_ge (h.inside_bounds hx).2)
  · exact hx

/-- The level below the window is the one that `left` would move to. -/
theorem Around.nextBelow_iff (h : Around levels s inside) :
    NextBelow levels s.window x ↔ s.beforeLeft.head? = some x := by
  have hsorted := h.sorted
  rw [Sorted, h.split, List.append_assoc, List.pairwise_append, List.pairwise_reverse] at hsorted
  have hmem : ∀ y ∈ s.beforeLeft, y ∈ levels := by
    intro y hy
    rw [h.split]
    simp [hy]
  -- the nearest level below is the one of the greatest price
  rw [head?_iff_least (fun level : Rat × Rat => OrderDual.toDual level.1) hsorted.1]
  constructor
  · rintro ⟨hx, houtside, hnearest⟩
    refine ⟨h.mem_below hx houtside, fun y hy => ?_⟩
    exact hnearest y (hmem y hy) (h.before_lt hy)
  · rintro ⟨hx, hnearest⟩
    refine ⟨hmem x hx, h.before_lt hx, fun y hy hlt => ?_⟩
    exact hnearest y (h.mem_below hy hlt)

/-- The level above the window is the one that `right` would move to. -/
theorem Around.nextAbove_iff (h : Around levels s inside) :
    NextAbove levels s.window x ↔ s.afterRight.head? = some x := by
  have hsorted := h.sorted
  rw [Sorted, h.split, List.pairwise_append] at hsorted
  have hmem : ∀ y ∈ s.afterRight, y ∈ levels := by
    intro y hy
    rw [h.split]
    simp [hy]
  rw [head?_iff_least (·.1) hsorted.2.1]
  constructor
  · rintro ⟨hx, houtside, hnearest⟩
    refine ⟨h.mem_above hx houtside, fun y hy => ?_⟩
    exact hnearest y (hmem y hy) (h.lt_after hy)
  · rintro ⟨hx, hnearest⟩
    refine ⟨hmem x hx, h.lt_after hx, fun y hy hlt => ?_⟩
    exact hnearest y (h.mem_above hy hlt)

theorem Around.moveLeft (h : Around levels s inside) {rest : List (Rat × Rat)}
    (hbefore : s.beforeLeft = x :: rest) : Around levels s.moveLeft (x :: inside) := by
  have hmove : s.moveLeft = { s with
      beforeLeft := rest
      accumulated := s.accumulated + x.2
      valueAreaLow := x.1 } := by
    simp [Expansion.moveLeft, hbefore]
  obtain ⟨first, hfirst, -⟩ := Option.map_eq_some_iff.mp h.low
  obtain ⟨tail, htail⟩ := List.head?_eq_some_iff.mp hfirst
  rw [hmove]
  refine ⟨h.sorted, ?_, rfl, ?_, ?_⟩
  · rw [h.split, hbefore]
    simp
  · rw [← h.high, htail, List.getLast?_cons_cons]
  · dsimp only
    rw [h.accumulated, totalVolume, totalVolume, List.map_cons, List.sum_cons, add_comm]

theorem Around.moveRight (h : Around levels s inside) {rest : List (Rat × Rat)}
    (hafter : s.afterRight = x :: rest) : Around levels s.moveRight (inside ++ [x]) := by
  have hmove : s.moveRight = { s with
      afterRight := rest
      accumulated := s.accumulated + x.2
      valueAreaHigh := x.1 } := by
    simp [Expansion.moveRight, hafter]
  obtain ⟨first, hfirst, -⟩ := Option.map_eq_some_iff.mp h.low
  obtain ⟨tail, htail⟩ := List.head?_eq_some_iff.mp hfirst
  rw [hmove]
  refine ⟨h.sorted, ?_, ?_, by simp, ?_⟩
  · rw [h.split, hafter]
    simp
  · rw [← h.low, htail]
    rfl
  · rw [h.accumulated, totalVolume_append]
    simp [totalVolume]

/-- A round keeps the invariant and is one absorption. -/
theorem Around.round (h : Around levels s inside) (hroom : s.beforeLeft ≠ [] ∨ s.afterRight ≠ []) :
    (∃ inside', Around levels s.round inside') ∧ Absorbs levels s.window s.round.window := by
  obtain ⟨l, rest, hbefore, hheavier, hround⟩ | ⟨r, rest, hafter, hheavier, hround⟩ |
    ⟨l, rest, r, rest', hbefore, hafter, hequal, hround⟩ | ⟨hbefore, hafter, -⟩ :=
    Expansion.round_cases s
  · rw [hround]
    refine ⟨⟨_, h.moveLeft hbefore⟩, ?_⟩
    have hl : NextBelow levels s.window l := h.nextBelow_iff.mpr (by simp [hbefore])
    have hwindow : s.moveLeft.window = ⟨l.1, s.window.high⟩ := by
      simp [Expansion.moveLeft, hbefore, Expansion.window]
    rw [hwindow]
    exact .below hl fun r hr => hheavier r (h.nextAbove_iff.mp hr)
  · rw [hround]
    refine ⟨⟨_, h.moveRight hafter⟩, ?_⟩
    have hr : NextAbove levels s.window r := h.nextAbove_iff.mpr (by simp [hafter])
    have hwindow : s.moveRight.window = ⟨s.window.low, r.1⟩ := by
      simp [Expansion.moveRight, hafter, Expansion.window]
    rw [hwindow]
    exact .above hr fun l hl => hheavier l (h.nextBelow_iff.mp hl)
  · have hafter' : s.moveLeft.afterRight = r :: rest' := by
      simp [Expansion.moveLeft, hbefore, hafter]
    rw [hround]
    refine ⟨⟨_, (h.moveLeft hbefore).moveRight hafter'⟩, ?_⟩
    have hl : NextBelow levels s.window l := h.nextBelow_iff.mpr (by simp [hbefore])
    have hr : NextAbove levels s.window r := h.nextAbove_iff.mpr (by simp [hafter])
    have hwindow : s.moveLeft.moveRight.window = ⟨l.1, r.1⟩ := by
      simp [Expansion.moveRight, Expansion.moveLeft, hbefore, hafter, Expansion.window]
    rw [hwindow]
    exact .both hl hr hequal
  · exact absurd hroom (by simp [hbefore, hafter])

end Bounds

theorem Absorbs.widens {levels : List (Rat × Rat)} {w w' : Window} (h : Absorbs levels w w') :
    w'.low ≤ w.low ∧ w.high ≤ w'.high := by
  cases h with
  | below hl => exact ⟨hl.outside.le, le_rfl⟩
  | above hr => exact ⟨le_rfl, hr.outside.le⟩
  | both hl hr => exact ⟨hl.outside.le, hr.outside.le⟩

section Grows

variable {levels : List (Rat × Rat)} {target : Rat} {w w' : Window}

theorem Grows.widens (h : Grows levels target w w') : w'.low ≤ w.low ∧ w.high ≤ w'.high := by
  induction h with
  | reached => exact ⟨le_rfl, le_rfl⟩
  | absorb _ hstep _ ih => exact ⟨ih.1.trans hstep.widens.1, hstep.widens.2.trans ih.2⟩

theorem Grows.target_le (h : Grows levels target w w') : target ≤ windowVolume levels w' := by
  induction h with
  | reached h => exact h
  | absorb _ _ _ ih => exact ih

/-- The window before the last absorption does not hold the target. -/
theorem Grows.last (h : Grows levels target w w') :
    w' = w ∨ ∃ v, Absorbs levels v w' ∧ windowVolume levels v < target := by
  induction h with
  | reached => exact .inl rfl
  | absorb hbelow hstep _ ih =>
    rcases ih with rfl | hlast
    · exact .inr ⟨_, hstep, hbelow⟩
    · exact .inr hlast

end Grows

/-- With fuel for every entry outside, the loop follows the growth to its end. -/
theorem grows_whileLoop {levels : List (Rat × Rat)} {target : Rat}
    (htarget : target ≤ totalVolume levels) (fuel : Nat) {s : Expansion} {inside : List (Rat × Rat)}
    (h : Around levels s inside) (hfuel : s.remaining ≤ fuel) :
    Grows levels target s.window (whileLoop (Expansion.mayExpand target) Expansion.round fuel s).window := by
  induction fuel generalizing s inside with
  | zero =>
    have hnone : s.beforeLeft = [] ∧ s.afterRight = [] := by
      simpa [Expansion.remaining] using hfuel
    have hall : levels = inside := by simpa [hnone] using h.split
    apply Grows.reached
    rw [h.windowVolume_eq, h.accumulated, ← hall]
    exact htarget
  | succ fuel ih =>
    rw [whileLoop_succ]
    by_cases hacc : target ≤ s.accumulated
    · have htest : s.mayExpand target = false := by
        simp [Expansion.mayExpand, not_lt.mpr hacc]
      rw [htest, if_neg Bool.false_ne_true]
      exact .reached (h.windowVolume_eq ▸ hacc)
    · have hroom : s.beforeLeft ≠ [] ∨ s.afterRight ≠ [] := by
        by_contra hnone
        obtain ⟨hbefore, hafter⟩ := not_or.mp hnone
        have hall : levels = inside := by simpa [not_not.mp hbefore, not_not.mp hafter] using h.split
        exact hacc (h.accumulated ▸ hall ▸ htarget)
      have hlt := not_le.mp hacc
      rw [if_pos ((Expansion.mayExpand_iff target s).mpr ⟨hlt, hroom⟩)]
      obtain ⟨⟨inside', hround⟩, hstep⟩ := h.round hroom
      have hlower := Expansion.remaining_round hroom
      exact .absorb (h.windowVolume_eq ▸ hlt) hstep (ih hround (by omega))

/-- The invariant holds of the area that the loop returns. -/
theorem around_expand {levels : List (Rat × Rat)} (hsorted : Sorted levels) {poc : Rat × Rat}
    {i : Nat} (hsplit : levels = levels.take i ++ poc :: levels.drop (i + 1)) (target : Rat) :
    ∃ inside, Around levels (expand levels target poc i) inside := by
  apply whileLoop_invariant fun s => ∃ inside, Around levels s inside
  · rintro s hs ⟨inside, h⟩
    exact (h.round ((Expansion.mayExpand_iff target s).mp hs).2).1
  · exact ⟨[poc], around_startAt hsorted hsplit⟩

/-- The levels are the prices of what was added, in order, with their totals. -/
structure IsProfile (adds levels : List (Rat × Rat)) : Prop where
  sorted : Sorted levels
  mem_iff : ∀ level, level ∈ levels ↔
    level.1 ∈ adds.map (·.1) ∧ level.2 = ((adds.filter fun x => x.1 = level.1).map (·.2)).sum

/-- What a snapshot says of the levels of a profile. -/
structure IsValueArea (levels : List (Rat × Rat)) (ratio : Rat) (s : VolumeProfileSnapshot) :
    Prop where
  pocVolume : IsGreatest {v | ∃ p, (p, v) ∈ levels} s.pocVolume
  pocPrice : IsLeast {p | (p, s.pocVolume) ∈ levels} s.pocPrice
  totalVolume : s.totalVolume = (levels.map (·.2)).sum
  low_mem : s.valueAreaLow ∈ levels.map (·.1)
  high_mem : s.valueAreaHigh ∈ levels.map (·.1)
  low_le_poc : s.valueAreaLow ≤ s.pocPrice
  poc_le_high : s.pocPrice ≤ s.valueAreaHigh
  holds_target : ratio * s.totalVolume ≤ windowVolume levels ⟨s.valueAreaLow, s.valueAreaHigh⟩
  grown : Grows levels (ratio * s.totalVolume) ⟨s.pocPrice, s.pocPrice⟩
    ⟨s.valueAreaLow, s.valueAreaHigh⟩
  before_last : (⟨s.valueAreaLow, s.valueAreaHigh⟩ : Window) = ⟨s.pocPrice, s.pocPrice⟩ ∨
    ∃ v, Absorbs levels v ⟨s.valueAreaLow, s.valueAreaHigh⟩ ∧
      windowVolume levels v < ratio * s.totalVolume

/-- From the point of control the loop makes at most one round for every other
level, and then its test fails. -/
def LoopEnds (levels : List (Rat × Rat)) (ratio : Rat) : Prop :=
  ∀ poc i, maxElement pocLess levels = some (poc, i) → ∃ rounds ≤ levels.length - 1,
    Rounds (Expansion.mayExpand (totalVolume levels * ratio)) Expansion.round (startAt levels poc i)
      rounds (expand levels (totalVolume levels * ratio) poc i) ∧
    (expand levels (totalVolume levels * ratio) poc i).mayExpand (totalVolume levels * ratio) = false

theorem loopEnds (levels : List (Rat × Rat)) (ratio : Rat) : LoopEnds levels ratio := by
  intro poc i hpoc
  obtain ⟨rounds, hle, hrounds⟩ := whileLoop_rounds
    (Expansion.mayExpand (totalVolume levels * ratio)) Expansion.round (levels.length - 1)
    (startAt levels poc i)
  exact ⟨rounds, hle, hrounds, expand_ends levels _ poc i (split_at_poc hpoc).1⟩

theorem snapshot_of_poc {e : VolumeProfileEngine} {poc : Rat × Rat} {i : Nat}
    (hpoc : maxElement pocLess e.volumeByPrice = some (poc, i)) (ratio : Rat) :
    snapshot e ratio =
      { pocPrice := poc.1
        pocVolume := poc.2
        totalVolume := totalVolume e.volumeByPrice
        valueAreaLow := (expand e.volumeByPrice (totalVolume e.volumeByPrice * ratio) poc i).valueAreaLow
        valueAreaHigh :=
          (expand e.volumeByPrice (totalVolume e.volumeByPrice * ratio) poc i).valueAreaHigh } := by
  simp [snapshot, hpoc]

/-- Whatever the volumes and the ratio are, the area lies around the point of control. -/
theorem snapshot_encloses (e : VolumeProfileEngine) (ratio : Rat) :
    (snapshot e ratio).valueAreaLow ≤ (snapshot e ratio).pocPrice ∧
      (snapshot e ratio).pocPrice ≤ (snapshot e ratio).valueAreaHigh := by
  cases hpoc : maxElement pocLess e.volumeByPrice with
  | none => simp [snapshot, hpoc]
  | some found =>
    obtain ⟨poc, i⟩ := found
    obtain ⟨-, hsplit⟩ := split_at_poc hpoc
    rw [snapshot_of_poc hpoc]
    have henclosed : (∃ inside, Around e.volumeByPrice
          (expand e.volumeByPrice (totalVolume e.volumeByPrice * ratio) poc i) inside) ∧
        (expand e.volumeByPrice (totalVolume e.volumeByPrice * ratio) poc i).valueAreaLow ≤ poc.1 ∧
        poc.1 ≤ (expand e.volumeByPrice (totalVolume e.volumeByPrice * ratio) poc i).valueAreaHigh := by
      apply whileLoop_invariant fun s =>
        (∃ inside, Around e.volumeByPrice s inside) ∧ s.valueAreaLow ≤ poc.1 ∧
          poc.1 ≤ s.valueAreaHigh
      · rintro s hs ⟨⟨inside, h⟩, hlow, hhigh⟩
        obtain ⟨haround, hstep⟩ := h.round ((Expansion.mayExpand_iff _ s).mp hs).2
        exact ⟨haround, hstep.widens.1.trans hlow, hhigh.trans hstep.widens.2⟩
      · exact ⟨⟨[poc], around_startAt e.sorted hsplit⟩, le_refl _, le_refl _⟩
    exact henclosed.2

theorem totalVolume_nonneg {levels : List (Rat × Rat)} (h : ∀ x ∈ levels, 0 ≤ x.2) :
    0 ≤ totalVolume levels := by
  apply List.sum_nonneg
  intro v hv
  obtain ⟨x, hx, rfl⟩ := List.mem_map.mp hv
  exact h x hx

/-- The largest volume, at the lowest of its prices. -/
theorem poc_extremes {levels : List (Rat × Rat)} {poc : Rat × Rat} {i : Nat}
    (hpoc : maxElement pocLess levels = some (poc, i)) :
    IsGreatest {v | ∃ p, (p, v) ∈ levels} poc.2 ∧ IsLeast {p | (p, poc.2) ∈ levels} poc.1 := by
  have hfirst := firstLargest_poc hpoc
  have hmem : poc ∈ levels := List.mem_of_getElem? hfirst.at_index
  have hle : ∀ x ∈ levels, x.2 < poc.2 ∨ x.2 = poc.2 ∧ poc.1 ≤ x.1 := by
    intro x hx
    exact Prod.Lex.toLex_le_toLex.mp (hfirst.largest_le x hx)
  refine ⟨⟨⟨poc.1, hmem⟩, ?_⟩, hmem, ?_⟩
  · rintro v ⟨p, hp⟩
    rcases hle _ hp with hlt | ⟨heq, -⟩
    · exact hlt.le
    · exact heq.le
  · intro p hp
    rcases hle _ hp with hlt | ⟨-, hprice⟩
    · exact absurd hlt (lt_irrefl _)
    · exact hprice

theorem isValueArea_snapshot {e : VolumeProfileEngine} (hne : e.volumeByPrice ≠ [])
    (hvol : ∀ x ∈ e.volumeByPrice, 0 ≤ x.2) {ratio : Rat} (hratio : ratio ≤ 1) :
    IsValueArea e.volumeByPrice ratio (snapshot e ratio) := by
  cases hpoc : maxElement pocLess e.volumeByPrice with
  | none => exact absurd ((maxElement_eq_none _ _).mp hpoc) hne
  | some found =>
    obtain ⟨poc, i⟩ := found
    obtain ⟨hi, hsplit⟩ := split_at_poc hpoc
    have hmax := poc_extremes hpoc
    have hcomm : totalVolume e.volumeByPrice * ratio = ratio * totalVolume e.volumeByPrice :=
      mul_comm _ _
    have htarget : totalVolume e.volumeByPrice * ratio ≤ totalVolume e.volumeByPrice :=
      mul_le_of_le_one_right (totalVolume_nonneg hvol) hratio
    have hgrows : Grows e.volumeByPrice (totalVolume e.volumeByPrice * ratio) ⟨poc.1, poc.1⟩
        (expand e.volumeByPrice (totalVolume e.volumeByPrice * ratio) poc i).window := by
      apply grows_whileLoop htarget _ (around_startAt e.sorted hsplit)
      simp only [Expansion.remaining, startAt, List.length_reverse, List.length_take,
        List.length_drop]
      omega
    obtain ⟨inside, haround⟩ := around_expand e.sorted hsplit (totalVolume e.volumeByPrice * ratio)
    have hinside : ∀ x ∈ inside, x ∈ e.volumeByPrice := by
      intro x hx
      rw [haround.split]
      simp [hx]
    rw [hcomm] at hgrows haround
    rw [snapshot_of_poc hpoc, hcomm]
    refine ⟨hmax.1, hmax.2, rfl, ?_, ?_, hgrows.widens.1, hgrows.widens.2, ?_, ?_, ?_⟩
    · obtain ⟨first, hfirst, hlow⟩ := Option.map_eq_some_iff.mp haround.low
      exact List.mem_map.mpr ⟨first, hinside first (List.mem_of_head? hfirst), hlow⟩
    · obtain ⟨last, hlast, hhigh⟩ := Option.map_eq_some_iff.mp haround.high
      exact List.mem_map.mpr ⟨last, hinside last (List.mem_of_getLast? hlast), hhigh⟩
    · exact hgrows.target_le
    · exact hgrows
    · exact hgrows.last

/-- The snapshot of a profile is the value area of the levels added since the last
reset. -/
theorem snapshot_valueArea (calls : List (ResetRuns.Call (Rat × Rat))) (ratio : Rat) :
    LoopEnds (run calls).volumeByPrice ratio ∧
      (ResetRuns.sinceReset calls ≠ [] → (∀ x ∈ ResetRuns.sinceReset calls, 0 ≤ x.2) → 0 ≤ ratio →
        ratio ≤ 1 → IsProfile (ResetRuns.sinceReset calls) (run calls).volumeByPrice ∧
          IsValueArea (run calls).volumeByPrice ratio (snapshot (run calls) ratio)) := by
  refine ⟨loopEnds _ ratio, fun hne hvol _ hratio => ?_⟩
  have hlevels := volumeByPrice_run calls
  have hmem : ∀ level, level ∈ (run calls).volumeByPrice ↔
      level.1 ∈ (ResetRuns.sinceReset calls).map (·.1) ∧
        level.2 = total level.1 (ResetRuns.sinceReset calls) := by
    intro level
    rw [hlevels]
    exact mem_tally _ level
  refine ⟨⟨(run calls).sorted, hmem⟩, isValueArea_snapshot ?_ ?_ hratio⟩
  · obtain ⟨x, rest, hx⟩ := List.exists_cons_of_ne_nil hne
    apply List.ne_nil_of_mem
    exact (hmem (x.1, total x.1 (ResetRuns.sinceReset calls))).mpr ⟨by simp [hx], rfl⟩
  · intro level hlevel
    rw [((hmem level).mp hlevel).2]
    apply List.sum_nonneg
    intro v hv
    obtain ⟨x, hx, rfl⟩ := List.mem_map.mp hv
    exact hvol x (List.mem_of_mem_filter hx)

/-- Two adds, a reset, and a profile of three levels, one of them added to twice. -/
def resetProfile : List (ResetRuns.Call (Rat × Rat)) :=
  [.feed (100, 50), .feed (99, 1), .reset, .feed (101, 5), .feed (100, 10), .feed (102, 5),
    .feed (101, 3)]

theorem snapshot_valueArea_resetProfile :
    IsValueArea [(100, 10), (101, 8), (102, 5)] (7 / 10)
      { pocPrice := 100, pocVolume := 10, totalVolume := 23, valueAreaLow := 100, valueAreaHigh := 101 } := by
  have hlevels : (run resetProfile).volumeByPrice = [(100, 10), (101, 8), (102, 5)] := by
    decide +kernel
  have hsnapshot : snapshot (run resetProfile) (7 / 10) =
      { pocPrice := 100, pocVolume := 10, totalVolume := 23, valueAreaLow := 100, valueAreaHigh := 101 } := by
    decide +kernel
  have harea := ((snapshot_valueArea resetProfile (7 / 10)).2 (by decide) (by decide +kernel)
    (by norm_num) (by norm_num)).2
  rwa [hlevels, hsnapshot] at harea

/-- From one state of the loop to another the window widens. -/
def Widens (levels : List (Rat × Rat)) (s t : Expansion) : Prop :=
  ∀ inside, Around levels s inside →
    (∃ inside', Around levels t inside') ∧ t.valueAreaLow ≤ s.valueAreaLow ∧
      s.valueAreaHigh ≤ t.valueAreaHigh

theorem widens_refl (levels : List (Rat × Rat)) (s : Expansion) : Widens levels s s :=
  fun inside h => ⟨⟨inside, h⟩, le_rfl, le_rfl⟩

theorem widens_trans {levels : List (Rat × Rat)} (r s t : Expansion) (hrs : Widens levels r s)
    (hst : Widens levels s t) : Widens levels r t := by
  intro inside h
  obtain ⟨⟨inside', h'⟩, hlow, hhigh⟩ := hrs inside h
  obtain ⟨hend, hlow', hhigh'⟩ := hst inside' h'
  exact ⟨hend, hlow'.trans hlow, hhigh.trans hhigh'⟩

theorem widens_round (levels : List (Rat × Rat)) {target : Rat} (s : Expansion)
    (hs : s.mayExpand target = true) : Widens levels s s.round := by
  intro inside h
  obtain ⟨hround, hstep⟩ := h.round ((Expansion.mayExpand_iff target s).mp hs).2
  exact ⟨hround, hstep.widens⟩

/-- A larger target runs on along the same path. -/
theorem widens_expand {levels : List (Rat × Rat)} {target target' : Rat} (h : target ≤ target')
    (poc : Rat × Rat) (i : Nat) :
    Widens levels (expand levels target poc i) (expand levels target' poc i) := by
  apply whileLoop_weaken
  · intro s hs
    obtain ⟨hlt, hroom⟩ := (Expansion.mayExpand_iff target s).mp hs
    exact (Expansion.mayExpand_iff target' s).mpr ⟨hlt.trans_le h, hroom⟩
  · exact widens_refl levels
  · exact widens_trans
  · exact widens_round levels

/-- The value areas of a profile are nested in the ratio. -/
theorem valueArea_nested (e : VolumeProfileEngine) (hvol : ∀ x ∈ e.volumeByPrice, 0 ≤ x.2)
    {r₁ r₂ : Rat} (h : r₁ ≤ r₂) :
    Set.Icc (snapshot e r₁).valueAreaLow (snapshot e r₁).valueAreaHigh ⊆
        Set.Icc (snapshot e r₂).valueAreaLow (snapshot e r₂).valueAreaHigh ∧
      (snapshot e r₂).valueAreaLow ≤ (snapshot e r₁).valueAreaLow ∧
      (snapshot e r₁).valueAreaHigh ≤ (snapshot e r₂).valueAreaHigh := by
  have hends : (snapshot e r₂).valueAreaLow ≤ (snapshot e r₁).valueAreaLow ∧
      (snapshot e r₁).valueAreaHigh ≤ (snapshot e r₂).valueAreaHigh := by
    cases hpoc : maxElement pocLess e.volumeByPrice with
    | none => simp [snapshot, hpoc]
    | some found =>
      obtain ⟨poc, i⟩ := found
      obtain ⟨-, hsplit⟩ := split_at_poc hpoc
      rw [snapshot_of_poc hpoc, snapshot_of_poc hpoc]
      have htarget : totalVolume e.volumeByPrice * r₁ ≤ totalVolume e.volumeByPrice * r₂ :=
        mul_le_mul_of_nonneg_left h (totalVolume_nonneg hvol)
      obtain ⟨inside, haround⟩ := around_expand e.sorted hsplit (totalVolume e.volumeByPrice * r₁)
      exact (widens_expand htarget poc i inside haround).2
  exact ⟨Set.Icc_subset_Icc hends.1 hends.2, hends⟩

theorem valueArea_nested_resetProfile :
    (snapshot (run resetProfile) (3 / 2)).valueAreaLow ≤
      (snapshot (run resetProfile) (1 / 2)).valueAreaLow :=
  (valueArea_nested (run resetProfile) (by decide +kernel) (by norm_num : (1 / 2 : Rat) ≤ 3 / 2)).2.1

end OfeVolumeProfile
