import OrderFlow.OfeVolumeProfile

/-!
# Profiles of negated prices

Negating the prices of a profile turns the order of its levels around and swaps
the two iterators of the expansion. A round of the one is a round of the other,
so the loop favours neither side; the point of control does, by taking the lowest
of several maximal levels.
-/
namespace OfeVolumeProfile

open KeyedRecords SortedTallies WhileLoops

def negate (level : Rat × Rat) : Rat × Rat := (-level.1, level.2)

theorem neg_strictAnti : StrictAnti fun p : Rat => -p := fun _ _ h => neg_lt_neg h

def mirrorEngine (e : VolumeProfileEngine) : VolumeProfileEngine :=
  ⟨mirror (fun p => -p) e.volumeByPrice, sorted_mirror neg_strictAnti e.sorted⟩

/-- Negated prices in every call of `add` give the profile of negated prices. -/
theorem run_negate (calls : List (ResetRuns.Call (Rat × Rat))) :
    (run (calls.map (ResetRuns.Call.map negate))).volumeByPrice =
      (mirrorEngine (run calls)).volumeByPrice := by
  have hmirror : (mirrorEngine (run calls)).volumeByPrice =
      mirror (fun p => -p) (run calls).volumeByPrice := rfl
  rw [hmirror, volumeByPrice_run, volumeByPrice_run, ResetRuns.sinceReset_map]
  exact tally_map neg_strictAnti (ResetRuns.sinceReset calls)

def mirrorSnapshot (s : VolumeProfileSnapshot) : VolumeProfileSnapshot :=
  { pocPrice := -s.pocPrice
    valueAreaLow := -s.valueAreaHigh
    valueAreaHigh := -s.valueAreaLow
    totalVolume := s.totalVolume
    pocVolume := s.pocVolume }

namespace Expansion

def flip (s : Expansion) : Expansion where
  beforeLeft := s.afterRight.map negate
  afterRight := s.beforeLeft.map negate
  accumulated := s.accumulated
  valueAreaLow := -s.valueAreaHigh
  valueAreaHigh := -s.valueAreaLow

theorem mayExpand_flip (targetVolume : Rat) (s : Expansion) :
    s.flip.mayExpand targetVolume = s.mayExpand targetVolume := by
  have hleft : s.flip.canMoveLeft = s.canMoveRight := by simp [canMoveLeft, canMoveRight, flip]
  have hright : s.flip.canMoveRight = s.canMoveLeft := by simp [canMoveLeft, canMoveRight, flip]
  rw [mayExpand, hleft, hright, Bool.or_comm]
  rfl

/-- The two sides of a round are each other's mirror image, ties included. -/
theorem round_flip (s : Expansion) : s.flip.round = s.round.flip := by
  obtain ⟨before, after, accumulated, low, high⟩ := s
  cases before with
  | nil => cases after <;> rfl
  | cons l rest =>
    cases after with
    | nil => rfl
    | cons r rest' =>
      rcases lt_trichotomy r.2 l.2 with hlt | heq | hgt
      · simp [round, flip, negate, canMoveLeft, canMoveRight, leftVolume, rightVolume, moveLeft,
          moveRight, hlt, lt_asymm hlt]
      · simp [round, flip, negate, canMoveLeft, canMoveRight, leftVolume, rightVolume, moveLeft,
          moveRight, heq]
      · simp [round, flip, negate, canMoveLeft, canMoveRight, leftVolume, rightVolume, moveLeft,
          moveRight, hgt, lt_asymm hgt]

end Expansion

theorem startAt_split (xs : List (Rat × Rat)) (poc : Rat × Rat) (ys : List (Rat × Rat)) :
    startAt (xs ++ poc :: ys) poc xs.length = ⟨xs.reverse, ys, poc.2, poc.1, poc.1⟩ := by
  simp [startAt]

theorem mirror_split (xs : List (Rat × Rat)) (poc : Rat × Rat) (ys : List (Rat × Rat)) :
    mirror (fun p => -p) (xs ++ poc :: ys) =
      (ys.map negate).reverse ++ negate poc :: (xs.map negate).reverse := by
  rw [mirror, List.map_append, List.reverse_append, List.map_cons, List.reverse_cons,
    List.append_assoc, List.singleton_append]
  rfl

theorem expand_mirror (xs : List (Rat × Rat)) (poc : Rat × Rat) (ys : List (Rat × Rat))
    (targetVolume : Rat) :
    expand (mirror (fun p => -p) (xs ++ poc :: ys)) targetVolume (negate poc) ys.length =
      (expand (xs ++ poc :: ys) targetVolume poc xs.length).flip := by
  have hstart : startAt (mirror (fun p => -p) (xs ++ poc :: ys)) (negate poc) ys.length =
      (startAt (xs ++ poc :: ys) poc xs.length).flip := by
    have hlength : ys.length = (ys.map negate).reverse.length := by simp
    rw [mirror_split, startAt_split, hlength, startAt_split]
    simp [Expansion.flip, negate]
  have hfuel : (mirror (fun p => -p) (xs ++ poc :: ys)).length = (xs ++ poc :: ys).length := by
    rw [mirror, List.length_reverse, List.length_map]
  unfold expand
  rw [hfuel, hstart]
  exact whileLoop_map Expansion.flip (Expansion.mayExpand_flip targetVolume) Expansion.round_flip _ _

theorem totalVolume_mirror (levels : List (Rat × Rat)) :
    totalVolume (mirror (fun p => -p) levels) = totalVolume levels := by
  rw [totalVolume, mirror, List.map_reverse, List.sum_reverse, List.map_map]
  rfl

/-- A level of greater volume than all others is the point of control. -/
theorem maxElement_poc {xs ys : List (Rat × Rat)} {poc : Rat × Rat}
    (hlt : ∀ x ∈ xs ++ ys, x.2 < poc.2) :
    maxElement pocLess (xs ++ poc :: ys) = some (poc, xs.length) := by
  rw [pocLess_eq]
  apply maxElement_of_unique
  intro x hx
  exact Prod.Lex.toLex_lt_toLex.mpr (.inl (hlt x hx))

/-- The levels around the only maximal one. -/
theorem split_of_unique {levels : List (Rat × Rat)} (hsorted : Sorted levels)
    (huniq : ∃! level, level ∈ levels ∧ ∀ x ∈ levels, x.2 ≤ level.2) :
    ∃ xs poc ys, levels = xs ++ poc :: ys ∧ ∀ x ∈ xs ++ ys, x.2 < poc.2 := by
  obtain ⟨poc, ⟨hmem, hmax⟩, honly⟩ := huniq
  obtain ⟨xs, ys, rfl⟩ := List.append_of_mem hmem
  refine ⟨xs, poc, ys, rfl, fun x hx => ?_⟩
  have hx' : x ∈ xs ++ poc :: ys := by
    rcases List.mem_append.mp hx with hx | hx <;> simp [hx]
  by_contra hnot
  have heq : x = poc := honly x ⟨hx', fun y hy => (hmax y hy).trans (not_lt.mp hnot)⟩
  have hnodup : (xs ++ poc :: ys).Nodup := hsorted.imp fun hlt heq => absurd hlt (by simp [heq])
  exact (List.nodup_middle.mp hnodup).notMem (heq ▸ hx)

/-- The expansion has no side bias: with a single maximal level, the snapshot of the
negated prices is the negated snapshot. -/
theorem snapshot_mirrorEngine (e : VolumeProfileEngine)
    (huniq : ∃! level, level ∈ e.volumeByPrice ∧ ∀ x ∈ e.volumeByPrice, x.2 ≤ level.2) (ratio : Rat) :
    snapshot (mirrorEngine e) ratio = mirrorSnapshot (snapshot e ratio) := by
  obtain ⟨xs, poc, ys, hsplit, hlt⟩ := split_of_unique e.sorted huniq
  have hpoc : maxElement pocLess e.volumeByPrice = some (poc, xs.length) := by
    rw [hsplit]
    exact maxElement_poc hlt
  have hpoc' : maxElement pocLess (mirror (fun p => -p) e.volumeByPrice) =
      some (negate poc, ys.length) := by
    have hlength : ys.length = (ys.map negate).reverse.length := by simp
    rw [hsplit, mirror_split, hlength]
    apply maxElement_poc
    intro x hx
    rw [← List.reverse_append, List.mem_reverse, ← List.map_append] at hx
    obtain ⟨y, hy, rfl⟩ := List.mem_map.mp hx
    exact hlt y hy
  have hexpand := expand_mirror xs poc ys (totalVolume e.volumeByPrice * ratio)
  rw [← hsplit] at hexpand
  simp only [snapshot, mirrorEngine, hpoc, hpoc', totalVolume_mirror, hexpand]
  rfl

def slantedProfile : VolumeProfileEngine := run [.feed (100, 10), .feed (102, 5), .feed (101, 8)]

theorem snapshot_mirrorEngine_slantedProfile :
    snapshot (mirrorEngine slantedProfile) (7 / 10) =
      { pocPrice := -100, pocVolume := 10, totalVolume := 23, valueAreaLow := -101, valueAreaHigh := -100 } := by
  have hlevels : slantedProfile.volumeByPrice = [(100, 10), (101, 8), (102, 5)] := by decide +kernel
  have huniq : ∃! level, level ∈ slantedProfile.volumeByPrice ∧
      ∀ x ∈ slantedProfile.volumeByPrice, x.2 ≤ level.2 := by
    rw [hlevels]
    refine ⟨(100, 10), ⟨by simp, by decide +kernel⟩, ?_⟩
    rintro level ⟨hmem, hmax⟩
    have hlarge := hmax (100, 10) (by simp)
    simp only [List.mem_cons, List.not_mem_nil, or_false] at hmem
    rcases hmem with rfl | rfl | rfl
    · rfl
    · exact absurd hlarge (by decide +kernel)
    · exact absurd hlarge (by decide +kernel)
  rw [snapshot_mirrorEngine slantedProfile huniq]
  decide +kernel

end OfeVolumeProfile
