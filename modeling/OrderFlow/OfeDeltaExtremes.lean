import Mathlib.Algebra.BigOperators.Group.List.Basic
import Mathlib.Order.Bounds.Basic
import OrderFlow.OfeDeltaEngine
import OrderFlow.ResetRuns

/-!
# The extremes of a delta engine

After updates and resets in any order, the state of an engine is what its fields
are named after, read off the updates since the last reset, but for the two
extremes: these start at zero, so zero counts as one of the deltas.
-/
namespace OfeDeltaEngine

open ResetRuns

def runCalls (calls : List (Call Update)) : DeltaEngine := ResetRuns.run update reset {} calls

theorem runCalls_eq (calls : List (Call Update)) : runCalls calls = run (sinceReset calls) :=
  run_eq_foldl (fun _ => rfl) calls

/-- Every field of a state, read off the updates that led to it. -/
structure IsDeltaState (updates : List Update) (s : DeltaState) : Prop where
  barDelta : updates.getLast?.map Update.delta = some s.barDelta
  cumulativeVolumeDelta : s.cumulativeVolumeDelta = (updates.map Update.delta).sum
  maxDelta : IsGreatest {d | d ∈ updates.map Update.delta} s.maxDelta
  minDelta : IsLeast {d | d ∈ updates.map Update.delta} s.minDelta
  first : updates.length = 1 → s.divergence = 0
  divergence : ∀ earlier before last, updates = earlier ++ [before, last] →
    s.divergence = (last.price - before.price) * last.delta
  surge : updates.getLast?.map (fun u => |u.delta|) = some s.surge
  updateCount : s.updateCount = updates.length

theorem lastPrice_run (updates : List Update) (u : Update) :
    (run (updates ++ [u])).lastPrice = u.price := by
  rw [run_snoc]
  rfl

theorem updateCount_run (updates : List Update) :
    (run updates).state.updateCount = updates.length := by
  induction updates using List.reverseRecOn with
  | nil => rfl
  | append_singleton updates u ih => simp [run_snoc, update, ih]

theorem cumulativeVolumeDelta_run (updates : List Update) :
    (run updates).state.cumulativeVolumeDelta = (updates.map Update.delta).sum := by
  induction updates using List.reverseRecOn with
  | nil => rfl
  | append_singleton updates u ih => simp [run_snoc, update, ih]

/-- Zero is among the candidates for the extremes. -/
theorem extremes_run (updates : List Update) :
    IsGreatest {d | d = 0 ∨ d ∈ updates.map Update.delta} (run updates).state.maxDelta ∧
      IsLeast {d | d = 0 ∨ d ∈ updates.map Update.delta} (run updates).state.minDelta := by
  induction updates using List.reverseRecOn with
  | nil => simp [run]
  | append_singleton updates u ih =>
    have hset : {d | d = 0 ∨ d ∈ (updates ++ [u]).map Update.delta} =
        {d | d = 0 ∨ d ∈ updates.map Update.delta} ∪ {u.delta} := by
      ext d
      simp only [List.map_append, List.map_singleton, List.mem_append, List.mem_singleton,
        Set.mem_ofPred_eq, Set.mem_union, Set.mem_singleton_iff, or_assoc]
    rw [hset, run_snoc]
    exact ⟨ih.1.union isGreatest_singleton, ih.2.union isLeast_singleton⟩

/-- The largest delta is found if it is not below zero. -/
theorem maxDelta_run_iff (updates : List Update) :
    IsGreatest {d | d ∈ updates.map Update.delta} (run updates).state.maxDelta ↔
      ∃ u ∈ updates, 0 ≤ u.delta := by
  have hmax := (extremes_run updates).1
  constructor
  · rintro ⟨hmem, -⟩
    obtain ⟨u, hu, hdelta⟩ := List.mem_map.mp hmem
    exact ⟨u, hu, hdelta ▸ hmax.2 (.inl rfl)⟩
  · rintro ⟨u, hu, hnonneg⟩
    have hbound : ∀ d ∈ updates.map Update.delta, d ≤ (run updates).state.maxDelta :=
      fun d hd => hmax.2 (.inr hd)
    refine ⟨?_, hbound⟩
    rcases hmax.1 with hzero | hmem
    · have hdelta : u.delta = (run updates).state.maxDelta :=
        le_antisymm (hbound _ (List.mem_map_of_mem hu)) (hzero.trans_le hnonneg)
      exact List.mem_map.mpr ⟨u, hu, hdelta⟩
    · exact hmem

theorem minDelta_run_iff (updates : List Update) :
    IsLeast {d | d ∈ updates.map Update.delta} (run updates).state.minDelta ↔
      ∃ u ∈ updates, u.delta ≤ 0 := by
  have hmin := (extremes_run updates).2
  constructor
  · rintro ⟨hmem, -⟩
    obtain ⟨u, hu, hdelta⟩ := List.mem_map.mp hmem
    exact ⟨u, hu, hdelta ▸ hmin.2 (.inl rfl)⟩
  · rintro ⟨u, hu, hnonpos⟩
    have hbound : ∀ d ∈ updates.map Update.delta, (run updates).state.minDelta ≤ d :=
      fun d hd => hmin.2 (.inr hd)
    refine ⟨?_, hbound⟩
    rcases hmin.1 with hzero | hmem
    · have hdelta : u.delta = (run updates).state.minDelta :=
        le_antisymm (hnonpos.trans_eq hzero.symm) (hbound _ (List.mem_map_of_mem hu))
      exact List.mem_map.mpr ⟨u, hu, hdelta⟩
    · exact hmem

/-- The change of price is taken from the second update on. -/
theorem divergence_run {updates : List Update} :
    (updates.length = 1 → (run updates).state.divergence = 0) ∧
      ∀ earlier before last, updates = earlier ++ [before, last] →
        (run updates).state.divergence = (last.price - before.price) * last.delta := by
  constructor
  · intro hone
    obtain ⟨u, rfl⟩ := List.length_eq_one_iff.mp hone
    rfl
  · rintro earlier before last rfl
    have hsplit : earlier ++ [before, last] = (earlier ++ [before]) ++ [last] := by simp
    have hcount : (run (earlier ++ [before])).state.updateCount ≠ 0 := by
      simp [updateCount_run]
    rw [hsplit, run_snoc]
    simp only [update, hcount, if_false, lastPrice_run]

/-- The state is its definition exactly if the deltas since the last reset are neither
all positive nor all negative. -/
theorem isDeltaState_iff (calls : List (Call Update)) (hne : sinceReset calls ≠ []) :
    IsDeltaState (sinceReset calls) (runCalls calls).state ↔
      (∃ u ∈ sinceReset calls, 0 ≤ u.delta) ∧ ∃ u ∈ sinceReset calls, u.delta ≤ 0 := by
  rw [runCalls_eq]
  constructor
  · intro h
    exact ⟨(maxDelta_run_iff _).mp h.maxDelta, (minDelta_run_iff _).mp h.minDelta⟩
  · rintro ⟨hnonneg, hnonpos⟩
    obtain ⟨front, last, hlast⟩ := (List.eq_nil_or_concat (sinceReset calls)).resolve_left hne
    rw [List.concat_eq_append] at hlast
    refine ⟨?_, cumulativeVolumeDelta_run _, (maxDelta_run_iff _).mpr hnonneg,
      (minDelta_run_iff _).mpr hnonpos, divergence_run.1, divergence_run.2, ?_, updateCount_run _⟩
    · rw [hlast, run_snoc]
      simp [update]
    · rw [hlast, run_snoc]
      simp [update]

theorem isDeltaState_mixed :
    IsDeltaState (sinceReset [.feed ⟨9, 1, 0⟩, .reset, .feed ⟨100, 60, 40⟩, .feed ⟨101, 10, 80⟩])
      (runCalls [.feed ⟨9, 1, 0⟩, .reset, .feed ⟨100, 60, 40⟩, .feed ⟨101, 10, 80⟩]).state :=
  (isDeltaState_iff _ (by decide)).mpr (by decide +kernel)

/-- One update of delta 20, and a least delta of 0. -/
theorem minDelta_not_seen :
    ¬ IsDeltaState (sinceReset [.feed ⟨100, 60, 40⟩]) (runCalls [.feed ⟨100, 60, 40⟩]).state := by
  intro h
  have hmem := h.minDelta.1
  revert hmem
  decide +kernel

end OfeDeltaEngine
