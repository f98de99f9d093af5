import Mathlib.Data.List.Nodup

/-!
# Locks and the code they guard

`Exclusive mutex inside` says that a thread holds the mutex exactly while it stands in
the code that the mutex guards. It survives a thread taking the mutex, leaving it, and
moving within the guarded code or outside it. `Guards` says the same of a lock that
readers share and a writer has to itself.
-/
namespace Locks

variable {τ : Type} {mutex : Option τ} {inside inside' : τ → Bool} {thread : τ}

def Exclusive (mutex : Option τ) (inside : τ → Bool) : Prop :=
  ∀ thread, mutex = some thread ↔ inside thread = true

/-- No two threads are in the guarded code at once. -/
theorem Exclusive.unique (h : Exclusive mutex inside) {other : τ} (hthread : inside thread = true)
    (hother : inside other = true) : thread = other :=
  Option.some.inj (((h thread).mpr hthread).symm.trans ((h other).mpr hother))

theorem Exclusive.outside (h : Exclusive none inside) (thread : τ) : inside thread = false := by
  cases hinside : inside thread with
  | false => rfl
  | true =>
    have hholds := (h thread).mpr hinside
    cases hholds

theorem Exclusive.take (h : Exclusive none inside) (hin : inside' thread = true)
    (hothers : ∀ other, other ≠ thread → inside' other = inside other) :
    Exclusive (some thread) inside' := by
  intro other
  by_cases hother : other = thread
  · subst hother
    simp [hin]
  · simp [hothers other hother, h.outside other, Ne.symm hother]

theorem Exclusive.leave (h : Exclusive mutex inside) (thread : τ) (hin : inside thread = true)
    (hout : inside' thread = false)
    (hothers : ∀ other, other ≠ thread → inside' other = inside other) :
    Exclusive none inside' := by
  intro other
  by_cases hother : other = thread
  · subst hother
    simp [hout]
  · have hfree : inside other = false := by
      cases hinside : inside other with
      | false => rfl
      | true => exact absurd (h.unique hinside hin) hother
    simp [hothers other hother, hfree]

theorem Exclusive.move (h : Exclusive mutex inside)
    (hsame : ∀ thread, inside' thread = inside thread) : Exclusive mutex inside' := by
  intro thread
  rw [hsame thread]
  exact h thread

inductive Mode where
  | shared | exclusive
  deriving DecidableEq, Repr

structure RwLock (τ : Type) where
  writer : Option τ
  readers : List τ

variable {lock : RwLock τ} {mode mode' : τ → Option Mode}

structure Guards (lock : RwLock τ) (mode : τ → Option Mode) : Prop where
  writer : ∀ thread, lock.writer = some thread ↔ mode thread = some .exclusive
  readers : ∀ thread, thread ∈ lock.readers ↔ mode thread = some .shared
  nodup : lock.readers.Nodup
  alone : lock.writer ≠ none → lock.readers = []

/-- Nobody else is in guarded code while a writer is. -/
theorem Guards.writer_alone (h : Guards lock mode) {other : τ} (hthread : mode thread = some .exclusive)
    (hother : mode other ≠ none) : other = thread := by
  have hwriter := (h.writer thread).mpr hthread
  cases hmode : mode other with
  | none => exact absurd hmode hother
  | some held =>
    cases held with
    | exclusive => exact Option.some.inj (((h.writer other).mpr hmode).symm.trans hwriter)
    | shared =>
      have hreader := (h.readers other).mpr hmode
      rw [h.alone (by simp [hwriter])] at hreader
      cases hreader

theorem Guards.move (h : Guards lock mode) (hsame : ∀ thread, mode' thread = mode thread) :
    Guards lock mode' := by
  obtain rfl : mode' = mode := funext hsame
  exact h

theorem Guards.share (h : Guards lock mode) (hfree : lock.writer = none) (hout : mode thread = none)
    (hin : mode' thread = some .shared)
    (hothers : ∀ other, other ≠ thread → mode' other = mode other) :
    Guards { lock with readers := thread :: lock.readers } mode' where
  writer := by
    intro other
    by_cases hother : other = thread
    · subst hother
      simp [hfree, hin]
    · rw [hothers other hother]
      exact h.writer other
  readers := by
    intro other
    by_cases hother : other = thread
    · subst hother
      simp [hin]
    · rw [hothers other hother, ← h.readers other]
      simp [hother]
  nodup := by
    refine List.nodup_cons.mpr ⟨fun hmem => ?_, h.nodup⟩
    rw [h.readers thread, hout] at hmem
    cases hmem
  alone := fun hwriter => absurd hfree hwriter

theorem Guards.own (h : Guards lock mode) (hfree : lock.writer = none) (hreaders : lock.readers = [])
    (hin : mode' thread = some .exclusive)
    (hothers : ∀ other, other ≠ thread → mode' other = mode other) :
    Guards { lock with writer := some thread } mode' where
  writer := by
    intro other
    by_cases hother : other = thread
    · subst hother
      simp [hin]
    · rw [hothers other hother, ← h.writer other]
      simp [hfree, Ne.symm hother]
  readers := by
    intro other
    by_cases hother : other = thread
    · subst hother
      simp [hreaders, hin]
    · rw [hothers other hother]
      exact h.readers other
  nodup := h.nodup
  alone := fun _ => hreaders

theorem Guards.unshare [DecidableEq τ] (h : Guards lock mode) (thread : τ)
    (hin : mode thread = some .shared) (hout : mode' thread = none)
    (hothers : ∀ other, other ≠ thread → mode' other = mode other) :
    Guards { lock with readers := lock.readers.erase thread } mode' where
  writer := by
    intro other
    by_cases hother : other = thread
    · subst hother
      rw [hout, h.writer other, hin]
      simp
    · rw [hothers other hother]
      exact h.writer other
  readers := by
    intro other
    by_cases hother : other = thread
    · subst hother
      simp [hout, h.nodup.mem_erase_iff]
    · rw [hothers other hother, ← h.readers other]
      simp [h.nodup.mem_erase_iff, hother]
  nodup := h.nodup.erase thread
  alone := by
    intro hwriter
    rw [h.alone hwriter]
    rfl

theorem Guards.disown (h : Guards lock mode) (thread : τ) (hin : mode thread = some .exclusive)
    (hout : mode' thread = none)
    (hothers : ∀ other, other ≠ thread → mode' other = mode other) :
    Guards { lock with writer := none } mode' where
  writer := by
    intro other
    by_cases hother : other = thread
    · subst hother
      simp [hout]
    · rw [hothers other hother]
      refine ⟨nofun, fun hmode => absurd ?_ hother⟩
      exact h.writer_alone hin (by simp [hmode])
  readers := by
    intro other
    by_cases hother : other = thread
    · subst hother
      rw [hout, h.readers other, hin]
      simp
    · rw [hothers other hother]
      exact h.readers other
  nodup := h.nodup
  alone := fun hwriter => absurd rfl hwriter

/-- When one of the threads counted moves, the count gains what it moves to and loses what it
moves from. -/
theorem countP_update [DecidableEq τ] {κ : Type} (p : κ → Bool) (place : τ → κ) {threads : List τ}
    (hnodup : threads.Nodup) {thread : τ} (hmem : thread ∈ threads) (next : κ) :
    threads.countP (fun other => p (Function.update place thread next other)) +
        (if p (place thread) then 1 else 0) =
      threads.countP (fun other => p (place other)) + (if p next then 1 else 0) := by
  induction threads with
  | nil => cases hmem
  | cons first rest ih =>
    obtain ⟨hfirst, hrest⟩ := List.nodup_cons.mp hnodup
    rw [List.countP_cons, List.countP_cons]
    by_cases hthread : first = thread
    · subst hthread
      have hsame : rest.countP (fun other => p (Function.update place first next other)) =
          rest.countP fun other => p (place other) := by
        refine List.countP_congr fun other hother => ?_
        have hne : other ≠ first := fun he => hfirst (he ▸ hother)
        rw [Function.update_of_ne hne]
      rw [hsame, Function.update_self]
      omega
    · have hin : thread ∈ rest := (List.mem_cons.mp hmem).resolve_left (Ne.symm hthread)
      have hrec := ih hrest hin
      rw [Function.update_of_ne hthread]
      omega

end Locks
