import Mathlib.Data.List.Infix
import Mathlib.Data.Nat.ModEq
import Mathlib.Logic.Function.Basic
import Mathlib.Tactic.Linarith

/-!
# Windows of a stream in circular storage

A stream is written to `n` cells one after another, its `i`-th item into cell
`(base + i) % n`. The items from `lo` on are still needed; as long as no more
than `n` of them are, they sit in different cells. Cells hold options, so that
the same lemmas serve storage with live and dead cells and plain arrays.

The second part is the arithmetic of counters kept in 64-bit words and masked
with a power of two.
-/
namespace RingWindow

variable {α : Type}

def slot (n base i : Nat) : Nat := (base + i) % n

/-- The items from `lo` on are in their cells. -/
def Holds (n base : Nat) (cells : Nat → Option α) (xs : List α) (lo : Nat) : Prop :=
  ∀ i, lo ≤ i → i < xs.length → cells (slot n base i) = xs[i]?

/-- Only the cells of positions `lo` to `hi` are live. -/
def LiveWithin (n base : Nat) (cells : Nat → Option α) (lo hi : Nat) : Prop :=
  ∀ j x, cells j = some x → ∃ i, lo ≤ i ∧ i < hi ∧ j = slot n base i

/-- Positions less than a revolution apart use different cells. -/
theorem slot_inj {n base i j : Nat} (h : slot n base i = slot n base j) (hij : i ≤ j)
    (hlt : j < i + n) : i = j := by
  have hmod : i ≡ j [MOD n] := Nat.ModEq.add_left_cancel' base h
  have hdvd : n ∣ j - i := (Nat.modEq_iff_dvd' hij).mp hmod
  have hzero : j - i = 0 := Nat.eq_zero_of_dvd_of_lt hdvd (by omega)
  omega

theorem holds_mono {n base : Nat} {cells : Nat → Option α} {xs : List α} {lo lo' : Nat}
    (h : Holds n base cells xs lo) (hle : lo ≤ lo') : Holds n base cells xs lo' :=
  fun i hi hlt => h i (Nat.le_trans hle hi) hlt

theorem holds_nil (n base : Nat) (cells : Nat → Option α) (lo : Nat) :
    Holds n base cells [] lo := by
  intro i _ hlt
  simp at hlt

theorem holds_front {n base : Nat} {cells : Nat → Option α} {xs : List α} {lo : Nat}
    (h : Holds n base cells xs lo) (hlt : lo < xs.length) :
    cells (slot n base lo) = some xs[lo] := by
  rw [h lo (Nat.le_refl lo) hlt, List.getElem?_eq_getElem hlt]

/-- A write behind the window keeps the window and appends the item. -/
theorem holds_write {n base : Nat} {cells : Nat → Option α} {xs : List α} {lo : Nat}
    (h : Holds n base cells xs lo) (hroom : xs.length < lo + n) (x : α) :
    Holds n base (Function.update cells (slot n base xs.length) (some x)) (xs ++ [x]) lo := by
  intro i hi hlt
  by_cases hlast : i = xs.length
  · subst hlast
    simp
  · have hbefore : i < xs.length := by
      rw [List.length_append, List.length_singleton] at hlt
      omega
    have hne : slot n base i ≠ slot n base xs.length :=
      fun he => hlast (slot_inj he (by omega) (by omega))
    rw [Function.update_of_ne hne, h i hi hbefore, List.getElem?_append_left hbefore]

/-- What happens to the first cell of a window does not touch the rest of it. -/
theorem holds_drop {n base : Nat} {cells : Nat → Option α} {xs : List α} {lo : Nat}
    (h : Holds n base cells xs lo) (hroom : xs.length ≤ lo + n) (v : Option α) :
    Holds n base (Function.update cells (slot n base lo) v) xs (lo + 1) := by
  intro i hi hlt
  have hne : slot n base i ≠ slot n base lo := by
    intro he
    have := slot_inj he.symm (by omega) (by omega)
    omega
  rw [Function.update_of_ne hne, h i (by omega) hlt]

theorem liveWithin_write {n base : Nat} {cells : Nat → Option α} {lo hi : Nat}
    (h : LiveWithin n base cells lo hi) (hle : lo ≤ hi) (x : α) :
    LiveWithin n base (Function.update cells (slot n base hi) (some x)) lo (hi + 1) := by
  intro j y hj
  by_cases heq : j = slot n base hi
  · exact ⟨hi, hle, by omega, heq⟩
  · rw [Function.update_of_ne heq] at hj
    obtain ⟨i, hlo, hlt, hslot⟩ := h j y hj
    exact ⟨i, hlo, by omega, hslot⟩

theorem liveWithin_clear {n base : Nat} {cells : Nat → Option α} {lo hi : Nat}
    (h : LiveWithin n base cells lo hi) :
    LiveWithin n base (Function.update cells (slot n base lo) none) (lo + 1) hi := by
  intro j y hj
  by_cases heq : j = slot n base lo
  · subst heq
    simp at hj
  · rw [Function.update_of_ne heq] at hj
    obtain ⟨i, hlo, hlt, rfl⟩ := h j y hj
    refine ⟨i, ?_, hlt, rfl⟩
    rcases Nat.lt_or_ge lo i with hlt' | hge
    · exact hlt'
    · exact absurd (congrArg (slot n base) (by omega : i = lo)) heq

/-- The next cell to be written is dead while the window leaves room for it. -/
theorem dead_behind {n base : Nat} {cells : Nat → Option α} {lo hi : Nat}
    (h : LiveWithin n base cells lo hi) (hroom : hi < lo + n) :
    cells (slot n base hi) = none := by
  cases hc : cells (slot n base hi) with
  | none => rfl
  | some x =>
    obtain ⟨i, hlo, hlt, heq⟩ := h _ x hc
    have := slot_inj heq.symm (by omega) (by omega)
    omega

theorem dead_of_empty {n base : Nat} {cells : Nat → Option α} {lo : Nat}
    (h : LiveWithin n base cells lo lo) (j : Nat) : cells j = none := by
  cases hc : cells j with
  | none => rfl
  | some x =>
    obtain ⟨i, hlo, hlt, -⟩ := h j x hc
    omega

theorem length_lt_of_prefix_ne {accepted popped : List α} (h : popped <+: accepted)
    (hne : popped ≠ accepted) : popped.length < accepted.length :=
  Nat.lt_of_le_of_ne h.length_le fun heq => hne (h.eq_of_length heq)

/-- Values accepted later do not change the front, if there is one. -/
theorem front_append {accepted popped : List α} {value : α}
    (h : accepted[popped.length]? = some value) (item : α) :
    (accepted ++ [item])[popped.length]? = some value := by
  obtain ⟨hlt, -⟩ := List.getElem?_eq_some_iff.mp h
  rw [List.getElem?_append_left hlt]
  exact h

/-- Taking the front keeps what was taken a beginning of what was accepted. -/
theorem snoc_front {accepted popped : List α} {value : α} (h : popped <+: accepted)
    (hfront : accepted[popped.length]? = some value) : popped ++ [value] <+: accepted := by
  obtain ⟨rest, rfl⟩ := h
  rw [List.getElem?_append_right (Nat.le_refl _), Nat.sub_self] at hfront
  cases rest with
  | nil => cases hfront
  | cons x rest =>
    obtain rfl : x = value := Option.some.inj hfront
    exact ⟨rest, by simp⟩

/-- A nonzero word with a single bit set. -/
structure PowerOfTwo where
  value : UInt64
  pos : 0 < value
  single : value &&& (value - 1) = 0

def PowerOfTwo.size (p : PowerOfTwo) : Nat := p.value.toNat

theorem PowerOfTwo.size_pos (p : PowerOfTwo) : 0 < p.size := UInt64.lt_iff_toNat_lt.mp p.pos

theorem PowerOfTwo.size_lt (p : PowerOfTwo) : p.size < 2 ^ 64 := p.value.toNat_lt

theorem toNat_sub_one (v : UInt64) (h : 0 < v.toNat) : (v - 1).toNat = v.toNat - 1 := by
  have := v.toNat_lt
  rw [UInt64.toNat_sub, UInt64.toNat_one]
  omega

theorem PowerOfTwo.exists_exponent (p : PowerOfTwo) : ∃ k, k ≤ 64 ∧ p.size = 2 ^ k := by
  have hmask : p.size &&& (p.size - 1) = 0 := by
    have h := congrArg UInt64.toNat p.single
    rwa [UInt64.toNat_and, toNat_sub_one _ p.size_pos] at h
  obtain ⟨k, hk⟩ :=
    (Nat.and_sub_one_eq_zero_iff_isPowerOfTwo (Nat.ne_of_gt p.size_pos)).mp hmask
  refine ⟨k, ?_, hk⟩
  have hlt : 2 ^ k < 2 ^ 64 := hk ▸ p.size_lt
  exact Nat.le_of_lt ((Nat.pow_lt_pow_iff_right (by decide)).mp hlt)

theorem PowerOfTwo.size_dvd (p : PowerOfTwo) : p.size ∣ 2 ^ 64 := by
  obtain ⟨k, hk, hsize⟩ := p.exists_exponent
  rw [hsize]
  exact Nat.pow_dvd_pow 2 hk

/-- Masking a word is reduction modulo the power of two. -/
theorem PowerOfTwo.toNat_mask (p : PowerOfTwo) (w : UInt64) :
    (w &&& (p.value - 1)).toNat = w.toNat % p.size := by
  obtain ⟨k, -, hsize⟩ := p.exists_exponent
  have hvalue : p.value.toNat = 2 ^ k := hsize
  rw [UInt64.toNat_and, toNat_sub_one _ p.size_pos, hsize, hvalue, Nat.and_two_pow_sub_one_eq_mod]

/-- A free-running counter, masked, is the cell of its position. -/
theorem PowerOfTwo.mask_ofNat (p : PowerOfTwo) (base i : Nat) :
    (UInt64.ofNat (base + i) &&& (p.value - 1)).toNat = slot p.size base i := by
  rw [p.toNat_mask, UInt64.toNat_ofNat', Nat.mod_mod_of_dvd _ p.size_dvd, slot]

/-- The difference of two counters is the true distance, across the wrap. -/
theorem toNat_ofNat_sub {m n : Nat} (hle : m ≤ n) (hlt : n - m < 2 ^ 64) :
    (UInt64.ofNat n - UInt64.ofNat m).toNat = n - m := by
  rw [UInt64.toNat_sub, UInt64.toNat_ofNat', UInt64.toNat_ofNat']
  omega

theorem ofNat_inj_of_near {m n : Nat} (hle : m ≤ n) (hlt : n - m < 2 ^ 64)
    (h : UInt64.ofNat m = UInt64.ofNat n) : m = n := by
  have hsub := toNat_ofNat_sub hle hlt
  rw [h, UInt64.toNat_sub] at hsub
  have := (UInt64.ofNat n).toNat_lt
  omega

theorem ofNat_add_one (n : Nat) : UInt64.ofNat n + 1 = UInt64.ofNat (n + 1) := by
  rw [← UInt64.toNat_inj, UInt64.toNat_add, UInt64.toNat_ofNat', UInt64.toNat_ofNat', UInt64.toNat_one]
  omega

/-- A counter kept reduced: the cell of a position, as a word. -/
def PowerOfTwo.index (p : PowerOfTwo) (i : Nat) : UInt64 := UInt64.ofNat (i % p.size)

theorem PowerOfTwo.toNat_index (p : PowerOfTwo) (i : Nat) : (p.index i).toNat = i % p.size := by
  have hlt := Nat.mod_lt i p.size_pos
  have hsize := p.size_lt
  rw [PowerOfTwo.index, UInt64.toNat_ofNat']
  exact Nat.mod_eq_of_lt (by omega)

theorem PowerOfTwo.toNat_index_slot (p : PowerOfTwo) (i : Nat) :
    (p.index i).toNat = slot p.size 0 i := by
  rw [p.toNat_index, slot, Nat.zero_add]

/-- Stepping a reduced counter and masking it. -/
theorem PowerOfTwo.index_succ (p : PowerOfTwo) (i : Nat) :
    (p.index i + 1) &&& (p.value - 1) = p.index (i + 1) := by
  rw [← UInt64.toNat_inj, p.toNat_mask, UInt64.toNat_add, UInt64.toNat_one, p.toNat_index,
    p.toNat_index, Nat.mod_mod_of_dvd _ p.size_dvd, Nat.mod_add_mod]

theorem PowerOfTwo.index_eq_iff (p : PowerOfTwo) (i j : Nat) :
    p.index i = p.index j ↔ slot p.size 0 i = slot p.size 0 j := by
  rw [← UInt64.toNat_inj, p.toNat_index_slot, p.toNat_index_slot]

/-- Two reduced counters less than a revolution apart. -/
theorem PowerOfTwo.index_inj (p : PowerOfTwo) {i j : Nat} (hij : i ≤ j) (hlt : j < i + p.size) :
    p.index i = p.index j ↔ i = j := by
  rw [p.index_eq_iff]
  exact ⟨fun h => slot_inj h hij hlt, fun h => h ▸ rfl⟩

/-- The writer has caught up with the reader after a whole revolution. -/
theorem PowerOfTwo.index_eq_of_revolution (p : PowerOfTwo) {i j : Nat} (hij : i < j)
    (hle : j ≤ i + p.size) : p.index j = p.index i ↔ j = i + p.size := by
  constructor
  · intro h
    by_contra hne
    have := (p.index_inj (Nat.le_of_lt hij) (by omega)).mp h.symm
    omega
  · rintro rfl
    rw [p.index_eq_iff, slot, slot, ← Nat.add_assoc, Nat.add_mod_right]

/-- The masked difference of two reduced counters is the true distance. -/
theorem PowerOfTwo.mask_sub_index (p : PowerOfTwo) {i j : Nat} (hij : i ≤ j) (hlt : j < i + p.size) :
    ((p.index j - p.index i) &&& (p.value - 1)).toNat = j - i := by
  have hi := Nat.mod_lt i p.size_pos
  have hsize := p.size_lt
  rw [p.toNat_mask, UInt64.toNat_sub, p.toNat_index, p.toNat_index, Nat.mod_mod_of_dvd _ p.size_dvd]
  have hmod : 2 ^ 64 - i % p.size + j % p.size ≡ j - i [MOD p.size] := by
    apply Nat.ModEq.add_right_cancel' (i % p.size)
    have hleft : 2 ^ 64 - i % p.size + j % p.size + i % p.size = j % p.size + 2 ^ 64 := by omega
    have hright : j - i + i % p.size ≡ j - i + i [MOD p.size] := (Nat.mod_modEq i p.size).add_left _
    rw [hleft]
    refine Nat.ModEq.trans ?_ hright.symm
    rw [Nat.sub_add_cancel hij]
    have hzero : 2 ^ 64 ≡ 0 [MOD p.size] := (Nat.modEq_zero_iff_dvd).mpr p.size_dvd
    simpa using (Nat.mod_modEq j p.size).add hzero
  rw [hmod]
  exact Nat.mod_eq_of_lt (by omega)

end RingWindow
