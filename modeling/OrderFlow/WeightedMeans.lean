import Mathlib.Algebra.BigOperators.Group.List.Basic
import Mathlib.Algebra.Order.BigOperators.Group.List
import Mathlib.Algebra.Order.Field.Basic
import Mathlib.Tactic.FieldSimp
import Mathlib.Tactic.Linarith
import Mathlib.Tactic.Positivity
import Mathlib.Tactic.Ring

/-!
# Means of weighted values

A list of values with weights that are not negative. The mean lies between the
values, and the spread around it, the weighted sum of the squared distances, is
the second moment less the square of the mean; it vanishes only where all values
are one.
-/
namespace WeightedMeans

variable {K : Type} [Field K]

/-- The weights of values `x.1` are `x.2`. -/
def weight (xs : List (K × K)) : K := (xs.map fun x => x.2).sum

def moment (xs : List (K × K)) : K := (xs.map fun x => x.1 * x.2).sum

def moment2 (xs : List (K × K)) : K := (xs.map fun x => x.1 * x.1 * x.2).sum

/-- The weighted sum of the squared distances from `m`. -/
def spread (m : K) (xs : List (K × K)) : K := (xs.map fun x => x.2 * (x.1 - m) ^ 2).sum

@[simp] theorem weight_nil : weight ([] : List (K × K)) = 0 := rfl
@[simp] theorem moment_nil : moment ([] : List (K × K)) = 0 := rfl
@[simp] theorem moment2_nil : moment2 ([] : List (K × K)) = 0 := rfl
@[simp] theorem spread_nil (m : K) : spread m ([] : List (K × K)) = 0 := rfl

@[simp] theorem weight_cons (x : K × K) (xs : List (K × K)) :
    weight (x :: xs) = x.2 + weight xs := by simp [weight]
@[simp] theorem moment_cons (x : K × K) (xs : List (K × K)) :
    moment (x :: xs) = x.1 * x.2 + moment xs := by simp [moment]
@[simp] theorem moment2_cons (x : K × K) (xs : List (K × K)) :
    moment2 (x :: xs) = x.1 * x.1 * x.2 + moment2 xs := by simp [moment2]
@[simp] theorem spread_cons (m : K) (x : K × K) (xs : List (K × K)) :
    spread m (x :: xs) = x.2 * (x.1 - m) ^ 2 + spread m xs := by simp [spread]

theorem spread_eq (m : K) (xs : List (K × K)) :
    spread m xs = moment2 xs - 2 * m * moment xs + m ^ 2 * weight xs := by
  induction xs with
  | nil => simp
  | cons x xs ih =>
    rw [spread_cons, ih, moment2_cons, moment_cons, weight_cons]
    ring

/-- The mean square less the square of the mean. -/
theorem spread_mean {xs : List (K × K)} (h : weight xs ≠ 0) :
    spread (moment xs / weight xs) xs / weight xs =
      moment2 xs / weight xs - moment xs / weight xs * (moment xs / weight xs) := by
  rw [spread_eq]
  field_simp
  ring

variable [LinearOrder K]

/-- What weighs nothing does not count. -/
theorem weight_filter_pos {xs : List (K × K)} (h : ∀ x ∈ xs, 0 ≤ x.2) :
    weight (xs.filter fun x => 0 < x.2) = weight xs := by
  induction xs with
  | nil => rfl
  | cons x xs ih =>
    obtain ⟨hx, hxs⟩ := List.forall_mem_cons.mp h
    by_cases hpos : 0 < x.2
    · simp [hpos, ih hxs]
    · have hzero : x.2 = 0 := le_antisymm (not_lt.mp hpos) hx
      simp [hzero, ih hxs]

theorem moment_filter_pos {xs : List (K × K)} (h : ∀ x ∈ xs, 0 ≤ x.2) :
    moment (xs.filter fun x => 0 < x.2) = moment xs := by
  induction xs with
  | nil => rfl
  | cons x xs ih =>
    obtain ⟨hx, hxs⟩ := List.forall_mem_cons.mp h
    by_cases hpos : 0 < x.2
    · simp [hpos, ih hxs]
    · have hzero : x.2 = 0 := le_antisymm (not_lt.mp hpos) hx
      simp [hzero, ih hxs]

variable [IsStrictOrderedRing K]

theorem weight_nonneg {xs : List (K × K)} (h : ∀ x ∈ xs, 0 ≤ x.2) : 0 ≤ weight xs := by
  apply List.sum_nonneg
  intro w hw
  obtain ⟨x, hx, rfl⟩ := List.mem_map.mp hw
  exact h x hx

theorem weight_pos {xs : List (K × K)} (hne : xs ≠ []) (h : ∀ x ∈ xs, 0 < x.2) : 0 < weight xs := by
  cases xs with
  | nil => exact absurd rfl hne
  | cons x xs =>
    have hrest : 0 ≤ weight xs := weight_nonneg fun y hy => (h y (List.mem_cons_of_mem _ hy)).le
    rw [weight_cons]
    exact add_pos_of_pos_of_nonneg (h x List.mem_cons_self) hrest

theorem spread_nonneg (m : K) {xs : List (K × K)} (h : ∀ x ∈ xs, 0 ≤ x.2) : 0 ≤ spread m xs := by
  apply List.sum_nonneg
  intro d hd
  obtain ⟨x, hx, rfl⟩ := List.mem_map.mp hd
  exact mul_nonneg (h x hx) (sq_nonneg _)

/-- There is no spread around `m` only where every value is `m`. -/
theorem spread_eq_zero_iff (m : K) {xs : List (K × K)} (h : ∀ x ∈ xs, 0 < x.2) :
    spread m xs = 0 ↔ ∀ x ∈ xs, x.1 = m := by
  induction xs with
  | nil => simp
  | cons x xs ih =>
    obtain ⟨hx, hxs⟩ := List.forall_mem_cons.mp h
    have hrest : 0 ≤ spread m xs := spread_nonneg m fun y hy => (hxs y hy).le
    have hhead : 0 ≤ x.2 * (x.1 - m) ^ 2 := mul_nonneg hx.le (sq_nonneg _)
    rw [spread_cons, add_eq_zero_iff_of_nonneg hhead hrest, ih hxs, List.forall_mem_cons,
      mul_eq_zero_iff_left hx.ne', sq_eq_zero_iff, sub_eq_zero]

theorem mul_weight_le_moment {lo : K} {xs : List (K × K)} (h : ∀ x ∈ xs, 0 ≤ x.2)
    (hlo : ∀ x ∈ xs, lo ≤ x.1) : lo * weight xs ≤ moment xs := by
  induction xs with
  | nil => simp
  | cons x xs ih =>
    obtain ⟨hx, hxs⟩ := List.forall_mem_cons.mp h
    obtain ⟨hlox, hloxs⟩ := List.forall_mem_cons.mp hlo
    rw [weight_cons, moment_cons, mul_add]
    exact add_le_add (mul_le_mul_of_nonneg_right hlox hx) (ih hxs hloxs)

theorem moment_le_mul_weight {hi : K} {xs : List (K × K)} (h : ∀ x ∈ xs, 0 ≤ x.2)
    (hhi : ∀ x ∈ xs, x.1 ≤ hi) : moment xs ≤ hi * weight xs := by
  induction xs with
  | nil => simp
  | cons x xs ih =>
    obtain ⟨hx, hxs⟩ := List.forall_mem_cons.mp h
    obtain ⟨hhix, hhixs⟩ := List.forall_mem_cons.mp hhi
    rw [weight_cons, moment_cons, mul_add]
    exact add_le_add (mul_le_mul_of_nonneg_right hhix hx) (ih hxs hhixs)

/-- The mean lies between the bounds of the values. -/
theorem mean_mem_Icc {lo hi : K} {xs : List (K × K)} (h : ∀ x ∈ xs, 0 ≤ x.2)
    (hpos : 0 < weight xs) (hlo : ∀ x ∈ xs, lo ≤ x.1) (hhi : ∀ x ∈ xs, x.1 ≤ hi) :
    lo ≤ moment xs / weight xs ∧ moment xs / weight xs ≤ hi :=
  ⟨(le_div_iff₀ hpos).mpr (mul_weight_le_moment h hlo),
    (div_le_iff₀ hpos).mpr (moment_le_mul_weight h hhi)⟩

end WeightedMeans
