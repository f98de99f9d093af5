import Mathlib

/-!
# Numerals in front of text

A decimal numeral ends where the first character that is no digit stands, so a
number printed in front of a suffix can be read back, and the suffix too. A signed
numeral in front of a separator can be read back the same way.
-/
namespace Numerals

/-- What comes before the first character outside a class is decided by the whole. -/
theorem append_inj_of_class {α : Type} {p : α → Bool} {xs xs' ys ys' : List α}
    (hxs : ∀ x ∈ xs, p x = true) (hxs' : ∀ x ∈ xs', p x = true) (hys : ∀ y ∈ ys.head?, p y = false)
    (hys' : ∀ y ∈ ys'.head?, p y = false) (h : xs ++ ys = xs' ++ ys') : xs = xs' ∧ ys = ys' := by
  have htake : ∀ {us vs : List α}, (∀ x ∈ us, p x = true) → (∀ y ∈ vs.head?, p y = false) →
      (us ++ vs).takeWhile p = us := by
    intro us vs hus hvs
    rw [List.takeWhile_append_of_pos hus]
    cases vs with
    | nil => simp
    | cons v vs => simp [hvs v rfl]
  have hfront : xs = xs' := by
    rw [← htake hxs hys, h, htake hxs' hys']
  subst hfront
  exact ⟨rfl, List.append_cancel_left h⟩

/-- A text that does not go on with a digit. -/
def NoDigitFirst (s : String) : Prop := s.toList.head?.any Char.isDigit = false

theorem head_of_noDigitFirst {s : String} (h : NoDigitFirst s) :
    ∀ c ∈ s.toList.head?, c.isDigit = false := by
  intro c hc
  rw [NoDigitFirst, Option.mem_def.mp hc] at h
  exact h

theorem isDigit_of_mem_repr {n : Nat} {c : Char} (h : c ∈ n.repr.toList) : c.isDigit = true := by
  rw [Nat.repr_eq_ofList_toDigits, String.toList_ofList] at h
  exact Nat.isDigit_of_mem_toDigits (by decide) (by decide) h

/-- A number and the text behind it are read back. -/
theorem repr_append_inj {m n : Nat} {s t : String} (hs : NoDigitFirst s) (ht : NoDigitFirst t)
    (h : m.repr ++ s = n.repr ++ t) : m = n ∧ s = t := by
  have hlist : m.repr.toList ++ s.toList = n.repr.toList ++ t.toList := by
    rw [← String.toList_append, h, String.toList_append]
  obtain ⟨hnumber, htext⟩ := append_inj_of_class (fun _ => isDigit_of_mem_repr)
    (fun _ => isDigit_of_mem_repr) (head_of_noDigitFirst hs) (head_of_noDigitFirst ht) hlist
  exact ⟨Nat.repr_injective (String.toList_inj.mp hnumber), String.toList_inj.mp htext⟩

theorem ne_separator_of_mem_repr {n : Int} {c : Char} (h : c ∈ n.repr.toList) :
    (c != '_') = true := by
  have hdigit : ∀ m : Nat, ∀ c ∈ m.repr.toList, (c != '_') = true := by
    intro m c hc
    rw [bne_iff_ne]
    rintro rfl
    exact absurd (isDigit_of_mem_repr hc) (by decide)
  cases n with
  | ofNat m => exact hdigit m c h
  | negSucc m =>
    have hsplit : (Int.negSucc m).repr.toList = '-' :: (m + 1).repr.toList := by
      show ("-" ++ (m + 1).repr).toList = _
      rw [String.toList_append]
      rfl
    rw [hsplit] at h
    rcases List.mem_cons.mp h with rfl | hc
    · decide
    · exact hdigit (m + 1) c hc

/-- A signed number and the text behind the separator are read back. -/
theorem int_repr_append_inj {m n : Int} {s t : String}
    (h : m.repr ++ "_" ++ s = n.repr ++ "_" ++ t) : m = n ∧ s = t := by
  have hlist : m.repr.toList ++ ('_' :: s.toList) = n.repr.toList ++ ('_' :: t.toList) := by
    have hchars := congrArg String.toList h
    rw [String.toList_append, String.toList_append, String.toList_append, String.toList_append,
      List.append_assoc, List.append_assoc] at hchars
    exact hchars
  obtain ⟨hnumber, htext⟩ := append_inj_of_class (fun _ => ne_separator_of_mem_repr)
    (fun _ => ne_separator_of_mem_repr) (by simp) (by simp) hlist
  exact ⟨Int.repr_injective (String.toList_inj.mp hnumber),
    String.toList_inj.mp (List.cons_injective htext)⟩

end Numerals
