import Mathlib.Data.List.Infix

/-!
# The first occurrence of a word

`find` is the place where a word first stands in a text, if it does. A front of a text is
skipped if the word neither stands in it nor begins in it, whatever follows; then the search
goes on behind it.
-/
namespace Substrings

variable {α : Type} [DecidableEq α]

def find (needle text : List α) : Option Nat :=
  text.tails.findIdx? fun rest => needle.isPrefixOf rest

def Skips (needle front : List α) : Prop :=
  ∀ rest, find needle (front ++ rest) = (find needle rest).map (· + front.length)

variable {needle front : List α}

theorem find_cons (needle : List α) (x : α) (text : List α) :
    find needle (x :: text) =
      if needle.isPrefixOf (x :: text) then some 0 else (find needle text).map (· + 1) := by
  simp only [find, List.tails_cons, List.findIdx?_cons]

theorem find_append_self (needle rest : List α) : find needle (needle ++ rest) = some 0 := by
  have hprefix : needle.isPrefixOf (needle ++ rest) = true := by simp
  revert hprefix
  generalize needle ++ rest = text
  intro hprefix
  cases text with
  | nil => simp [find, hprefix]
  | cons x text => rw [find_cons, if_pos hprefix]

theorem skips_nil (needle : List α) : Skips needle [] := by
  intro rest
  simp

theorem skips_append {front' : List α} (h : Skips needle front) (h' : Skips needle front') :
    Skips needle (front ++ front') := by
  intro rest
  rw [List.append_assoc, h, h', Option.map_map]
  congr 1
  funext i
  simp only [Function.comp_apply, List.length_append]
  omega

/-- The word does not begin at the first place, and not behind it. -/
theorem skips_cons {x : α} (hx : ∀ rest, ¬ needle <+: x :: (front ++ rest)) (h : Skips needle front) :
    Skips needle (x :: front) := by
  intro rest
  have hnot : ¬ needle.isPrefixOf (x :: (front ++ rest)) = true :=
    fun hprefix => hx rest (List.isPrefixOf_iff_prefix.mp hprefix)
  rw [List.cons_append, find_cons, if_neg hnot, h, Option.map_map]
  congr 1

theorem skips_of_not_mem {c : α} (h : c ∉ front) : Skips (c :: needle) front := by
  induction front with
  | nil => exact skips_nil _
  | cons x front ih =>
    rw [List.mem_cons, not_or] at h
    refine skips_cons (fun rest hprefix => ?_) (ih h.2)
    exact h.1 (List.cons_prefix_cons.mp hprefix).1

/-- The word behind a front that is skipped. -/
theorem find_behind (h : Skips needle front) (rest : List α) :
    find needle (front ++ (needle ++ rest)) = some front.length := by
  rw [h, find_append_self, Option.map_some, Nat.zero_add]

/-- A front that is skipped, and nothing behind it. -/
theorem find_eq_none (h : Skips needle front) (hne : needle ≠ []) : find needle front = none := by
  have hfront := h []
  rw [List.append_nil] at hfront
  cases needle with
  | nil => exact absurd rfl hne
  | cons c needle => simpa [find] using hfront

end Substrings
