import Mathlib.Data.List.Basic
import Mathlib.Data.List.Chain
import Mathlib.Data.List.Infix
import Mathlib.Data.List.ReduceOption
import Mathlib.Order.Bounds.Basic

/-!
# Greedy segmentation of a stream

Items arrive one at a time and are collected into an open segment. A rule may
end the open segment in front of the next item or behind it, and a flush ends
it from outside. The cut is computed item by item; `Greedy` is what it means,
without reference to the computation.
-/
namespace GreedySegments

variable {α : Type}

/-- Both tests see the open segment without the item `x`; for `after` the item
has already been decided to join it, so the segment may still be empty. -/
structure Rule (α : Type) where
  before : List α → α → Bool
  after : List α → α → Bool

structure Cut (α : Type) where
  done : List (List α)
  current : List α
  deriving DecidableEq, Repr

def Cut.empty : Cut α := ⟨[], []⟩

/-- End the open segment, if there is one. -/
def Cut.flush (c : Cut α) : Cut α :=
  match c.current with
  | [] => c
  | x :: seg => ⟨c.done ++ [x :: seg], []⟩

/-- Add an item to the open segment and end it there if the rule says so. -/
def Rule.extend (r : Rule α) (c : Cut α) (x : α) : Cut α :=
  if r.after c.current x then ⟨c.done ++ [c.current ++ [x]], []⟩
  else ⟨c.done, c.current ++ [x]⟩

def Rule.cutsBefore (r : Rule α) (c : Cut α) (x : α) : Prop :=
  c.current ≠ [] ∧ r.before c.current x = true

instance (r : Rule α) (c : Cut α) (x : α) : Decidable (r.cutsBefore c x) :=
  match h : c.current with
  | [] => isFalse (fun hc => hc.1 h)
  | y :: seg => decidable_of_iff (r.before c.current x = true)
      ⟨fun hb => ⟨by simp [h], hb⟩, fun hb => hb.2⟩

def Rule.feed (r : Rule α) (c : Cut α) (x : α) : Cut α :=
  r.extend (if r.cutsBefore c x then c.flush else c) x

/-- An input is an item or, as `none`, a flush. -/
def Rule.act (r : Rule α) (c : Cut α) : Option α → Cut α
  | some x => r.feed c x
  | none => c.flush

def Rule.run (r : Rule α) (is : List (Option α)) : Cut α := is.foldl r.act Cut.empty

def Rule.cut (r : Rule α) (xs : List α) : Cut α := xs.foldl r.feed Cut.empty

/-- All items seen so far, in order. -/
def Cut.all (c : Cut α) : List α := c.done.flatten ++ c.current

/-- All segments, the open one last. -/
def Cut.segs (c : Cut α) : List (List α) :=
  c.done ++ match c.current with
    | [] => []
    | x :: seg => [x :: seg]

@[simp] theorem all_empty : (Cut.empty : Cut α).all = [] := rfl
@[simp] theorem segs_empty : (Cut.empty : Cut α).segs = [] := rfl
@[simp] theorem cut_nil (r : Rule α) : r.cut [] = Cut.empty := rfl
@[simp] theorem run_nil (r : Rule α) : r.run [] = Cut.empty := rfl

@[simp] theorem cut_snoc (r : Rule α) (xs : List α) (x : α) :
    r.cut (xs ++ [x]) = r.feed (r.cut xs) x := by
  simp [Rule.cut]

@[simp] theorem run_snoc (r : Rule α) (is : List (Option α)) (i : Option α) :
    r.run (is ++ [i]) = r.act (r.run is) i := by
  simp [Rule.run]

theorem segs_of_current_nil (c : Cut α) (h : c.current = []) : c.segs = c.done := by
  obtain ⟨done, current⟩ := c
  subst h
  simp [Cut.segs]

theorem segs_of_current_ne_nil (c : Cut α) (h : c.current ≠ []) :
    c.segs = c.done ++ [c.current] := by
  obtain ⟨done, current⟩ := c
  cases current with
  | nil => exact absurd rfl h
  | cons x seg => rfl

@[simp] theorem segs_flush (c : Cut α) : c.flush.segs = c.segs := by
  obtain ⟨done, current⟩ := c
  cases current with
  | nil => rfl
  | cons x seg => simp [Cut.flush, Cut.segs]

@[simp] theorem current_flush (c : Cut α) : c.flush.current = [] := by
  obtain ⟨done, current⟩ := c
  cases current <;> rfl

theorem flush_of_current_nil (c : Cut α) (h : c.current = []) : c.flush = c := by
  obtain ⟨done, current⟩ := c
  subst h
  rfl

theorem flush_of_current_ne_nil (c : Cut α) (h : c.current ≠ []) :
    c.flush = ⟨c.done ++ [c.current], []⟩ := by
  obtain ⟨done, current⟩ := c
  cases current with
  | nil => exact absurd rfl h
  | cons x seg => rfl

theorem segs_flatten (c : Cut α) : c.segs.flatten = c.all := by
  obtain ⟨done, current⟩ := c
  cases current <;> simp [Cut.segs, Cut.all]

/-- With a rule that cuts behind items only, an item ends at most its own segment. -/
theorem done_feed {r : Rule α} (hbefore : ∀ seg x, r.before seg x = false) (c : Cut α) (x : α) :
    (r.feed c x).done = c.done ∨
      ((r.feed c x).done = c.done ++ [c.current ++ [x]] ∧ r.after c.current x = true) := by
  have hnot : ¬ r.cutsBefore c x := fun hcuts => by
    have hcut := hcuts.2
    rw [hbefore] at hcut
    cases hcut
  rw [Rule.feed, if_neg hnot, Rule.extend]
  split
  · rename_i hafter
    exact .inr ⟨rfl, hafter⟩
  · exact .inl rfl

/-- Adding an item lengthens the open segment or, when none is open, starts one. -/
theorem segs_extend (r : Rule α) (c : Cut α) (x : α) :
    (r.extend c x).segs = c.done ++ [c.current ++ [x]] := by
  unfold Rule.extend
  split
  · exact segs_of_current_nil _ rfl
  · exact segs_of_current_ne_nil _ (by simp)

/-- An item joins the open segment unless the rule cuts in front of it. -/
theorem segs_feed_join (r : Rule α) (c : Cut α) (x : α) (hb : ¬ r.cutsBefore c x) :
    (r.feed c x).segs = c.done ++ [c.current ++ [x]] := by
  simp [Rule.feed, hb, segs_extend]

/-- With nothing open, or a cut in front of it, an item opens a segment. -/
theorem segs_feed_open (r : Rule α) (c : Cut α) (x : α)
    (h : c.current = [] ∨ r.cutsBefore c x) : (r.feed c x).segs = c.segs ++ [[x]] := by
  by_cases hb : r.cutsBefore c x
  · simp [Rule.feed, hb, segs_extend, flush_of_current_ne_nil c hb.1, segs_of_current_ne_nil c hb.1]
  · have hc : c.current = [] := h.resolve_right hb
    simp [segs_feed_join r c x hb, hc, segs_of_current_nil c hc]

@[simp] theorem all_flush (c : Cut α) : c.flush.all = c.all := by
  rw [← segs_flatten, segs_flush, segs_flatten]

@[simp] theorem all_feed (r : Rule α) (c : Cut α) (x : α) : (r.feed c x).all = c.all ++ [x] := by
  rw [← segs_flatten (r.feed c x), ← segs_flatten c]
  by_cases h : c.current = [] ∨ r.cutsBefore c x
  · simp [segs_feed_open r c x h]
  · obtain ⟨hc, hb⟩ := not_or.mp h
    simp [segs_feed_join r c x hb, segs_of_current_ne_nil c hc]

/-- No item is lost, repeated or reordered. -/
theorem cut_all (r : Rule α) (xs : List α) : (r.cut xs).all = xs := by
  induction xs using List.reverseRecOn with
  | nil => rfl
  | append_singleton xs x ih => simp [ih]

theorem current_subset (r : Rule α) (xs : List α) :
    ∀ x ∈ (r.cut xs).current, x ∈ xs := by
  intro x hx
  have hall : x ∈ (r.cut xs).all := List.mem_append_right _ hx
  rwa [cut_all] at hall

/-- A segment is never taken apart again. -/
theorem segs_feed_prefix (r : Rule α) (c : Cut α) (x : α) {seg : List α} (hseg : seg ∈ c.segs) :
    ∃ seg' ∈ (r.feed c x).segs, seg <+: seg' := by
  by_cases h : c.current = [] ∨ r.cutsBefore c x
  · rw [segs_feed_open r c x h]
    exact ⟨seg, List.mem_append_left _ hseg, List.prefix_refl seg⟩
  · obtain ⟨hc, hb⟩ := not_or.mp h
    rw [segs_feed_join r c x hb]
    rw [segs_of_current_ne_nil c hc, List.mem_append, List.mem_singleton] at hseg
    rcases hseg with hseg | rfl
    · exact ⟨seg, List.mem_append_left _ hseg, List.prefix_refl seg⟩
    · exact ⟨c.current ++ [x], by simp, List.prefix_append _ _⟩

theorem segs_cut_prefix (r : Rule α) {xs ys : List α} (h : ys <+: xs) {seg : List α}
    (hseg : seg ∈ (r.cut ys).segs) : ∃ seg' ∈ (r.cut xs).segs, seg <+: seg' := by
  obtain ⟨rest, rfl⟩ := h
  induction rest using List.reverseRecOn with
  | nil => exact ⟨seg, by simpa using hseg, List.prefix_refl seg⟩
  | append_singleton rest x ih =>
    obtain ⟨seg', hseg', hle⟩ := ih
    obtain ⟨seg'', hseg'', hle'⟩ := segs_feed_prefix r _ x hseg'
    rw [← List.append_assoc, cut_snoc]
    exact ⟨seg'', hseg'', hle.trans hle'⟩

/-- Rules that agree wherever one of them is asked cut a stream alike. -/
theorem cut_congr (r r' : Rule α) (xs : List α)
    (hbefore : ∀ ys x, ys ++ [x] <+: xs →
      r.before (r'.cut ys).current x = r'.before (r'.cut ys).current x)
    (hafter : ∀ seg x, r.after seg x = r'.after seg x) : r.cut xs = r'.cut xs := by
  induction xs using List.reverseRecOn with
  | nil => rfl
  | append_singleton xs x ih =>
    have hprev : r.cut xs = r'.cut xs :=
      ih fun ys y hys => hbefore ys y (hys.trans (List.prefix_append _ _))
    have hcut : r.cutsBefore (r'.cut xs) x ↔ r'.cutsBefore (r'.cut xs) x := by
      simp only [Rule.cutsBefore, hbefore xs x (List.prefix_refl _)]
    have hextend : ∀ c : Cut α, r.extend c x = r'.extend c x := by
      intro c
      simp only [Rule.extend, hafter]
    rw [cut_snoc, cut_snoc, hprev]
    simp only [Rule.feed, hcut, hextend]

theorem run_all (r : Rule α) (is : List (Option α)) : (r.run is).all = is.reduceOption := by
  induction is using List.reverseRecOn with
  | nil => rfl
  | append_singleton is i ih =>
    cases i with
    | none => simp [Rule.act, ih, List.reduceOption_append]
    | some x => simp [Rule.act, ih, List.reduceOption_append]

theorem done_subset_segs (c : Cut α) {seg : List α} (h : seg ∈ c.done) : seg ∈ c.segs :=
  List.mem_append_left _ h

theorem run_nonempty (r : Rule α) (is : List (Option α)) : ∀ seg ∈ (r.run is).segs, seg ≠ [] := by
  induction is using List.reverseRecOn with
  | nil => simp
  | append_singleton is i ih =>
    rw [run_snoc]
    cases i with
    | none => simpa [Rule.act] using ih
    | some x =>
      intro seg hseg
      rw [Rule.act] at hseg
      by_cases hopen : (r.run is).current = [] ∨ r.cutsBefore (r.run is) x
      · rw [segs_feed_open r _ x hopen, List.mem_append, List.mem_singleton] at hseg
        rcases hseg with hseg | rfl
        · exact ih seg hseg
        · simp
      · rw [segs_feed_join r _ x (not_or.mp hopen).2, List.mem_append, List.mem_singleton] at hseg
        rcases hseg with hseg | rfl
        · exact ih seg (done_subset_segs _ hseg)
        · simp

/-- The rule ends this segment behind its last item. -/
def Rule.ClosedBehind (r : Rule α) (seg : List α) : Prop :=
  ∃ p x, seg = p ++ [x] ∧ r.after p x = true

/-- No earlier item of the segment ended it, on either side. -/
def Rule.Unbroken (r : Rule α) (seg : List α) : Prop :=
  ∀ p x q, seg = p ++ x :: q →
    (p ≠ [] → r.before p x = false) ∧ (q ≠ [] → r.after p x = false)

/-- Why a segment stops where the next one starts. -/
def Rule.Stops (r : Rule α) (seg next : List α) : Prop :=
  r.ClosedBehind seg ∨ ∃ x ∈ next.head?, r.before seg x = true

/-- The greedy segmentation, stated on its segments alone. -/
structure Rule.Greedy (r : Rule α) (xs : List α) (c : Cut α) : Prop where
  covers : c.done.flatten ++ c.current = xs
  nonempty : ∀ seg ∈ c.segs, seg ≠ []
  unbroken : ∀ seg ∈ c.segs, r.Unbroken seg
  stops : c.segs.IsChain r.Stops
  closed : c.current = [] → ∀ seg ∈ c.done.getLast?, r.ClosedBehind seg
  running : ¬ r.ClosedBehind c.current

theorem unbroken_singleton (r : Rule α) (x : α) : r.Unbroken [x] := by
  intro p y q h
  cases p with
  | nil =>
    simp only [List.nil_append, List.cons.injEq] at h
    exact ⟨fun hp => absurd rfl hp, fun hq => absurd h.2.symm hq⟩
  | cons z p => simp at h

/-- A segment that neither side of its last item has ended grows unbroken. -/
theorem unbroken_snoc (r : Rule α) (seg : List α) (x : α) (h : r.Unbroken seg)
    (hopen : ¬ r.ClosedBehind seg) (hbefore : seg ≠ [] → r.before seg x = false) :
    r.Unbroken (seg ++ [x]) := by
  intro p y q hq
  rcases List.eq_nil_or_concat q with rfl | ⟨q, z, rfl⟩
  · obtain ⟨rfl, hy⟩ := List.append_inj' hq rfl
    obtain rfl : x = y := by simpa using hy
    exact ⟨hbefore, fun hn => absurd rfl hn⟩
  · have hsplit : seg ++ [x] = (p ++ y :: q) ++ [z] := by simpa using hq
    obtain ⟨hseg, -⟩ := List.append_inj' hsplit rfl
    refine ⟨(h p y q hseg).1, fun _ => ?_⟩
    cases q with
    | nil =>
      cases ha : r.after p y with
      | false => rfl
      | true => exact absurd ⟨p, y, hseg, ha⟩ hopen
    | cons w q => exact (h p y (w :: q) hseg).2 (by simp)

theorem closedBehind_snoc (r : Rule α) (seg : List α) (x : α) :
    r.ClosedBehind (seg ++ [x]) ↔ r.after seg x = true := by
  constructor
  · rintro ⟨p, y, h, ha⟩
    obtain ⟨rfl, hy⟩ := List.append_inj' h rfl
    obtain rfl : x = y := by simpa using hy
    exact ha
  · exact fun ha => ⟨seg, x, rfl, ha⟩

theorem not_closedBehind_nil (r : Rule α) : ¬ r.ClosedBehind [] := by
  rintro ⟨p, x, h, -⟩
  simp at h

theorem stops_snoc (r : Rule α) (seg next : List α) (x : α) (hn : next ≠ [])
    (h : r.Stops seg next) : r.Stops seg (next ++ [x]) := by
  cases next with
  | nil => exact absurd rfl hn
  | cons y next => simpa [Rule.Stops] using h

/-- What an extension leaves open, and what it has closed. -/
theorem extend_ends (r : Rule α) (c : Cut α) (x : α) :
    ((r.extend c x).current = [] → ∀ seg ∈ (r.extend c x).done.getLast?, r.ClosedBehind seg) ∧
      ¬ r.ClosedBehind (r.extend c x).current := by
  unfold Rule.extend
  split
  · rename_i ha
    refine ⟨fun _ seg hseg => ?_, not_closedBehind_nil r⟩
    obtain rfl : c.current ++ [x] = seg := by simpa using hseg
    exact (closedBehind_snoc r _ _).mpr ha
  · rename_i ha
    exact ⟨fun hc => absurd hc (by simp), fun hc => ha ((closedBehind_snoc r _ _).mp hc)⟩

theorem greedy_empty (r : Rule α) : r.Greedy [] Cut.empty where
  covers := rfl
  nonempty := by simp
  unbroken := by simp
  stops := by simp
  closed := by simp [Cut.empty]
  running := not_closedBehind_nil r

/-- One more item keeps the segmentation greedy. -/
theorem greedy_feed (r : Rule α) (xs : List α) (c : Cut α) (x : α) (h : r.Greedy xs c) :
    r.Greedy (xs ++ [x]) (r.feed c x) := by
  have hcovers : (r.feed c x).done.flatten ++ (r.feed c x).current = xs ++ [x] := by
    have hall := all_feed r c x
    simpa only [Cut.all, h.covers] using hall
  have hends := extend_ends r (if r.cutsBefore c x then c.flush else c) x
  by_cases hnew : c.current = [] ∨ r.cutsBefore c x
  · have hsegs := segs_feed_open r c x hnew
    refine ⟨hcovers, ?_, ?_, ?_, hends.1, hends.2⟩
    · intro seg hseg
      rw [hsegs, List.mem_append, List.mem_singleton] at hseg
      rcases hseg with hseg | rfl
      · exact h.nonempty seg hseg
      · simp
    · intro seg hseg
      rw [hsegs, List.mem_append, List.mem_singleton] at hseg
      rcases hseg with hseg | rfl
      · exact h.unbroken seg hseg
      · exact unbroken_singleton r x
    · rw [hsegs, List.isChain_append]
      refine ⟨h.stops, by simp, fun seg hseg next hnext => ?_⟩
      obtain rfl : [x] = next := by simpa using hnext
      by_cases hc : c.current = []
      · exact Or.inl (h.closed hc seg (by simpa [segs_of_current_nil c hc] using hseg))
      · have hlast : c.current = seg := by simpa [segs_of_current_ne_nil c hc] using hseg
        exact Or.inr ⟨x, by simp, hlast ▸ (hnew.resolve_left hc).2⟩
  · obtain ⟨hc, hb⟩ := not_or.mp hnew
    have hold := segs_of_current_ne_nil c hc
    have hsegs := segs_feed_join r c x hb
    have hbefore : r.before c.current x = false := by
      cases hv : r.before c.current x with
      | false => rfl
      | true => exact absurd ⟨hc, hv⟩ hb
    refine ⟨hcovers, ?_, ?_, ?_, hends.1, hends.2⟩
    · intro seg hseg
      rw [hsegs, List.mem_append, List.mem_singleton] at hseg
      rcases hseg with hseg | rfl
      · exact h.nonempty seg (by simp [hold, hseg])
      · simp
    · intro seg hseg
      rw [hsegs, List.mem_append, List.mem_singleton] at hseg
      rcases hseg with hseg | rfl
      · exact h.unbroken seg (by simp [hold, hseg])
      · exact unbroken_snoc r _ _ (h.unbroken _ (by simp [hold])) h.running (fun _ => hbefore)
    · have hchain := h.stops
      rw [hold, List.isChain_append] at hchain
      rw [hsegs, List.isChain_append]
      refine ⟨hchain.1, by simp, fun seg hseg next hnext => ?_⟩
      obtain rfl : c.current ++ [x] = next := by simpa using hnext
      exact stops_snoc r _ _ _ hc (hchain.2.2 seg hseg c.current (by simp))

/-- The computed cut is the greedy segmentation of its stream. -/
theorem greedy_cut (r : Rule α) (xs : List α) : r.Greedy xs (r.cut xs) := by
  induction xs using List.reverseRecOn with
  | nil => exact greedy_empty r
  | append_singleton xs x ih => simpa using greedy_feed r xs _ x ih

/-- However an input is flushed, no segment goes on behind an item that ends it. -/
theorem run_unbroken (r : Rule α) (is : List (Option α)) :
    (∀ seg ∈ (r.run is).segs, r.Unbroken seg) ∧ ¬ r.ClosedBehind (r.run is).current := by
  induction is using List.reverseRecOn with
  | nil => exact ⟨by simp, not_closedBehind_nil r⟩
  | append_singleton is i ih =>
    obtain ⟨hunbroken, hrunning⟩ := ih
    rw [run_snoc]
    cases i with
    | none =>
      rw [Rule.act, segs_flush, current_flush]
      exact ⟨hunbroken, not_closedBehind_nil r⟩
    | some x =>
      rw [Rule.act]
      refine ⟨?_, (extend_ends r _ x).2⟩
      by_cases hopen : (r.run is).current = [] ∨ r.cutsBefore (r.run is) x
      · rw [segs_feed_open r _ x hopen, List.forall_mem_append]
        exact ⟨hunbroken, by simpa using unbroken_singleton r x⟩
      · obtain ⟨hc, hb⟩ := not_or.mp hopen
        have hbefore : r.before (r.run is).current x = false := by
          cases hv : r.before (r.run is).current x with
          | false => rfl
          | true => exact absurd ⟨hc, hv⟩ hb
        have hcurrent : (r.run is).current ∈ (r.run is).segs := by
          rw [segs_of_current_ne_nil _ hc]
          simp
        rw [segs_feed_join r _ x hb, List.forall_mem_append]
        refine ⟨fun seg hseg => hunbroken seg (done_subset_segs _ hseg), ?_⟩
        simpa using unbroken_snoc r _ x (hunbroken _ hcurrent) hrunning fun _ => hbefore

/-- A rule that never cuts in front of an item has ended every segment behind its last item. -/
theorem done_closedBehind {r : Rule α} (hbefore : ∀ seg x, r.before seg x = false) (xs : List α) :
    ∀ seg ∈ (r.run (xs.map some)).done, r.ClosedBehind seg := by
  induction xs using List.reverseRecOn with
  | nil => simp [Cut.empty]
  | append_singleton xs x ih =>
    have hnot : ¬ r.cutsBefore (r.run (xs.map some)) x := by
      rintro ⟨-, hcut⟩
      rw [hbefore] at hcut
      cases hcut
    rw [List.map_append, List.map_singleton, run_snoc, Rule.act, Rule.feed, if_neg hnot, Rule.extend]
    split
    · rename_i hafter
      rw [List.forall_mem_append]
      exact ⟨ih, by simpa using (closedBehind_snoc r _ x).mpr hafter⟩
    · exact ih

/-- In front of its last item an unbroken segment is unbroken and still open. -/
theorem unbroken_front {r : Rule α} {seg : List α} {x : α} (h : r.Unbroken (seg ++ [x])) :
    r.Unbroken seg ∧ ¬ r.ClosedBehind seg ∧ (seg ≠ [] → r.before seg x = false) := by
  refine ⟨?_, ?_, (h seg x [] rfl).1⟩
  · rintro p y q rfl
    obtain ⟨hbefore, hafter⟩ := h p y (q ++ [x]) (by simp)
    exact ⟨hbefore, fun _ => hafter (by simp)⟩
  · rintro ⟨p, y, rfl, hafter⟩
    have hopen := (h p y [x] (by simp)).2 (by simp)
    rw [hafter] at hopen
    cases hopen

theorem not_cutsBefore_of_unbroken {r : Rule α} {seg : List α} {x : α}
    (h : seg ≠ [] → r.before seg x = false) : ¬ r.cutsBefore ⟨[], seg⟩ x := by
  rintro ⟨hne, hbefore⟩
  rw [h hne] at hbefore
  cases hbefore

/-- An unbroken segment that nothing ends is not cut. -/
theorem cut_of_unbroken {r : Rule α} {seg : List α} (h : r.Unbroken seg)
    (hopen : ¬ r.ClosedBehind seg) : r.cut seg = ⟨[], seg⟩ := by
  induction seg using List.reverseRecOn with
  | nil => rfl
  | append_singleton seg x ih =>
    obtain ⟨hfront, hfrontOpen, hbefore⟩ := unbroken_front h
    rw [closedBehind_snoc] at hopen
    rw [cut_snoc, ih hfront hfrontOpen, Rule.feed, if_neg (not_cutsBefore_of_unbroken hbefore),
      Rule.extend, if_neg hopen]

/-- And one that its last item ends is cut there. -/
theorem cut_of_closedBehind {r : Rule α} {seg : List α} (h : r.Unbroken seg)
    (hclosed : r.ClosedBehind seg) : r.cut seg = ⟨[seg], []⟩ := by
  obtain ⟨front, x, rfl, hafter⟩ := hclosed
  obtain ⟨hfront, hfrontOpen, hbefore⟩ := unbroken_front h
  rw [cut_snoc, cut_of_unbroken hfront hfrontOpen, Rule.feed,
    if_neg (not_cutsBefore_of_unbroken hbefore), Rule.extend, if_pos hafter]
  rfl

/-- All items of a segment are of one class. -/
def Uniform {β : Type} (f : α → β) (seg : List α) : Prop := ∀ x ∈ seg, ∀ y ∈ seg, f x = f y

/-- Neighbours of the input are of one class; a flush is a neighbour of any. -/
def SameClass {β : Type} (f : α → β) (a b : Option α) : Prop := ∀ x ∈ a, ∀ y ∈ b, f x = f y

/-- A rule that cuts nowhere in front of an item, and behind none while the open
segment is of its class. -/
structure Rule.Lazy {β : Type} (r : Rule α) (f : α → β) (P : α → Prop) : Prop where
  before : ∀ seg x, r.before seg x = false
  after : ∀ seg x, (∀ y ∈ seg, P y) → P x → (∀ y ∈ seg, f y = f x) → r.after seg x = false

theorem Rule.Lazy.not_cutsBefore {β : Type} {f : α → β} {P : α → Prop} {r : Rule α}
    (hr : r.Lazy f P) (c : Cut α) (x : α) : ¬ r.cutsBefore c x := by
  rintro ⟨-, hbefore⟩
  rw [hr.before] at hbefore
  cases hbefore

theorem segs_act_some {β : Type} {f : α → β} {P : α → Prop} {r : Rule α} (hr : r.Lazy f P)
    (c : Cut α) (x : α) : (r.act c (some x)).segs = c.done ++ [c.current ++ [x]] :=
  segs_feed_join r c x (hr.not_cutsBefore c x)

theorem segs_act_prefix (r : Rule α) (c : Cut α) (i : Option α) {seg : List α} (hseg : seg ∈ c.segs) :
    ∃ seg' ∈ (r.act c i).segs, seg <+: seg' := by
  cases i with
  | none => exact ⟨seg, by simpa [Rule.act] using hseg, List.prefix_refl seg⟩
  | some x => exact segs_feed_prefix r c x hseg

/-- While neighbours agree, an item stays in the open segment until a flush. -/
theorem run_of_sameClass {β : Type} {f : α → β} {P : α → Prop} {r : Rule α} (hr : r.Lazy f P)
    {is : List (Option α)} (hP : ∀ x, some x ∈ is → P x) (hchain : is.IsChain (SameClass f)) :
    (∀ seg ∈ (r.run is).segs, Uniform f seg) ∧ (∀ x ∈ (r.run is).current, P x) ∧
      (r.run is).current.getLast? = is.getLast?.join := by
  induction is using List.reverseRecOn with
  | nil => exact ⟨by simp, by simp [Cut.empty], rfl⟩
  | append_singleton is i ih =>
    obtain ⟨hprev, -, hlast⟩ := List.isChain_append.mp hchain
    obtain ⟨huniform, hcurrent, hopen⟩ := ih (fun x hx => hP x (List.mem_append_left _ hx)) hprev
    rw [run_snoc]
    cases i with
    | none => exact ⟨by simpa [Rule.act] using huniform, by simp [Rule.act], by simp [Rule.act]⟩
    | some x =>
      have hx : P x := hP x (by simp)
      have hsame : ∀ y ∈ (r.run is).current, f y = f x := by
        intro y hy
        obtain ⟨z, hz⟩ := List.getLast?_isSome.mpr (List.ne_nil_of_mem hy) |> Option.isSome_iff_exists.mp
        have hneighbour : some z ∈ is.getLast? := by
          rw [hopen] at hz
          exact Option.join_eq_some_iff.mp hz
        have hseg : (r.run is).current ∈ (r.run is).segs := by
          rw [segs_of_current_ne_nil _ (List.ne_nil_of_mem hy)]
          simp
        exact (huniform _ hseg y hy z (List.mem_of_getLast? hz)).trans
          (hlast (some z) hneighbour (some x) rfl z rfl x rfl)
      have hact : r.act (r.run is) (some x) = ⟨(r.run is).done, (r.run is).current ++ [x]⟩ := by
        simp [Rule.act, Rule.feed, hr.not_cutsBefore, Rule.extend, hr.after _ x hcurrent hx hsame]
      refine ⟨?_, ?_, ?_⟩
      · intro seg hseg
        rw [segs_act_some hr, List.mem_append, List.mem_singleton] at hseg
        rcases hseg with hseg | rfl
        · exact huniform seg (done_subset_segs _ hseg)
        · intro y hy z hz
          have hto : ∀ w ∈ (r.run is).current ++ [x], f w = f x := by
            intro w hw
            rcases List.mem_append.mp hw with hw | hw
            · exact hsame w hw
            · rw [List.mem_singleton.mp hw]
          exact (hto y hy).trans (hto z hz).symm
      · rw [hact]
        intro y hy
        rcases List.mem_append.mp hy with hy | hy
        · exact hcurrent y hy
        · rw [List.mem_singleton.mp hy]
          exact hx
      · rw [hact]
        simp

/-- A lazy rule keeps classes apart exactly when a flush comes between any two
neighbours of different classes. -/
theorem run_uniform_iff {β : Type} {f : α → β} {P : α → Prop} {r : Rule α} (hr : r.Lazy f P)
    {is : List (Option α)} (hP : ∀ x, some x ∈ is → P x) :
    (∀ seg ∈ (r.run is).segs, Uniform f seg) ↔ is.IsChain (SameClass f) := by
  refine ⟨fun huniform => ?_, fun hchain => (run_of_sameClass hr hP hchain).1⟩
  induction is using List.reverseRecOn with
  | nil => exact .nil
  | append_singleton is i ih =>
    rw [run_snoc] at huniform
    have hP' : ∀ x, some x ∈ is → P x := fun x hx => hP x (List.mem_append_left _ hx)
    have hchain : is.IsChain (SameClass f) := by
      apply ih hP'
      intro seg hseg x hx y hy
      obtain ⟨seg', hseg', hfront⟩ := segs_act_prefix r (r.run is) i hseg
      exact huniform seg' hseg' x (hfront.subset hx) y (hfront.subset hy)
    refine List.isChain_append.mpr ⟨hchain, by simp, ?_⟩
    rintro a ha b hb x rfl y rfl
    obtain rfl : i = some y := by simpa using hb
    obtain ⟨-, -, hopen⟩ := run_of_sameClass hr hP' hchain
    have hx : x ∈ (r.run is).current := by
      apply List.mem_of_getLast?
      rw [hopen, Option.mem_def.mp ha]
      rfl
    apply huniform ((r.run is).current ++ [y]) _ x (by simp [hx]) y (by simp)
    rw [segs_act_some hr]
    simp

section Extremes

variable [LinearOrder α]

theorem isGreatest_snoc {xs : List α} {m : α} (h : IsGreatest {p | p ∈ xs} m) (x : α) :
    IsGreatest {p | p ∈ xs ++ [x]} (max m x) := by
  have hset : {p | p ∈ xs ++ [x]} = {p | p ∈ xs} ∪ {x} := by
    ext p
    simp [or_comm]
  rw [hset]
  exact h.union isGreatest_singleton

theorem isLeast_snoc {xs : List α} {m : α} (h : IsLeast {p | p ∈ xs} m) (x : α) :
    IsLeast {p | p ∈ xs ++ [x]} (min m x) := by
  have hset : {p | p ∈ xs ++ [x]} = {p | p ∈ xs} ∪ {x} := by
    ext p
    simp [or_comm]
  rw [hset]
  exact h.union isLeast_singleton

end Extremes

end GreedySegments
