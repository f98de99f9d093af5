import Mathlib.Data.List.Basic
import Mathlib.Data.List.Pairwise

/-!
# Updates in place and insertions at the end

Each item is put into a list of records: it updates the first record it is found
in, or a new record is made for it at the end. When no record can be found by two
of the items, all of them together update the old records independently of their
order, and the new records come in the order of their items.
-/
namespace Upserts

variable {α β : Type}

/-- An update of a found record leaves it to be found by the same items, and a new
record is found by its own. -/
structure Upsert (α β : Type) where
  found : β → α → Bool
  update : β → α → α
  create : β → α
  found_update : ∀ b c x, found c x = true → found b (update c x) = found b x
  found_create : ∀ b, found b (create b) = true

variable (u : Upsert α β)

/-- The records, and the items that new records were made for. -/
def put (s : List α × List β) (b : β) : List α × List β :=
  match s.1.findIdx? (u.found b) with
  | some i => (s.1.modify i (u.update b), s.2)
  | none => (s.1 ++ [u.create b], s.2 ++ [b])

def isNew (xs : List α) (b : β) : Bool := xs.all fun x => !u.found b x

def updateFirst (b : β) : List α → List α
  | [] => []
  | x :: xs => if u.found b x then u.update b x :: xs else x :: updateFirst b xs

/-- No record is found by both items. -/
def Apart (b c : β) : Prop := ∀ x, ¬ (u.found b x = true ∧ u.found c x = true)

/-- All updates at once: a record is updated by an item that no record before it
was found by. -/
def touch : List β → List α → List α
  | _, [] => []
  | bs, x :: xs =>
    match bs.find? fun b => u.found b x with
    | some b => u.update b x :: touch (bs.filter fun c => !u.found c x) xs
    | none => x :: touch bs xs

variable {u}

theorem apart_symm {b c : β} (h : Apart u b c) : Apart u c b := fun x hx => h x hx.symm

theorem not_found_of_apart {b c : β} (h : Apart u b c) {x : α} (hb : u.found b x = true) :
    u.found c x = false := by
  cases hc : u.found c x with
  | false => rfl
  | true => exact absurd ⟨hb, hc⟩ (h x)

theorem isNew_cons (x : α) (xs : List α) (b : β) :
    isNew u (x :: xs) b = (!u.found b x && isNew u xs b) := by
  rw [isNew, List.all_cons, ← isNew]

theorem isNew_append (xs ys : List α) (b : β) :
    isNew u (xs ++ ys) b = (isNew u xs b && isNew u ys b) := by
  rw [isNew, List.all_append, ← isNew, ← isNew]

/-- Whether an item is new is read off from which records it finds. -/
theorem isNew_eq_map (xs : List α) (b : β) :
    isNew u xs b = (xs.map (u.found b)).all fun found => !found := by
  simp [isNew, List.all_map, Function.comp_def]

theorem modify_findIdx? (b : β) (xs : List α) {i : Nat} (h : xs.findIdx? (u.found b) = some i) :
    isNew u xs b = false ∧ xs.modify i (u.update b) = updateFirst u b xs := by
  induction xs generalizing i with
  | nil => simp at h
  | cons x xs ih =>
    rw [List.findIdx?_cons] at h
    split at h
    · rename_i hx
      cases h
      simp [isNew, updateFirst, hx]
    · rename_i hx
      obtain ⟨j, hj, rfl⟩ := Option.map_eq_some_iff.mp h
      obtain ⟨hnew, hmodify⟩ := ih hj
      constructor
      · rw [isNew_cons, hnew, Bool.and_false]
      · simp [updateFirst, hx, hmodify]

theorem isNew_iff {xs : List α} {b : β} :
    isNew u xs b = true ↔ xs.findIdx? (u.found b) = none := by
  simp [isNew, List.findIdx?_eq_none_iff]

theorem isNew_iff_find? {xs : List α} {b : β} :
    isNew u xs b = true ↔ xs.find? (u.found b) = none := by
  simp [isNew, List.find?_eq_none]

theorem put_eq (xs : List α) (log : List β) (b : β) :
    put u (xs, log) b =
      if isNew u xs b then (xs ++ [u.create b], log ++ [b]) else (updateFirst u b xs, log) := by
  unfold put
  split
  · rename_i i h
    obtain ⟨hnew, hmodify⟩ := modify_findIdx? b xs h
    simp [hnew, hmodify]
  · rename_i h
    simp [isNew_iff.mpr h]

theorem isNew_create {b c : β} (h : Apart u b c) (xs : List α) :
    isNew u (xs ++ [u.create b]) c = isNew u xs c := by
  simp [isNew, not_found_of_apart h (u.found_create b)]

theorem map_found_updateFirst (b c : β) (xs : List α) :
    (updateFirst u b xs).map (u.found c) = xs.map (u.found c) := by
  induction xs with
  | nil => rfl
  | cons x xs ih =>
    unfold updateFirst
    split
    · rename_i hb
      rw [List.map_cons, List.map_cons, u.found_update c b x hb]
    · rw [List.map_cons, List.map_cons, ih]

theorem isNew_updateFirst (b c : β) (xs : List α) :
    isNew u (updateFirst u b xs) c = isNew u xs c := by
  rw [isNew_eq_map, map_found_updateFirst, ← isNew_eq_map]

theorem length_updateFirst (b : β) (xs : List α) : (updateFirst u b xs).length = xs.length := by
  simpa using congrArg List.length (map_found_updateFirst b b xs)

theorem updateFirst_append (b : β) (xs ys : List α) :
    updateFirst u b (xs ++ ys) =
      if isNew u xs b then xs ++ updateFirst u b ys else updateFirst u b xs ++ ys := by
  induction xs with
  | nil => simp [isNew]
  | cons x xs ih =>
    by_cases hb : u.found b x = true
    · simp [updateFirst, isNew, hb]
    · have hcons : isNew u (x :: xs) b = isNew u xs b := by simp [isNew_cons, hb]
      rw [List.cons_append, updateFirst, if_neg hb, ih, hcons, updateFirst, if_neg hb]
      split <;> rfl

/-- A property of records that every update of a found record keeps. -/
theorem forall_updateFirst {P : α → Prop} {b : β} {xs : List α} (h : ∀ x ∈ xs, P x)
    (hkeep : ∀ x, P x → u.found b x = true → P (u.update b x)) : ∀ x ∈ updateFirst u b xs, P x := by
  induction xs with
  | nil => exact h
  | cons x xs ih =>
    obtain ⟨hx, hxs⟩ := List.forall_mem_cons.mp h
    unfold updateFirst
    split
    · exact List.forall_mem_cons.mpr ⟨hkeep x hx ‹_›, hxs⟩
    · exact List.forall_mem_cons.mpr ⟨hx, ih hxs⟩

/-- Only the first record that is found can lose a property. -/
theorem forall_updateFirst_iff {P : α → Prop} {b : β} {xs : List α} (h : ∀ x ∈ xs, P x) :
    (∀ x ∈ updateFirst u b xs, P x) ↔ ∀ x, xs.find? (u.found b) = some x → P (u.update b x) := by
  induction xs with
  | nil => simp [updateFirst]
  | cons x xs ih =>
    obtain ⟨hx, hxs⟩ := List.forall_mem_cons.mp h
    rw [updateFirst, List.find?_cons]
    by_cases hfound : u.found b x = true
    · simp only [hfound, if_true, List.forall_mem_cons, Option.some.injEq, forall_eq']
      exact ⟨fun hall => hall.1, fun hupdate => ⟨hupdate, hxs⟩⟩
    · simp only [hfound, Bool.false_eq_true, if_false, List.forall_mem_cons, hx, true_and]
      exact ih hxs

theorem touch_nil (xs : List α) : touch u [] xs = xs := by
  induction xs with
  | nil => rfl
  | cons x xs ih => simp [touch, ih]

theorem filter_of_apart {b : β} {bs : List β} (h : ∀ c ∈ bs, Apart u b c) {x : α}
    (hb : u.found b x = true) : (bs.filter fun c => !u.found c x) = bs := by
  rw [List.filter_eq_self]
  intro c hc
  simp [not_found_of_apart (h c hc) hb]

theorem find?_of_apart {b : β} {bs : List β} (h : ∀ c ∈ bs, Apart u b c) {x : α}
    (hb : u.found b x = true) : (bs.find? fun c => u.found c x) = none := by
  rw [List.find?_eq_none]
  intro c hc
  simp [not_found_of_apart (h c hc) hb]

/-- One item first, and then the rest. -/
theorem touch_cons {b : β} {bs : List β} (h : ∀ c ∈ bs, Apart u b c) (xs : List α) :
    touch u (b :: bs) xs = touch u bs (updateFirst u b xs) := by
  induction xs generalizing bs with
  | nil => rfl
  | cons x xs ih =>
    by_cases hb : u.found b x = true
    · have hnone : (bs.find? fun c => u.found c (u.update b x)) = none := by
        have hsame : (fun c => u.found c (u.update b x)) = fun c => u.found c x :=
          funext fun c => u.found_update c b x hb
        rw [hsame]
        exact find?_of_apart h hb
      simp [touch, updateFirst, hb, hnone, filter_of_apart h hb]
    · have hkept : ((b :: bs).filter fun c => !u.found c x) =
          b :: bs.filter fun c => !u.found c x := by simp [hb]
      have hrest : ∀ c ∈ bs.filter (fun c => !u.found c x), Apart u b c := fun c hc =>
        h c (List.mem_of_mem_filter hc)
      simp only [touch, updateFirst, hb, Bool.false_eq_true, if_false, List.find?_cons]
      cases hfind : bs.find? fun c => u.found c x with
      | some c => simp only [hkept, ih hrest]
      | none => simp only [ih h]

/-- An item that is found in no record updates none. -/
theorem touch_cons_new {b : β} {bs : List β} {xs : List α} (hb : isNew u xs b = true) :
    touch u (b :: bs) xs = touch u bs xs := by
  induction xs generalizing bs with
  | nil => rfl
  | cons x xs ih =>
    rw [isNew_cons, Bool.and_eq_true] at hb
    have hx : u.found b x = false := by simpa using hb.1
    simp only [touch, List.find?_cons, hx, List.filter_cons, Bool.not_false, if_true, ih hb.2]

theorem touch_append_apart {bs : List β} {y : α} (h : ∀ c ∈ bs, u.found c y = false)
    (xs : List α) : touch u bs (xs ++ [y]) = touch u bs xs ++ [y] := by
  induction xs generalizing bs with
  | nil =>
    have hnone : (bs.find? fun c => u.found c y) = none := by
      rw [List.find?_eq_none]
      intro c hc
      simp [h c hc]
    simp [touch, hnone]
  | cons x xs ih =>
    rw [List.cons_append, touch, touch]
    split
    · rw [ih fun c hc => h c (List.mem_of_mem_filter hc), List.cons_append]
    · rw [ih h, List.cons_append]

/-- All items, one after the other. -/
theorem foldl_put {bs : List β} (h : bs.Pairwise (Apart u)) (xs : List α) (log : List β) :
    bs.foldl (put u) (xs, log) =
      (touch u bs xs ++ (bs.filter (isNew u xs)).map u.create, log ++ bs.filter (isNew u xs)) := by
  induction bs generalizing xs log with
  | nil => simp [touch_nil]
  | cons b bs ih =>
    obtain ⟨hb, hbs⟩ := List.pairwise_cons.mp h
    rw [List.foldl_cons, put_eq]
    split
    · rename_i hnew
      have hsame : bs.filter (isNew u (xs ++ [u.create b])) = bs.filter (isNew u xs) :=
        List.filter_congr fun c hc => isNew_create (hb c hc) xs
      have hlast : touch u bs (xs ++ [u.create b]) = touch u bs xs ++ [u.create b] :=
        touch_append_apart (fun c hc => not_found_of_apart (hb c hc) (u.found_create b)) xs
      simp [ih hbs, hsame, hlast, touch_cons_new hnew, hnew]
    · rename_i hnew
      have hsame : bs.filter (isNew u (updateFirst u b xs)) = bs.filter (isNew u xs) :=
        List.filter_congr fun c _ => isNew_updateFirst b c xs
      simp [ih hbs, hsame, touch_cons hb, hnew]

theorem eq_of_found {bs : List β} (h : bs.Pairwise (Apart u)) {b c : β} (hb : b ∈ bs) (hc : c ∈ bs)
    {x : α} (hbx : u.found b x = true) (hcx : u.found c x = true) : b = c := by
  have : Std.Symm (Apart u) := ⟨fun _ _ => apart_symm⟩
  by_contra hne
  exact h.forall hb hc hne x ⟨hbx, hcx⟩

/-- What is found does not depend on the order of a list where nothing else could be. -/
theorem find?_of_perm {p : α → Bool} {xs ys : List α} (hperm : xs.Perm ys)
    (hone : ∀ x ∈ xs, ∀ y ∈ xs, p x = true → p y = true → x = y) : xs.find? p = ys.find? p := by
  cases hx : xs.find? p with
  | none =>
    symm
    rw [List.find?_eq_none] at hx ⊢
    exact fun y hy => hx y (hperm.mem_iff.mpr hy)
  | some x =>
    have hxs := List.mem_of_find?_eq_some hx
    cases hy : ys.find? p with
    | none =>
      exact absurd (List.find?_some hx) (List.find?_eq_none.mp hy x (hperm.mem_iff.mp hxs))
    | some y =>
      have hys := hperm.mem_iff.mpr (List.mem_of_find?_eq_some hy)
      rw [hone x hxs y hys (List.find?_some hx) (List.find?_some hy)]

theorem find?_perm {bs bs' : List β} (h : bs.Pairwise (Apart u)) (hperm : bs.Perm bs') (x : α) :
    (bs.find? fun b => u.found b x) = bs'.find? fun b => u.found b x :=
  find?_of_perm hperm fun _ hb _ hc hbx hcx => eq_of_found h hb hc hbx hcx

theorem touch_perm {bs bs' : List β} (h : bs.Pairwise (Apart u)) (hperm : bs.Perm bs')
    (xs : List α) : touch u bs xs = touch u bs' xs := by
  induction xs generalizing bs bs' with
  | nil => rfl
  | cons x xs ih =>
    rw [touch, touch, find?_perm h hperm]
    split
    · rw [ih (h.filter _) (hperm.filter _)]
    · rw [ih h hperm]

/-- The order of the items changes only the order of the new records. -/
theorem foldl_put_perm {bs bs' : List β} (h : bs.Pairwise (Apart u)) (hperm : bs.Perm bs')
    (xs : List α) :
    (bs.foldl (put u) (xs, [])).1.Perm (bs'.foldl (put u) (xs, [])).1 ∧
      (bs.foldl (put u) (xs, [])).2.Perm (bs'.foldl (put u) (xs, [])).2 := by
  have h' : bs'.Pairwise (Apart u) := hperm.pairwise h apart_symm
  rw [foldl_put h, foldl_put h', touch_perm h hperm]
  exact ⟨((hperm.filter _).map _).append_left _, by simpa using hperm.filter _⟩

/-- A property of records that every update and every new record has. -/
theorem forall_foldl_put {P : α → Prop} {bs : List β} {xs : List α} (h : ∀ x ∈ xs, P x)
    (hupdate : ∀ b x, P x → u.found b x = true → P (u.update b x)) (hcreate : ∀ b, P (u.create b))
    (log : List β) : ∀ x ∈ (bs.foldl (put u) (xs, log)).1, P x := by
  induction bs generalizing xs log with
  | nil => exact h
  | cons b bs ih =>
    rw [List.foldl_cons, put_eq]
    split
    · refine ih (fun x hx => ?_) _
      rcases List.mem_append.mp hx with hx | hx
      · exact h x hx
      · rw [List.mem_singleton.mp hx]
        exact hcreate b
    · exact ih (forall_updateFirst h (hupdate b)) _

/-- Every old record is still at its index, and related to what it was. -/
def Grows (R : α → α → Prop) (old new : List α) : Prop :=
  ∀ (i : Nat) (x : α), old[i]? = some x → ∃ y, new[i]? = some y ∧ R x y

theorem grows_refl {R : α → α → Prop} (hrefl : ∀ x, R x x) (xs : List α) : Grows R xs xs :=
  fun _ x hx => ⟨x, hx, hrefl x⟩

theorem grows_trans {R : α → α → Prop} (htrans : ∀ x y z, R x y → R y z → R x z)
    {xs ys zs : List α} (h : Grows R xs ys) (h' : Grows R ys zs) : Grows R xs zs := by
  intro i x hx
  obtain ⟨y, hy, hxy⟩ := h i x hx
  obtain ⟨z, hz, hyz⟩ := h' i y hy
  exact ⟨z, hz, htrans x y z hxy hyz⟩

theorem grows_append {R : α → α → Prop} (hrefl : ∀ x, R x x) (xs more : List α) :
    Grows R xs (xs ++ more) := by
  intro i x hx
  obtain ⟨hlt, -⟩ := List.getElem?_eq_some_iff.mp hx
  exact ⟨x, by rw [List.getElem?_append_left hlt, hx], hrefl x⟩

theorem grows_map {R : α → α → Prop} {f : α → α} (h : ∀ x, R x (f x)) (xs : List α) :
    Grows R xs (xs.map f) :=
  fun _ x hx => ⟨f x, by rw [List.getElem?_map, hx, Option.map_some], h x⟩

theorem grows_updateFirst {R : α → α → Prop} (hrefl : ∀ x, R x x) {b : β}
    (hupdate : ∀ x, u.found b x = true → R x (u.update b x)) (xs : List α) :
    Grows R xs (updateFirst u b xs) := by
  induction xs with
  | nil =>
    intro i x hx
    simp at hx
  | cons x xs ih =>
    intro i y hy
    unfold updateFirst
    cases i with
    | zero =>
      obtain rfl : x = y := by simpa using hy
      split
      · exact ⟨_, rfl, hupdate x ‹_›⟩
      · exact ⟨x, rfl, hrefl x⟩
    | succ i =>
      rw [List.getElem?_cons_succ] at hy
      split
      · exact ⟨y, hy, hrefl y⟩
      · exact ih i y hy

/-- What holds of any two records, and survives what may happen to each. -/
theorem pairwise_of_grows {R S : α → α → Prop} {xs ys : List α} (h : Grows R xs ys)
    (hlength : ys.length = xs.length) (hkeep : ∀ x y x' y', R x x' → R y y' → S x y → S x' y')
    (hpairs : xs.Pairwise S) : ys.Pairwise S := by
  rw [List.pairwise_iff_getElem] at hpairs ⊢
  intro i j hi hj hij
  have hxi : i < xs.length := hlength ▸ hi
  have hxj : j < xs.length := hlength ▸ hj
  obtain ⟨y, hy, hry⟩ := h i _ (List.getElem?_eq_getElem hxi)
  obtain ⟨z, hz, hrz⟩ := h j _ (List.getElem?_eq_getElem hxj)
  rw [(List.getElem?_eq_some_iff.mp hy).2, (List.getElem?_eq_some_iff.mp hz).2]
  exact hkeep _ _ _ _ hry hrz (hpairs i j hxi hxj hij)

section Steps

variable {σ : Type} {view : σ → List α} {step : σ → β → σ}

/-- Each step puts its item into the records, with a new record of its own making. -/
def Puts (u : Upsert α β) (view : σ → List α) (step : σ → β → σ) : Prop :=
  ∀ s b, if isNew u (view s) b = true then ∃ x, view (step s b) = view s ++ [x]
    else view (step s b) = updateFirst u b (view s)

/-- The items that are found in the record at an index, and in none before it. -/
def landing (u : Upsert α β) (xs : List α) (i : Nat) (bs : List β) : List β :=
  bs.filter fun b => decide (xs.findIdx? (u.found b) = some i)

theorem updateFirst_of_isNew {xs : List α} {b : β} (h : isNew u xs b = true) :
    updateFirst u b xs = xs := by
  induction xs with
  | nil => rfl
  | cons x xs ih =>
    rw [isNew_cons, Bool.and_eq_true, Bool.not_eq_true'] at h
    rw [updateFirst, h.1, ih h.2]
    simp

theorem getElem?_updateFirst (b : β) (xs : List α) (i : Nat) :
    (updateFirst u b xs)[i]? =
      if xs.findIdx? (u.found b) = some i then xs[i]?.map (u.update b) else xs[i]? := by
  cases hfind : xs.findIdx? (u.found b) with
  | none => rw [updateFirst_of_isNew (isNew_iff.mpr hfind), if_neg (by simp)]
  | some j =>
    rw [← (modify_findIdx? b xs hfind).2, List.getElem?_modify]
    by_cases hij : j = i
    · simp [hij]
    · simp [hij]

theorem landing_updateFirst (b : β) (xs : List α) (i : Nat) (bs : List β) :
    landing u (updateFirst u b xs) i bs = landing u xs i bs := by
  refine List.filter_congr fun c _ => ?_
  have hsame : (updateFirst u b xs).findIdx? (u.found c) = xs.findIdx? (u.found c) := by
    have hmap := congrArg (List.findIdx? id) (map_found_updateFirst (u := u) b c xs)
    simpa only [List.findIdx?_map, Function.id_comp] using hmap
  rw [hsame]

theorem landing_append {xs : List α} {i : Nat} (hi : i < xs.length) (ys : List α) (bs : List β) :
    landing u (xs ++ ys) i bs = landing u xs i bs := by
  refine List.filter_congr fun c _ => ?_
  rw [List.findIdx?_append]
  cases hfind : xs.findIdx? (u.found c) with
  | some j => rfl
  | none =>
    cases hrest : ys.findIdx? (u.found c) with
    | none => rfl
    | some j =>
      simp
      omega

/-- An old record has gone through the updates of the items that land on it. -/
theorem getElem?_foldl (h : Puts u view step) (bs : List β) {s : σ} {i : Nat} {x : α}
    (hx : (view s)[i]? = some x) :
    (view (bs.foldl step s))[i]? =
      some ((landing u (view s) i bs).foldl (fun y b => u.update b y) x) := by
  induction bs generalizing s x with
  | nil => exact hx
  | cons b bs ih =>
    have hstep := h s b
    split at hstep
    · rename_i hnew
      obtain ⟨y, hy⟩ := hstep
      obtain ⟨hlt, -⟩ := List.getElem?_eq_some_iff.mp hx
      have hx' : (view (step s b))[i]? = some x := by rw [hy, List.getElem?_append_left hlt, hx]
      have hnot : landing u (view s) i (b :: bs) = landing u (view s) i bs := by
        simp [landing, isNew_iff.mp hnew]
      rw [List.foldl_cons, ih hx', hy, landing_append hlt, hnot]
    · have hat := getElem?_updateFirst (u := u) b (view s) i
      rw [← hstep, hx] at hat
      split at hat
      · rename_i hland
        rw [List.foldl_cons, ih hat, hstep, landing_updateFirst]
        simp [landing, hland]
      · rename_i hland
        rw [List.foldl_cons, ih hat, hstep, landing_updateFirst]
        simp [landing, hland]

/-- There are more records exactly if some item is found in none. -/
theorem length_foldl (h : Puts u view step) (bs : List β) (s : σ) :
    (view s).length ≤ (view (bs.foldl step s)).length ∧
      ((view (bs.foldl step s)).length = (view s).length ↔ ∀ b ∈ bs, isNew u (view s) b = false) := by
  induction bs generalizing s with
  | nil => simp
  | cons b bs ih =>
    obtain ⟨hle, hiff⟩ := ih (step s b)
    have hstep := h s b
    rw [List.foldl_cons, List.forall_mem_cons]
    split at hstep
    · rename_i hnew
      obtain ⟨y, hy⟩ := hstep
      rw [hy, List.length_append, List.length_singleton] at hle
      refine ⟨by omega, fun heq => by omega, ?_⟩
      rintro ⟨hold, -⟩
      rw [hnew] at hold
      cases hold
    · rename_i hold
      have hlength := length_updateFirst (u := u) b (view s)
      rw [← hstep] at hlength
      rw [← hlength]
      refine ⟨hle, hiff.trans ?_⟩
      simp only [hstep, isNew_updateFirst]
      exact ⟨fun hall => ⟨by simpa using hold, hall⟩, fun hall => hall.2⟩

end Steps

variable {α' β' : Type} {v : Upsert α' β'} {f : α → α'} {g : β → β'}

/-- Records and items can be mapped before they are put together or after it. -/
structure Hom (u : Upsert α β) (v : Upsert α' β') (f : α → α') (g : β → β') : Prop where
  found : ∀ b x, v.found (g b) (f x) = u.found b x
  update : ∀ b x, v.update (g b) (f x) = f (u.update b x)
  create : ∀ b, v.create (g b) = f (u.create b)

theorem isNew_map (h : Hom u v f g) (b : β) (xs : List α) :
    isNew v (xs.map f) (g b) = isNew u xs b := by
  simp only [isNew, List.all_map, Function.comp_def, h.found]

theorem updateFirst_map (h : Hom u v f g) (b : β) (xs : List α) :
    updateFirst v (g b) (xs.map f) = (updateFirst u b xs).map f := by
  induction xs with
  | nil => rfl
  | cons x xs ih =>
    rw [List.map_cons, updateFirst, updateFirst, h.found]
    split
    · rw [List.map_cons, h.update]
    · rw [List.map_cons, ih]

theorem foldl_put_map (h : Hom u v f g) (bs : List β) (xs : List α) (log : List β) :
    (bs.map g).foldl (put v) (xs.map f, log.map g) =
      ((bs.foldl (put u) (xs, log)).1.map f, (bs.foldl (put u) (xs, log)).2.map g) := by
  induction bs generalizing xs log with
  | nil => rfl
  | cons b bs ih =>
    rw [List.map_cons, List.foldl_cons, List.foldl_cons, put_eq, put_eq, isNew_map h]
    split
    · rw [← ih, List.map_append, List.map_singleton, h.create, List.map_append, List.map_singleton]
    · rw [← ih, updateFirst_map h]

end Upserts
