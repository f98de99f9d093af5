import OrderFlow.GuardedRuns
import OrderFlow.Numerals
import OrderFlow.SessionBarProduct

/-!
# The ids of bars

A bar's id is made of its symbol, the time it opened and the label of its size. The
label of a volume of a thousand contracts or more names only the thousands, so two
sizes with the same thousands have one label; all other sizes have labels of their
own. Bars of one series open at different times, so ids are unique as long as no two
series with the same thousands stand side by side.
-/
namespace SessionBars

open GuardedRuns Numerals SessionTypes

/-- The number that a label prints, and what stands behind it. -/
def labelParts (size : BarSize) : UInt32 × String :=
  match size.type with
  | .time =>
    if size.sizeValue % 3600 = 0 then (size.sizeValue / 3600, "h")
    else if size.sizeValue % 60 = 0 then (size.sizeValue / 60, "m")
    else (size.sizeValue, "s")
  | .range => (size.sizeValue, "-range")
  | .volume =>
    if size.sizeValue ≥ 1000 then (size.sizeValue / 1000, "K-vol") else (size.sizeValue, "-vol")

theorem label_eq_parts (size : BarSize) :
    size.label = (labelParts size).1.toNat.repr ++ (labelParts size).2 := by
  unfold BarSize.label labelParts
  cases size.type
  · dsimp only
    split
    · rfl
    · split <;> rfl
  · rfl
  · dsimp only
    split <;> rfl

/-- What stands behind the number, by the type of the size. -/
def suffixes : BarType → List String
  | .time => ["h", "m", "s"]
  | .range => ["-range"]
  | .volume => ["K-vol", "-vol"]

theorem parts_suffix (size : BarSize) : (labelParts size).2 ∈ suffixes size.type := by
  unfold labelParts
  cases size.type
  · dsimp only
    split
    · simp [suffixes]
    · split <;> simp [suffixes]
  · simp [suffixes]
  · dsimp only
    split <;> simp [suffixes]

theorem noDigitFirst_parts (size : BarSize) : NoDigitFirst (labelParts size).2 := by
  have hall : ∀ type, ∀ s ∈ suffixes type, NoDigitFirst s := by
    intro type
    unfold NoDigitFirst
    cases type <;> decide +kernel
  exact hall _ _ (parts_suffix size)

/-- No text stands behind the sizes of two types. -/
theorem type_of_parts {a b : BarSize} (h : labelParts a = labelParts b) : a.type = b.type := by
  have hapart : ∀ ta tb, ta ≠ tb → ∀ s ∈ suffixes ta, s ∉ suffixes tb := by
    intro ta tb
    cases ta <;> cases tb <;> decide +kernel
  by_contra hne
  have ha := parts_suffix a
  rw [h] at ha
  exact hapart _ _ hne _ ha (parts_suffix b)

theorem label_eq_iff_parts (a b : BarSize) : a.label = b.label ↔ labelParts a = labelParts b := by
  rw [label_eq_parts, label_eq_parts]
  constructor
  · intro h
    obtain ⟨hnumber, htext⟩ := repr_append_inj (noDigitFirst_parts a) (noDigitFirst_parts b) h
    exact Prod.ext (UInt32.toNat_inj.mp hnumber) htext
  · rintro h
    rw [h]

/-- Two volumes of at least a thousand contracts, with the same number of thousands. -/
structure SameThousands (a b : BarSize) : Prop where
  left : a.type = .volume
  right : b.type = .volume
  left_large : a.sizeValue ≥ 1000
  right_large : b.sizeValue ≥ 1000
  thousands : a.sizeValue / 1000 = b.sizeValue / 1000

instance (a b : BarSize) : Decidable (SameThousands a b) :=
  decidable_of_iff (a.type = .volume ∧ b.type = .volume ∧ a.sizeValue ≥ 1000 ∧
      b.sizeValue ≥ 1000 ∧ a.sizeValue / 1000 = b.sizeValue / 1000)
    ⟨fun ⟨ha, hb, hla, hlb, h⟩ => ⟨ha, hb, hla, hlb, h⟩,
      fun h => ⟨h.left, h.right, h.left_large, h.right_large, h.thousands⟩⟩

theorem eq_of_div_mod {v w k : UInt32} (hdiv : v / k = w / k) (hmod : v % k = w % k) : v = w := by
  have hdiv' := congrArg UInt32.toNat hdiv
  have hmod' := congrArg UInt32.toNat hmod
  rw [UInt32.toNat_div, UInt32.toNat_div] at hdiv'
  rw [UInt32.toNat_mod, UInt32.toNat_mod] at hmod'
  rw [← UInt32.toNat_inj, ← Nat.div_add_mod v.toNat k.toNat, ← Nat.div_add_mod w.toNat k.toNat,
    hdiv', hmod']

/-- The label of a time or of a range names its size. -/
theorem eq_of_label_of_ne_volume {a b : BarSize} (ha : a.type ≠ .volume)
    (h : labelParts a = labelParts b) : a = b := by
  have htype := type_of_parts h
  obtain ⟨ta, va⟩ := a
  obtain ⟨tb, vb⟩ := b
  obtain rfl : ta = tb := htype
  cases ta with
  | volume => exact absurd rfl ha
  | range => simpa [labelParts] using h
  | time =>
    simp only [labelParts] at h
    split_ifs at h with ha₁ hb₁ hb₂ ha₂ hb₁ hb₂ hb₁ hb₂ <;> simp at h
    · rw [eq_of_div_mod h (ha₁.trans hb₁.symm)]
    · rw [eq_of_div_mod h (ha₂.trans hb₂.symm)]
    · rw [h]

/-- Two sizes have one label if they are one size, or name the same thousands. -/
theorem label_eq_iff (a b : BarSize) : a.label = b.label ↔ a = b ∨ SameThousands a b := by
  rw [label_eq_iff_parts]
  constructor
  · intro h
    by_cases ha : a.type = .volume
    · by_cases hb : b.type = .volume
      · obtain ⟨ta, va⟩ := a
        obtain ⟨tb, vb⟩ := b
        dsimp only at ha hb
        subst ha hb
        simp only [labelParts] at h
        split_ifs at h with hva hvb hvb <;> simp at h
        · exact .inr ⟨rfl, rfl, hva, hvb, h⟩
        · rw [h]
          exact .inl rfl
      · exact .inl (eq_of_label_of_ne_volume hb h.symm).symm
    · exact .inl (eq_of_label_of_ne_volume ha h)
  · rintro (rfl | h)
    · rfl
    · simp [labelParts, h.left, h.right, h.left_large, h.right_large, h.thousands]

def idOf (symbol : String) (openTsNs : Int) (label : String) : String :=
  symbol ++ "_" ++ toString openTsNs ++ "_" ++ label

theorem idOf_inj {symbol : String} {t t' : Int} {label label' : String}
    (h : idOf symbol t label = idOf symbol t' label') : t = t' ∧ label = label' := by
  have htail : t.repr ++ "_" ++ label = t'.repr ++ "_" ++ label' := by
    simpa [idOf, String.append_assoc] using h
  exact int_repr_append_inj htail

/-- The ids and opening times of the bars of a series, the open one last. -/
def stamps (s : BarSeries) : List (String × Int) :=
  (s.delivered ++ s.currentBar.toList).map fun b => (b.barId, b.barOpenTsNs)

theorem complete_stamp (bar : BarRecord) (closeTsNs : Int) :
    (complete bar closeTsNs).barId = bar.barId ∧
      (complete bar closeTsNs).barOpenTsNs = bar.barOpenTsNs := by
  unfold complete
  dsimp only
  split <;> exact ⟨rfl, rfl⟩

theorem accumulate_stamp (tickSize : Rat) (bar : BarRecord) (tick : UniversalTickRecord) :
    (accumulate tickSize bar tick).barId = bar.barId ∧
      (accumulate tickSize bar tick).barOpenTsNs = bar.barOpenTsNs :=
  ⟨rfl, rfl⟩

theorem stamps_close (s : BarSeries) (closeTsNs : Int) :
    (stamps (closeCurrentBar s closeTsNs)).Sublist (stamps s) := by
  cases hbar : s.currentBar with
  | none => simp [closeCurrentBar, hbar]
  | some bar =>
    obtain ⟨hid, hts⟩ := complete_stamp bar closeTsNs
    cases hcallback : s.onBarClose with
    | true => simp [closeCurrentBar, stamps, hbar, hcallback, hid, hts]
    | false => simp [closeCurrentBar, stamps, hbar, hcallback]

/-- A tick opens at most one bar, with its own time in the id. -/
theorem stamps_onTick (s : BarSeries) (tick : UniversalTickRecord) (sessionOpenTsNs : Int) :
    (stamps (onTick s tick sessionOpenTsNs)).Sublist
      (stamps s ++ [(idOf s.symbol tick.exchangeTsNs s.barSize.label, tick.exchangeTsNs)]) := by
  have hopen : (stamps (withOpenBar s tick)).Sublist
      (stamps s ++ [(idOf s.symbol tick.exchangeTsNs s.barSize.label, tick.exchangeTsNs)]) := by
    cases hbar : s.currentBar with
    | none => simp [withOpenBar, stamps, hbar, openNewBar, idOf]
    | some bar => simp [withOpenBar, hbar]
  have hbook : stamps { withOpenBar s tick with
      currentBar := (withOpenBar s tick).currentBar.map fun bar => accumulate s.tickSize bar tick } =
      stamps (withOpenBar s tick) := by
    cases hbar : (withOpenBar s tick).currentBar with
    | none => simp [stamps, hbar]
    | some bar => simp [stamps, hbar, accumulate_stamp]
  unfold onTick
  split
  · dsimp only
    split
    · exact (stamps_close _ _).trans (hbook ▸ hopen)
    · exact hbook ▸ hopen
  · exact List.sublist_append_left _ _

def tickTimes (calls : List Call) : List Int := (ticksOf calls).map (·.exchangeTsNs)

theorem tickTimes_append (calls calls' : List Call) :
    tickTimes (calls ++ calls') = tickTimes calls ++ tickTimes calls' := by
  simp [tickTimes, ticksOf]

theorem stamps_call (s : BarSeries) (c : Call) :
    (stamps (call s c)).Sublist
      (stamps s ++ (tickTimes [c]).map fun t => (idOf s.symbol t s.barSize.label, t)) := by
  cases c with
  | onTick tick sessionOpenTsNs => exact stamps_onTick s tick sessionOpenTsNs
  | forceCloseBar closeTsNs =>
    exact (stamps_close s closeTsNs).trans (List.sublist_append_left _ _)
  | onSessionOpen sessionOpenTsNs =>
    exact (stamps_close s sessionOpenTsNs).trans (List.sublist_append_left _ _)

/-- Bars of one series open at different ticks. -/
theorem times_increasing {s : BarSeries} (hnew : stamps s = []) {calls : List Call}
    (htimes : (tickTimes calls).Pairwise (· < ·)) :
    ((stamps (run s calls)).map (·.2)).Pairwise (· < ·) ∧
      ∀ t ∈ (stamps (run s calls)).map (·.2), t ∈ tickTimes calls := by
  induction calls using List.reverseRecOn with
  | nil => simp [run, hnew]
  | append_singleton calls c ih =>
    rw [tickTimes_append] at htimes ⊢
    obtain ⟨hearlier, hnext, hlast⟩ := List.pairwise_append.mp htimes
    obtain ⟨hpairwise, hmem⟩ := ih hearlier
    have hrun : run s (calls ++ [c]) = call (run s calls) c := by simp [run]
    have hsub := (stamps_call (run s calls) c).map (·.2)
    rw [List.map_append, List.map_map, ← hrun] at hsub
    have htick : (tickTimes [c]).map ((·.2) ∘ fun t =>
        (idOf (run s calls).symbol t (run s calls).barSize.label, t)) = tickTimes [c] := by
      simp [Function.comp_def]
    rw [htick] at hsub
    constructor
    · refine List.Pairwise.sublist hsub (List.pairwise_append.mpr ⟨hpairwise, hnext, ?_⟩)
      exact fun t ht t' ht' => hlast t (hmem t ht) t' ht'
    · intro t ht
      rcases List.mem_append.mp (hsub.subset ht) with ht | ht
      · exact List.mem_append_left _ (hmem t ht)
      · exact List.mem_append_right _ ht

end SessionBars
