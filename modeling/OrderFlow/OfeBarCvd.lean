import Mathlib.Tactic.Linarith
import OrderFlow.OfeBarSegments

/-!
# The cumulative volume delta of the bars

`update_bar` adds the whole running delta of the bar to `session_cvd_` at every
tick, and `start_bar` sets `session_cvd_` back to zero. The cvd of a bar is then
the sum of its running deltas, and this is the running total of the signed
volume in every state of a run exactly when no tick but the last moves it.
-/
namespace OfeBars

open GreedySegments

/-- The cvd of each bar is the signed volume of all ticks up to its last one. -/
structure CvdTotals (type : BarType) (threshold : UInt64) (ticks : List UniversalTickRecord) :
    Prop where
  completed : ∀ i b, ((newSeries type threshold).ingestAll ticks).completed[i]? = some b →
    b.cvd = signedSum (((wordRule type threshold).cut ticks).done.take (i + 1)).flatten
  current : ((newSeries type threshold).ingestAll ticks).active = true →
    ((newSeries type threshold).ingestAll ticks).current.cvd = signedSum ticks

/-- The same law, on the segments alone. -/
def RunningTotals (segs : List (List UniversalTickRecord)) : Prop :=
  ∀ pre seg post, segs = pre ++ seg :: post →
    (runningDeltas seg).sum = signedSum pre.flatten + signedSum seg

theorem runningTotals_append {done : List (List UniversalTickRecord)}
    {last : List UniversalTickRecord} :
    RunningTotals (done ++ [last]) ↔
      RunningTotals done ∧ (runningDeltas last).sum = signedSum done.flatten + signedSum last := by
  constructor
  · intro h
    refine ⟨fun pre seg post hd => h pre seg (post ++ [last]) (by simp [hd]), ?_⟩
    exact h done last [] rfl
  · rintro ⟨hdone, hlast⟩ pre seg post hsplit
    rcases List.eq_nil_or_concat post with rfl | ⟨post, z, rfl⟩
    · obtain ⟨rfl, hseg⟩ := List.append_inj' hsplit rfl
      obtain rfl : last = seg := by simpa using hseg
      exact hlast
    · have hinit : done ++ [last] = (pre ++ seg :: post) ++ [z] := by simpa using hsplit
      exact hdone pre seg post (List.append_inj' hinit rfl).1

theorem runningTotals_of_completed {bars : List BarRecord} {done : List (List UniversalTickRecord)}
    (h : List.Forall₂ Summary bars done) :
    (∀ i b, bars[i]? = some b → b.cvd = signedSum (done.take (i + 1)).flatten) ↔
      RunningTotals done := by
  constructor
  · rintro hb pre seg post rfl
    have hlen : pre.length < bars.length := by
      rw [h.length_eq]
      simp
    have hsum : Summary bars[pre.length] seg := by
      simpa using h.get hlen (by simp)
    have hcvd := hb pre.length bars[pre.length] (by simp [hlen])
    rw [hsum.cvd, List.take_append, List.take_of_length_le (by omega)] at hcvd
    simpa using hcvd
  · intro htot i b hi
    obtain ⟨hlt, rfl⟩ := List.getElem?_eq_some_iff.mp hi
    have hlt' : i < done.length := h.length_eq ▸ hlt
    have hsum : Summary bars[i] done[i] := h.get hlt hlt'
    have hsplit : done = done.take i ++ done[i] :: done.drop (i + 1) := by
      rw [← List.drop_eq_getElem_cons hlt', List.take_append_drop]
    rw [hsum.cvd, htot _ _ _ hsplit, List.take_succ_eq_append_getElem hlt', List.flatten_append,
      signedSum_append, List.flatten_singleton]

/-- The law of the bars is the law of the segments. -/
theorem cvdTotals_iff (type : BarType) (threshold : UInt64) (ticks : List UniversalTickRecord) :
    CvdTotals type threshold ticks ↔ RunningTotals ((wordRule type threshold).cut ticks).segs := by
  have htracks := tracks_ingestAll type threshold ticks
  have hall := cut_all (wordRule type threshold) ticks
  have hcompleted := runningTotals_of_completed htracks.completed
  by_cases hc : ((wordRule type threshold).cut ticks).current = []
  · rw [segs_of_current_nil _ hc, ← hcompleted]
    have hidle := htracks.idle hc
    exact ⟨fun h => h.completed, fun h => ⟨h, fun hactive => by simp [hidle] at hactive⟩⟩
  · have hbar := htracks.bar hc
    have hsum : signedSum ((wordRule type threshold).cut ticks).done.flatten +
        signedSum ((wordRule type threshold).cut ticks).current = signedSum ticks := by
      rw [← signedSum_append]
      exact congrArg signedSum hall
    rw [segs_of_current_ne_nil _ hc, runningTotals_append, ← hcompleted, hsum, ← hbar.summary.cvd]
    exact ⟨fun h => ⟨h.completed, h.current hbar.active⟩, fun h => ⟨h.1, fun _ => h.2⟩⟩

theorem signedSum_eq_zero {ticks : List UniversalTickRecord}
    (h : ∀ t ∈ ticks, signedVolume t = 0) : signedSum ticks = 0 := by
  apply List.sum_eq_zero
  intro x hx
  obtain ⟨t, ht, rfl⟩ := List.mem_map.mp hx
  exact h t ht

theorem sum_runningDeltas_eq_zero {seg : List UniversalTickRecord}
    (h : ∀ t ∈ seg, signedVolume t = 0) : (runningDeltas seg).sum = 0 := by
  apply List.sum_eq_zero
  intro x hx
  obtain ⟨n, _, rfl⟩ := List.mem_map.mp hx
  exact signedSum_eq_zero fun t ht => h t (List.mem_of_mem_take ht)

/-- When only the last tick of a segment moves the delta, its running deltas
add up to that one move. -/
theorem sum_runningDeltas_snoc (seg : List UniversalTickRecord) (x : UniversalTickRecord)
    (h : ∀ t ∈ seg, signedVolume t = 0) :
    (runningDeltas (seg ++ [x])).sum = signedVolume x := by
  rw [runningDeltas_snoc, List.sum_append, sum_runningDeltas_eq_zero h]
  simp [signedSum_eq_zero h]

/-- Segments in which nothing moves the delta obey the law. -/
theorem runningTotals_of_zero {segs : List (List UniversalTickRecord)}
    (h : ∀ t ∈ segs.flatten, signedVolume t = 0) : RunningTotals segs := by
  rintro pre seg post rfl
  have hpre : signedSum pre.flatten = 0 :=
    signedSum_eq_zero fun t ht => h t (by simp only [List.flatten_append, List.mem_append, ht, true_or])
  have hseg : ∀ t ∈ seg, signedVolume t = 0 := fun t ht => h t (by simp [ht])
  rw [hpre, signedSum_eq_zero hseg, sum_runningDeltas_eq_zero hseg, add_zero]

/-- One more tick, on top of ticks that do not move the delta. -/
theorem runningTotals_feed_of_zero (r : Rule UniversalTickRecord)
    (ticks : List UniversalTickRecord) (x : UniversalTickRecord)
    (h : ∀ t ∈ ticks, signedVolume t = 0) : RunningTotals (r.feed (r.cut ticks) x).segs := by
  have hall := cut_all r ticks
  by_cases hopen : (r.cut ticks).current = [] ∨ r.cutsBefore (r.cut ticks) x
  · have hflat : (r.cut ticks).segs.flatten = ticks := (segs_flatten _).trans hall
    rw [segs_feed_open r _ x hopen, runningTotals_append, hflat, signedSum_eq_zero h]
    refine ⟨runningTotals_of_zero (by rwa [hflat]), ?_⟩
    simpa using sum_runningDeltas_snoc [] x (by simp)
  · obtain ⟨-, hb⟩ := not_or.mp hopen
    have hdone : ∀ t ∈ (r.cut ticks).done.flatten, signedVolume t = 0 :=
      fun t ht => h t (hall ▸ List.mem_append_left _ ht)
    have hcur : ∀ t ∈ (r.cut ticks).current, signedVolume t = 0 :=
      fun t ht => h t (current_subset r ticks t ht)
    rw [segs_feed_join r _ x hb, runningTotals_append, sum_runningDeltas_snoc _ x hcur,
      signedSum_eq_zero hdone, signedSum_append, signedSum_eq_zero hcur]
    exact ⟨runningTotals_of_zero hdone, by simp⟩

/-- The tick after a lone move counts it a second time, or forgets it. -/
theorem signedVolume_eq_zero_of_feed (r : Rule UniversalTickRecord)
    (ticks : List UniversalTickRecord) (a b : UniversalTickRecord)
    (hz : ∀ t ∈ ticks, signedVolume t = 0)
    (h : RunningTotals (r.feed (r.cut (ticks ++ [a])) b).segs) : signedVolume a = 0 := by
  have hall : (r.cut (ticks ++ [a])).done.flatten ++ (r.cut (ticks ++ [a])).current = ticks ++ [a] :=
    cut_all r (ticks ++ [a])
  have htotal : signedSum (ticks ++ [a]) = signedVolume a := by simp [signedSum_eq_zero hz]
  by_cases hopen : (r.cut (ticks ++ [a])).current = [] ∨ r.cutsBefore (r.cut (ticks ++ [a])) b
  · -- the next tick starts a bar, which starts from zero
    have hflat : (r.cut (ticks ++ [a])).segs.flatten = ticks ++ [a] := (segs_flatten _).trans hall
    rw [segs_feed_open r _ b hopen, runningTotals_append, hflat, htotal] at h
    have hsum := h.2
    rw [show [b] = [] ++ [b] from rfl, sum_runningDeltas_snoc [] b (by simp)] at hsum
    simp at hsum
    exact hsum
  · -- the next tick joins the bar, which books its delta again
    obtain ⟨hc, hb⟩ := not_or.mp hopen
    obtain ⟨seg, hseg⟩ : ∃ seg, (r.cut (ticks ++ [a])).current = seg ++ [a] := by
      rcases List.eq_nil_or_concat (r.cut (ticks ++ [a])).current with hnil | ⟨seg, z, hz'⟩
      · exact absurd hnil hc
      · rw [List.concat_eq_append] at hz'
        rw [hz', ← List.append_assoc] at hall
        obtain ⟨-, hlast⟩ := List.append_inj' hall rfl
        obtain rfl : z = a := by simpa using hlast
        exact ⟨seg, hz'⟩
    rw [hseg, ← List.append_assoc] at hall
    obtain ⟨hticks, -⟩ := List.append_inj' hall rfl
    have hdone : ∀ t ∈ (r.cut (ticks ++ [a])).done.flatten, signedVolume t = 0 :=
      fun t ht => hz t (hticks ▸ List.mem_append_left _ ht)
    have hcur : ∀ t ∈ seg, signedVolume t = 0 :=
      fun t ht => hz t (hticks ▸ List.mem_append_right _ ht)
    rw [segs_feed_join r _ b hb, runningTotals_append, hseg, runningDeltas_snoc, List.sum_append,
      sum_runningDeltas_snoc seg a hcur, signedSum_eq_zero hdone] at h
    have hsum := h.2
    simp [signedSum_eq_zero hcur] at hsum
    exact hsum

/-- The cvd is the running total in every state of a run if and only if every
tick before the last one is booked on neither side, or has size zero. -/
theorem cvd_running_total_iff (type : BarType) (threshold : UInt64)
    (ticks : List UniversalTickRecord) :
    (∀ seen, seen <+: ticks → CvdTotals type threshold seen) ↔
      ∀ t ∈ ticks.dropLast, signedVolume t = 0 := by
  simp only [cvdTotals_iff]
  constructor
  · intro h
    induction ticks using List.reverseRecOn with
    | nil => simp
    | append_singleton ticks b ih =>
      have hprev := ih fun seen hseen => h seen (hseen.trans (List.prefix_append _ _))
      rw [List.dropLast_concat]
      rcases List.eq_nil_or_concat ticks with rfl | ⟨ticks, a, rfl⟩
      · simp
      · rw [List.concat_eq_append] at h hprev ⊢
        rw [List.dropLast_concat] at hprev
        have hlast := h _ (List.prefix_refl _)
        rw [cut_snoc] at hlast
        have ha := signedVolume_eq_zero_of_feed _ ticks a b hprev hlast
        intro t ht
        rcases List.mem_append.mp ht with ht | ht
        · exact hprev t ht
        · rw [List.mem_singleton.mp ht]
          exact ha
  · intro h seen hseen
    rcases List.eq_nil_or_concat seen with rfl | ⟨seen, x, rfl⟩
    · simp [RunningTotals]
    · rw [List.concat_eq_append] at hseen ⊢
      rw [cut_snoc]
      apply runningTotals_feed_of_zero
      obtain ⟨rest, rfl⟩ := hseen
      intro t ht
      apply h t
      rw [List.append_assoc, List.dropLast_append_of_ne_nil (by simp)]
      exact List.mem_append_left _ ht

/-- A trade at the ask, booked as a buy of ten. -/
def askTrade : UniversalTickRecord :=
  { timestampNs := 0, symbolId := 1, price := 101, size := 10, bidPrice := 99, askPrice := 101,
    bidSize := 10, askSize := 10 }

/-- Two buys of ten into one bar: the code says 30. -/
theorem cvd_not_running_total : ¬ CvdTotals .volume 1000 [askTrade, askTrade] := by
  intro h
  have hcvd := h.current (by decide +kernel)
  revert hcvd
  decide +kernel

end OfeBars
