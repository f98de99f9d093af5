import OrderFlow.SessionBarSegments

/-!
# Volume bars and their size

A volume bar is closed by the tick that finds the size reached, not by the tick
that reaches it. So the first bar to reach the size is left open, and the bars
close at their size only in a run that never trades that much.
-/
namespace SessionBars

open GreedySegments SessionTypes

/-- The calls of a stream of ticks, each with the session time it comes with. -/
def tickCalls (stream : List (UniversalTickRecord × Int)) : List Call :=
  stream.map fun (tick, sessionOpenTsNs) => .onTick tick sessionOpenTsNs

/-- A run of ticks that reaches the size with its last tick. -/
def ReachesAtLast (size : Int) (seg : List UniversalTickRecord) : Prop :=
  size ≤ volumeSum seg ∧ ∀ first, first <+: seg → first ≠ seg → volumeSum first < size

/-- Every closed bar has reached the size with its last tick, and the open bar has
not reached it. -/
structure ClosesAtSize (settings : Settings) (l : Ledger) : Prop where
  closed : List.Forall₂ (fun seg bar => ClosedBar settings.tickSize seg bar ∧
      ReachesAtLast settings.barSize.sizeValue.toNat seg)
    l.groups.done l.series.delivered
  running : ∀ bar, l.series.currentBar = some bar →
    bar.totalVolume < settings.barSize.sizeValue.toNat

theorem closingRule_volume {settings : Settings} (hvolume : settings.barSize.type = .volume)
    (seg : List UniversalTickRecord) (tick : UniversalTickRecord) :
    (closingRule settings).after seg tick = true ↔
      (settings.barSize.sizeValue.toNat : Int) ≤ volumeSum seg := by
  simp [closingRule, hvolume]

theorem groups_snoc (settings : Settings) (stream : List (UniversalTickRecord × Int))
    (tick : UniversalTickRecord × Int) (hbooked : tick.1.isAccumulatable) :
    (ledger settings (tickCalls (stream ++ [tick]))).groups =
      (closingRule settings).extend (ledger settings (tickCalls stream)).groups tick.1 := by
  have hitems : items (tickCalls (stream ++ [tick])) = items (tickCalls stream) ++ [some tick.1] := by
    simp [items, tickCalls, hbooked]
  rw [(tracks_ledger settings _).2.2, (tracks_ledger settings _).2.2, hitems, run_snoc]
  simp [Rule.act, Rule.feed, Rule.cutsBefore, closingRule]

/-- As long as the size was not reached before the last tick, all ticks are in the
first bar. -/
theorem groups_of_below {settings : Settings} (hvolume : settings.barSize.type = .volume)
    (stream : List (UniversalTickRecord × Int)) (hbooked : ∀ tick ∈ stream, tick.1.isAccumulatable)
    (hbelow : ∀ first, first <+: stream → first ≠ stream →
      volumeSum (first.map (·.1)) < settings.barSize.sizeValue.toNat) :
    (ledger settings (tickCalls stream)).groups = ⟨[], stream.map (·.1)⟩ := by
  induction stream using List.reverseRecOn with
  | nil => rfl
  | append_singleton stream tick ih =>
    have hproper : stream ≠ stream ++ [tick] := by simp
    have hprev := ih (fun t ht => hbooked t (by simp [ht])) fun first hfirst hne => by
      refine hbelow first (hfirst.trans (List.prefix_append _ _)) ?_
      rintro rfl
      have := hfirst.length_le
      simp at this
    have hnot : (closingRule settings).after (stream.map (·.1)) tick.1 = false := by
      rw [Bool.eq_false_iff, ne_eq, closingRule_volume hvolume, not_le]
      exact hbelow stream (List.prefix_append _ _) hproper
    rw [groups_snoc settings stream tick (hbooked tick (by simp)), hprev]
    simp [Rule.extend, hnot]

/-- The bar that is open has the volume of the ticks of its group. -/
theorem open_totalVolume {settings : Settings} {calls : List Call} {bar : BarRecord}
    (hbar : (ledger settings calls).series.currentBar = some bar) :
    bar.totalVolume = volumeSum (ledger settings calls).groups.current :=
  ((tracks_ledger settings calls).1.current bar hbar).totalVolume

theorem closesAtSize_of_below {settings : Settings} (hvolume : settings.barSize.type = .volume)
    (hcallback : settings.onBarClose = true) (stream : List (UniversalTickRecord × Int))
    (hbooked : ∀ tick ∈ stream, tick.1.isAccumulatable)
    (hbelow : ∀ first, first <+: stream →
      volumeSum (first.map (·.1)) < settings.barSize.sizeValue.toNat) :
    ClosesAtSize settings (ledger settings (tickCalls stream)) := by
  have hgroups := groups_of_below hvolume stream hbooked fun first hfirst _ => hbelow first hfirst
  obtain ⟨htracks, hsettings, -⟩ := tracks_ledger settings (tickCalls stream)
  constructor
  case closed =>
    have hbars := htracks.delivered (by rw [hsettings]; exact hcallback)
    rw [hgroups] at hbars ⊢
    rw [List.forall₂_nil_left_iff.mp hbars]
    exact .nil
  case running =>
    intro bar hbar
    rw [open_totalVolume hbar, hgroups]
    exact hbelow stream (List.prefix_refl _)

/-- If the bars close at their size after every tick, no run of first ticks reaches
the size. -/
theorem below_of_closesAtSize {settings : Settings} (hvolume : settings.barSize.type = .volume)
    (stream : List (UniversalTickRecord × Int)) (hbooked : ∀ tick ∈ stream, tick.1.isAccumulatable)
    (hcloses : ∀ seen, seen <+: stream → ClosesAtSize settings (ledger settings (tickCalls seen))) :
    ∀ first, first <+: stream →
      volumeSum (first.map (·.1)) < settings.barSize.sizeValue.toNat := by
  induction stream using List.reverseRecOn with
  | nil =>
    intro first hfirst
    have hpos := sizeValue_pos settings
    simpa [List.prefix_nil.mp hfirst] using hpos
  | append_singleton stream tick ih =>
    have hprev := ih (fun t ht => hbooked t (by simp [ht]))
      fun seen hseen => hcloses seen (hseen.trans (List.prefix_append _ _))
    intro first hfirst
    rcases List.prefix_concat_iff.mp hfirst with rfl | hfirst
    · have hgroups := groups_of_below hvolume (stream ++ [tick]) hbooked fun first hfirst hne =>
        hprev first ((List.prefix_concat_iff.mp hfirst).resolve_left hne)
      cases hbar : (ledger settings (tickCalls (stream ++ [tick]))).series.currentBar with
      | none =>
        have hidle := (tracks_ledger settings _).1.idle hbar
        simp [hgroups] at hidle
      | some bar =>
        have hrunning := (hcloses _ (List.prefix_refl _)).running bar hbar
        rw [open_totalVolume hbar, hgroups] at hrunning
        exact hrunning
    · exact hprev first hfirst

/-- Volume bars close at their size exactly in the streams that stay below it. -/
theorem volume_bars_close_at_size_iff (settings : Settings)
    (hvolume : settings.barSize.type = .volume) (hcallback : settings.onBarClose = true)
    (stream : List (UniversalTickRecord × Int)) (hbooked : ∀ tick ∈ stream, tick.1.isAccumulatable)
    (hpos : ∀ tick ∈ stream, 0 < tick.1.volume) :
    (∀ seen, seen <+: stream → ClosesAtSize settings (ledger settings (tickCalls seen))) ↔
      volumeSum (stream.map (·.1)) < settings.barSize.sizeValue.toNat := by
  constructor
  · exact fun hcloses => below_of_closesAtSize hvolume stream hbooked hcloses stream
      (List.prefix_refl _)
  · intro hbelow seen hseen
    refine closesAtSize_of_below hvolume hcallback seen (fun t ht => hbooked t (hseen.subset ht)) ?_
    intro first hfirst
    obtain ⟨rest, rfl⟩ := hfirst.trans hseen
    have hrest : 0 ≤ volumeSum (rest.map (·.1)) := by
      apply volumeSum_nonneg
      intro tick htick
      obtain ⟨pair, hpair, rfl⟩ := List.mem_map.mp htick
      exact (hpos pair (by simp [hpair])).le
    rw [List.map_append, volumeSum_append] at hbelow
    omega

/-- Two trades that stay below fifty contracts. -/
theorem volume_bars_close_at_size_iff_small :
    (∀ seen, seen <+: [((⟨1, 5000, 30, 1, .ask, .trade⟩ : UniversalTickRecord), (0 : Int)),
        (⟨2, 5000, 10, 1, .bid, .trade⟩, 0)] →
      ClosesAtSize fiftyContracts (ledger fiftyContracts (tickCalls seen))) ↔
      volumeSum [⟨1, 5000, 30, 1, .ask, .trade⟩, ⟨2, 5000, 10, 1, .bid, .trade⟩] < 50 :=
  volume_bars_close_at_size_iff fiftyContracts rfl rfl _ (by decide) (by decide)

/-- A single trade of sixty contracts leaves its bar open. -/
theorem sixty_contracts_stay_open :
    ¬ ClosesAtSize fiftyContracts (ledger fiftyContracts
      (tickCalls [(⟨1, 5000, 60, 1, .ask, .trade⟩, 0)])) := by
  intro h
  have hopen : ((ledger fiftyContracts (tickCalls [(⟨1, 5000, 60, 1, .ask, .trade⟩, 0)])).series.currentBar.map
      (·.totalVolume)) = some 60 := by decide +kernel
  obtain ⟨bar, hbar, htotal⟩ := Option.map_eq_some_iff.mp hopen
  have hbelow := h.running bar hbar
  rw [htotal] at hbelow
  revert hbelow
  decide

end SessionBars
