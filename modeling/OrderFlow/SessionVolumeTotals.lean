import OrderFlow.SessionBarSegments
import OrderFlow.SessionDeltaLedger

/-!
# One volume, counted four times

The volume of a tick is added to the bar as it is. The delta engine casts it to 32 bits
before it adds it up, and the levels add it up in 32 bits as well. A cast of what is not
negative never gives more, so one level that is past the range is enough to lose volume.
Sums of 64 bits are exact integers, as they are while the volumes add up to less than `2^63`.
-/
namespace SessionBars

open GreedySegments KeyedRecords SessionTypes TickGrid

/-- Ticks for `onTick`, each with the session time that it is given. -/
abbrev Feed := List (UniversalTickRecord × Int)

def Feed.ticks (feed : Feed) : List UniversalTickRecord := feed.map Prod.fst

def fed (s : BarSeries) (feed : Feed) : BarSeries :=
  feed.foldl (fun s f => onTick s f.1 f.2) s

def fedDelta (state : SessionDeltaEngine.DeltaState) (ticks : List UniversalTickRecord) :
    SessionDeltaEngine.DeltaState :=
  ticks.foldl (fun state tick => SessionDeltaEngine.onTick tick state) state

/-- The ticks of one bar: the first opens it, and only the last may close it. -/
structure OneBar (s : BarSeries) (feed : Feed) : Prop where
  opening : s.currentBar = none
  ne_nil : feed ≠ []
  stays : ∀ earlier, earlier <+: feed → earlier ≠ [] → earlier ≠ feed →
    (fed s earlier).currentBar ≠ none

theorem oneBar_of_inits {s : BarSeries} {feed : Feed} (hopening : s.currentBar = none)
    (hne : feed ≠ []) (hstays : ∀ earlier ∈ feed.inits, earlier ≠ [] → earlier ≠ feed →
      (fed s earlier).currentBar ≠ none) : OneBar s feed :=
  ⟨hopening, hne, fun earlier hbegins => hstays earlier ((List.mem_inits _ _).mpr hbegins)⟩

/-- The bar of the ticks, open or just closed. -/
def barOf (s : BarSeries) : Option BarRecord := s.currentBar.or s.lastBar

/-- The counters of a bar that has no ticks yet. -/
structure BarOpening (state : SessionDeltaEngine.DeltaState) : Prop where
  barAskVol : state.barAskVol = 0
  barBidVol : state.barBidVol = 0
  barTotalVol : state.barTotalVol = 0

/-- The bar and the delta engine have counted one and the same volume. -/
structure SameVolume (bar : BarRecord) (state : SessionDeltaEngine.DeltaState) (total : Int) :
    Prop where
  totalVolume : bar.totalVolume = total
  levels : (bar.priceLevels.map (·.totalVol)).sum = total
  barTotalVol : state.barTotalVol = total
  delta : state.barAskVol - state.barBidVol = (bar.priceLevels.map (·.delta)).sum

theorem barOpening_new : BarOpening {} := ⟨rfl, rfl, rfl⟩

theorem barOpening_onBarClose (engine : SessionDeltaEngine.DeltaEngine) (bar : BarRecord)
    (state : SessionDeltaEngine.DeltaState) :
    BarOpening (SessionDeltaEngine.onBarClose engine bar state).state := ⟨rfl, rfl, rfl⟩

theorem fed_snoc (s : BarSeries) (feed : Feed) (f : UniversalTickRecord × Int) :
    fed s (feed ++ [f]) = onTick (fed s feed) f.1 f.2 := by
  simp [fed]

/-- A tick that is booked leaves its bar open, or closes it. -/
theorem onTick_bar {s : BarSeries} {seg : List UniversalTickRecord}
    (hcurrent : ∀ bar, s.currentBar = some bar → OpenBar s.tickSize seg bar)
    (hidle : s.currentBar = none → seg = []) {tick : UniversalTickRecord}
    (htick : tick.isAccumulatable) (sessionOpenTsNs : Int) :
    (onTick s tick sessionOpenTsNs).toSettings = s.toSettings ∧
      ((∃ bar, (onTick s tick sessionOpenTsNs).currentBar = some bar ∧
          OpenBar s.tickSize (seg ++ [tick]) bar) ∨
        (onTick s tick sessionOpenTsNs).currentBar = none ∧
          ∃ bar, (onTick s tick sessionOpenTsNs).lastBar = some bar ∧
            ClosedBar s.tickSize (seg ++ [tick]) bar) := by
  obtain ⟨bar, hopen, hstep⟩ := onTick_booked hcurrent hidle htick sessionOpenTsNs
  rw [hstep]
  split
  · exact ⟨closeCurrentBar_settings _ _, .inr ⟨rfl, _, rfl, bar, _, hopen, rfl⟩⟩
  · exact ⟨rfl, .inl ⟨bar, rfl, hopen⟩⟩

/-- After the ticks of one bar, the bar is open with them or was closed by the last. -/
theorem fed_bar {s : BarSeries} {feed : Feed} (h : OneBar s feed)
    (hacc : ∀ tick ∈ feed.ticks, tick.isAccumulatable) :
    (fed s feed).toSettings = s.toSettings ∧
      ((∃ bar, (fed s feed).currentBar = some bar ∧ OpenBar s.tickSize feed.ticks bar) ∨
        (fed s feed).currentBar = none ∧
          ∃ bar, (fed s feed).lastBar = some bar ∧ ClosedBar s.tickSize feed.ticks bar) := by
  induction feed using List.reverseRecOn with
  | nil => exact absurd rfl h.ne_nil
  | append_singleton earlier f ih =>
    have htick : f.1.isAccumulatable := hacc f.1 (by simp [Feed.ticks])
    have hticks : Feed.ticks (earlier ++ [f]) = Feed.ticks earlier ++ [f.1] := by simp [Feed.ticks]
    rw [fed_snoc, hticks]
    by_cases hfirst : earlier = []
    · subst hfirst
      have hnone : ∀ bar, s.currentBar = some bar → OpenBar s.tickSize [] bar := by
        intro bar hbar
        rw [h.opening] at hbar
        cases hbar
      exact onTick_bar hnone (fun _ => rfl) htick f.2
    · have hproper : earlier ≠ earlier ++ [f] := by simp
      have hbefore : OneBar s earlier := by
        refine ⟨h.opening, hfirst, fun first hbegins hne hshort => ?_⟩
        refine h.stays first (hbegins.trans (List.prefix_append _ _)) hne ?_
        rintro rfl
        have hlength := hbegins.length_le
        simp at hlength
      obtain ⟨hsettings, hopen | ⟨hnone, -⟩⟩ := ih hbefore fun tick hmem =>
        hacc tick (by rw [hticks]; exact List.mem_append_left _ hmem)
      · obtain ⟨bar, hbar, hopen⟩ := hopen
        have htickSize : (fed s earlier).tickSize = s.tickSize := by rw [hsettings]
        have hcurrent : ∀ b, (fed s earlier).currentBar = some b →
            OpenBar (fed s earlier).tickSize (Feed.ticks earlier) b := by
          intro b hb
          rw [hbar] at hb
          cases hb
          rw [htickSize]
          exact hopen
        have hstep := onTick_bar hcurrent (by simp [hbar]) htick f.2
        rw [hsettings] at hstep
        exact hstep
      · exact absurd hnone (h.stays earlier (List.prefix_append _ _) hfirst hproper)

theorem barOf_fed {s : BarSeries} {feed : Feed} (h : OneBar s feed)
    (hacc : ∀ tick ∈ feed.ticks, tick.isAccumulatable) :
    ∃ bar, barOf (fed s feed) = some bar ∧
      (OpenBar s.tickSize feed.ticks bar ∨ ClosedBar s.tickSize feed.ticks bar) := by
  obtain ⟨-, ⟨bar, hbar, hopen⟩ | ⟨hnone, bar, hbar, hclosed⟩⟩ := fed_bar h hacc
  · exact ⟨bar, by simp [barOf, hbar], .inl hopen⟩
  · exact ⟨bar, by simp [barOf, hnone, hbar], .inr hclosed⟩

theorem levelOf_totalVol {tickSize : Rat} {seg : List UniversalTickRecord} {lvl : PriceLevelRecord}
    (h : LevelOf tickSize seg lvl) (hacc : ∀ tick ∈ seg, tick.isAccumulatable) :
    lvl.totalVol = wrap32 (volumeSum (ticksAt tickSize lvl.price seg)) := by
  rw [h.totalVol, h.askVol, h.bidVol, wrap32_add_wrap32, ask_add_bid hacc]

theorem levelOf_delta {tickSize : Rat} {seg : List UniversalTickRecord} {lvl : PriceLevelRecord}
    (h : LevelOf tickSize seg lvl) :
    lvl.delta = wrap32 (sideVolume .ask tickSize lvl.price seg -
      sideVolume .bid tickSize lvl.price seg) := by
  rw [h.delta, h.askVol, h.bidVol, wrap32_sub_wrap32]

/-- The sums over the levels of a bar, in terms of the prices of its ticks. -/
structure Counted (tickSize : Rat) (seg : List UniversalTickRecord) (bar : BarRecord)
    (prices : List Rat) : Prop where
  nodup : prices.Nodup
  covers : ∀ tick ∈ seg, roundToTick tickSize tick.price ∈ prices
  totalVolume : bar.totalVolume = volumeSum seg
  totals : (bar.priceLevels.map (·.totalVol)).sum =
    (prices.map fun p => wrap32 (volumeSum (ticksAt tickSize p seg))).sum
  deltas : (bar.priceLevels.map (·.delta)).sum =
    (prices.map fun p => wrap32 (sideVolume .ask tickSize p seg -
      sideVolume .bid tickSize p seg)).sum

theorem counted_open {tickSize : Rat} {seg : List UniversalTickRecord} {bar : BarRecord}
    (h : OpenBar tickSize seg bar) (hacc : ∀ tick ∈ seg, tick.isAccumulatable) :
    Counted tickSize seg bar (bar.priceLevels.map (·.price)) where
  nodup := h.levels.nodup
  covers := fun tick htick => (h.levels.prices _).mpr ⟨tick, htick, rfl⟩
  totalVolume := h.totalVolume
  totals := by
    rw [List.map_map]
    congr 1
    exact List.map_congr_left fun lvl hlvl => levelOf_totalVol (h.levels.level lvl hlvl) hacc
  deltas := by
    rw [List.map_map]
    congr 1
    exact List.map_congr_left fun lvl hlvl => levelOf_delta (h.levels.level lvl hlvl)

theorem complete_totalVolume (bar : BarRecord) (closeTsNs : Int) :
    (complete bar closeTsNs).totalVolume = bar.totalVolume := by
  simp only [complete]
  split <;> rfl

/-- A sum over the levels is the same before and after the bar is closed. -/
theorem sum_complete_levels (f : PriceLevelRecord → Int)
    (hf : ∀ lvl, f { lvl with isPoc := true } = f lvl) (bar : BarRecord) (closeTsNs : Int) :
    ((complete bar closeTsNs).priceLevels.map f).sum = (bar.priceLevels.map f).sum := by
  rw [map_complete_levels f hf]
  exact ((List.perm_insertionSort _ bar.priceLevels).map f).sum_eq

theorem exists_counted {tickSize : Rat} {seg : List UniversalTickRecord} {bar : BarRecord}
    (h : OpenBar tickSize seg bar ∨ ClosedBar tickSize seg bar)
    (hacc : ∀ tick ∈ seg, tick.isAccumulatable) : ∃ prices, Counted tickSize seg bar prices := by
  rcases h with h | ⟨opened, closeTsNs, h, rfl⟩
  · exact ⟨_, counted_open h hacc⟩
  · have hopened := counted_open h hacc
    refine ⟨_, hopened.nodup, hopened.covers, ?_, ?_, ?_⟩
    · rw [complete_totalVolume, hopened.totalVolume]
    · rw [sum_complete_levels _ fun _ => rfl, hopened.totals]
    · rw [sum_complete_levels _ fun _ => rfl, hopened.deltas]

/-- The sum of what is left of some amounts is their sum only if every one of them is small. -/
theorem sum_wrap32_eq_iff {α : Type} (amount : α → Int) (xs : List α)
    (h : ∀ x ∈ xs, 0 ≤ amount x) :
    (xs.map fun x => wrap32 (amount x)).sum = (xs.map amount).sum ↔
      ∀ x ∈ xs, amount x < 2 ^ 31 := by
  constructor
  · intro hsum
    by_contra hlarge
    rw [not_forall] at hlarge
    obtain ⟨x, hlarge⟩ := hlarge
    rw [Classical.not_imp, not_lt] at hlarge
    obtain ⟨hx, hlarge⟩ := hlarge
    have hless : wrap32 (amount x) < amount x := (wrap32_lt _).trans_le hlarge
    have hlost := List.sum_lt_sum (fun x => wrap32 (amount x)) amount
      (fun y hy => wrap32_le (h y hy)) ⟨x, hx, hless⟩
    exact absurd hsum hlost.ne
  · intro hsmall
    congr 1
    exact List.map_congr_left fun x hx => (wrap32_eq_iff (h x hx)).mpr (hsmall x hx)

/-- The levels have counted the volume exactly if no price has traded too much. -/
theorem levels_total_iff {tickSize : Rat} {seg : List UniversalTickRecord} {bar : BarRecord}
    {prices : List Rat} (h : Counted tickSize seg bar prices)
    (hnonneg : ∀ tick ∈ seg, 0 ≤ tick.volume) :
    (bar.priceLevels.map (·.totalVol)).sum = volumeSum seg ↔
      ∀ price, volumeSum (ticksAt tickSize price seg) < 2 ^ 31 := by
  have hat : ∀ price, 0 ≤ volumeSum (ticksAt tickSize price seg) := fun price =>
    volumeSum_nonneg fun tick htick => hnonneg tick (List.mem_of_mem_filter htick)
  have hsum := sum_by_key (M := Int) h.nodup
    (fun tick : UniversalTickRecord => roundToTick tickSize tick.price) (fun tick => tick.volume) seg
    h.covers
  have hwhole : (prices.map fun p => volumeSum (ticksAt tickSize p seg)).sum = volumeSum seg := by
    simpa only [volumeSum, ticksAt] using hsum
  rw [h.totals, ← hwhole, sum_wrap32_eq_iff _ _ fun price _ => hat price]
  constructor
  · intro hsmall price
    by_cases hmem : price ∈ prices
    · exact hsmall price hmem
    · have hnone : ticksAt tickSize price seg = [] := by
        rw [ticksAt, List.filter_eq_nil_iff]
        intro tick htick hprice
        exact hmem (of_decide_eq_true hprice ▸ h.covers tick htick)
      rw [hnone]
      decide
  · exact fun hsmall price _ => hsmall price

/-- The volume of a side, price by price. -/
theorem sum_sideVolume {tickSize : Rat} {seg : List UniversalTickRecord} {prices : List Rat}
    (hnodup : prices.Nodup) (hcovers : ∀ tick ∈ seg, roundToTick tickSize tick.price ∈ prices)
    (side : TickSide) :
    (prices.map fun p => sideVolume side tickSize p seg).sum =
      SessionDeltaEngine.sideVolume side seg := by
  have hsum := sum_by_key (M := Int) hnodup
    (fun tick : UniversalTickRecord => roundToTick tickSize tick.price) (fun tick => tick.volume)
    (seg.filter fun tick => tick.side = side)
    (fun tick htick => hcovers tick (List.mem_of_mem_filter htick))
  rw [SessionDeltaEngine.sideVolume, ← hsum]
  congr 1
  refine List.map_congr_left fun p _ => ?_
  rw [sideVolume, volumeSum, ticksAt, List.filter_comm]

theorem sum_map_sub (f g : Rat → Int) (prices : List Rat) :
    (prices.map f).sum - (prices.map g).sum = (prices.map fun p => f p - g p).sum := by
  induction prices with
  | nil => rfl
  | cons p prices ih =>
    simp only [List.map_cons, List.sum_cons]
    omega

theorem levels_delta {tickSize : Rat} {seg : List UniversalTickRecord} {bar : BarRecord}
    {prices : List Rat} (h : Counted tickSize seg bar prices)
    (hacc : ∀ tick ∈ seg, tick.isAccumulatable) (hnonneg : ∀ tick ∈ seg, 0 ≤ tick.volume)
    (hsmall : ∀ price, volumeSum (ticksAt tickSize price seg) < 2 ^ 31) :
    (bar.priceLevels.map (·.delta)).sum = SessionDeltaEngine.delta seg := by
  have hside : ∀ side price, 0 ≤ sideVolume side tickSize price seg := by
    intro side price
    refine volumeSum_nonneg fun tick htick => hnonneg tick ?_
    exact List.mem_of_mem_filter (List.mem_of_mem_filter htick)
  have hexact : ∀ price, wrap32 (sideVolume .ask tickSize price seg -
      sideVolume .bid tickSize price seg) =
        sideVolume .ask tickSize price seg - sideVolume .bid tickSize price seg := by
    intro price
    have hask := hside .ask price
    have hbid := hside .bid price
    have hboth := ask_add_bid hacc tickSize price
    have hlight := hsmall price
    exact wrap32_of_small (by omega) (by omega)
  rw [h.deltas, SessionDeltaEngine.delta, ← sum_sideVolume h.nodup h.covers .ask,
    ← sum_sideVolume h.nodup h.covers .bid, sum_map_sub]
  simp only [hexact]

/-- Volumes that the cast leaves alone are added up as they are. -/
theorem fedDelta_volumes {state : SessionDeltaEngine.DeltaState} (h : BarOpening state)
    (ticks : List UniversalTickRecord) (hacc : ∀ tick ∈ ticks, tick.isAccumulatable)
    (hcast : ∀ tick ∈ ticks, wrap32 tick.volume = tick.volume) :
    (fedDelta state ticks).barAskVol = SessionDeltaEngine.sideVolume .ask ticks ∧
      (fedDelta state ticks).barBidVol = SessionDeltaEngine.sideVolume .bid ticks ∧
      (fedDelta state ticks).barTotalVol = SessionDeltaEngine.volume ticks := by
  induction ticks using List.reverseRecOn with
  | nil => exact ⟨h.barAskVol, h.barBidVol, h.barTotalVol⟩
  | append_singleton ticks tick ih =>
    obtain ⟨hask, hbid, -⟩ := ih (fun t ht => hacc t (List.mem_append_left _ ht))
      fun t ht => hcast t (List.mem_append_left _ ht)
    have htick : tick.isAccumulatable = true := hacc tick (by simp)
    have hvolume : wrap32 tick.volume = tick.volume := hcast tick (by simp)
    have hfed : fedDelta state (ticks ++ [tick]) =
        SessionDeltaEngine.onTick tick (fedDelta state ticks) := by simp [fedDelta]
    rw [hfed, SessionDeltaEngine.volume, SessionDeltaEngine.askVolume_snoc,
      SessionDeltaEngine.bidVolume_snoc ticks htick, ← hask, ← hbid]
    simp [SessionDeltaEngine.onTick, htick, hvolume]

theorem volume_eq {ticks : List UniversalTickRecord} (hacc : ∀ tick ∈ ticks, tick.isAccumulatable) :
    SessionDeltaEngine.volume ticks = volumeSum ticks := by
  induction ticks using List.reverseRecOn with
  | nil => rfl
  | append_singleton ticks tick ih =>
    have hearlier := ih fun t ht => hacc t (List.mem_append_left _ ht)
    rw [SessionDeltaEngine.volume_snoc ticks (hacc tick (by simp)), hearlier, volumeSum_append,
      volumeSum_singleton]

/-- The bar and the delta engine count the same volume exactly if no price trades `2^31` or
more in the bar. -/
theorem sameVolume_iff (s : BarSeries) (state : SessionDeltaEngine.DeltaState) (feed : Feed)
    (hacc : ∀ tick ∈ feed.ticks, tick.isAccumulatable)
    (hnonneg : ∀ tick ∈ feed.ticks, 0 ≤ tick.volume)
    (hbar : OneBar s feed) (hstate : BarOpening state) :
    ∃ bar, barOf (fed s feed) = some bar ∧
      (SameVolume bar (fedDelta state feed.ticks) (volumeSum feed.ticks) ↔
        ∀ price, volumeSum (ticksAt s.tickSize price feed.ticks) < 2 ^ 31) := by
  obtain ⟨bar, hbarOf, hbooked⟩ := barOf_fed hbar hacc
  obtain ⟨prices, hcounted⟩ := exists_counted hbooked hacc
  refine ⟨bar, hbarOf, ?_⟩
  constructor
  · intro h
    exact (levels_total_iff hcounted hnonneg).mp h.levels
  · intro hsmall
    have hcast : ∀ tick ∈ feed.ticks, wrap32 tick.volume = tick.volume := by
      intro tick htick
      have hat : tick ∈ ticksAt s.tickSize (roundToTick s.tickSize tick.price) feed.ticks :=
        List.mem_filter.mpr ⟨htick, by simp⟩
      have hle : tick.volume ≤
          volumeSum (ticksAt s.tickSize (roundToTick s.tickSize tick.price) feed.ticks) := by
        refine List.single_le_sum ?_ _ (List.mem_map_of_mem hat)
        intro v hv
        obtain ⟨t, ht, rfl⟩ := List.mem_map.mp hv
        exact hnonneg t (List.mem_of_mem_filter ht)
      exact (wrap32_eq_iff (hnonneg tick htick)).mpr (hle.trans_lt (hsmall _))
    obtain ⟨hask, hbid, htotal⟩ := fedDelta_volumes hstate feed.ticks hacc hcast
    constructor
    case totalVolume => exact hcounted.totalVolume
    case levels => exact (levels_total_iff hcounted hnonneg).mpr hsmall
    case barTotalVol => rw [htotal, volume_eq hacc]
    case delta =>
      rw [hask, hbid, levels_delta hcounted hacc hnonneg hsmall]
      rfl

/-- Two trades on a new series of bars of fifty contracts. -/
def twoTrades : Feed :=
  [(⟨10, 5000, 30, 1, .ask, .trade⟩, 0), (⟨20, 20001 / 4, 40, 1, .bid, .trade⟩, 0)]

theorem oneBar_twoTrades : OneBar (newSeries fiftyContracts) twoTrades :=
  oneBar_of_inits rfl (by decide) (by decide +kernel)

theorem sameVolume_twoTrades :
    ∃ bar, barOf (fed (newSeries fiftyContracts) twoTrades) = some bar ∧
      (SameVolume bar (fedDelta {} twoTrades.ticks) 70 ↔
        ∀ price, volumeSum (ticksAt (1 / 4) price twoTrades.ticks) < 2 ^ 31) :=
  sameVolume_iff (newSeries fiftyContracts) {} twoTrades (by decide) (by decide) oneBar_twoTrades
    barOpening_new

/-- One trade of `2^31` contracts. The levels and the delta engine count `-2^31`. -/
def largeTrade : Feed := [(⟨10, 5000, 2 ^ 31, 1, .ask, .trade⟩, 0)]

theorem not_sameVolume_largeTrade :
    OneBar (newSeries fiftyContracts) largeTrade ∧
      ∀ bar, barOf (fed (newSeries fiftyContracts) largeTrade) = some bar →
        ¬ SameVolume bar (fedDelta {} largeTrade.ticks) (2 ^ 31) := by
  refine ⟨oneBar_of_inits rfl (by decide) (by decide +kernel), ?_⟩
  intro bar _ h
  have htotal := h.barTotalVol
  revert htotal
  decide +kernel

end SessionBars
