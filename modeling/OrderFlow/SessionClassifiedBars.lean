import OrderFlow.SessionBarFlow
import OrderFlow.SessionLeeReadyRuns

/-!
# Bars of classified ticks

Each tick of a feed is classified in place before it goes to a bar series. A trade without a
side is not booked, but once a trade has one, all later trades do. So the bars hold the volume
of all trades but those in front of the first one with a side.
-/
namespace SessionBars

open SessionLeeReady (LeeReadyState Classified classifyInplace)
open SessionTypes

/-- The calls of a series, with each tick classified on its way. -/
def classifyCalls (state : LeeReadyState) : List Call → List Call
  | [] => []
  | .onTick tick sessionOpenTsNs :: calls =>
    .onTick (classifyInplace tick state).1 sessionOpenTsNs ::
      classifyCalls (classifyInplace tick state).2 calls
  | .forceCloseBar closeTsNs :: calls => .forceCloseBar closeTsNs :: classifyCalls state calls
  | .onSessionOpen sessionOpenTsNs :: calls =>
    .onSessionOpen sessionOpenTsNs :: classifyCalls state calls

def tradesOf (calls : List Call) : List UniversalTickRecord :=
  (ticksOf calls).filter fun tick => tick.tickType = .trade

/-- What a call adds to the trades. -/
theorem tradesOf_cons (c : Call) (calls : List Call) :
    tradesOf (c :: calls) = tradesOf [c] ++ tradesOf calls := by
  cases c with
  | onTick tick sessionOpenTsNs => by_cases htrade : tick.tickType = .trade <;>
      simp [tradesOf, ticksOf, htrade]
  | forceCloseBar closeTsNs => rfl
  | onSessionOpen sessionOpenTsNs => rfl

theorem tradesOf_trade {tick : UniversalTickRecord} (h : tick.tickType = .trade) (ts : Int) :
    tradesOf [.onTick tick ts] = [tick] := by
  simp [tradesOf, ticksOf, h]

theorem tradesOf_quote {tick : UniversalTickRecord} (h : tick.tickType ≠ .trade) (ts : Int) :
    tradesOf [.onTick tick ts] = [] := by
  simp [tradesOf, ticksOf, h]

/-- A trade gets a side, and leaves it in the state with its price. -/
theorem classifyInplace_trade {tick : UniversalTickRecord} (h : tick.tickType = .trade)
    (state : LeeReadyState) :
    ∃ side, (classifyInplace tick state).1 = { tick with side := side } ∧
      side = SessionLeeReady.tradeSide tick.price 0 state ∧
      (classifyInplace tick state).2.prevTradePrice = tick.price ∧
      (classifyInplace tick state).2.lastClassified = side := by
  simp only [classifyInplace, h]
  exact ⟨_, rfl, rfl, rfl, rfl⟩

/-- Any other tick stays as it is, and so does what is known of the last trade. -/
theorem classifyInplace_quote {tick : UniversalTickRecord} (h : tick.tickType ≠ .trade)
    (state : LeeReadyState) :
    (classifyInplace tick state).1 = tick ∧
      (classifyInplace tick state).2.prevTradePrice = state.prevTradePrice ∧
      (classifyInplace tick state).2.lastClassified = state.lastClassified := by
  cases htype : tick.tickType with
  | trade => exact absurd htype h
  | summary =>
    simp only [classifyInplace, htype]
    exact ⟨trivial, trivial, trivial⟩
  | bidQuote | askQuote =>
    simp only [classifyInplace, htype]
    exact ⟨trivial, SessionLeeReady.updateQuote_frame _ _ _⟩

/-- Behind a classified trade at a price, all trades are classified. -/
theorem sides_of_classified {state : LeeReadyState} (hprice : state.prevTradePrice ≠ 0)
    (hlast : Classified state.lastClassified) (calls : List Call)
    (hprices : ∀ tick ∈ tradesOf calls, tick.price ≠ 0) :
    ∀ tick ∈ tradesOf (classifyCalls state calls), Classified tick.side := by
  induction calls generalizing state with
  | nil => simp [classifyCalls, tradesOf, ticksOf]
  | cons c calls ih =>
    rw [tradesOf_cons, List.forall_mem_append] at hprices
    cases c with
    | onTick tick sessionOpenTsNs =>
      rw [classifyCalls, tradesOf_cons, List.forall_mem_append]
      by_cases htrade : tick.tickType = .trade
      · obtain ⟨side, htick, hside, hprev, hcarry⟩ := classifyInplace_trade htrade state
        have hclassified : Classified side :=
          hside ▸ SessionLeeReady.tradeSide_classified tick.price 0 hprice hlast
        have hnonzero : tick.price ≠ 0 := hprices.1 tick (by simp [tradesOf_trade htrade])
        rw [htick, tradesOf_trade (by exact htrade)]
        exact ⟨by simpa using hclassified,
          ih (hprev ▸ hnonzero) (hcarry ▸ hclassified) hprices.2⟩
      · obtain ⟨htick, hprev, hcarry⟩ := classifyInplace_quote htrade state
        rw [htick, tradesOf_quote htrade]
        exact ⟨by simp, ih (hprev ▸ hprice) (hcarry ▸ hlast) hprices.2⟩
    | forceCloseBar closeTsNs => exact ih hprice hlast hprices.2
    | onSessionOpen sessionOpenTsNs => exact ih hprice hlast hprices.2

/-- The trades of a feed, those without a side in front, and as raw trades. -/
structure Sided (raw classified lead rest : List UniversalTickRecord) : Prop where
  split : classified = lead ++ rest
  unknown : ∀ tick ∈ lead, tick.side = .unknown
  known : ∀ tick ∈ rest, Classified tick.side
  volumes : classified.map (·.volume) = raw.map (·.volume)

theorem volumes_classifyCalls (state : LeeReadyState) (calls : List Call) :
    (tradesOf (classifyCalls state calls)).map (·.volume) = (tradesOf calls).map (·.volume) := by
  induction calls generalizing state with
  | nil => rfl
  | cons c calls ih =>
    rw [tradesOf_cons]
    cases c with
    | onTick tick sessionOpenTsNs =>
      rw [classifyCalls, tradesOf_cons, List.map_append, List.map_append, ih]
      by_cases htrade : tick.tickType = .trade
      · obtain ⟨side, htick, -⟩ := classifyInplace_trade htrade state
        rw [htick, tradesOf_trade htrade, tradesOf_trade (by exact htrade)]
        rfl
      · rw [(classifyInplace_quote htrade state).1]
    | forceCloseBar closeTsNs => exact ih state
    | onSessionOpen sessionOpenTsNs => exact ih state

/-- Trades without a side come first. -/
theorem sided_classifyCalls (state : LeeReadyState) (calls : List Call)
    (hprices : ∀ tick ∈ tradesOf calls, tick.price ≠ 0) :
    ∃ lead rest, Sided (tradesOf calls) (tradesOf (classifyCalls state calls)) lead rest := by
  suffices hsplit : ∃ lead rest, tradesOf (classifyCalls state calls) = lead ++ rest ∧
      (∀ tick ∈ lead, tick.side = .unknown) ∧ ∀ tick ∈ rest, Classified tick.side by
    obtain ⟨lead, rest, hall, hlead, hrest⟩ := hsplit
    exact ⟨lead, rest, hall, hlead, hrest, volumes_classifyCalls state calls⟩
  induction calls generalizing state with
  | nil => exact ⟨[], [], rfl, by simp, by simp⟩
  | cons c calls ih =>
    rw [tradesOf_cons, List.forall_mem_append] at hprices
    cases c with
    | onTick tick sessionOpenTsNs =>
      rw [classifyCalls, tradesOf_cons]
      by_cases htrade : tick.tickType = .trade
      · obtain ⟨side, htick, -, hprev, hcarry⟩ := classifyInplace_trade htrade state
        rw [htick, tradesOf_trade (by exact htrade)]
        by_cases hside : side = .unknown
        · obtain ⟨lead, rest, hall, hlead, hrest⟩ := ih _ hprices.2
          exact ⟨{ tick with side := side } :: lead, rest, by rw [hall]; rfl,
            List.forall_mem_cons.mpr ⟨hside, hlead⟩, hrest⟩
        · have hclassified := SessionLeeReady.classified_iff.mpr hside
          have hnonzero : tick.price ≠ 0 := hprices.1 tick (by simp [tradesOf_trade htrade])
          exact ⟨[], _, rfl, by simp, List.forall_mem_cons.mpr ⟨hclassified,
            sides_of_classified (hprev ▸ hnonzero) (hcarry ▸ hclassified) calls hprices.2⟩⟩
      · rw [(classifyInplace_quote htrade state).1, tradesOf_quote htrade]
        exact ih _ hprices.2
    | forceCloseBar closeTsNs => exact ih state hprices.2
    | onSessionOpen sessionOpenTsNs => exact ih state hprices.2

theorem isAccumulatable_iff (tick : UniversalTickRecord) :
    tick.isAccumulatable = (decide (tick.side ≠ .unknown) && decide (tick.tickType = .trade)) := by
  rw [UniversalTickRecord.isAccumulatable, Bool.and_comm]

/-- The booked ticks are the trades with a side. -/
theorem filter_isAccumulatable (calls : List Call) :
    (ticksOf calls).filter (·.isAccumulatable) =
      (tradesOf calls).filter fun tick => tick.side ≠ .unknown := by
  rw [tradesOf, List.filter_filter]
  exact List.filter_congr fun tick _ => isAccumulatable_iff tick

/-- The trades of a feed without a side are its first `k`, and bars of any size hold the volume
of all others. -/
theorem classified_flow (settings : Settings) (hcallback : settings.onBarClose = true)
    (calls : List Call) (hprices : ∀ tick ∈ tradesOf calls, tick.price ≠ 0) :
    ∃ k, (∀ i tick, (tradesOf (classifyCalls {} calls))[i]? = some tick →
        (tick.side = .unknown ↔ i < k)) ∧
      (run (newSeries settings) (classifyCalls {} calls)).volume =
        volumeSum ((tradesOf calls).drop k) := by
  obtain ⟨lead, rest, h⟩ := sided_classifyCalls {} calls hprices
  refine ⟨lead.length, ?_, ?_⟩
  · intro i tick hget
    rw [h.split] at hget
    constructor
    · intro hunknown
      by_contra hbehind
      rw [List.getElem?_append_right (not_lt.mp hbehind)] at hget
      exact SessionLeeReady.classified_iff.mp (h.known tick (List.mem_of_getElem? hget)) hunknown
    · intro hfront
      rw [List.getElem?_append_left hfront] at hget
      exact h.unknown tick (List.mem_of_getElem? hget)
  · have hlead : lead.filter (fun tick => decide (tick.side ≠ .unknown)) = [] := by
      rw [List.filter_eq_nil_iff]
      intro tick htick
      simp [h.unknown tick htick]
    have hrest : rest.filter (fun tick => decide (tick.side ≠ .unknown)) = rest := by
      rw [List.filter_eq_self]
      intro tick htick
      simpa using SessionLeeReady.classified_iff.mp (h.known tick htick)
    have hbooked : bookedVolume (classifyCalls {} calls) = volumeSum rest := by
      rw [bookedVolume, filter_isAccumulatable, h.split, List.filter_append, hlead, hrest,
        List.nil_append]
    have hraw : volumeSum ((tradesOf calls).drop lead.length) = volumeSum rest := by
      rw [volumeSum, List.map_drop, ← h.volumes, h.split, ← List.map_drop, List.drop_left, volumeSum]
    rw [volume_run (s := newSeries settings) hcallback, hbooked, hraw]
    simp [BarSeries.volume, barVolume, newSeries]

/-- Two trades before the first quote, and three after it. -/
def quoteAfterTwo : List Call :=
  [.onTick ⟨10, 5000, 30, 1, .unknown, .trade⟩ 0, .onTick ⟨20, 5000, 4, 1, .unknown, .trade⟩ 0,
    .onTick ⟨30, 4999, 1, 1, .unknown, .bidQuote⟩ 0, .onTick ⟨40, 5000, 1, 1, .unknown, .askQuote⟩ 0,
    .onTick ⟨50, 5000, 25, 1, .unknown, .trade⟩ 0, .forceCloseBar 60,
    .onTick ⟨70, 9999 / 2, 40, 1, .unknown, .trade⟩ 0, .onTick ⟨80, 4999, 2, 1, .unknown, .trade⟩ 0]

theorem classified_flow_quoteAfterTwo :
    ∃ k, (∀ i tick, (tradesOf (classifyCalls {} quoteAfterTwo))[i]? = some tick →
        (tick.side = .unknown ↔ i < k)) ∧
      (run (newSeries fiftyContracts) (classifyCalls {} quoteAfterTwo)).volume =
        volumeSum ((tradesOf quoteAfterTwo).drop k) :=
  classified_flow fiftyContracts rfl quoteAfterTwo (by decide +kernel)

end SessionBars
