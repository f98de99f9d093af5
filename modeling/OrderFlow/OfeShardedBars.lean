import OrderFlow.OfeBarSegments
import OrderFlow.OfeTickRouterOrder

/-!
# Bar engines behind the shards of the router

Each shard has a bar engine, fed with what its consumer pops. However the dispatches and
the pops of any number of threads interleave, the bars of a symbol are those of a single
engine that was fed with the dispatched ticks in their order.
-/
namespace OfeTickRouter

open AtomicObjects (ofThread)
open OfeBars

variable {Thread : Type} {count : ShardCount}

/-- An engine that is fed with ticks. -/
def feed (engine : BarEngine) (ticks : List UniversalTickRecord) : BarEngine :=
  engine.run (ticks.map .ingest)

/-- The engine of a shard, which all its pops have been fed to. -/
def shardEngine (engine : BarEngine) (r : TickRouter Thread count) (shard : ShardIndex count) :
    BarEngine := feed engine (poppedFrom shard r.log)

theorem feed_append (engine : BarEngine) (ticks more : List UniversalTickRecord) :
    feed engine (ticks ++ more) = feed (feed engine ticks) more := by
  simp [feed, BarEngine.run]

theorem subscriptions_ingest (symbolId : UInt32) (ticks : List UniversalTickRecord) :
    subscriptions symbolId (ticks.map .ingest) = [] := by
  induction ticks with
  | nil => rfl
  | cons tick ticks ih => exact ih

theorem ticksOf_ingest (symbolId : UInt32) (ticks : List UniversalTickRecord) :
    ticksOf symbolId (ticks.map .ingest) = ofSymbol symbolId ticks := by
  induction ticks with
  | nil => rfl
  | cons tick ticks ih =>
    by_cases hsymbol : tick.symbolId = symbolId
    · simpa [ticksOf, ofSymbol, hsymbol] using ih
    · simpa [ticksOf, ofSymbol, hsymbol] using ih

/-- What an engine makes of a symbol is decided by the ticks of that symbol. -/
theorem seriesOf_feed (engine : BarEngine) (symbolId : UInt32) (ticks : List UniversalTickRecord) :
    (feed engine ticks).seriesOf symbolId =
      (engine.seriesOf symbolId).map (·.ingestAll (ofSymbol symbolId ticks)) := by
  rw [feed, seriesOf_run, ticksOf_ingest, subscriptions_ingest, List.map_nil, List.append_nil]

/-- What is left of the beginning of a list is left of a beginning of it. -/
theorem exists_prefix_filter {α : Type} {p : α → Bool} {xs ys : List α} (h : ys <+: xs.filter p) :
    ∃ zs, zs <+: xs ∧ zs.filter p = ys := by
  induction xs generalizing ys with
  | nil => exact ⟨[], List.prefix_refl _, (List.prefix_nil.mp h).symm⟩
  | cons x xs ih =>
    by_cases hx : p x = true
    · rw [List.filter_cons_of_pos hx] at h
      cases ys with
      | nil => exact ⟨[], List.nil_prefix, rfl⟩
      | cons y ys =>
        obtain ⟨rfl, htail⟩ := List.cons_prefix_cons.mp h
        obtain ⟨zs, hzs, hfilter⟩ := ih htail
        exact ⟨y :: zs, List.cons_prefix_cons.mpr ⟨rfl, hzs⟩, by simp [hx, hfilter]⟩
    · rw [List.filter_cons_of_neg hx] at h
      obtain ⟨zs, hzs, hfilter⟩ := ih h
      exact ⟨x :: zs, List.cons_prefix_cons.mpr ⟨rfl, hzs⟩, by simp [hx, hfilter]⟩

/-- The engine of its shard has for a symbol what a single engine had when it had been fed
with the first of the dispatched ticks, and will have what that has when the queue of
the shard has been popped; no other shard has seen the symbol. The log of the dispatches has
the calls of every thread but for the one in progress. -/
structure OneEngine [DecidableEq Thread] (actions : List (Action Thread)) (engine : BarEngine)
    (r : TickRouter Thread count) (symbolId : UInt32) : Prop where
  calls : ∀ thread, ofThread thread (requests (newRouter count) actions) =
    ofThread thread (r.log.map request) ++ (r.calls thread).unanswered
  behind : ∃ seen, seen <+: dispatched r.log ∧
    (shardEngine engine r (home count symbolId)).seriesOf symbolId =
      (feed engine seen).seriesOf symbolId
  pending : (feed (shardEngine engine r (home count symbolId))
      (r.shards (home count symbolId)).queue).seriesOf symbolId =
    (feed engine (dispatched r.log)).seriesOf symbolId
  elsewhere : ∀ shard, shard ≠ home count symbolId →
    (shardEngine engine r shard).seriesOf symbolId = engine.seriesOf symbolId

/-- A shard that is not the symbol's own has popped no tick of it. -/
theorem ofSymbol_elsewhere {r : TickRouter Thread count} (h : Inv r) {shard : ShardIndex count}
    {symbolId : UInt32} (hother : shard ≠ home count symbolId) :
    ofSymbol symbolId (poppedFrom shard r.log) = [] := by
  apply List.filter_eq_nil_iff.mpr
  intro tick htick hsymbol
  have hsent : tick ∈ sentTo shard (dispatched r.log) := by
    rw [← h.fifo shard]
    exact List.mem_append_left _ htick
  have hhome : home count tick.symbolId = shard := by
    simpa [sentTo] using (List.mem_filter.mp hsent).2
  have hsame : tick.symbolId = symbolId := by simpa using hsymbol
  exact hother (hsame ▸ hhome.symm)

/-- For every argument of the constructor, every engine and symbol, and every interleaving
of any number of threads. -/
theorem run_oneEngine [DecidableEq Thread] (shardCount : UInt64) (actions : List (Action Thread))
    (engine : BarEngine) (symbolId : UInt32) :
    OneEngine actions engine (run (ShardCount.ofArgument shardCount) actions) symbolId := by
  have h := inv_run (ShardCount.ofArgument shardCount) actions
  constructor
  case calls => exact fun thread => (asked_run actions thread).symm
  case behind =>
    have hprefix := ofSymbol_pops_inOrder h symbolId
    rw [← ofSymbol_pops h] at hprefix
    obtain ⟨seen, hseen, hfilter⟩ := exists_prefix_filter hprefix
    refine ⟨seen, hseen, ?_⟩
    rw [shardEngine, seriesOf_feed, seriesOf_feed]
    simp only [ofSymbol] at hfilter ⊢
    rw [hfilter]
  case pending =>
    rw [shardEngine, ← feed_append, h.fifo, seriesOf_feed, seriesOf_feed, ofSymbol_sentTo]
  case elsewhere =>
    intro shard hother
    rw [shardEngine, seriesOf_feed, ofSymbol_elsewhere h hother]
    simp [BarSeries.ingestAll]

end OfeTickRouter
