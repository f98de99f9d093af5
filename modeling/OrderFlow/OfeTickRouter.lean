import OrderFlow.OfeBars

/-!
# The sharded tick router of `include/ofe`

Any number of threads dispatch ticks and pop them. Each shard has a queue and a
mutex; a call takes the mutex, works on the queue and gives the mutex back, one
step at a time, and a thread that finds it taken stays where it is. The log has
what the calls did to the queues, in the order in which they did it.
-/
namespace OfeTickRouter

open OfeBars

variable {Thread : Type} [DecidableEq Thread]

/-- `shard_count_`, which the constructor never leaves at zero. -/
structure ShardCount where
  value : UInt64
  positive : 0 < value

namespace ShardCount

theorem one_positive : (0 : UInt64) < 1 := by decide

theorem positive_of_ne_zero {n : UInt64} (h : n ≠ 0) : 0 < n := by
  rw [UInt64.lt_iff_toNat_lt]
  have hne : n.toNat ≠ 0 := fun he => h (UInt64.toNat_inj.mp he)
  exact Nat.pos_of_ne_zero hne

/-- The argument of the constructor, zero replaced by one. -/
def ofArgument (shardCount : UInt64) : ShardCount :=
  if h : shardCount = 0 then ⟨1, one_positive⟩
  else ⟨shardCount, positive_of_ne_zero h⟩

def size (count : ShardCount) : Nat := count.value.toNat

theorem size_pos (count : ShardCount) : 0 < count.size := UInt64.lt_iff_toNat_lt.mp count.positive

end ShardCount

abbrev ShardIndex (count : ShardCount) : Type := Fin count.size

/-- `mutex` is the thread that holds it. -/
structure Shard (Thread : Type) where
  mutex : Option Thread
  queue : List UniversalTickRecord

def shardForSymbol (count : ShardCount) (symbolId : UInt32) : UInt64 :=
  symbolId.toUInt64 % count.value

/-- `shards_.at`, `none` where it throws. -/
def shardAt (count : ShardCount) (index : UInt64) : Option (ShardIndex count) :=
  if h : index < count.value then some ⟨index.toNat, UInt64.lt_iff_toNat_lt.mp h⟩ else none

/-- Where a thread stands; from `pushBack` and `testEmpty` on it has the mutex. -/
inductive Call (count : ShardCount) where
  | idle
  | lockToDispatch (shard : ShardIndex count) (tick : UniversalTickRecord)
  | pushBack (shard : ShardIndex count) (tick : UniversalTickRecord)
  | lockToPop (shard : ShardIndex count)
  | testEmpty (shard : ShardIndex count)
  | copyFront (shard : ShardIndex count)
  | popFront (shard : ShardIndex count) (out : UniversalTickRecord)
  | unlock (shard : ShardIndex count)
  deriving DecidableEq

inductive Event (Thread : Type) (count : ShardCount) where
  | dispatched (thread : Thread) (tick : UniversalTickRecord)
  | popped (thread : Thread) (shard : ShardIndex count) (tick : UniversalTickRecord)
  | foundEmpty (thread : Thread) (shard : ShardIndex count)
  | outOfRange (thread : Thread) (index : UInt64)

structure TickRouter (Thread : Type) (count : ShardCount) where
  shards : ShardIndex count → Shard Thread
  calls : Thread → Call count
  log : List (Event Thread count)

inductive Action (Thread : Type) where
  | dispatch (thread : Thread) (tick : UniversalTickRecord)
  | tryPop (thread : Thread) (index : UInt64)
  | threadStep (thread : Thread)

/-- `dispatch` and `try_pop` from one access of the shard to the next. -/
def threadStep {count : ShardCount} (r : TickRouter Thread count) (thread : Thread) :
    TickRouter Thread count :=
  match r.calls thread with
  | .idle => r
  | .lockToDispatch shard tick =>
    match (r.shards shard).mutex with
    | some _ => r
    | none =>
      { r with
        shards := Function.update r.shards shard { r.shards shard with mutex := some thread }
        calls := Function.update r.calls thread (.pushBack shard tick) }
  | .pushBack shard tick =>
    { shards := Function.update r.shards shard
        { r.shards shard with queue := (r.shards shard).queue ++ [tick] }
      calls := Function.update r.calls thread (.unlock shard)
      log := r.log ++ [.dispatched thread tick] }
  | .lockToPop shard =>
    match (r.shards shard).mutex with
    | some _ => r
    | none =>
      { r with
        shards := Function.update r.shards shard { r.shards shard with mutex := some thread }
        calls := Function.update r.calls thread (.testEmpty shard) }
  | .testEmpty shard =>
    if (r.shards shard).queue.isEmpty then
      { r with
        calls := Function.update r.calls thread (.unlock shard)
        log := r.log ++ [.foundEmpty thread shard] }
    else { r with calls := Function.update r.calls thread (.copyFront shard) }
  | .copyFront shard =>
    match (r.shards shard).queue with
    | [] => r
    | tick :: _ => { r with calls := Function.update r.calls thread (.popFront shard tick) }
  | .popFront shard out =>
    { shards := Function.update r.shards shard
        { r.shards shard with queue := (r.shards shard).queue.tail }
      calls := Function.update r.calls thread (.unlock shard)
      log := r.log ++ [.popped thread shard out] }
  | .unlock shard =>
    { r with
      shards := Function.update r.shards shard { r.shards shard with mutex := none }
      calls := Function.update r.calls thread .idle }

/-- A call starts with `at`; a thread that is busy starts none. -/
def step {count : ShardCount} (r : TickRouter Thread count) :
    Action Thread → TickRouter Thread count
  | .dispatch thread tick =>
    match r.calls thread with
    | .idle =>
      let index := shardForSymbol count tick.symbolId
      match shardAt count index with
      | none => { r with log := r.log ++ [.outOfRange thread index] }
      | some shard =>
        { r with calls := Function.update r.calls thread (.lockToDispatch shard tick) }
    | _ => r
  | .tryPop thread index =>
    match r.calls thread with
    | .idle =>
      match shardAt count index with
      | none => { r with log := r.log ++ [.outOfRange thread index] }
      | some shard => { r with calls := Function.update r.calls thread (.lockToPop shard) }
    | _ => r
  | .threadStep thread => threadStep r thread

def newRouter (count : ShardCount) : TickRouter Thread count :=
  ⟨fun _ => ⟨none, []⟩, fun _ => .idle, []⟩

def run (count : ShardCount) (actions : List (Action Thread)) : TickRouter Thread count :=
  actions.foldl step (newRouter count)

end OfeTickRouter
