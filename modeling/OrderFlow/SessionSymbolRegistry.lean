import OrderFlow.SessionRingBuffer
import OrderFlow.SessionTypes
import Mathlib.Data.List.AList
import Mathlib.Algebra.BigOperators.Group.Finset.Basic

/-!
# The symbol registry of `session1`

The tick router with its registry of symbols, each call taking effect as a whole.
A symbol is registered under a 32-bit id with the ring buffer of its worker, and a
tick goes to the buffer registered for its id. Buffers may be shared, exchanged and
taken out of the registry while they hold ticks; only the router pushes into them.

The log has every call with what it returned, in the order of the calls.
-/
namespace SessionSymbolRegistry

open RingWindow SessionRingBuffer SessionTypes

variable {Buffer : Type} [DecidableEq Buffer]

structure TickRouter (Buffer : Type) where
  maxSymbols : UInt32
  symbolMap : AList fun _ : UInt32 => Buffer
  ticksRouted : Nat
  ticksDropped : Nat
  ticksUnknown : Nat

def newTickRouter (maxSymbols : UInt32) : TickRouter Buffer := ⟨maxSymbols, ∅, 0, 0, 0⟩

structure RouterStats where
  ticksRoutedTotal : Nat
  ticksDroppedTotal : Nat
  ticksUnknownSymbol : Nat
  ticksPerSecond : Nat
  activeSymbols : UInt32
  deriving DecidableEq, Repr

/-- The size of the map, cast to 32 bits. -/
def TickRouter.activeSymbols (router : TickRouter Buffer) : UInt32 :=
  UInt32.ofNat router.symbolMap.keys.length

def TickRouter.getStats (router : TickRouter Buffer) : RouterStats :=
  ⟨router.ticksRouted, router.ticksDropped, router.ticksUnknown, 0, router.activeSymbols⟩

/-- No buffer is a null pointer. A symbol that is registered already counts
against the limit as well. -/
def TickRouter.registerSymbol (router : TickRouter Buffer) (symbolId : UInt32)
    (buffer : Option Buffer) : TickRouter Buffer × Bool :=
  match buffer with
  | none => (router, false)
  | some buffer =>
    if router.maxSymbols.toNat ≤ router.symbolMap.keys.length then (router, false)
    else ({ router with symbolMap := router.symbolMap.insert symbolId buffer }, true)

def TickRouter.unregisterSymbol (router : TickRouter Buffer) (symbolId : UInt32) :
    TickRouter Buffer :=
  match router.symbolMap.lookup symbolId with
  | none => router
  | some _ => { router with symbolMap := router.symbolMap.erase symbolId }

/-- The router and the ring buffers it points to. -/
structure System (Buffer : Type) where
  router : TickRouter Buffer
  rings : Buffer → SPSCRingBuffer UniversalTickRecord

/-- The buffer a tick is offered to. -/
def System.target (s : System Buffer) (tick : UniversalTickRecord) : Option Buffer :=
  s.router.symbolMap.lookup tick.symbolId

def System.route (capacity : Capacity) (s : System Buffer) (tick : UniversalTickRecord) :
    System Buffer × Bool :=
  match s.target tick with
  | none => ({ s with router.ticksUnknown := s.router.ticksUnknown + 1 }, false)
  | some buffer =>
    match tryPush capacity (s.rings buffer) tick with
    | (ring, true) =>
      ({ router := { s.router with ticksRouted := s.router.ticksRouted + 1 }
         rings := Function.update s.rings buffer ring }, true)
    | (ring, false) =>
      ({ router := { s.router with ticksDropped := s.router.ticksDropped + 1 }
         rings := Function.update s.rings buffer ring }, false)

/-- The overload for a moved tick differs in what it writes to the log file. -/
def System.routeMoved (capacity : Capacity) (s : System Buffer) (tick : UniversalTickRecord) :
    System Buffer × Bool :=
  s.route capacity tick

inductive Call (Buffer : Type) where
  | registerSymbol (symbolId : UInt32) (buffer : Option Buffer)
  | unregisterSymbol (symbolId : UInt32)
  | route (tick : UniversalTickRecord)
  | routeMoved (tick : UniversalTickRecord)
  | tryPop (buffer : Buffer)

/-- A call that has returned. A routed tick stands with the buffer it was offered to. -/
inductive Event (Buffer : Type) where
  | registered (symbolId : UInt32) (buffer : Option Buffer) (result : Bool)
  | unregistered (symbolId : UInt32)
  | routed (tick : UniversalTickRecord) (target : Option Buffer) (result : Bool)
  | popped (buffer : Buffer) (result : Option UniversalTickRecord)

def System.call (capacity : Capacity) (s : System Buffer) :
    Call Buffer → System Buffer × Event Buffer
  | .registerSymbol symbolId buffer =>
    ({ s with router := (s.router.registerSymbol symbolId buffer).1 },
      .registered symbolId buffer (s.router.registerSymbol symbolId buffer).2)
  | .unregisterSymbol symbolId =>
    ({ s with router := s.router.unregisterSymbol symbolId }, .unregistered symbolId)
  | .route tick =>
    ((s.route capacity tick).1, .routed tick (s.target tick) (s.route capacity tick).2)
  | .routeMoved tick =>
    ((s.routeMoved capacity tick).1, .routed tick (s.target tick) (s.routeMoved capacity tick).2)
  | .tryPop buffer =>
    ({ s with rings := Function.update s.rings buffer (tryPop capacity (s.rings buffer)).1 },
      .popped buffer (tryPop capacity (s.rings buffer)).2)

structure State (Buffer : Type) where
  system : System Buffer
  log : List (Event Buffer)

def step (capacity : Capacity) (s : State Buffer) (call : Call Buffer) : State Buffer :=
  ⟨(s.system.call capacity call).1, s.log ++ [(s.system.call capacity call).2]⟩

def initial (maxSymbols : UInt32) (slots : Buffer → Nat → UniversalTickRecord) : State Buffer :=
  ⟨⟨newTickRouter maxSymbols, fun buffer => newBuffer (slots buffer)⟩, []⟩

def run (capacity : Capacity) (maxSymbols : UInt32) (slots : Buffer → Nat → UniversalTickRecord)
    (calls : List (Call Buffer)) : State Buffer :=
  calls.foldl (step capacity) (initial maxSymbols slots)

end SessionSymbolRegistry
