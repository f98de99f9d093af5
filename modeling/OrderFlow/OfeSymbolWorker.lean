import OrderFlow.OfeBars
import OrderFlow.OfeRingBuffer
import OrderFlow.OfeSignalTypes
import OrderFlow.OfeWorkerLifecycle

/-!
# The pipeline of a symbol worker of `include/ofe`

One thread submits ticks, one thread calls `start` and `stop`, and the run loop
pops the ticks, hands each to the stages that are set and publishes it. The life
of the worker and the ingress buffer move by their own steps; the body of the
loop adds a step for each stage and one for the publication. The trace has the
calls of the handlers and of `publish`, in order.

A run loop in its body is alone (`OfeWorkerOverlap`), so that one `body` does
for all the loops that the calls of `start` make.
-/
namespace OfeSymbolWorker

open OfeBars OfeSignalTypes RingWindow
open OfeWorkerLifecycle (Worker)

def stageCount : Nat := 11

/-- The stages that have a handler, and whether there is an event bus. -/
structure Config where
  stages : Fin stageCount → Bool
  eventBus : Bool

inductive Event where
  | stage (index : Fin stageCount) (tick : UniversalTickRecord)
  | publish (event : SignalEvent)
  deriving DecidableEq, Repr

/-- The event of `publish_tick`. -/
def tickEvent (tick : UniversalTickRecord) : SignalEvent :=
  { timestampNs := tick.timestampNs
    symbolId := tick.symbolId
    price := tick.price
    referencePrice := tick.bidPrice
    volume := tick.size
    signalType := .unknown
    imbalanceZone := .neutral }

/-- Where the body of the loop stands: in `try_pop`, at the head of the loop over
the stages, or at the publication. -/
inductive Body where
  | popping
  | stage (index : Nat) (tick : UniversalTickRecord)
  | publish (tick : UniversalTickRecord)
  deriving DecidableEq, Repr

structure State where
  lifecycle : Worker Unit
  ingress : OfeRingBuffer.State UniversalTickRecord
  body : Body
  trace : List Event

/-- `submitStep` moves the call of `submit` in progress, `controlStep` that of
`start` or `stop`. -/
inductive Action where
  | start
  | stop
  | controlStep
  | loopStep (loop : Nat)
  | submit (tick : UniversalTickRecord)
  | submitStep
  deriving DecidableEq, Repr

/-- The capacity of `ingress_`. -/
def ingressCapacity : PowerOfTwo where
  value := 4096
  pos := by decide
  single := by decide

def callHandler (config : Config) (index : Fin stageCount) (tick : UniversalTickRecord) :
    List Event :=
  if config.stages index then [.stage index tick] else []

def publishTick (config : Config) (tick : UniversalTickRecord) : List Event :=
  if config.eventBus then [.publish (tickEvent tick)] else []

/-- `try_pop` from one access of the ingress buffer to the next. A failed pop
ends the body of the loop. -/
def popStep (s : State) (loop : Nat) : State :=
  match s.ingress.consumer with
  | .idle => { s with ingress := OfeRingBuffer.step ingressCapacity s.ingress .tryPop }
  | .release _ _ tick =>
    { s with
      ingress := OfeRingBuffer.step ingressCapacity s.ingress .consumerStep
      body := .stage 0 tick }
  | _ =>
    let ingress := OfeRingBuffer.step ingressCapacity s.ingress .consumerStep
    match ingress.consumer with
    | .idle =>
      { s with
        lifecycle := OfeWorkerLifecycle.step s.lifecycle (.loopStep loop)
        ingress := ingress }
    | _ => { s with ingress := ingress }

/-- The body of the loop of `run`. -/
def bodyStep (config : Config) (s : State) (loop : Nat) : State :=
  match s.body with
  | .popping => popStep s loop
  | .stage index tick =>
    if h : index < stageCount then
      { s with
        body := .stage (index + 1) tick
        trace := s.trace ++ callHandler config ⟨index, h⟩ tick }
    else { s with body := .publish tick }
  | .publish tick =>
    { s with
      lifecycle := OfeWorkerLifecycle.step s.lifecycle (.loopStep loop)
      body := .popping
      trace := s.trace ++ publishTick config tick }

def step (config : Config) (s : State) : Action → State
  | .start => { s with lifecycle := OfeWorkerLifecycle.step s.lifecycle (.start ()) }
  | .stop => { s with lifecycle := OfeWorkerLifecycle.step s.lifecycle (.stop ()) }
  | .controlStep => { s with lifecycle := OfeWorkerLifecycle.step s.lifecycle (.threadStep ()) }
  | .loopStep loop =>
    match s.lifecycle.loops[loop]? with
    | some .working => bodyStep config s loop
    | _ => { s with lifecycle := OfeWorkerLifecycle.step s.lifecycle (.loopStep loop) }
  | .submit tick => { s with ingress := OfeRingBuffer.step ingressCapacity s.ingress (.push tick) }
  | .submitStep => { s with ingress := OfeRingBuffer.step ingressCapacity s.ingress .producerStep }

def newWorker : State :=
  ⟨OfeWorkerLifecycle.newWorker, OfeRingBuffer.initial 0, .popping, []⟩

def run (config : Config) (actions : List Action) : State :=
  actions.foldl (step config) newWorker

end OfeSymbolWorker
