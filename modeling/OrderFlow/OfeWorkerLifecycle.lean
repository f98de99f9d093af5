import Mathlib.Data.Fintype.Pi
import Mathlib.Logic.Function.Basic

/-!
# The life of a symbol worker of `include/ofe`

`start`, `stop` and the destructor, called by any number of controlling
threads. Each access of `running_`, the test of `worker_.joinable()`, the join,
the making of a thread, its assignment to `worker_` and the destruction of
`worker_` is one step. A run loop is at the load of `running_`, in the body of
its `while`, or over.
-/
namespace OfeWorkerLifecycle

variable {Thread : Type} [DecidableEq Thread] [Fintype Thread]

inductive Loop where
  | testing | working | exited
  deriving DecidableEq, Repr

/-- Who runs the body of `stop`. -/
inductive Caller where
  | stop | destructor
  deriving DecidableEq, Repr

/-- Where a controlling thread stands. `spawn` and `assign` are in a `start` that
has set `running_`, `testJoinable` and `join` in a `stop` that has cleared it. -/
inductive Call where
  | idle
  | spawn
  | assign (loop : Nat)
  | testJoinable (caller : Caller)
  | join (caller : Caller)
  | destroyThread
  deriving DecidableEq, Repr

/-- Where the body of `stop` returns to. -/
def Caller.resume : Caller → Call
  | .stop => .idle
  | .destructor => .destroyThread

/-- The first two call `std::terminate`, the last throws. -/
inductive Fault where
  | assignedOver | destroyedJoinable | joinedNothing
  deriving DecidableEq, Repr

/-- `worker` is the run loop of the thread in `worker_`, and `none` when that is
not joinable; a thread whose loop is over is joinable still. -/
structure Worker (Thread : Type) where
  running : Bool
  worker : Option Nat
  loops : List Loop
  calls : Thread → Call
  destroyed : Bool
  fault : Option Fault

inductive Action (Thread : Type) where
  | start (thread : Thread)
  | stop (thread : Thread)
  | destroy (thread : Thread)
  | threadStep (thread : Thread)
  | loopStep (loop : Nat)
  deriving DecidableEq, Repr

/-- The compare-exchange of `start`. -/
def setRunning (w : Worker Thread) (thread : Thread) : Worker Thread :=
  if w.running then w
  else { w with
    running := true
    calls := Function.update w.calls thread .spawn }

/-- The exchange of `stop`. -/
def clearRunning (w : Worker Thread) (thread : Thread) (caller : Caller) : Worker Thread :=
  { w with
    running := false
    calls := Function.update w.calls thread
      (if w.running then .testJoinable caller else caller.resume) }

/-- What follows the access of `running_`, one access of `worker_` at a time. -/
def threadStep (w : Worker Thread) (thread : Thread) : Worker Thread :=
  match w.calls thread with
  | .idle => w
  | .spawn =>
    { w with
      loops := w.loops ++ [.testing]
      calls := Function.update w.calls thread (.assign w.loops.length) }
  | .assign loop =>
    match w.worker with
    | some _ => { w with fault := some .assignedOver }
    | none =>
      { w with
        worker := some loop
        calls := Function.update w.calls thread .idle }
  | .testJoinable caller =>
    match w.worker with
    | some _ => { w with calls := Function.update w.calls thread (.join caller) }
    | none => { w with calls := Function.update w.calls thread caller.resume }
  | .join caller =>
    match w.worker with
    | none => { w with fault := some .joinedNothing }
    | some loop =>
      if w.loops[loop]? = some .exited then
        { w with
          worker := none
          calls := Function.update w.calls thread caller.resume }
      else w
  | .destroyThread =>
    match w.worker with
    | some _ => { w with fault := some .destroyedJoinable }
    | none => { w with calls := Function.update w.calls thread .idle }

/-- The head of the loop of `run`, and the end of its body. -/
def loopStep (w : Worker Thread) (loop : Nat) : Worker Thread :=
  match w.loops[loop]? with
  | some .testing =>
    { w with loops := w.loops.set loop (if w.running then .working else .exited) }
  | some .working => { w with loops := w.loops.set loop .testing }
  | _ => w

/-- A thread that is busy starts no call, and the destructor is called when all
others have returned. Nothing happens after a fault. -/
def step (w : Worker Thread) (action : Action Thread) : Worker Thread :=
  if w.fault = none then
    match action with
    | .start thread =>
      if w.calls thread = .idle ∧ w.destroyed = false then setRunning w thread else w
    | .stop thread =>
      if w.calls thread = .idle ∧ w.destroyed = false then clearRunning w thread .stop else w
    | .destroy thread =>
      if (∀ other, w.calls other = .idle) ∧ w.destroyed = false then
        { clearRunning w thread .destructor with destroyed := true }
      else w
    | .threadStep thread => threadStep w thread
    | .loopStep loop => loopStep w loop
  else w

def newWorker : Worker Thread := ⟨false, none, [], fun _ => .idle, false, none⟩

def runFrom (w : Worker Thread) (actions : List (Action Thread)) : Worker Thread :=
  actions.foldl step w

def run (actions : List (Action Thread)) : Worker Thread := runFrom newWorker actions

end OfeWorkerLifecycle
