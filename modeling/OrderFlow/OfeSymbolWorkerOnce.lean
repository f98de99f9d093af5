import OrderFlow.OfeRingBufferFifo
import OrderFlow.OfeSymbolWorker
import OrderFlow.OfeWorkerLoops

/-!
# Each tick passes the pipeline once

What has been popped is a prefix of what was accepted, and the trace is the
blocks of the popped ticks, the last of them as far as the body of the loop has
come. When no loop is in its body there is no such last block, and a `stop`
returns only then.
-/
namespace OfeSymbolWorker

open OfeBars OfeSignalTypes RingWindow
open OfeWorkerLifecycle (Worker Resting Call.Stopping)

/-- The set stages in increasing index, each with the tick and its own index,
then the publication if there is a bus. -/
def block (config : Config) (tick : UniversalTickRecord) : List Event :=
  ((List.finRange stageCount).filter config.stages).map (fun index => .stage index tick) ++
    publishTick config tick

/-- The calls of the stages below an index. -/
def stageCalls (config : Config) (tick : UniversalTickRecord) (count : Nat) : List Event :=
  ((List.finRange stageCount).take count).flatMap fun index => callHandler config index tick

theorem stageCalls_succ (config : Config) (tick : UniversalTickRecord) {index : Nat}
    (h : index < stageCount) :
    stageCalls config tick (index + 1) =
      stageCalls config tick index ++ callHandler config ⟨index, h⟩ tick := by
  have hget : (List.finRange stageCount)[index]? = some ⟨index, h⟩ := by
    simp [h]
  simp only [stageCalls, List.take_add_one, List.flatMap_append, hget, Option.toList_some,
    List.flatMap_singleton]

theorem flatMap_callHandler (config : Config) (tick : UniversalTickRecord)
    (indices : List (Fin stageCount)) :
    (indices.flatMap fun index => callHandler config index tick) =
      (indices.filter config.stages).map fun index => .stage index tick := by
  induction indices with
  | nil => rfl
  | cons index indices ih =>
    rw [List.flatMap_cons, ih, callHandler]
    cases hset : config.stages index with
    | false => simp [hset]
    | true => simp [hset]

theorem stageCalls_of_le (config : Config) (tick : UniversalTickRecord) {count : Nat}
    (h : stageCount ≤ count) :
    stageCalls config tick count =
      ((List.finRange stageCount).filter config.stages).map fun index => .stage index tick := by
  have htake : (List.finRange stageCount).take count = List.finRange stageCount := by
    refine List.take_of_length_le ?_
    rw [List.length_finRange]
    exact h
  rw [stageCalls, htake, flatMap_callHandler]

theorem stageCalls_publish (config : Config) (tick : UniversalTickRecord) :
    stageCalls config tick stageCount ++ publishTick config tick = block config tick := by
  rw [stageCalls_of_le config tick (Nat.le_refl _), block]

/-- The tick in the body of the loop. -/
def current : Body → Option UniversalTickRecord
  | .popping => none
  | .stage _ tick => some tick
  | .publish tick => some tick

/-- What has been done for it. -/
def begun (config : Config) : Body → List Event
  | .popping => []
  | .stage index tick => stageCalls config tick index
  | .publish tick => stageCalls config tick stageCount

theorem begun_prefix (config : Config) {body : Body} {tick : UniversalTickRecord}
    (h : current body = some tick) : begun config body <+: block config tick := by
  have hcalls : ∀ count, stageCalls config tick count <+: block config tick := by
    intro count
    have hfull : block config tick =
        ((List.finRange stageCount).flatMap fun index => callHandler config index tick) ++
          publishTick config tick := by
      rw [block, flatMap_callHandler]
    have htake : stageCalls config tick count <+:
        (List.finRange stageCount).flatMap fun index => callHandler config index tick :=
      List.IsPrefix.flatMap (List.take_prefix count (List.finRange stageCount)) _
    rw [hfull]
    exact htake.trans (List.prefix_append _ _)
  cases body with
  | popping => cases h
  | stage index t => exact Option.some.inj h ▸ hcalls index
  | publish t => exact Option.some.inj h ▸ hcalls stageCount

/-- A consumer that is not in `clear`. -/
def TryPop : OfeRingBuffer.Consumer UniversalTickRecord → Prop
  | .idle => True
  | .looping => False
  | .loadedTail caller _ => caller = .tryPop
  | .take caller _ => caller = .tryPop
  | .release caller _ _ => caller = .tryPop

structure Inv (config : Config) (s : State) : Prop where
  lifecycle : OfeWorkerLifecycle.Inv s.lifecycle
  ingress : OfeRingBuffer.Inv ingressCapacity 0 s.ingress
  tryPop : TryPop s.ingress.consumer
  busy : s.body ≠ .popping → s.ingress.consumer = .idle
  resting : Resting s.lifecycle → s.body = .popping ∧ s.ingress.consumer = .idle
  trace : ∃ done, s.ingress.popped = done ++ (current s.body).toList ∧
    s.trace = done.flatMap (block config) ++ begun config s.body

theorem inv_newWorker (config : Config) : Inv config newWorker where
  lifecycle := OfeWorkerLifecycle.inv_newWorker
  ingress := OfeRingBuffer.inv_initial ingressCapacity 0
  tryPop := trivial
  busy := fun h => absurd rfl h
  resting := fun _ => ⟨rfl, rfl⟩
  trace := ⟨[], rfl, rfl⟩

theorem lifecycle_step {config : Config} {s : State} (h : Inv config s)
    (action : OfeWorkerLifecycle.Action Unit) :
    OfeWorkerLifecycle.Inv (OfeWorkerLifecycle.step s.lifecycle action) :=
  OfeWorkerLifecycle.inv_step h.lifecycle action (OfeWorkerLifecycle.apart_of_subsingleton _ _)

/-- The controlling thread leaves the ticks alone. -/
theorem inv_control {config : Config} {s : State} (h : Inv config s)
    (action : OfeWorkerLifecycle.Action Unit) (hnot : ∀ loop, action ≠ .loopStep loop) :
    Inv config { s with lifecycle := OfeWorkerLifecycle.step s.lifecycle action } where
  lifecycle := lifecycle_step h action
  ingress := h.ingress
  tryPop := h.tryPop
  busy := h.busy
  resting := fun hrest => h.resting
    (OfeWorkerLifecycle.resting_of_prefix (OfeWorkerLifecycle.loops_prefix _ _ hnot) hrest)
  trace := h.trace

/-- The submitting thread leaves the pops alone. -/
theorem submit_frame (ingress : OfeRingBuffer.State UniversalTickRecord)
    (action : OfeRingBuffer.Action UniversalTickRecord)
    (h : action = .producerStep ∨ ∃ tick, action = .push tick) :
    (OfeRingBuffer.step ingressCapacity ingress action).consumer = ingress.consumer ∧
      (OfeRingBuffer.step ingressCapacity ingress action).popped = ingress.popped := by
  rcases h with rfl | ⟨tick, rfl⟩
  · simp only [OfeRingBuffer.step, OfeRingBuffer.producerStep]
    split
    · exact ⟨rfl, rfl⟩
    · split <;> exact ⟨rfl, rfl⟩
    · exact ⟨rfl, rfl⟩
    · exact ⟨rfl, rfl⟩
  · simp only [OfeRingBuffer.step]
    split <;> exact ⟨rfl, rfl⟩

theorem inv_submit {config : Config} {s : State} (h : Inv config s)
    (action : OfeRingBuffer.Action UniversalTickRecord)
    (haction : action = .producerStep ∨ ∃ tick, action = .push tick) :
    Inv config { s with ingress := OfeRingBuffer.step ingressCapacity s.ingress action } := by
  obtain ⟨hconsumer, hpopped⟩ := submit_frame s.ingress action haction
  constructor
  case lifecycle => exact h.lifecycle
  case ingress => exact OfeRingBuffer.inv_step h.ingress action
  case tryPop => simpa only [hconsumer] using h.tryPop
  case busy => simpa only [hconsumer] using h.busy
  case resting => simpa only [hconsumer] using h.resting
  case trace => simpa only [hpopped] using h.trace

/-- A loop in its body is not at rest. -/
theorem not_resting {s : State} {loop : Nat} (hworking : s.lifecycle.loops[loop]? = some .working) :
    ¬ Resting s.lifecycle := fun hrest => hrest loop hworking

/-- A step of the ingress buffer inside `try_pop`. -/
theorem inv_popping {config : Config} {s : State} (h : Inv config s) {loop : Nat}
    (hworking : s.lifecycle.loops[loop]? = some .working) (hbody : s.body = .popping)
    (action : OfeRingBuffer.Action UniversalTickRecord)
    (hpopped : (OfeRingBuffer.step ingressCapacity s.ingress action).popped = s.ingress.popped)
    (htryPop : TryPop (OfeRingBuffer.step ingressCapacity s.ingress action).consumer) :
    Inv config { s with ingress := OfeRingBuffer.step ingressCapacity s.ingress action } where
  lifecycle := h.lifecycle
  ingress := OfeRingBuffer.inv_step h.ingress action
  tryPop := htryPop
  busy := fun hne => absurd hbody hne
  resting := fun hrest => absurd hrest (not_resting hworking)
  trace := by simpa only [hpopped] using h.trace

/-- The loop goes back to the head of its `while`. -/
theorem inv_continue {config : Config} {s : State} (h : Inv config s) (loop : Nat)
    (hbody : s.body = .popping) (hidle : s.ingress.consumer = .idle) :
    Inv config { s with lifecycle := OfeWorkerLifecycle.step s.lifecycle (.loopStep loop) } where
  lifecycle := lifecycle_step h (.loopStep loop)
  ingress := h.ingress
  tryPop := h.tryPop
  busy := h.busy
  resting := fun _ => ⟨hbody, hidle⟩
  trace := h.trace

theorem inv_release {config : Config} {s : State} (h : Inv config s) {loop : Nat}
    (hworking : s.lifecycle.loops[loop]? = some .working) (hbody : s.body = .popping)
    {tail : UInt64} {tick : UniversalTickRecord}
    (hconsumer : s.ingress.consumer = .release .tryPop tail tick) :
    Inv config { s with
      ingress := OfeRingBuffer.step ingressCapacity s.ingress .consumerStep
      body := .stage 0 tick } := by
  have hidle : (OfeRingBuffer.step ingressCapacity s.ingress .consumerStep).consumer = .idle := by
    simp [OfeRingBuffer.step, OfeRingBuffer.consumerStep, hconsumer, OfeRingBuffer.Caller.resume]
  have hpopped : (OfeRingBuffer.step ingressCapacity s.ingress .consumerStep).popped =
      s.ingress.popped ++ [tick] := by
    simp [OfeRingBuffer.step, OfeRingBuffer.consumerStep, hconsumer]
  obtain ⟨done, hdone, htrace⟩ := h.trace
  simp only [hbody, current, begun, Option.toList_none, List.append_nil] at hdone htrace
  constructor
  case lifecycle => exact h.lifecycle
  case ingress => exact OfeRingBuffer.inv_step h.ingress .consumerStep
  case tryPop => simp [hidle, TryPop]
  case busy => exact fun _ => hidle
  case resting => exact fun hrest => absurd hrest (not_resting hworking)
  case trace =>
    refine ⟨done, ?_, ?_⟩
    · simp [hpopped, hdone, current]
    · simp [htrace, begun, stageCalls]

/-- A `try_pop` that has yet to read its value takes nothing out. -/
theorem consumerStep_waiting {ingress : OfeRingBuffer.State UniversalTickRecord} {tail : UInt64}
    (h : ingress.consumer = .loadedTail .tryPop tail ∨ ingress.consumer = .take .tryPop tail) :
    (OfeRingBuffer.step ingressCapacity ingress .consumerStep).popped = ingress.popped ∧
      TryPop (OfeRingBuffer.step ingressCapacity ingress .consumerStep).consumer := by
  rcases h with hconsumer | hconsumer
  · simp only [OfeRingBuffer.step, OfeRingBuffer.consumerStep, hconsumer]
    split <;> simp [TryPop]
  · simp only [OfeRingBuffer.step, OfeRingBuffer.consumerStep, hconsumer]
    split <;> simp [TryPop]

theorem inv_popWaiting {config : Config} {s : State} (h : Inv config s) {loop : Nat}
    (hworking : s.lifecycle.loops[loop]? = some .working) (hbody : s.body = .popping)
    {tail : UInt64} (hwaiting : s.ingress.consumer = .loadedTail .tryPop tail ∨
      s.ingress.consumer = .take .tryPop tail) : Inv config (popStep s loop) := by
  obtain ⟨hpopped, hstill⟩ := consumerStep_waiting hwaiting
  have hmoved := inv_popping h hworking hbody .consumerStep hpopped hstill
  rw [popStep]
  split
  · rename_i hidle
    simp [hidle] at hwaiting
  · rename_i hrelease
    simp [hrelease] at hwaiting
  · dsimp only
    split
    · rename_i hidle
      exact inv_continue hmoved loop hbody hidle
    · exact hmoved

theorem inv_popStep {config : Config} {s : State} (h : Inv config s) {loop : Nat}
    (hworking : s.lifecycle.loops[loop]? = some .working) (hbody : s.body = .popping) :
    Inv config (popStep s loop) := by
  have htryPop := h.tryPop
  cases hconsumer : s.ingress.consumer with
  | idle =>
    simp only [popStep, hconsumer]
    refine inv_popping h hworking hbody .tryPop ?_ ?_
    · simp [OfeRingBuffer.step, hconsumer]
    · simp [OfeRingBuffer.step, hconsumer, TryPop]
  | looping =>
    rw [hconsumer] at htryPop
    exact htryPop.elim
  | release caller tail tick =>
    rw [hconsumer] at htryPop
    obtain rfl : caller = .tryPop := htryPop
    simp only [popStep, hconsumer]
    exact inv_release h hworking hbody hconsumer
  | take caller tail =>
    rw [hconsumer] at htryPop
    obtain rfl : caller = .tryPop := htryPop
    exact inv_popWaiting h hworking hbody (.inr hconsumer)
  | loadedTail caller tail =>
    rw [hconsumer] at htryPop
    obtain rfl : caller = .tryPop := htryPop
    exact inv_popWaiting h hworking hbody (.inl hconsumer)

theorem inv_bodyStep {config : Config} {s : State} (h : Inv config s) {loop : Nat}
    (hworking : s.lifecycle.loops[loop]? = some .working) : Inv config (bodyStep config s loop) := by
  obtain ⟨done, hdone, htrace⟩ := h.trace
  cases hbody : s.body with
  | popping =>
    simp only [bodyStep, hbody]
    exact inv_popStep h hworking hbody
  | stage index tick =>
    have hidle : s.ingress.consumer = .idle := h.busy (by rw [hbody]; exact Body.noConfusion)
    rw [hbody] at hdone htrace
    simp only [bodyStep, hbody]
    split
    · rename_i hlt
      refine ⟨h.lifecycle, h.ingress, h.tryPop, fun _ => hidle,
        fun hrest => absurd hrest (not_resting hworking), done, hdone, ?_⟩
      simp only [begun] at htrace ⊢
      rw [htrace, stageCalls_succ config tick hlt, List.append_assoc]
    · rename_i hge
      refine ⟨h.lifecycle, h.ingress, h.tryPop, fun _ => hidle,
        fun hrest => absurd hrest (not_resting hworking), done, hdone, ?_⟩
      simp only [begun] at htrace ⊢
      rw [htrace, stageCalls_of_le config tick (Nat.le_of_not_lt hge),
        stageCalls_of_le config tick (Nat.le_refl _)]
  | publish tick =>
    have hidle : s.ingress.consumer = .idle := h.busy (by rw [hbody]; exact Body.noConfusion)
    rw [hbody] at hdone htrace
    simp only [bodyStep, hbody]
    have hfinished : Inv config { s with
        body := .popping
        trace := s.trace ++ publishTick config tick } := by
      refine ⟨h.lifecycle, h.ingress, h.tryPop, fun _ => hidle,
        fun hrest => absurd hrest (not_resting hworking), done ++ [tick], ?_, ?_⟩
      · simpa [current] using hdone
      · simp only [htrace, begun, List.flatMap_append, List.flatMap_singleton, List.append_assoc,
          stageCalls_publish, List.append_nil]
    exact inv_continue hfinished loop rfl hidle

/-- Every step of every thread keeps the invariant. -/
theorem inv_step {config : Config} {s : State} (h : Inv config s) (action : Action) :
    Inv config (step config s action) := by
  cases action with
  | start => exact inv_control h _ (by simp)
  | stop => exact inv_control h _ (by simp)
  | controlStep => exact inv_control h _ (by simp)
  | submit tick => exact inv_submit h _ (.inr ⟨tick, rfl⟩)
  | submitStep => exact inv_submit h _ (.inl rfl)
  | loopStep loop =>
    simp only [step]
    split
    · rename_i hworking
      exact inv_bodyStep h hworking
    · rename_i hnot
      refine ⟨lifecycle_step h (.loopStep loop), h.ingress, h.tryPop, h.busy, ?_, h.trace⟩
      intro hrest
      exact h.resting (OfeWorkerLifecycle.resting_of_loopStep hnot hrest)

theorem inv_run (config : Config) (actions : List Action) : Inv config (run config actions) :=
  List.foldlRecOn actions (step config) (inv_newWorker config) fun _ h action _ => inv_step h action

/-- At rest, everything popped has passed the whole pipeline. -/
theorem trace_of_resting {config : Config} {s : State} (h : Inv config s)
    (hrest : Resting s.lifecycle) : s.trace = s.ingress.popped.flatMap (block config) := by
  obtain ⟨done, hdone, htrace⟩ := h.trace
  rw [(h.resting hrest).1] at hdone htrace
  simp only [current, begun, Option.toList_none, List.append_nil] at hdone htrace
  rw [htrace, hdone]

/-- An action with which a call of `stop` returns. -/
def StopReturns (s : State) : Action → Prop
  | .stop => s.lifecycle.calls () = .idle ∧ s.lifecycle.running = false
  | .controlStep =>
    (s.lifecycle.calls ()).Stopping ∧
      (OfeWorkerLifecycle.step s.lifecycle (.threadStep ())).calls () = .idle
  | _ => False

/-- A `stop` returns with the flag cleared. -/
theorem running_of_stopReturns {config : Config} {s : State} (h : Inv config s) {action : Action}
    (hreturns : StopReturns s action) :
    (step config s action).lifecycle.calls () = .idle ∧
      (step config s action).lifecycle.running = false := by
  cases action with
  | stop =>
    obtain ⟨hidle, hflag⟩ := hreturns
    have hsame : OfeWorkerLifecycle.step s.lifecycle (.stop ()) = s.lifecycle := by
      unfold OfeWorkerLifecycle.step
      split
      · dsimp only
        split
        · exact OfeWorkerLifecycle.clearRunning_of_not_running hidle hflag
        · rfl
      · rfl
    simp only [step, hsame]
    exact ⟨hidle, hflag⟩
  | controlStep =>
    obtain ⟨hstopping, hidle⟩ := hreturns
    refine ⟨hidle, ?_⟩
    have hflag : s.lifecycle.running = false := by
      rcases OfeWorkerLifecycle.phase_stopping h.lifecycle.phase hstopping with
        ⟨_, -, -, -, hflag⟩ | ⟨_, _, -, -, hflag, -⟩
      · exact hflag
      · exact hflag
    simp only [step]
    rw [OfeWorkerLifecycle.step_threadStep h.lifecycle.noFault,
      OfeWorkerLifecycle.threadStep_running]
    exact hflag
  | start | loopStep _ | submit _ | submitStep => exact hreturns.elim

/-- `part` is the beginning of the block of the tick in the pipeline, if there is
one. -/
def Unfinished (config : Config) (part : List Event) : Option UniversalTickRecord → Prop
  | none => part = []
  | some tick => part <+: block config tick

/-- Accepted ticks pass the pipeline in order and once, and a `stop` returns when
everything popped has passed it. The queue keeps the rest. -/
structure ExactlyOnce (config : Config) (s : State) : Prop where
  accepted : s.ingress.popped <+: s.ingress.accepted
  inOrder : ∃ done tick part, s.ingress.popped = done ++ Option.toList tick ∧
    s.trace = done.flatMap (block config) ++ part ∧ Unfinished config part tick
  stopped : ∀ action, StopReturns s action →
    (step config s action).trace = (step config s action).ingress.popped.flatMap (block config)
  betweenCalls : s.lifecycle.calls () = .idle → s.lifecycle.running = false →
    s.trace = s.ingress.popped.flatMap (block config)
  queue : OfeRingBuffer.BoundedFifo ingressCapacity s.ingress

theorem unfinished_begun (config : Config) (body : Body) :
    Unfinished config (begun config body) (current body) := by
  cases hcurrent : current body with
  | none =>
    cases body with
    | popping => rfl
    | stage _ _ | publish _ => cases hcurrent
  | some tick => exact begun_prefix config hcurrent

theorem trace_of_idle {config : Config} {s : State} (h : Inv config s)
    (hidle : s.lifecycle.calls () = .idle) (hflag : s.lifecycle.running = false) :
    s.trace = s.ingress.popped.flatMap (block config) :=
  trace_of_resting h (OfeWorkerLifecycle.resting_of_idle h.lifecycle.phase (fun _ => hidle) hflag)

theorem exactlyOnce_of_inv {config : Config} {s : State} (h : Inv config s) :
    ExactlyOnce config s where
  accepted := h.ingress.fifo
  inOrder := by
    obtain ⟨done, hdone, htrace⟩ := h.trace
    exact ⟨done, current s.body, begun config s.body, hdone, htrace, unfinished_begun config s.body⟩
  stopped := by
    intro action hreturns
    obtain ⟨hidle, hflag⟩ := running_of_stopReturns h hreturns
    exact trace_of_idle (inv_step h action) hidle hflag
  betweenCalls := trace_of_idle h
  queue := OfeRingBuffer.boundedFifo_of_inv h.ingress

/-- For every choice of stages and bus, and every interleaving of the submitting
thread, the controlling thread and the run loops. -/
theorem run_exactlyOnce (config : Config) (actions : List Action) :
    ExactlyOnce config (run config actions) :=
  exactlyOnce_of_inv (inv_run config actions)

end OfeSymbolWorker
