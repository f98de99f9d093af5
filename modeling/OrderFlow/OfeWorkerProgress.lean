import OrderFlow.OfeWorkerRounds
import OrderFlow.StepBudgets

/-!
# A symbol worker gets on with its work

While the flag is set, a tick that has been accepted has passed the pipeline when the loop
has taken the rounds of the ticks before it and its own, whatever the submitter does
meanwhile. A `stop` waits for one round at most.
-/
namespace OfeSymbolWorker

open OfeBars RingWindow StepBudgets
open OfeWorkerLifecycle (Worker OnlyLive Resting Call.Stopping)

/-- `start` has returned, and its loop runs. -/
structure Running (config : Config) (loop target : Nat) (s : State) : Prop where
  inv : Inv config s
  manned : Manned s.lifecycle
  idle : s.lifecycle.calls () = .idle
  flag : s.lifecycle.running = true
  worker : s.lifecycle.worker = some loop
  target : target ≤ s.ingress.accepted.length

theorem Running.live {config : Config} {loop target : Nat} {s : State}
    (h : Running config loop target s) : Live s.lifecycle loop :=
  (h.manned loop (.inl h.worker)).2 h.flag

/-- No other thread moves the loop or what it has in hand. -/
theorem running_other {config : Config} {loop target : Nat} {s : State}
    (h : Running config loop target s) {action : Action} (hstop : action ≠ .stop)
    (hother : action ≠ .loopStep loop) :
    SameWork s (step config s action) ∧ (step config s action).lifecycle = s.lifecycle := by
  have hfault := h.inv.lifecycle.noFault
  cases action with
  | stop => exact absurd rfl hstop
  | start =>
    have hstill : OfeWorkerLifecycle.step s.lifecycle (.start ()) = s.lifecycle := by
      simp [OfeWorkerLifecycle.step, hfault, OfeWorkerLifecycle.setRunning, h.flag]
    simp only [step, hstill]
    exact ⟨⟨rfl, rfl, rfl, rfl⟩, trivial⟩
  | controlStep =>
    have hstill : OfeWorkerLifecycle.step s.lifecycle (.threadStep ()) = s.lifecycle := by
      simp [OfeWorkerLifecycle.step, hfault, OfeWorkerLifecycle.threadStep, h.idle]
    simp only [step, hstill]
    exact ⟨⟨rfl, rfl, rfl, rfl⟩, trivial⟩
  | submit tick => exact ⟨sameWork_submit s _ (.inr ⟨tick, rfl⟩), rfl⟩
  | submitStep => exact ⟨sameWork_submit s _ (.inl rfl), rfl⟩
  | loopStep moved =>
    have hdead : ¬ Live s.lifecycle moved := by
      intro hlive
      have howner := onlyLive_of_idle h.inv.lifecycle.phase h.idle moved hlive
      rw [h.worker, Option.some.injEq] at howner
      exact hother (howner ▸ rfl)
    rw [loopStep_dead config hfault hdead]
    exact ⟨⟨rfl, rfl, rfl, rfl⟩, rfl⟩

theorem running_step {config : Config} {loop target : Nat} {s : State}
    (h : Running config loop target s) {action : Action} (hstop : action ≠ .stop) :
    Running config loop target (step config s action) := by
  have hkept : (step config s action).lifecycle.calls = s.lifecycle.calls ∧
      (step config s action).lifecycle.running = s.lifecycle.running ∧
        (step config s action).lifecycle.worker = s.lifecycle.worker := by
    by_cases hown : action = .loopStep loop
    · rw [hown]
      exact control_loopStep h.inv loop
    · rw [(running_other h hstop hown).2]
      exact ⟨rfl, rfl, rfl⟩
  constructor
  case inv => exact inv_step h.inv action
  case manned => exact manned_action h.inv h.manned action
  case idle => rw [hkept.1, h.idle]
  case flag => rw [hkept.2.1, h.flag]
  case worker => rw [hkept.2.2, h.worker]
  case target => exact h.target.trans (accepted_step config s action).length_le

/-- The steps of the loop to the end of its round. -/
def roundLeft (s : State) (loop : Nat) : Nat :=
  if s.lifecycle.loops[loop]? = some .working then bodyLeft s else 18

/-- The steps of the loop until it has passed so many ticks. -/
def workLeft (target loop : Nat) (s : State) : Nat :=
  if target ≤ passed s then 0 else 18 * (target - passed s - 1) + roundLeft s loop

theorem workLeft_of_passed {target loop : Nat} {s : State} (h : target ≤ passed s) :
    workLeft target loop s = 0 := by
  simp [workLeft, h]

theorem roundLeft_pos (s : State) (loop : Nat) : 0 < roundLeft s loop := by
  have hbody := bodyLeft_bounds s
  unfold roundLeft
  split <;> omega

theorem roundLeft_le (s : State) (loop : Nat) : roundLeft s loop ≤ 18 := by
  have hbody := bodyLeft_bounds s
  unfold roundLeft
  split <;> omega

theorem passed_of_popping {s : State} (h : s.body = .popping) :
    passed s = s.ingress.popped.length := by
  simp [passed, h, current]

/-- The head of the `while`, with the flag set. -/
theorem working_of_testing {w : Worker Unit} (hfault : w.fault = none) (hflag : w.running = true)
    {loop : Nat} (htesting : w.loops[loop]? = some .testing) :
    (OfeWorkerLifecycle.step w (.loopStep loop)).loops[loop]? = some .working := by
  obtain ⟨hlt, -⟩ := List.getElem?_eq_some_iff.mp htesting
  simp only [OfeWorkerLifecycle.step, hfault, if_true, OfeWorkerLifecycle.loopStep, htesting, hflag]
  simp [hlt]

/-- A step of the loop is a step of the work, unless that is done. -/
theorem workLeft_own {config : Config} {loop target : Nat} {s : State}
    (h : Running config loop target s) :
    workLeft target loop (step config s (.loopStep loop)) ≤ workLeft target loop s - 1 := by
  have hfault := h.inv.lifecycle.noFault
  rcases h.live with htesting | hworking
  · have hnot : s.lifecycle.loops[loop]? ≠ some .working := by simp [htesting]
    have hrest : Resting s.lifecycle := by
      intro other hother
      have howner := onlyLive_of_idle h.inv.lifecycle.phase h.idle
      have hsame : other = loop := by
        have hone := (howner other (.inr hother)).symm.trans (howner loop (.inl htesting))
        exact Option.some.inj hone
      exact hnot (hsame ▸ hother)
    obtain ⟨hbody, hconsumer⟩ := h.inv.resting hrest
    have hstep : step config s (.loopStep loop) =
        { s with lifecycle := OfeWorkerLifecycle.step s.lifecycle (.loopStep loop) } := by
      simp only [step, htesting]
    have hnext := working_of_testing hfault h.flag htesting
    have hafter : roundLeft (step config s (.loopStep loop)) loop = 17 := by
      simp [roundLeft, hstep, hnext, bodyLeft, hbody, hconsumer, popLeft]
    have hbefore : roundLeft s loop = 18 := by simp [roundLeft, hnot]
    have hpassed : passed (step config s (.loopStep loop)) = passed s := by rw [hstep]; rfl
    unfold workLeft
    rw [hafter, hbefore, hpassed]
    split <;> omega
  · have hstep : step config s (.loopStep loop) = bodyStep config s loop := by
      simp only [step, hworking]
    have hbefore : roundLeft s loop = bodyLeft s := by simp [roundLeft, hworking]
    rw [hstep]
    cases bodyMove h.inv loop with
    | empty hempty hbody hlifecycle hbody' hpopped =>
      have hall : target ≤ passed (bodyStep config s loop) := by
        rw [passed_of_popping hbody', hpopped, hempty]
        exact h.target
      rw [workLeft_of_passed hall]
      exact Nat.zero_le _
    | within hlifecycle hleft hpassed hpopped =>
      have hafter : roundLeft (bodyStep config s loop) loop = bodyLeft (bodyStep config s loop) := by
        simp [roundLeft, hlifecycle, hworking]
      unfold workLeft
      rw [hafter, hbefore, hpassed]
      split <;> omega
    | publish hbody hleft hlifecycle hbody' hpassed hpopped =>
      have hbound := roundLeft_le (bodyStep config s loop) loop
      unfold workLeft
      rw [hbefore, hpassed]
      split <;> split <;> omega

theorem running_budget (config : Config) (loop target : Nat) :
    Budget (step config) (Running config loop target) (· ≠ .stop) (· = .loopStep loop)
      (workLeft target loop) where
  keep := fun s action h hstop => running_step h hstop
  other := by
    intro s action h hstop hown
    obtain ⟨hsame, -⟩ := running_other h hstop (by simpa using hown)
    have hround : roundLeft (step config s action) loop = roundLeft s loop := by
      simp only [roundLeft, hsame.loops, hsame.bodyLeft]
    simp only [workLeft, hsame.passed, hround, le_refl]
  spend := by
    intro s action h hstop hown
    obtain rfl : action = .loopStep loop := by simpa using hown
    exact workLeft_own h

/-- A tick that the loop may take yet. -/
def popsLeft (s : State) (loop : Nat) : Nat :=
  if s.lifecycle.loops[loop]? = some .working then mayPop s.body else 0

/-- The steps of the loop until it is over, once the flag is cleared. -/
def exitLeft (loop : Nat) (s : State) : Nat :=
  if s.lifecycle.loops[loop]? = some .working then bodyLeft s + 1
  else if s.lifecycle.loops[loop]? = some .testing then 1
  else 0

/-- A `stop` has cleared the flag, and waits for the loop or has returned. -/
structure Stopped (config : Config) (loop bound : Nat) (s : State) : Prop where
  inv : Inv config s
  flag : s.lifecycle.running = false
  call : s.lifecycle.calls () = .idle ∨ (s.lifecycle.worker = some loop ∧
    (s.lifecycle.calls () = .testJoinable .stop ∨ s.lifecycle.calls () = .join .stop))
  made : loop < s.lifecycle.loops.length
  alone : OnlyLive s.lifecycle.loops (some loop)
  pops : s.ingress.popped.length + popsLeft s loop ≤ bound

/-- The controlling thread tests, joins or has returned, and leaves the loops alone. -/
theorem stopped_control {config : Config} {loop bound : Nat} {s : State}
    (h : Stopped config loop bound s) : Stopped config loop bound (step config s .controlStep) := by
  have hfault := h.inv.lifecycle.noFault
  have hthread : (OfeWorkerLifecycle.step s.lifecycle (.threadStep ())) =
      OfeWorkerLifecycle.threadStep s.lifecycle () := OfeWorkerLifecycle.step_threadStep hfault ()
  have hloops : (OfeWorkerLifecycle.threadStep s.lifecycle ()).loops = s.lifecycle.loops ∧
      ((OfeWorkerLifecycle.threadStep s.lifecycle ()).calls () = .idle ∨
        ((OfeWorkerLifecycle.threadStep s.lifecycle ()).worker = some loop ∧
          ((OfeWorkerLifecycle.threadStep s.lifecycle ()).calls () = .testJoinable .stop ∨
            (OfeWorkerLifecycle.threadStep s.lifecycle ()).calls () = .join .stop))) := by
    rcases h.call with hidle | ⟨hworker, hcall | hcall⟩
    · simp only [OfeWorkerLifecycle.threadStep, hidle]
      exact ⟨trivial, .inl trivial⟩
    · simp only [OfeWorkerLifecycle.threadStep, hcall, hworker]
      exact ⟨trivial, .inr ⟨trivial, .inr (Function.update_self _ _ _)⟩⟩
    · simp only [OfeWorkerLifecycle.threadStep, hcall, hworker]
      split
      · exact ⟨rfl, .inl (by simp [OfeWorkerLifecycle.Caller.resume])⟩
      · exact ⟨rfl, .inr ⟨hworker, .inr hcall⟩⟩
  constructor
  case inv => exact inv_step h.inv .controlStep
  case flag =>
    simp only [step, hthread, OfeWorkerLifecycle.threadStep_running]
    exact h.flag
  case call =>
    simp only [step, hthread]
    exact hloops.2
  case made =>
    simp only [step, hthread, hloops.1]
    exact h.made
  case alone =>
    simp only [step, hthread, hloops.1]
    exact h.alone
  case pops =>
    have hpops : popsLeft (step config s .controlStep) loop = popsLeft s loop := by
      simp only [popsLeft, step, hthread, hloops.1]
    rw [hpops]
    exact h.pops

theorem exitLeft_of_sameWork {s s' : State} (h : SameWork s s') (loop : Nat) :
    exitLeft loop s' = exitLeft loop s := by
  simp only [exitLeft, h.loops, h.bodyLeft]

/-- What leaves the work and the thread alone leaves a stop alone. -/
theorem stopped_of_sameWork {config : Config} {loop bound : Nat} {s s' : State}
    (h : Stopped config loop bound s) (hinv : Inv config s') (hsame : SameWork s s')
    (hlifecycle : s'.lifecycle = s.lifecycle) : Stopped config loop bound s' where
  inv := hinv
  flag := by rw [hlifecycle, h.flag]
  call := by
    rw [hlifecycle]
    exact h.call
  made := by
    rw [hlifecycle]
    exact h.made
  alone := by
    rw [hlifecycle]
    exact h.alone
  pops := by
    have hpops : popsLeft s' loop = popsLeft s loop := by
      simp only [popsLeft, hlifecycle, hsame.body]
    rw [hsame.popped, hpops]
    exact h.pops

/-- Apart from its own steps, a loop keeps what it has in hand. -/
theorem stopped_other {config : Config} {loop bound : Nat} {s : State}
    (h : Stopped config loop bound s) {action : Action} (hstart : action ≠ .start)
    (hother : action ≠ .loopStep loop) :
    Stopped config loop bound (step config s action) ∧
      exitLeft loop (step config s action) = exitLeft loop s := by
  have hfault := h.inv.lifecycle.noFault
  have hinv := inv_step h.inv action
  cases action with
  | start => exact absurd rfl hstart
  | controlStep =>
    have hstopped := stopped_control h
    refine ⟨hstopped, ?_⟩
    have hloops : (step config s .controlStep).lifecycle.loops = s.lifecycle.loops := by
      simp only [step, OfeWorkerLifecycle.step_threadStep hfault]
      rcases h.call with hidle | ⟨hworker, hcall | hcall⟩
      · simp only [OfeWorkerLifecycle.threadStep, hidle]
      · simp only [OfeWorkerLifecycle.threadStep, hcall, hworker]
      · simp only [OfeWorkerLifecycle.threadStep, hcall, hworker]
        split <;> rfl
    exact exitLeft_of_sameWork ⟨hloops, rfl, rfl, rfl⟩ loop
  | stop =>
    have hstill : OfeWorkerLifecycle.step s.lifecycle (.stop ()) = s.lifecycle := by
      simp only [OfeWorkerLifecycle.step, hfault, if_true]
      split
      · rename_i hidle
        exact OfeWorkerLifecycle.clearRunning_of_not_running hidle.1 h.flag
      · rfl
    have hsame : SameWork s (step config s .stop) := by
      simp only [step, hstill]
      exact ⟨rfl, rfl, rfl, rfl⟩
    exact ⟨stopped_of_sameWork h hinv hsame hstill, exitLeft_of_sameWork hsame loop⟩
  | submit tick =>
    have hsame := sameWork_submit s (.push tick) (.inr ⟨tick, rfl⟩)
    exact ⟨stopped_of_sameWork h hinv hsame rfl, exitLeft_of_sameWork hsame loop⟩
  | submitStep =>
    have hsame := sameWork_submit s .producerStep (.inl rfl)
    exact ⟨stopped_of_sameWork h hinv hsame rfl, exitLeft_of_sameWork hsame loop⟩
  | loopStep moved =>
    have hdead : ¬ Live s.lifecycle moved := by
      intro hlive
      have howner := Option.some.inj (h.alone moved hlive)
      exact hother (howner ▸ rfl)
    rw [loopStep_dead config hfault hdead]
    exact ⟨h, rfl⟩

/-- The loop at the end of its body. -/
theorem testing_of_working {w : Worker Unit} (hfault : w.fault = none) {loop : Nat}
    (hworking : w.loops[loop]? = some .working) :
    (OfeWorkerLifecycle.step w (.loopStep loop)).loops = w.loops.set loop .testing := by
  simp only [OfeWorkerLifecycle.step, hfault, if_true, OfeWorkerLifecycle.loopStep, hworking]

/-- The head of the `while`, with the flag cleared. -/
theorem exited_of_testing {w : Worker Unit} (hfault : w.fault = none) (hflag : w.running = false)
    {loop : Nat} (htesting : w.loops[loop]? = some .testing) :
    (OfeWorkerLifecycle.step w (.loopStep loop)).loops = w.loops.set loop .exited := by
  simp only [OfeWorkerLifecycle.step, hfault, if_true, OfeWorkerLifecycle.loopStep, htesting, hflag,
    Bool.false_eq_true, if_false]

/-- A step of the loop brings it nearer to its end, with no tick more than it may take. -/
structure Nearer (loop bound : Nat) (s s' : State) : Prop where
  exit : exitLeft loop s' ≤ exitLeft loop s - 1
  pops : s'.ingress.popped.length + popsLeft s' loop ≤ bound
  alone : OnlyLive s'.lifecycle.loops (some loop)
  made : loop < s'.lifecycle.loops.length

/-- Behind its body the loop has one step left, and takes no tick. -/
theorem exit_of_ended {loop : Nat} {s s' : State} (hfault : s.lifecycle.fault = none)
    (halone : OnlyLive s.lifecycle.loops (some loop)) (hmade : loop < s.lifecycle.loops.length)
    (hworking : s.lifecycle.loops[loop]? = some .working)
    (hlifecycle : s'.lifecycle = OfeWorkerLifecycle.step s.lifecycle (.loopStep loop)) :
    exitLeft loop s' = 1 ∧ popsLeft s' loop = 0 ∧ OnlyLive s'.lifecycle.loops (some loop) ∧
      loop < s'.lifecycle.loops.length := by
  have hloops := testing_of_working hfault hworking
  rw [← hlifecycle] at hloops
  have hnow : s'.lifecycle.loops[loop]? = some .testing := by simp [hloops, hmade]
  refine ⟨by simp [exitLeft, hnow], by simp [popsLeft, hnow], ?_, by simpa [hloops] using hmade⟩
  rw [hloops]
  exact OfeWorkerLifecycle.onlyLive_set halone loop _ (.inr hworking)

theorem nearer_working {config : Config} {loop bound : Nat} {s : State}
    (h : Stopped config loop bound s) (hworking : s.lifecycle.loops[loop]? = some .working) :
    Nearer loop bound s (bodyStep config s loop) := by
  have hpops := h.pops
  have hpos := (bodyLeft_bounds s).1
  have hbefore : exitLeft loop s = bodyLeft s + 1 := by simp [exitLeft, hworking]
  rw [popsLeft, if_pos hworking] at hpops
  cases bodyMove h.inv loop with
  | empty hempty hbody hlifecycle hbody' hpopped =>
    obtain ⟨hexit, hnone, halone, hmade⟩ :=
      exit_of_ended h.inv.lifecycle.noFault h.alone h.made hworking hlifecycle
    exact ⟨by omega, by rw [hpopped]; omega, halone, hmade⟩
  | within hlifecycle hleft hpassed hpopped =>
    have hnow : (bodyStep config s loop).lifecycle.loops[loop]? = some .working := by
      rw [hlifecycle, hworking]
    have hafter : exitLeft loop (bodyStep config s loop) = bodyLeft (bodyStep config s loop) + 1 := by
      simp [exitLeft, hnow]
    refine ⟨by omega, ?_, by rw [hlifecycle]; exact h.alone, by rw [hlifecycle]; exact h.made⟩
    rw [popsLeft, if_pos hnow]
    omega
  | publish hbody hleft hlifecycle hbody' hpassed hpopped =>
    obtain ⟨hexit, hnone, halone, hmade⟩ :=
      exit_of_ended h.inv.lifecycle.noFault h.alone h.made hworking hlifecycle
    exact ⟨by omega, by rw [hpopped]; omega, halone, hmade⟩

theorem nearer_testing {config : Config} {loop bound : Nat} {s : State}
    (h : Stopped config loop bound s) (htesting : s.lifecycle.loops[loop]? = some .testing) :
    Nearer loop bound s
      { s with lifecycle := OfeWorkerLifecycle.step s.lifecycle (.loopStep loop) } := by
  have hloops := exited_of_testing h.inv.lifecycle.noFault h.flag htesting
  have hnow : (OfeWorkerLifecycle.step s.lifecycle (.loopStep loop)).loops[loop]? = some .exited := by
    simp [hloops, h.made]
  have hpops := h.pops
  constructor
  case exit => simp [exitLeft, hnow]
  case pops => simpa [popsLeft, hnow, htesting] using hpops
  case alone =>
    simp only [hloops]
    exact OfeWorkerLifecycle.onlyLive_set h.alone loop _ (.inl htesting)
  case made => simpa [hloops] using h.made

theorem exit_own {config : Config} {loop bound : Nat} {s : State}
    (h : Stopped config loop bound s) : Nearer loop bound s (step config s (.loopStep loop)) := by
  by_cases hworking : s.lifecycle.loops[loop]? = some .working
  · have hstep : step config s (.loopStep loop) = bodyStep config s loop := by
      simp only [step, hworking]
    rw [hstep]
    exact nearer_working h hworking
  · by_cases htesting : s.lifecycle.loops[loop]? = some .testing
    · have hstep : step config s (.loopStep loop) =
          { s with lifecycle := OfeWorkerLifecycle.step s.lifecycle (.loopStep loop) } := by
        simp only [step, htesting]
      rw [hstep]
      exact nearer_testing h htesting
    · have hdead : ¬ Live s.lifecycle loop := by
        rintro (hlive | hlive)
        · exact htesting hlive
        · exact hworking hlive
      rw [loopStep_dead config h.inv.lifecycle.noFault hdead]
      exact ⟨by simp [exitLeft, hworking, htesting], h.pops, h.alone, h.made⟩

theorem stopped_own {config : Config} {loop bound : Nat} {s : State}
    (h : Stopped config loop bound s) :
    Stopped config loop bound (step config s (.loopStep loop)) := by
  have hnearer := exit_own h
  obtain ⟨hcalls, hrunning, hworker⟩ := control_loopStep h.inv loop
  constructor
  case inv => exact inv_step h.inv (.loopStep loop)
  case flag => rw [hrunning, h.flag]
  case call =>
    rw [hcalls, hworker]
    exact h.call
  case made => exact hnearer.made
  case alone => exact hnearer.alone
  case pops => exact hnearer.pops

theorem stopped_budget (config : Config) (loop bound : Nat) :
    Budget (step config) (Stopped config loop bound) (· ≠ .start) (· = .loopStep loop)
      (exitLeft loop) where
  keep := by
    intro s action h hstart
    by_cases hown : action = .loopStep loop
    · rw [hown]
      exact stopped_own h
    · exact (stopped_other h hstart hown).1
  other := by
    intro s action h hstart hown
    exact (stopped_other h hstart (by simpa using hown)).2.le
  spend := by
    intro s action h hstart hown
    obtain rfl : action = .loopStep loop := by simpa using hown
    exact (exit_own h).exit

theorem accepted_run (config : Config) (s : State) (actions : List Action) :
    s.ingress.accepted <+: (actions.foldl (step config) s).ingress.accepted := by
  induction actions generalizing s with
  | nil => exact List.prefix_refl _
  | cons action actions ih => exact (accepted_step config s action).trans (ih (step config s action))

/-- What has been accepted has passed the pipeline when that many ticks have. -/
theorem trace_of_passed {config : Config} {s : State} (h : Inv config s)
    {accepted : List UniversalTickRecord} (hheld : accepted <+: s.ingress.accepted)
    (hpassed : accepted.length ≤ passed s) : accepted.flatMap (block config) <+: s.trace := by
  obtain ⟨done, hdone, htrace⟩ := h.trace
  have hcount : passed s = done.length := by simp [passed, hdone]
  have hfirst : done <+: s.ingress.accepted := by
    refine List.IsPrefix.trans ?_ h.ingress.fifo
    rw [hdone]
    exact List.prefix_append _ _
  have hpart : accepted <+: done := List.prefix_of_prefix_length_le hheld hfirst (hcount ▸ hpassed)
  rw [htrace]
  exact (List.IsPrefix.flatMap hpart _).trans (List.prefix_append _ _)

/-- The thread that a `stop` waits for. -/
theorem stopped_of_stopping {config : Config} {s : State} (h : Inv config s)
    (hmanned : Manned s.lifecycle) (halive : s.lifecycle.destroyed = false)
    (hstop : Call.Stopping (s.lifecycle.calls ())) :
    ∃ loop, s.lifecycle.worker = some loop ∧ Stopped config loop (s.ingress.popped.length + 1) s := by
  rcases OfeWorkerLifecycle.phase_stopping h.lifecycle.phase hstop with
    ⟨starter, hstart, -⟩ | ⟨caller, loop, hwhere, -, hflag, hworker, halone, hover⟩
  · exact absurd hstop hstart.not_stopping
  · obtain rfl : caller = .stop := by
      cases caller with
      | stop => rfl
      | destructor =>
        have hgone := hover rfl
        rw [halive] at hgone
        cases hgone
    refine ⟨loop, hworker, h, hflag, .inr ⟨hworker, hwhere⟩, (hmanned loop (.inl hworker)).1, halone, ?_⟩
    have hone : popsLeft s loop ≤ 1 := by
      unfold popsLeft mayPop
      split
      · split <;> omega
      · omega
    omega

/-- The join finds the loop over and returns. -/
theorem idle_of_exited {config : Config} {loop bound : Nat} {s : State}
    (h : Stopped config loop bound s) (hexit : exitLeft loop s = 0) :
    ([Action.controlStep, .controlStep].foldl (step config) s).lifecycle.calls () = .idle := by
  have hexited : s.lifecycle.loops[loop]? = some .exited := by
    obtain ⟨state, hloop⟩ : ∃ state, s.lifecycle.loops[loop]? = some state :=
      ⟨_, List.getElem?_eq_getElem h.made⟩
    cases state with
    | exited => exact hloop
    | testing | working => simp [exitLeft, hloop] at hexit
  have hfault := h.inv.lifecycle.noFault
  simp only [List.foldl_cons, List.foldl_nil, step]
  rcases h.call with hidle | ⟨hworker, hcall | hcall⟩
  · simp [OfeWorkerLifecycle.step, hfault, OfeWorkerLifecycle.threadStep, hidle]
  · simp [OfeWorkerLifecycle.step, hfault, OfeWorkerLifecycle.threadStep, hcall, hworker, hexited,
      OfeWorkerLifecycle.Caller.resume]
  · simp [OfeWorkerLifecycle.step, hfault, OfeWorkerLifecycle.threadStep, hcall, hworker, hexited,
      OfeWorkerLifecycle.Caller.resume]

/-- Bounds on the steps of the run loop, whatever the submitter does meanwhile: for what has
been accepted while the worker runs, and for a `stop`, which the two steps of the
controlling thread then end. -/
structure Responsive (config : Config) (s : State) : Prop where
  processes : s.lifecycle.running = true → s.lifecycle.calls () = .idle →
    ∃ loop, s.lifecycle.worker = some loop ∧ ∀ later : List Action, .stop ∉ later →
      18 * (s.ingress.accepted.length - s.ingress.popped.length + 1) ≤ later.count (.loopStep loop) →
        s.ingress.accepted.flatMap (block config) <+: (later.foldl (step config) s).trace
  stops : Call.Stopping (s.lifecycle.calls ()) →
    ∃ loop, s.lifecycle.worker = some loop ∧ ∀ later : List Action, .start ∉ later →
      18 ≤ later.count (.loopStep loop) →
        let s' := (later ++ [Action.controlStep, .controlStep]).foldl (step config) s
        s'.lifecycle.calls () = .idle ∧
          s'.ingress.popped.length ≤ s.ingress.popped.length + 1 ∧
            s'.trace = s'.ingress.popped.flatMap (block config)

theorem processes_of_inv {config : Config} {s : State} (h : Inv config s)
    (hmanned : Manned s.lifecycle) (hflag : s.lifecycle.running = true)
    (hidle : s.lifecycle.calls () = .idle) :
    ∃ loop, s.lifecycle.worker = some loop ∧ ∀ later : List Action, .stop ∉ later →
      18 * (s.ingress.accepted.length - s.ingress.popped.length + 1) ≤ later.count (.loopStep loop) →
        s.ingress.accepted.flatMap (block config) <+: (later.foldl (step config) s).trace := by
  obtain ⟨loop, hworker⟩ : ∃ loop, s.lifecycle.worker = some loop := by
    cases h.lifecycle.phase with
    | quiet _ hagree _ => exact Option.isSome_iff_exists.mp (hagree.symm.trans hflag)
    | starting _ hstart => exact absurd hidle hstart.busy
    | overlapped _ _ hstart => exact absurd hidle hstart.busy
    | stopping _ _ _ _ hcleared | ending _ _ _ hcleared =>
      rw [hflag] at hcleared
      cases hcleared
  refine ⟨loop, hworker, ?_⟩
  intro later hstop hcount
  have hrunning : Running config loop s.ingress.accepted.length s :=
    ⟨h, hmanned, hidle, hflag, hworker, le_rfl⟩
  have hallowed : ∀ action ∈ later, action ≠ .stop := fun action hmem heq => hstop (heq ▸ hmem)
  have hwork : workLeft s.ingress.accepted.length loop s ≤ later.countP (· = .loopStep loop) := by
    refine le_trans ?_ hcount
    have hround := roundLeft_le s loop
    have hin : s.ingress.popped.length ≤ passed s + 1 := by
      unfold passed
      cases current s.body with
      | none => simp
      | some tick =>
        rw [Option.toList_some, List.length_singleton]
        omega
    by_cases hall : s.ingress.accepted.length ≤ passed s
    · rw [workLeft_of_passed hall]
      exact Nat.zero_le _
    · rw [workLeft, if_neg hall]
      omega
  have hdone := (running_budget config loop _).done hrunning hallowed hwork
  have hafter := (running_budget config loop _).inv_run hrunning hallowed
  refine trace_of_passed hafter.inv (accepted_run config s later) ?_
  have hpos := roundLeft_pos (later.foldl (step config) s) loop
  unfold workLeft at hdone
  split at hdone
  · assumption
  · omega

theorem stops_of_stopped {config : Config} {loop bound : Nat} {s : State}
    (h : Stopped config loop bound s) {later : List Action} (hstart : .start ∉ later)
    (hcount : 18 ≤ later.count (.loopStep loop)) :
    let s' := (later ++ [Action.controlStep, .controlStep]).foldl (step config) s
    s'.lifecycle.calls () = .idle ∧ s'.ingress.popped.length ≤ bound ∧
      s'.trace = s'.ingress.popped.flatMap (block config) := by
  intro s'
  have hallowed : ∀ action ∈ later, action ≠ .start := fun action hmem heq => hstart (heq ▸ hmem)
  have hwork : exitLeft loop s ≤ later.countP (· = .loopStep loop) := by
    refine le_trans ?_ hcount
    have hbody := bodyLeft_bounds s
    unfold exitLeft
    split
    · omega
    · split <;> omega
  have hdone := (stopped_budget config loop bound).done h hallowed hwork
  have hafter := (stopped_budget config loop bound).inv_run h hallowed
  have hend : Stopped config loop bound s' := by
    simp only [s', List.foldl_append, List.foldl_cons, List.foldl_nil]
    exact stopped_control (stopped_control hafter)
  have hidle : s'.lifecycle.calls () = .idle := by
    simp only [s', List.foldl_append]
    exact idle_of_exited hafter hdone
  have hpops := hend.pops
  exact ⟨hidle, by omega, trace_of_idle hend.inv hidle hend.flag⟩

/-- From every state that any interleaving of submitter, controller and run loops reaches. -/
theorem run_responsive (config : Config) (actions : List Action) :
    Responsive config (run config actions) where
  processes := processes_of_inv (inv_run config actions) (manned_run config actions)
  stops := by
    intro hstop
    obtain ⟨loop, hworker, hstopped⟩ := stopped_of_stopping (inv_run config actions)
      (manned_run config actions) (destroyed_run config actions) hstop
    exact ⟨loop, hworker, fun later hstart hcount => stops_of_stopped hstopped hstart hcount⟩

/-- A `start` and the two steps that bring it back. -/
example :
    let s := run ⟨fun _ => true, true⟩ [.start, .controlStep, .controlStep]
    s.lifecycle.running = true ∧ s.lifecycle.calls () = .idle ∧ s.lifecycle.worker = some 0 := by
  decide

end OfeSymbolWorker
