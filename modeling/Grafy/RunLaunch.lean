import Grafy.RunFinish

/-!
What `start` leaves behind. The row of a Run is committed before the scheduler
accepts its plan and before its watcher is made. When `start` gets through, the
Run that is still running is known to the scheduler and watched until its finish
is written; when it is cut short between the two, the row stays as it was.
-/
namespace Grafy.Scheduler

open OrderedDict Results Reachability

section Known

variable {concurrency : ℕ} {s s' : State} {runId : RunId} {a : Action} {p : Prepared}

/-- The Run is in the scheduler's table. -/
def State.Knows (s : State) (runId : RunId) : Prop := (s.runs.get? runId).isSome

theorem State.Knows.of_runs (h : s.Knows runId) (hruns : s'.runs = s.runs) : s'.Knows runId := by
  unfold State.Knows
  rwa [hruns]

/-- A suspended `submit` that joins has registered its Run. -/
def JoiningKnown (s : State) : Prop := ∀ i call, s.joiningCall i = some call → s.Knows call.runId

theorem allocateRun_knows (s : State) (id : RunId) (plan : RunPlan)
    (h : s.Knows runId ∨ runId = id) : (allocateRun s id plan).Knows runId := by
  unfold State.Knows
  rw [allocateRun_runs, Dict.get?_set]
  split_ifs with hid
  · rfl
  · exact h.resolve_right hid

theorem register_runs (s : State) (i : ℕ) (id : RunId) (plan : RunPlan) :
    (register s i id plan).state.runs = (allocateRun s id plan).runs := by
  unfold register
  split <;> rfl

theorem joinNext_runs (s : State) (i : ℕ) (task : SubmitTask) (run : RunRef)
    (joined : Dict Fingerprint Ref) (c : ComputationPlan) (rest : List ComputationPlan)
    (hasResult : Bool) :
    (joinNext s i task run joined c rest hasResult).state.runs = s.runs ∧
      (joinNext s i task run joined c rest hasResult).state.rejections = s.rejections := by
  have hjoined : (joinedState s task.runId run c hasResult).runs = s.runs ∧
      (joinedState s task.runId run c hasResult).rejections = s.rejections := by
    unfold joinedState
    rcases join_cases s task.runId c hasResult with ⟨-, heq⟩ | ⟨-, -, heq⟩ | ⟨-, r, -, -, heq⟩ <;>
      rw [heq] <;> exact ⟨rfl, rfl⟩
  obtain ⟨_, t, _, hwired, heq⟩ := joinNext_wired s i task run joined c rest hasResult
  rw [heq]
  exact ⟨hwired.calls.runs.trans hjoined.1, hwired.calls.rejections.trans hjoined.2⟩

/-- A step leaves the table of Runs alone or enters the Run that it registers. -/
theorem Effect.runs (hreg : Registered s) (he : Effect s a p) :
    p.state.runs = s.runs ∨ ∃ t id plan, Registering s a id plan ∧ t.runs = s.runs ∧
      p.state.runs = (allocateRun t id plan).runs := by
  cases he with
  | quiet hq | settles r state hq _ _ => exact Or.inl hq.runs
  | drops i => exact Or.inl rfl
  | @registers _ t i id plan hregisters hq _ =>
    exact Or.inr ⟨t, id, plan, hregisters, hq.runs, register_runs t i id plan⟩
  | joins i _ => exact Or.inl (joinNext_runs s i _ _ _ _ _ _).1
  | @withdraws id run hrun _ _ =>
    have hlt := (hreg.runs_get hrun).1
    have hk := RunsKept.withdraw s id hlt
    exact Or.inl ((finishRun_finished _ run).calls.runs.trans hk.runs)
  | @awaits id run hrun _ =>
    exact Or.inl (RunsKept.withdraw s id (hreg.runs_get hrun).1).runs
  | @answers i task _ =>
    exact Or.inl (finishRun_finished (s.setCancel i none) task.run).calls.runs

theorem Effect.knows (hreg : Registered s) (he : Effect s a p) (h : s.Knows runId) :
    p.state.Knows runId := by
  rcases he.runs hreg with hkept | ⟨t, id, plan, -, ht, hentered⟩
  · exact h.of_runs hkept
  · exact (allocateRun_knows t id plan (Or.inl (h.of_runs ht))).of_runs hentered

theorem step_knows (hvalid : Valid concurrency s) (hstep : step concurrency s a = some s')
    (h : s.Knows runId) : s'.Knows runId := by
  obtain ⟨p, hp, hcases⟩ := step_cases hstep
  have hknows := (hvalid.effect hp).knows hvalid.registered h
  rcases hcases with ⟨-, rfl⟩ | ⟨-, rfl⟩
  · exact hknows.of_runs (sameCalls_dispatch concurrency p.state).runs
  · exact hknows

theorem JoiningKnown.of_calls (h : JoiningKnown s) (hruns : s'.runs = s.runs)
    (hcalls : ∀ i call, s'.joiningCall i = some call → s.joiningCall i = some call) :
    JoiningKnown s' :=
  fun i call hcall => (h i call (hcalls i call hcall)).of_runs hruns

theorem JoiningKnown.register (h : JoiningKnown s) (i : ℕ) (id : RunId) (plan : RunPlan) :
    JoiningKnown (register s i id plan).state := by
  intro j call hcall
  refine (allocateRun_knows s id plan ?_).of_runs (register_runs s i id plan)
  have hold : ∀ task : Option SubmitTask, (∀ call, task.bind SubmitTask.joiningCall = some call →
      call.runId = id) → ((allocateRun s id plan).setSubmit i task).joiningCall j = some call →
      s.Knows call.runId ∨ call.runId = id := by
    intro task htask hcall
    rw [joiningCall_setSubmit] at hcall
    split_ifs at hcall
    · exact Or.inr (htask call hcall)
    · exact Or.inl (h j call hcall)
  unfold Scheduler.register at hcall
  split at hcall
  · exact hold none (by simp) hcall
  · refine hold _ ?_ hcall
    intro call hjoins
    cases hjoins
    rfl

theorem JoiningKnown.joinNext (h : JoiningKnown s) {i : ℕ} {task : SubmitTask} {run : RunRef}
    {joined : Dict Fingerprint Ref} {c : ComputationPlan} (rest : List ComputationPlan)
    (hasResult : Bool) (hknows : s.Knows task.runId) :
    JoiningKnown (joinNext s i task run joined c rest hasResult).state := by
  intro j call hcall
  refine State.Knows.of_runs ?_ (joinNext_runs s i task run joined c rest hasResult).1
  have hjoined := RunsKept.join s task.runId c hasResult
  cases rest with
  | nil =>
    have hwired := wired_joined s task run joined c hasResult
    rw [joinNext_nil, joiningCall_setSubmit] at hcall
    split_ifs at hcall
    · cases hcall
    · have hkept := (RunsKept.of_wired hwired).joiningCall j call hcall
      exact h j call (hjoined.joiningCall j call hkept)
  | cons d rest =>
    rw [joinNext_cons, joiningCall_setSubmit] at hcall
    split_ifs at hcall
    · cases hcall
      exact hknows
    · exact h j call (hjoined.joiningCall j call hcall)

theorem JoiningKnown.effect (h : JoiningKnown s) (hreg : Registered s) (he : Effect s a p) :
    JoiningKnown p.state := by
  cases he with
  | quiet hq | settles r state hq _ _ => exact h.of_calls hq.runs (RunsKept.of_quiet hq).joiningCall
  | drops i =>
    refine h.of_calls rfl fun j call hcall => ?_
    rw [joiningCall_setSubmit] at hcall
    split_ifs at hcall
    · cases hcall
    · exact hcall
  | @registers _ t i id plan _ hq _ =>
    exact (h.of_calls hq.runs (RunsKept.of_quiet hq).joiningCall).register i id plan
  | joins i hsub =>
    exact h.joinNext _ _ (h i _ (joiningCall_of_submits hsub))
  | @withdraws id run hrun _ _ =>
    have hlt := (hreg.runs_get hrun).1
    have hk := RunsKept.withdraw s id hlt
    have hf := RunsKept.finishRun (withdraw s id run).1 (hk.nextRun.symm ▸ hlt)
    exact (h.of_calls hk.runs hk.joiningCall).of_calls hf.runs hf.joiningCall
  | @awaits id run hrun _ =>
    have hk := RunsKept.withdraw s id (hreg.runs_get hrun).1
    exact h.of_calls hk.runs hk.joiningCall
  | @answers i task htask =>
    have hf := RunsKept.finishRun (s.setCancel i none) (hreg.withdrawn i task htask).1
    exact h.of_calls hf.runs hf.joiningCall

/-- What is known of every state of a scheduler. -/
structure Sourced (concurrency : ℕ) (s : State) : Prop where
  valid : Valid concurrency s
  joining : JoiningKnown s

theorem Sourced.initial (store : ResultStore) : Sourced concurrency (initial store) :=
  ⟨Valid.initial store, by simp [JoiningKnown, State.joiningCall]⟩

theorem Sourced.step (h : Sourced concurrency s) (hstep : step concurrency s a = some s') :
    Sourced concurrency s' := by
  obtain ⟨p, hp, hcases⟩ := step_cases hstep
  have hvalid := h.valid.prepare hp
  have hjoining := h.joining.effect h.valid.registered (h.valid.effect hp)
  rcases hcases with ⟨-, rfl⟩ | ⟨-, rfl⟩
  · have hkept := RunsKept.dispatch concurrency hvalid.registered.vacant
    exact ⟨hvalid.dispatch, hjoining.of_calls hkept.runs hkept.joiningCall⟩
  · exact ⟨hvalid, hjoining⟩

theorem step_submits (hstep : step concurrency s a = some s') : SubmitsMoved s a s' := by
  obtain ⟨p, hp, hcases⟩ := step_cases hstep
  have hmoved := SubmitsMoved.prepare hp
  rcases hcases with ⟨-, rfl⟩ | ⟨-, rfl⟩
  · have hcalls := sameCalls_dispatch concurrency p.state
    exact hmoved.of_same hcalls.submits hcalls.nextSubmit
  · exact hmoved

end Known

section Submission

variable {concurrency : ℕ} {s s' : State} {i : ℕ} {runId : RunId}

/-- What a submission knows of its call: its number was given out, and the call
is for its Run. -/
structure Placed (runId : RunId) (i : ℕ) (s : State) : Prop where
  number : i < s.nextSubmit
  runId : ∀ task, s.submits i = some task → task.runId = runId

theorem Placed.step (h : Placed runId i s) {a : Action} (hstep : step concurrency s a = some s') :
    Placed runId i s' := by
  have hmoved := step_submits hstep
  refine ⟨h.number.trans_le hmoved.nextSubmit, fun task htask => ?_⟩
  rcases hmoved.submits i task htask with ⟨old, hold, hid, -⟩ | ⟨hi, -⟩
  · rw [← hid]
    exact h.runId old hold
  · exact absurd h.number (by omega)

/-- The dispatch that ends a step leaves the calls as they are. -/
theorem step_sameCalls {a : Action} (hstep : step concurrency s a = some s') :
    ∃ p, prepare s a = some p ∧ SameCalls p.state s' := by
  obtain ⟨p, hp, hcases⟩ := step_cases hstep
  refine ⟨p, hp, ?_⟩
  rcases hcases with ⟨-, rfl⟩ | ⟨-, rfl⟩
  · exact sameCalls_dispatch concurrency p.state
  · exact SameCalls.refl _

/-- After its validation a submission waits for the store or knows its Run. -/
theorem validate_placed (i : ℕ) (runId : RunId) (t : State) (plan : RunPlan)
    (todo : List (Fingerprint × Fingerprint)) :
    (∀ task, (validate t i runId plan todo).state.submits i = some task → task.runId = runId) ∧
      ((validate t i runId plan todo).state.submits i = none →
        (validate t i runId plan todo).state.Knows runId) := by
  cases todo with
  | nil =>
    have hknows := (allocateRun_knows t runId plan (Or.inr rfl)).of_runs
      (register_runs t i runId plan)
    refine ⟨fun task htask => ?_, fun _ => hknows⟩
    change (register t i runId plan).state.submits i = some task at htask
    unfold register at htask
    split at htask
    · simp at htask
    · simp only [State.setSubmit_submits, Function.update_self, Option.some.injEq] at htask
      rw [← htask]
  | cons pair rest =>
    obtain ⟨f, d⟩ := pair
    refine ⟨fun task htask => ?_, fun hnone => ?_⟩
    · simp only [validate, State.setSubmit_submits, Function.update_self,
        Option.some.injEq] at htask
      rw [← htask]
    · simp [validate] at hnone

theorem validate_frame (i : ℕ) (runId : RunId) (t : State) (plan : RunPlan)
    (todo : List (Fingerprint × Fingerprint)) :
    (validate t i runId plan todo).state.rejections = t.rejections ∧
      (validate t i runId plan todo).state.nextSubmit = t.nextSubmit := by
  cases todo with
  | nil =>
    change (register t i runId plan).state.rejections = t.rejections ∧
      (register t i runId plan).state.nextSubmit = t.nextSubmit
    unfold register
    split <;> exact ⟨rfl, rfl⟩
  | cons pair rest => exact ⟨rfl, rfl⟩

/-- A submission under a free id is not rejected at once. -/
theorem submit_placed {plan : RunPlan} (hfree : ¬ s.Knows runId)
    (hstep : step concurrency s (.submit runId plan) = some s') :
    s'.rejections = s.rejections ∧ Placed runId s.nextSubmit s' ∧
      (s'.submits s.nextSubmit = none → s'.Knows runId) := by
  obtain ⟨p, hp, hcalls⟩ := step_sameCalls hstep
  obtain rfl : validate (openSubmit s) s.nextSubmit runId plan (openDependencies plan) = p := by
    have hsubmit := Option.some.inj hp
    unfold State.Knows at hfree
    rwa [submit, if_neg hfree] at hsubmit
  obtain ⟨hplaced, hknows⟩ := validate_placed s.nextSubmit runId (openSubmit s) plan
    (openDependencies plan)
  obtain ⟨hrejections, hnumber⟩ := validate_frame s.nextSubmit runId (openSubmit s)
    plan (openDependencies plan)
  refine ⟨hcalls.rejections.trans hrejections, ⟨?_, ?_⟩, ?_⟩
  · rw [hcalls.nextSubmit, hnumber]
    exact Nat.lt_succ_self s.nextSubmit
  · rw [hcalls.submits]
    exact hplaced
  · rw [hcalls.submits]
    exact fun hnone => (hknows hnone).of_runs hcalls.runs

/-- A submission that finds its dependencies stored goes on, and knows its Run
when it is through. -/
theorem submitResumes_placed (hsourced : Sourced concurrency s) (h : Placed runId i s)
    (hstored : ∀ task, s.submits i = some task → task.point.Validates → task.answer = some true)
    (hstep : step concurrency s (.submitResumes i) = some s') :
    s'.rejections = s.rejections ∧ Placed runId i s' ∧ (s'.submits i = none → s'.Knows runId) := by
  obtain ⟨p, hp, hcalls⟩ := step_sameCalls hstep
  have hplaced := h.step hstep
  simp only [prepare] at hp
  split at hp
  · rename_i id plan point hasResult hsub
    obtain rfl : id = runId := h.runId _ hsub
    cases hp
    cases point with
    | validating f d rest =>
      obtain rfl : hasResult = true := by simpa using hstored _ hsub trivial
      simp only [submitResume, if_true] at hcalls
      refine ⟨hcalls.rejections.trans (validate_frame i id s plan rest).1, hplaced, ?_⟩
      rw [hcalls.submits]
      exact fun hnone => ((validate_placed i id s plan rest).2 hnone).of_runs hcalls.runs
    | joining run joined c rest =>
      have hknows := hsourced.joining i _ (joiningCall_of_submits hsub)
      simp only [submitResume] at hcalls
      obtain ⟨hruns, hrejections⟩ := joinNext_runs s i ⟨id, plan, .joining run joined c rest,
        some hasResult⟩ run joined c rest hasResult
      refine ⟨hcalls.rejections.trans hrejections, hplaced, fun _ => ?_⟩
      exact (hknows.of_runs hruns).of_runs hcalls.runs
  · cases hp

end Submission

end Grafy.Scheduler

namespace Grafy.RunService

open OrderedDict Scheduler Reachability

section Launch

variable {concurrency : ℕ} {store : Results.ResultStore} {runId : RunId} {s s' : State} {stamp : ℕ}
  {action : Action} {after before : Scheduler.State}

def Known (runId : RunId) (s : State) : Prop :=
  ∃ scheduler, s.scheduler = some scheduler ∧ scheduler.Knows runId

def RowFinished (s : State) : Prop := ∀ run, s.row = some run → run.isActive = false

/-- The watcher is registered and has yet to save the finish. -/
structure Watching (runId : RunId) (s : State) : Prop where
  watched : s.watched = true
  known : Known runId s
  point : (s.watch = .waiting ∧ s.run.isActive = true) ∨ ∃ run, s.watch = .writing (.saving run)

/-- What `start` has brought about at each of its points. -/
def Launching (runId : RunId) (s : State) : Prop :=
  match s.start with
  | .planning => s.row = none ∧ s.run.isActive = true
  | .recording _ => s.row = none ∧ s.run.isActive = true
  | .recorded _ => s.run.isActive = true
  | .submitting call => s.run.isActive = true ∧
      ∃ scheduler, s.scheduler = some scheduler ∧ Placed runId call scheduler
  | .starting true => s.run.isActive = true
  | .starting false => s.run.isActive = true ∧ Known runId s
  | .writing (.saving _) => True
  | .writing _ => RowFinished s
  | .ended => RowFinished s ∨ Watching runId s

/-- A step that does not cut `start` or the watcher short between the commit of
the row and its finish: what is submitted is accepted and nothing raises there. -/
def Launches (runId : RunId) (s : State) : Action → Prop
  | .startAdvances _ =>
    match s.start with
    | .recorded _ => ∀ scheduler, s.scheduler = some scheduler → ¬ scheduler.Knows runId
    | .submitting call => ∀ scheduler task, s.scheduler = some scheduler →
        scheduler.submits call = some task → task.point.Validates → task.answer = some true
    | _ => True
  | .startRaises =>
    match s.start with
    | .recorded _ => False
    | .submitting _ => False
    | .starting _ => False
    | .writing (.saving _) => False
    | _ => True
  | .watchRaises =>
    match s.watch with
    | .waiting => False
    | .writing (.saving _) => False
    | _ => True
  | _ => True

/-- What a step of another call, or of the scheduler, leaves of the launch. -/
structure Unmoved (runId : RunId) (s s' : State) : Prop where
  start : s'.start = s.start
  watch : s'.watch = s.watch
  watched : s'.watched = s.watched
  run : s'.run = s.run
  row : s'.row = s.row ∨ (RowFinished s' ∧ (s.row = none → s'.row = none))
  scheduler : ∀ before, s.scheduler = some before → ∃ after, s'.scheduler = some after ∧
    (before.Knows runId → after.Knows runId) ∧
      ∀ call, Placed runId call before → Placed runId call after

theorem Unmoved.known (h : Unmoved runId s s') (hknown : Known runId s) : Known runId s' := by
  obtain ⟨before, hbefore, hknows⟩ := hknown
  obtain ⟨after, hafter, hkept, -⟩ := h.scheduler before hbefore
  exact ⟨after, hafter, hkept hknows⟩

theorem Unmoved.rowFinished (h : Unmoved runId s s') (hfinished : RowFinished s) :
    RowFinished s' := by
  rcases h.row with hrow | ⟨hrow, -⟩
  · unfold RowFinished
    rwa [hrow]
  · exact hrow

theorem Unmoved.rowNone (h : Unmoved runId s s') (hnone : s.row = none) : s'.row = none := by
  rcases h.row with hrow | ⟨-, hrow⟩
  · exact hrow.trans hnone
  · exact hrow hnone

theorem Launching.unmoved (h : Launching runId s) (hu : Unmoved runId s s') :
    Launching runId s' := by
  unfold Launching at h ⊢
  rw [hu.start, hu.run]
  split at h
  · exact ⟨hu.rowNone h.1, h.2⟩
  · exact ⟨hu.rowNone h.1, h.2⟩
  · exact h
  · obtain ⟨hactive, before, hbefore, hplaced⟩ := h
    obtain ⟨after, hafter, -, hkept⟩ := hu.scheduler before hbefore
    exact ⟨hactive, after, hafter, hkept _ hplaced⟩
  · exact h
  · exact ⟨h.1, hu.known h.2⟩
  · trivial
  · exact hu.rowFinished h
  · refine h.imp hu.rowFinished fun hwatching => ?_
    refine ⟨hu.watched.trans hwatching.watched, hu.known hwatching.known, ?_⟩
    rw [hu.watch, hu.run]
    exact hwatching.point

theorem Unmoved.of_step (runId : RunId) {action : Scheduler.Action}
    (hsourced : ∀ scheduler, s.scheduler = some scheduler → Sourced concurrency scheduler)
    (hbefore : s.scheduler = some before)
    (hstep : Scheduler.step concurrency before action = some after) :
    Unmoved runId s { s with scheduler := some after } := by
  refine ⟨rfl, rfl, rfl, rfl, Or.inl rfl, fun held hheld => ⟨after, rfl, ?_⟩⟩
  cases hbefore.symm.trans hheld
  exact ⟨step_knows (hsourced before hbefore).valid hstep, fun call hplaced => hplaced.step hstep⟩

theorem Unmoved.refl (s : State) : Unmoved runId s s :=
  ⟨rfl, rfl, rfl, rfl, Or.inl rfl, fun before hbefore => ⟨before, hbefore, id, fun _ h => h⟩⟩

theorem Unmoved.setCancel (h : Unmoved runId s s') (i : ℕ) (point : CancelPoint) :
    Unmoved runId s (setCancel s' i point) :=
  ⟨h.start, h.watch, h.watched, h.run, h.row, h.scheduler⟩

theorem Writing.advance_unmoved (runId : RunId) (s : State) (point : Writing) :
    Unmoved runId s (point.advance s).1 := by
  cases point with
  | saving run =>
    refine ⟨rfl, rfl, rfl, rfl, Or.inr ⟨?_, fun h => by simp [Writing.advance, save, h]⟩,
      fun before hbefore => ⟨before, hbefore, id, fun _ h => h⟩⟩
    intro saved hsaved
    obtain ⟨_, -, rfl⟩ := Option.map_eq_some_iff.mp hsaved
    exact run.finished
  | saved run => exact ⟨rfl, rfl, rfl, rfl, Or.inl rfl, (Unmoved.refl s).scheduler⟩
  | announcing | publishing => exact Unmoved.refl s

theorem Stepped.unmoved {scheduler : Option Scheduler.State}
    (hsourced : ∀ t, s.scheduler = some t → Sourced concurrency t)
    (h : Stepped concurrency s.scheduler scheduler) :
    Unmoved runId s { s with scheduler := scheduler } := by
  cases h with
  | kept => exact Unmoved.refl s
  | step hbefore hstep => exact Unmoved.of_step runId hsourced hbefore hstep

theorem Stepped.sourced {scheduler : Option Scheduler.State}
    (hsourced : ∀ t, s.scheduler = some t → Sourced concurrency t)
    (h : Stepped concurrency s.scheduler scheduler) {t : Scheduler.State}
    (ht : scheduler = some t) : Sourced concurrency t := by
  cases h with
  | kept => exact hsourced t ht
  | step hbefore hstep =>
    cases ht
    exact (hsourced _ hbefore).step hstep

/-- A submission that was not rejected waits for the store or has made the Run
known. -/
theorem afterSubmit_launching {call : ℕ} (hactive : s.run.isActive = true)
    (hrejections : after.rejections = before.rejections) (hplaced : Placed runId call after)
    (hknows : after.submits call = none → after.Knows runId) :
    Launching runId { s with scheduler := some after, start := afterSubmit before after call } := by
  have hnot : ¬ before.rejections.length < after.rejections.length := by
    rw [hrejections]
    exact lt_irrefl _
  unfold afterSubmit
  rw [if_neg hnot]
  split_ifs with hthrough
  · exact ⟨hactive, after, rfl, hknows (Option.isNone_iff_eq_none.mp hthrough)⟩
  · exact ⟨hactive, after, rfl, hplaced⟩

/-- A finish that is being written is saved first. -/
theorem Writing.advance_start {point : Writing} (h : Launching runId s)
    (hpoint : s.start = .writing point) :
    Launching runId { (point.advance s).1 with
      start := (point.advance s).2.elim .ended .writing } := by
  simp only [Launching, hpoint] at h
  cases point with
  | saving run =>
    intro saved hsaved
    obtain ⟨_, -, rfl⟩ := Option.map_eq_some_iff.mp hsaved
    exact run.finished
  | saved run | announcing => exact h
  | publishing => exact Or.inl h

/-- `start` raises before the row is committed, or once its finish is saved. -/
theorem startRaises_launching (hlaunching : Launching runId s)
    (hmeets : Launches runId s .startRaises) (hpoint : s.start ≠ .ended) :
    Launching runId { s with start := .ended } := by
  have hunrecorded : s.row = none → Launching runId { s with start := .ended } := by
    intro hnone
    refine Or.inl fun run hrow => ?_
    rw [hnone] at hrow
    cases hrow
  cases hat : s.start with
  | planning | recording plan =>
    simp only [Launching, hat] at hlaunching
    exact hunrecorded hlaunching.1
  | writing point =>
    cases point with
    | saving run => simp [Launches, hat] at hmeets
    | saved run | announcing | publishing =>
      simp only [Launching, hat] at hlaunching
      exact Or.inl hlaunching
  | ended => exact absurd hat hpoint
  | _ => simp [Launches, hat] at hmeets

theorem statusOf_inactive (status : Scheduler.RunStatus) : (statusOf status).isActive = false := by
  cases status <;> rfl

theorem launching_ended (hended : s.start = .ended) :
    Launching runId s ↔ RowFinished s ∨ Watching runId s := by
  simp only [Launching, hended]

theorem Launching.of_row (hstart : s.start = .ended) (hfinished : RowFinished s)
    (hstart' : s'.start = s.start) (hrow : s'.row = s.row) : Launching runId s' := by
  refine (launching_ended (hstart'.trans hstart)).mpr (Or.inl ?_)
  unfold RowFinished
  rwa [hrow]

/-- The watcher leaves the row only once the finish is saved. -/
theorem Launching.watched (h : Launching runId s) (hended : s.start = .ended)
    (hlate : Watching runId s → RowFinished s) (hstart' : s'.start = s.start)
    (hrow : s'.row = s.row) : Launching runId s' :=
  .of_row hended (((launching_ended hended).mp h).elim id hlate) hstart' hrow

/-- What every run keeps whose steps let the launch through. -/
structure Launched (concurrency : ℕ) (runId : RunId) (s : State) : Prop where
  attended : Attended s
  sourced : ∀ scheduler, s.scheduler = some scheduler → Sourced concurrency scheduler
  launching : Launching runId s

theorem Launched.initial {scheduler : Option Scheduler.State}
    (hscheduler : ∀ before, scheduler = some before → Sourced concurrency before) :
    Launched concurrency runId (initial scheduler) :=
  ⟨⟨fun _ => Or.inl rfl, Or.inr rfl, fun _ => ⟨rfl, rfl⟩⟩, hscheduler, ⟨rfl, rfl⟩⟩

theorem Writing.advance_scheduler (s : State) (point : Writing) :
    (point.advance s).1.scheduler = s.scheduler := by
  cases point <;> rfl

theorem step_sourced
    (hsourced : ∀ scheduler, s.scheduler = some scheduler → Sourced concurrency scheduler)
    (h : step concurrency store runId s action = some s') :
    ∀ scheduler, s'.scheduler = some scheduler → Sourced concurrency scheduler := by
  intro scheduler hscheduler
  have hstepped : ∀ {action before after}, s.scheduler = some before →
      Scheduler.step concurrency before action = some after → Sourced concurrency after :=
    fun hbefore hstep => (hsourced _ hbefore).step hstep
  cases step_cases h with
  | submits _ hbefore hstep =>
    cases hscheduler
    cases hheld : s.scheduler with
    | none =>
      rw [hheld] at hbefore
      cases hbefore
      exact (Sourced.initial store).step hstep
    | some before =>
      rw [hheld] at hbefore
      cases hbefore
      exact hstepped hheld hstep
  | resumes _ hbefore hstep | submitRaises _ hbefore hstep | schedules hbefore hstep =>
    cases hscheduler
    exact hstepped hbefore hstep
  | builds =>
    cases hscheduler
    exact Sourced.initial store
  | cancels _ hmoved => exact hmoved.sourced hsourced hscheduler
  | @writes _ point | @watchWrites _ point | @cancelWrites _ _ point =>
    exact hsourced scheduler ((point.advance_scheduler s).symm.trans hscheduler)
  | _ => exact hsourced scheduler hscheduler

theorem Launched.step (h : Launched concurrency runId s) (hmeets : Launches runId s action)
    (hstep : step concurrency store runId s action = some s') : Launched concurrency runId s' := by
  refine ⟨step_attended h.attended hstep, step_sourced h.sourced hstep, ?_⟩
  have hlaunching := h.launching
  have hended : s.watch ≠ .absent → s.start = .ended := h.attended.handedOver.resolve_right
  cases step_cases hstep with
  | plans hpoint => simpa only [Launching, hpoint] using hlaunching
  | records hpoint =>
    simp only [Launching, hpoint] at hlaunching
    exact hlaunching.2
  | skips hpoint =>
    simp only [Launching, hpoint] at hlaunching
    exact hlaunching
  | @submits _ _ before after hpoint hbefore hsubmit =>
    simp only [Launching, hpoint] at hlaunching
    have hfree : ¬ before.Knows runId := by
      simp only [Launches, hpoint] at hmeets
      cases hscheduler : s.scheduler with
      | none =>
        rw [hscheduler] at hbefore
        simp [← hbefore, State.Knows, Scheduler.initial]
      | some scheduler =>
        rw [hscheduler] at hbefore
        exact hbefore ▸ hmeets scheduler hscheduler
    obtain ⟨hrejections, hplaced, hknows⟩ := submit_placed hfree hsubmit
    exact afterSubmit_launching hlaunching hrejections hplaced hknows
  | @resumes _ _ before _ hpoint hbefore hresumes =>
    simp only [Launching, hpoint] at hlaunching
    simp only [Launches, hpoint] at hmeets
    obtain ⟨hactive, scheduler, hscheduler, hplaced⟩ := hlaunching
    obtain rfl := Option.some.inj (hbefore.symm.trans hscheduler)
    obtain ⟨hrejections, hplaced, hknows⟩ := submitResumes_placed (h.sourced before hbefore) hplaced
      (fun task => hmeets before task hbefore) hresumes
    exact afterSubmit_launching hactive hrejections hplaced hknows
  | finishes => trivial
  | fails hpoint hfinish =>
    simp only [Launching, hpoint] at hlaunching
    simp [Run.finish, RunStatus.isActive, hlaunching] at hfinish
  | handsOver hpoint =>
    simp only [Launching, hpoint] at hlaunching
    exact Or.inr ⟨rfl, hlaunching.2, Or.inl ⟨rfl, hlaunching.1⟩⟩
  | writes hpoint => exact Writing.advance_start hlaunching hpoint
  | submitRaises hpoint => simp [Launches, hpoint] at hmeets
  | startRaises hpoint => exact startRaises_launching hlaunching hmeets hpoint
  | @watchFinishes _ run hpoint =>
    have hstart := hended (by simp [hpoint])
    rcases (launching_ended hstart).mp hlaunching with hfinished | hwatching
    · exact .of_row hstart hfinished rfl rfl
    · refine (launching_ended ?_).mpr (Or.inr ⟨hwatching.watched, hwatching.known, ?_⟩)
      · exact hstart
      · exact Or.inr ⟨run, rfl⟩
  | watchFails hpoint hfinish =>
    refine hlaunching.watched (hended (by simp [hpoint])) (fun hwatching => ?_) rfl rfl
    rcases hwatching.point with ⟨-, hactive⟩ | ⟨run, hsaving⟩
    · simp [Run.finish, statusOf_inactive, hactive] at hfinish
    · simp [hpoint] at hsaving
  | @watchWrites _ point hpoint =>
    have hstart := hended (by simp [hpoint])
    have hmoved := Writing.advance_unmoved runId s point
    refine .of_row (hmoved.start.trans hstart) ?_ rfl rfl
    rcases (launching_ended hstart).mp hlaunching with hfinished | hwatching
    · exact hmoved.rowFinished hfinished
    · obtain ⟨run, hsaving⟩ := hwatching.point.resolve_left (by simp [hpoint])
      obtain rfl := WatchPoint.writing.inj (hpoint.symm.trans hsaving)
      intro saved hsaved
      obtain ⟨_, -, rfl⟩ := Option.map_eq_some_iff.mp hsaved
      exact run.finished
  | watchEnds hpoint | watchEndsRaising hpoint =>
    refine hlaunching.watched (hended (by simp [hpoint])) (fun hwatching => ?_) rfl rfl
    rcases hwatching.point with ⟨hwaiting, -⟩ | ⟨run, hsaving⟩
    · simp [hpoint] at hwaiting
    · simp [hpoint] at hsaving
  | watchRaises habsent =>
    refine hlaunching.watched (hended habsent) (fun hwatching => ?_) rfl rfl
    rcases hwatching.point with ⟨hwaiting, -⟩ | ⟨run, hsaving⟩
    · simp [Launches, hwaiting] at hmeets
    · simp [Launches, hsaving] at hmeets
  | called =>
    exact hlaunching.unmoved ⟨rfl, rfl, rfl, rfl, Or.inl rfl, (Unmoved.refl s).scheduler⟩
  | cancels _ hmoved => exact hlaunching.unmoved ((hmoved.unmoved h.sourced).setCancel _ _)
  | @cancelWrites _ _ point =>
    exact hlaunching.unmoved ((Writing.advance_unmoved runId s point).setCancel _ _)
  | cancelRaises => exact hlaunching.unmoved ((Unmoved.refl s).setCancel _ _)
  | builds hnone =>
    refine hlaunching.unmoved ⟨rfl, rfl, rfl, rfl, Or.inl rfl, fun before hbefore => ?_⟩
    rw [hnone] at hbefore
    cases hbefore
  | schedules hbefore hafter =>
    exact hlaunching.unmoved (Unmoved.of_step runId h.sourced hbefore hafter)

/-- The condition, computed. -/
def launches (runId : RunId) (s : State) : Action → Bool
  | .startAdvances _ =>
    match s.start with
    | .recorded _ => s.scheduler.all (fun scheduler => (scheduler.runs.get? runId).isNone)
    | .submitting call => s.scheduler.all (fun scheduler =>
        (scheduler.submits call).all (fun task =>
          match task.point with
          | .validating .. => task.answer = some true
          | .joining .. => true))
    | _ => true
  | .startRaises =>
    match s.start with
    | .planning | .recording _ | .ended => true
    | .writing (.saving _) => false
    | .writing _ => true
    | _ => false
  | .watchRaises =>
    match s.watch with
    | .waiting => false
    | .writing (.saving _) => false
    | _ => true
  | _ => true

theorem launches_sound (h : launches runId s action = true) : Launches runId s action := by
  cases action with
  | startAdvances stamp =>
    simp only [launches, Launches] at h ⊢
    split
    · rename_i plan hpoint
      intro scheduler hscheduler
      simp only [hpoint, hscheduler, Option.all_some, Option.isNone_iff_eq_none] at h
      simp [State.Knows, h]
    · rename_i call hpoint
      intro scheduler task hscheduler htask hvalidates
      simp only [hpoint, hscheduler, htask, Option.all_some] at h
      cases hat : task.point with
      | validating f d rest => simpa [hat] using h
      | joining run joined c rest => simp [hat, SubmitPoint.Validates] at hvalidates
    · trivial
  | startRaises | watchRaises =>
    simp only [launches, Launches] at h ⊢
    split at h <;> simp_all
  | _ => trivial

/-- In every run whose steps let the launch through, once `start` has ended, a
row that is still running has a watcher and a Run the scheduler knows. -/
theorem launched_run_watched {scheduler : Option Scheduler.State} {s : State}
    (hscheduler : ∀ before, scheduler = some before →
      Reachable (Scheduler.step concurrency) (fun _ _ => True) (Scheduler.initial store) before)
    (h : Reachable (step concurrency store runId) (Launches runId) (initial scheduler) s)
    (hended : s.start = .ended) {run : Run} (hrow : s.row = some run)
    (hrunning : run.status = .running) : s.watched = true ∧ Known runId s := by
  have hsourced : ∀ before, scheduler = some before → Sourced concurrency before := by
    intro before hbefore
    exact (hscheduler before hbefore).invariant (Sourced.initial store)
      (fun _ _ _ hheld _ hstep => hheld.step hstep)
  have hlaunched : Launched concurrency runId s :=
    h.invariant (Launched.initial hsourced) (fun _ _ _ hheld => hheld.step)
  rcases (launching_ended hended).mp hlaunched.launching with hfinished | hwatching
  · have hinactive := hfinished run hrow
    simp [Run.isActive, hrunning, RunStatus.isActive] at hinactive
  · exact ⟨hwatching.watched, hwatching.known⟩

/-- A Run of one computation that gets as far as its watcher. -/
def launchedRun : List Action :=
  [.planned ⟨[], [computationOf "x" []], distinct_one "x"⟩, .startAdvances 1, .startAdvances 1,
    .schedules (.submitAnswered 0), .startAdvances 1, .startAdvances 1]

def hasEnded (s : State) : Bool :=
  match s.start with
  | .ended => true
  | _ => false

theorem hasEnded_sound {s : State} (h : hasEnded s) : s.start = .ended := by
  unfold hasEnded at h
  split at h
  · assumption
  · cases h

theorem launchedRun_watched : ∃ s, Reachable (step 1 .empty "1") (Launches "1") (initial none) s ∧
    s.row = some newRun ∧ s.watched = true ∧ Known "1" s := by
  obtain ⟨s, hs, htest⟩ := exists_reachable (step 1 .empty "1") (Launches "1") (launches "1")
    (initial none) launchedRun (fun s => hasEnded s && decide (s.row = some newRun))
    (fun _ _ _ h => launches_sound h) (by decide)
  rw [Bool.and_eq_true, decide_eq_true_eq] at htest
  have hended := hasEnded_sound htest.1
  exact ⟨s, hs, htest.2, launched_run_watched (by simp) hs hended htest.2 rfl⟩

/-- The store raises while `submit` joins the one computation: `start` raises,
and the row it has committed stays running. -/
theorem failed_submit_leaves_running : ¬ ∀ s,
    Reachable (step 1 .empty "1") (fun _ _ => True) (initial none) s → s.start = .ended →
      ∀ run, s.row = some run → run.status = .running → s.watched = true ∧ Known "1" s := by
  intro hclaim
  obtain ⟨s, hs, htest⟩ := exists_reachable (step 1 .empty "1") (fun _ _ => True) (fun _ _ => true)
    (initial none) (launchedRun.take 3 ++ [.startRaises])
    (fun s => hasEnded s && decide (s.row = some newRun ∧ s.watched = false))
    (fun _ _ _ _ => trivial) (by decide)
  rw [Bool.and_eq_true, decide_eq_true_eq] at htest
  obtain ⟨hpoint, hrow, hunwatched⟩ := htest
  have hwatched := (hclaim s hs (hasEnded_sound hpoint) newRun hrow rfl).1
  simp [hunwatched] at hwatched

end Launch

end Grafy.RunService
