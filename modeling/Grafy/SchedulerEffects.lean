import Grafy.SchedulerInvariants

/-!
The effects a step can have before it dispatches. Most steps only move a
suspended call along or append to the store; the others register a Run, join
one computation, withdraw a Run, answer a withdrawn Run, or settle a running
computation. Invariants about demand and dependencies are proved once per
effect and not once per action.
-/
namespace Grafy.Scheduler

open Lifecycle Instances OrderedDict Results

/-- A suspended `submit` that has registered its Run. -/
structure JoiningCall where
  runId : RunId
  plan : RunPlan
  run : RunRef
  joined : Dict Fingerprint Ref
  computation : ComputationPlan
  rest : List ComputationPlan

def SubmitTask.joiningCall (task : SubmitTask) : Option JoiningCall :=
  match task.point with
  | .validating _ _ _ => none
  | .joining run joined computation rest =>
    some ⟨task.runId, task.plan, run, joined, computation, rest⟩

def State.joiningCall (s : State) (i : ℕ) : Option JoiningCall :=
  (s.submits i).bind SubmitTask.joiningCall

variable {s : State} {i : ℕ} {runId : RunId} {plan : RunPlan}

theorem joiningCall_of_submits {run : RunRef} {joined : Dict Fingerprint Ref} {c : ComputationPlan}
    {rest : List ComputationPlan} {answer : Option Bool}
    (h : s.submits i = some ⟨runId, plan, .joining run joined c rest, answer⟩) :
    s.joiningCall i = some ⟨runId, plan, run, joined, c, rest⟩ := by
  simp [State.joiningCall, SubmitTask.joiningCall, h]

theorem joiningCall_setSubmit (s : State) (i : ℕ) (task : Option SubmitTask) (j : ℕ) :
    (s.setSubmit i task).joiningCall j =
      if j = i then task.bind SubmitTask.joiningCall else s.joiningCall j := by
  by_cases hj : j = i <;> simp [State.joiningCall, hj]

/-- A step that changes no lifecycle state, demand, dependency, record or Run:
only tasks, failure texts, answers and the store move, and the store grows. -/
structure Quiet (s s' : State) : Prop where
  store : s.store.Extends s'.store
  plan : ∀ u, (s'.computations u).plan = (s.computations u).plan
  state : ∀ u, (s'.computations u).state = (s.computations u).state
  demanders : ∀ u, (s'.computations u).demanders = (s.computations u).demanders
  dependencies : ∀ u, (s'.computations u).dependencies = (s.computations u).dependencies
  nextComputation : s'.nextComputation = s.nextComputation
  runObjects : s'.runObjects = s.runObjects
  nextRun : s'.nextRun = s.nextRun
  records : s'.records = s.records
  runs : s'.runs = s.runs
  ready : s'.ready = s.ready
  running : s'.running = s.running
  cancels : s'.cancels = s.cancels
  nextCancel : s'.nextCancel = s.nextCancel
  joiningCall : ∀ i, s'.joiningCall i = s.joiningCall i

variable {s' t : State}

namespace Quiet

theorem stateOf (h : Quiet s s') (u : Ref) : s'.stateOf u = s.stateOf u := h.state u

theorem fingerprintOf (h : Quiet s s') (u : Ref) : s'.fingerprintOf u = s.fingerprintOf u := by
  rw [State.fingerprintOf, h.plan u, State.fingerprintOf]

/-- Quiet because every field but the store, the cells' tasks and the suspended
calls is literally the same. -/
theorem of_cells (hstore : s.store.Extends s'.store)
    (hcells : ∀ u, ∃ task failure, s'.computations u =
      { s.computations u with task := task, failure := failure })
    (hnext : s'.nextComputation = s.nextComputation) (hobjects : s'.runObjects = s.runObjects)
    (hnextRun : s'.nextRun = s.nextRun) (hrecords : s'.records = s.records)
    (hruns : s'.runs = s.runs) (hready : s'.ready = s.ready) (hrunning : s'.running = s.running)
    (hcancels : s'.cancels = s.cancels) (hnextCancel : s'.nextCancel = s.nextCancel)
    (hjoining : ∀ i, s'.joiningCall i = s.joiningCall i) : Quiet s s' := by
  refine ⟨hstore, ?_, ?_, ?_, ?_, hnext, hobjects, hnextRun, hrecords, hruns, hready, hrunning,
    hcancels, hnextCancel, hjoining⟩
  all_goals
    intro u
    obtain ⟨task, failure, heq⟩ := hcells u
    rw [heq]

theorem refl (s : State) : Quiet s s :=
  of_cells (ResultStore.Extends.refl _) (fun _ => ⟨_, _, rfl⟩) rfl rfl rfl rfl rfl rfl rfl rfl rfl
    (fun _ => rfl)

theorem trans (h : Quiet s t) (h' : Quiet t s') : Quiet s s' := by
  refine ⟨fun f o ho => h'.store f o (h.store f o ho), ?_, ?_, ?_, ?_,
    h'.nextComputation.trans h.nextComputation, h'.runObjects.trans h.runObjects,
    h'.nextRun.trans h.nextRun, h'.records.trans h.records, h'.runs.trans h.runs,
    h'.ready.trans h.ready, h'.running.trans h.running, h'.cancels.trans h.cancels,
    h'.nextCancel.trans h.nextCancel, ?_⟩
  · exact fun u => (h'.plan u).trans (h.plan u)
  · exact fun u => (h'.state u).trans (h.state u)
  · exact fun u => (h'.demanders u).trans (h.demanders u)
  · exact fun u => (h'.dependencies u).trans (h.dependencies u)
  · exact fun i => (h'.joiningCall i).trans (h.joiningCall i)

theorem setStore {store : ResultStore} (h : s.store.Extends store) : Quiet s (s.setStore store) :=
  of_cells h (fun _ => ⟨_, _, rfl⟩) rfl rfl rfl rfl rfl rfl rfl rfl rfl (fun _ => rfl)

theorem setPoint (s : State) (r : Ref) (point : ExecutePoint) : Quiet s (setPoint s r point) := by
  refine of_cells (ResultStore.Extends.refl _) ?_ rfl rfl rfl rfl rfl rfl rfl rfl rfl
    (fun _ => rfl)
  intro u
  rw [computations_setPoint]
  split_ifs
  · exact ⟨_, _, rfl⟩
  · exact ⟨_, _, rfl⟩

theorem setFailure (s : State) (r : Ref) (failure : Option String) :
    Quiet s (s.modify r (fun c => { c with failure := failure })) := by
  refine of_cells (ResultStore.Extends.refl _) ?_ rfl rfl rfl rfl rfl rfl rfl rfl rfl
    (fun _ => rfl)
  intro u
  rw [State.computations_modify_eq]
  split_ifs
  · exact ⟨_, _, rfl⟩
  · exact ⟨_, _, rfl⟩

theorem reject (s : State) (error : SubmitError) : Quiet s (s.reject error) :=
  of_cells (ResultStore.Extends.refl _) (fun _ => ⟨_, _, rfl⟩) rfl rfl rfl rfl rfl rfl rfl rfl rfl
    (fun _ => rfl)

theorem openSubmit (s : State) : Quiet s (openSubmit s) :=
  of_cells (ResultStore.Extends.refl _) (fun _ => ⟨_, _, rfl⟩) rfl rfl rfl rfl rfl rfl rfl rfl rfl
    (fun _ => rfl)

theorem setSubmit (s : State) (i : ℕ) (task : Option SubmitTask)
    (h : task.bind SubmitTask.joiningCall = s.joiningCall i) : Quiet s (s.setSubmit i task) := by
  refine of_cells (ResultStore.Extends.refl _) (fun _ => ⟨_, _, rfl⟩) rfl rfl rfl rfl rfl rfl rfl
    rfl rfl ?_
  intro j
  rw [joiningCall_setSubmit]
  split_ifs with hj
  · rw [hj]
    exact h
  · rfl

end Quiet

/-- The call that registers a Run has just checked its id, or comes from the
validation of an id that was checked before its store queries. -/
def Registering (s : State) (a : Action) (runId : RunId) (plan : RunPlan) : Prop :=
  (a = .submit runId plan ∧ s.runs.get? runId = none) ∨
  ∃ i f d, a = .submitResumes i ∧ s.submits i = some ⟨runId, plan, .validating f d [], some true⟩

/-- What a step has done when it comes to its dispatch, if it has one. -/
inductive Effect (s : State) : Action → Prepared → Prop
  | quiet {a : Action} {s' : State} : Quiet s s' → Effect s a ⟨s', false⟩
  | drops (i : ℕ) : Effect s (.submitRaises i) ⟨s.setSubmit i none, false⟩
  | registers {a : Action} {t : State} (i : ℕ) {runId : RunId} {plan : RunPlan} :
      Registering s a runId plan → Quiet s t → t.joiningCall i = none →
      Effect s a (register t i runId plan)
  | joins (i : ℕ) {runId : RunId} {plan : RunPlan} {run : RunRef}
      {joined : Dict Fingerprint Ref} {c : ComputationPlan} {rest : List ComputationPlan}
      {hasResult : Bool} :
      s.submits i = some ⟨runId, plan, .joining run joined c rest, some hasResult⟩ →
      Effect s (.submitResumes i)
        (joinNext s i ⟨runId, plan, .joining run joined c rest, some hasResult⟩ run joined c rest
          hasResult)
  | withdraws {runId : RunId} {run : RunRef} :
      s.runs.get? runId = some run → (s.runObjects run).result = none →
      (withdraw s runId run).2 = [] →
      Effect s (.cancel runId) ⟨finishRun (withdraw s runId run).1 run, true⟩
  | awaits {runId : RunId} {run : RunRef} :
      s.runs.get? runId = some run → (s.runObjects run).result = none →
      Effect s (.cancel runId) ⟨(openCancel (withdraw s runId run).1).setCancel s.nextCancel
        (some ⟨run, (withdraw s runId run).2⟩), false⟩
  | answers (i : ℕ) {task : CancelTask} : s.cancels i = some task →
      Effect s (.cancelResumes i) ⟨finishRun (s.setCancel i none) task.run, true⟩
  | settles {a : Action} {t : State} (r : Ref) (state : ComputationState) : Quiet s t →
      s.stateOf r = .running →
      (state = .failed ∨ (state = .succeeded ∧ s.store.Stored (s.fingerprintOf r))) →
      Effect s a ⟨(t.setState r state).setRunning (t.running.filter (· ≠ r)), true⟩

/-- No call is suspended under a number that was not given out yet. -/
def Idle (s : State) : Prop := ∀ i, s.nextSubmit ≤ i → s.submits i = none

namespace Idle

theorem of_same (h : Idle s) (hsubmits : s'.submits = s.submits)
    (hnext : s'.nextSubmit = s.nextSubmit) : Idle s' := by
  intro i hi
  rw [hsubmits]
  exact h i (hnext ▸ hi)

end Idle

/-- The submit still looks up dependencies outside its plan. -/
def SubmitPoint.Validates : SubmitPoint → Prop
  | .validating _ _ _ => True
  | .joining _ _ _ _ => False

/-- The submit under number `i` is one that was suspended there before, with
the same arguments, or the one this step opens. -/
def SubmittedBy (s : State) (a : Action) (next i : ℕ) (task : SubmitTask) : Prop :=
  (∃ old, s.submits i = some old ∧ old.runId = task.runId ∧ old.plan = task.plan ∧
    (task.point.Validates → old.point.Validates)) ∨
  (i = s.nextSubmit ∧ s.nextSubmit < next ∧ a = .submit task.runId task.plan ∧
    (task.point.Validates → openDependencies task.plan ≠ []))

/-- What a step does to the suspended submits: it keeps their arguments, and
opens one for the arguments it was called with. -/
structure SubmitsMoved (s : State) (a : Action) (s' : State) : Prop where
  nextSubmit : s.nextSubmit ≤ s'.nextSubmit
  submits : ∀ i task, s'.submits i = some task → SubmittedBy s a s'.nextSubmit i task

variable {a : Action} {task : SubmitTask} {p : Prepared}

namespace SubmitsMoved

theorem refl (s : State) (a : Action) : SubmitsMoved s a s :=
  ⟨le_rfl, fun _ task h => Or.inl ⟨task, h, rfl, rfl, id⟩⟩

section

variable (h : SubmitsMoved s a t)
include h

theorem of_same (hsubmits : s'.submits = t.submits) (hnext : s'.nextSubmit = t.nextSubmit) :
    SubmitsMoved s a s' := by
  refine ⟨hnext ▸ h.nextSubmit, ?_⟩
  rw [hsubmits, hnext]
  exact h.submits

theorem setSubmit (task : Option SubmitTask)
    (htask : ∀ x, task = some x → SubmittedBy s a t.nextSubmit i x) :
    SubmitsMoved s a (t.setSubmit i task) := by
  refine ⟨h.nextSubmit, ?_⟩
  intro j x hx
  by_cases hj : j = i
  · subst j
    exact htask x (by simpa using hx)
  · exact h.submits j x (by simpa [hj] using hx)

theorem validate {todo : List (Fingerprint × Fingerprint)}
    (hby : ∀ point, (point.Validates → todo ≠ []) → SubmittedBy s a t.nextSubmit i ⟨runId, plan,
      point, none⟩) :
    SubmitsMoved s a (validate t i runId plan todo).state := by
  have halloc : SubmitsMoved s a (allocateRun t runId plan) := h.of_same rfl rfl
  unfold Scheduler.validate register
  split
  · split
    · exact halloc.setSubmit none (by simp)
    · refine halloc.setSubmit _ ?_
      rintro x hx
      cases hx
      exact hby _ False.elim
  · refine h.setSubmit _ ?_
    rintro x hx
    cases hx
    exact hby _ (fun _ => List.cons_ne_nil _ _)

theorem finishRun (run : RunRef) : SubmitsMoved s a (finishRun t run) := by
  have hf := finishRun_finished t run
  exact h.of_same hf.calls.submits hf.calls.nextSubmit

theorem withdraw (runId : RunId) (run : RunRef) : SubmitsMoved s a (withdraw t runId run).1 := by
  have hw := withdraw_withdrawn t runId run
  exact h.of_same hw.calls.submits hw.calls.nextSubmit

theorem joinNext (run : RunRef) (joined : Dict Fingerprint Ref) (c : ComputationPlan)
    (rest : List ComputationPlan) (hasResult : Bool) (hby : SubmittedBy s a t.nextSubmit i task) :
    SubmitsMoved s a (joinNext t i task run joined c rest hasResult).state := by
  have hjoin : (join t task.runId c hasResult).2.submits = t.submits ∧
      (join t task.runId c hasResult).2.nextSubmit = t.nextSubmit := by
    rcases join_cases t task.runId c hasResult with ⟨-, heq⟩ | ⟨-, -, heq⟩ | ⟨-, r, -, -, heq⟩ <;>
      rw [heq] <;> exact ⟨rfl, rfl⟩
  have hjoined : SubmitsMoved s a (join t task.runId c hasResult).2 := h.of_same hjoin.1 hjoin.2
  unfold Scheduler.joinNext
  simp only
  split
  · refine SubmitsMoved.setSubmit ?_ none (by simp)
    have hwired := wirePlan_wired ((join t task.runId c hasResult).2.modifyRun run (fun x =>
      { x with joined := x.joined ++ [(join t task.runId c hasResult).1] }))
      (joined.set c.fingerprint (join t task.runId c hasResult).1) task.plan
    exact hjoined.of_same hwired.calls.submits hwired.calls.nextSubmit
  · have hrun : SubmitsMoved s a ((join t task.runId c hasResult).2.modifyRun run (fun x =>
        { x with joined := x.joined ++ [(join t task.runId c hasResult).1] })) :=
      hjoined.of_same rfl rfl
    refine hrun.setSubmit _ ?_
    rintro x hx
    cases hx
    rw [State.modifyRun_nextSubmit, hjoin.2]
    rcases hby with ⟨old, hold, hrunId, hplan, -⟩ | ⟨hi, hlt, ha, -⟩
    · exact Or.inl ⟨old, hold, hrunId, hplan, False.elim⟩
    · exact Or.inr ⟨hi, hlt, ha, False.elim⟩

theorem finish (r : Ref) (event : ComputationEvent) :
    SubmitsMoved s a (finish t r event).state := by
  simp only [Scheduler.finish]
  split_ifs
  · exact h.of_same rfl rfl
  · simp only [State.apply]
    split
    · exact h.of_same rfl rfl
    · exact h.of_same rfl rfl

theorem recordSuccesses (r : Ref) (keys : List InstanceKey) :
    SubmitsMoved s a (recordSuccesses t r keys).state := by
  cases keys with
  | nil => exact h.finish r .succeed
  | cons key rest => exact h.of_same rfl rfl

theorem recordFailures (r : Ref) (keys : List InstanceKey) :
    SubmitsMoved s a (recordFailures t r keys).state := by
  cases keys with
  | nil => exact h.finish r .fail
  | cons key rest => exact h.of_same rfl rfl

theorem executeFails (r : Ref) (exc : Raised) : SubmitsMoved s a (executeFails t r exc).state := by
  have hfailure : SubmitsMoved s a (t.modify r (fun c =>
      { c with failure := some (if exc.text = "" then exc.className else exc.text) })) :=
    h.of_same rfl rfl
  exact hfailure.recordFailures r _

end

theorem submit (s : State) (runId : RunId) (plan : RunPlan) :
    SubmitsMoved s (.submit runId plan) (submit s runId plan).state := by
  unfold Scheduler.submit
  split_ifs
  · exact (refl s _).of_same rfl rfl
  · have hopen : SubmitsMoved s (.submit runId plan) (openSubmit s) :=
      ⟨Nat.le_succ _, fun _ task h => Or.inl ⟨task, h, rfl, rfl, id⟩⟩
    exact hopen.validate (fun _ hpoint => Or.inr ⟨rfl, Nat.lt_succ_self _, rfl, hpoint⟩)

theorem submitResume (h : s.submits i = some task) (hasResult : Bool) :
    SubmitsMoved s a (submitResume s i task hasResult).state := by
  unfold Scheduler.submitResume
  split
  · rename_i hpoint
    split_ifs
    · refine (refl s a).validate (fun _ _ => Or.inl ⟨task, h, rfl, rfl, fun _ => ?_⟩)
      rw [hpoint]
      trivial
    · exact ((refl s a).setSubmit none (by simp)).of_same rfl rfl
  · exact (refl s a).joinNext _ _ _ _ _ (Or.inl ⟨task, h, rfl, rfl, id⟩)

theorem cancel (s : State) (runId : RunId) : SubmitsMoved s a (cancel s runId).state := by
  unfold Scheduler.cancel
  split
  · exact refl s a
  · rename_i run _
    split_ifs
    · exact refl s a
    · simp only
      split
      · exact ((refl s a).withdraw runId run).finishRun run
      · exact ((refl s a).withdraw runId run).of_same rfl rfl

theorem prepare (heq : prepare s a = some p) : SubmitsMoved s a p.state := by
  cases a with
  | submit runId plan =>
    cases heq
    exact SubmitsMoved.submit s runId plan
  | submitAnswered i =>
    simp only [Scheduler.prepare] at heq
    split at heq
    · rename_i hsub
      cases heq
      refine (refl s _).setSubmit _ ?_
      rintro x hx
      cases hx
      exact Or.inl ⟨_, hsub, rfl, rfl, id⟩
    · simp at heq
  | submitResumes i =>
    simp only [Scheduler.prepare] at heq
    split at heq
    · rename_i hsub
      cases heq
      exact submitResume hsub _
    · simp at heq
  | submitRaises i =>
    simp only [Scheduler.prepare] at heq
    split at heq
    · cases heq
      exact (refl s _).setSubmit none (by simp)
    · simp at heq
  | cancel runId =>
    cases heq
    exact cancel s runId
  | cancelResumes i =>
    simp only [Scheduler.prepare] at heq
    split at heq
    · split_ifs at heq
      cases heq
      have hdrop : SubmitsMoved s (.cancelResumes i) (s.setCancel i none) :=
        (refl s _).of_same rfl rfl
      exact hdrop.finishRun _
    · simp at heq
  | runnerReturns r outputs | taskUnwinds r =>
    simp only [Scheduler.prepare] at heq
    split_ifs at heq
    cases heq
    exact (refl s _).of_same rfl rfl
  | runnerRaises r exc =>
    simp only [Scheduler.prepare] at heq
    split_ifs at heq
    cases heq
    exact (refl s _).executeFails r exc
  | taskAnswered r =>
    obtain ⟨s', hs', rfl⟩ := Option.map_eq_some_iff.mp heq
    obtain ⟨_, _, _, -, -, -, rfl⟩ := taskAnswered_cases hs'
    exact (refl s _).of_same rfl rfl
  | taskResumes r =>
    obtain ⟨_, rest, -, ⟨-, rfl⟩ | rfl⟩ := taskResumes_cases heq
    · exact (refl s _).recordSuccesses r rest
    · exact (refl s _).recordFailures r rest
  | taskRaises r exc =>
    obtain ⟨-, rfl | rfl⟩ := taskRaises_cases heq
    · exact (refl s _).executeFails r exc
    · exact (refl s _).finish r .fail
  | appended f outputs =>
    cases heq
    exact (refl s _).of_same rfl rfl

end SubmitsMoved

theorem Idle.prepare (h : Idle s) (heq : prepare s a = some p) : Idle p.state := by
  have hmoved := SubmitsMoved.prepare heq
  intro i hi
  cases hsub : p.state.submits i with
  | none => rfl
  | some task =>
    rcases hmoved.submits i task hsub with ⟨task', htask', -⟩ | ⟨rfl, hlt, -⟩
    · rw [h i (hmoved.nextSubmit.trans hi)] at htask'
      simp at htask'
    · omega

section Effects

variable {concurrency : ℕ} {r : Ref}

section

variable (h : Sound concurrency s)
include h

private theorem finish_effect {event : ComputationEvent} (hquiet : Quiet s t)
    (htask : (s.computations r).task.isSome)
    (hevent : event = .fail ∨ (event = .succeed ∧ s.store.Stored (s.fingerprintOf r))) :
    Effect s a (finish t r event) := by
  have hdone : Quiet s (setPoint t r .done) := hquiet.trans (Quiet.setPoint t r .done)
  by_cases hterminal : (t.stateOf r).Terminal
  · rw [finish_terminal hterminal]
    exact .quiet hdone
  · rw [hquiet.stateOf r] at hterminal
    have hrunning := h.running_of_task htask hterminal
    rcases hevent with rfl | ⟨rfl, hstored⟩
    · have hmove : transition (t.stateOf r) .fail = some .failed := by
        rw [hquiet.stateOf, hrunning]
        rfl
      rw [finish_eq hmove]
      exact .settles r .failed hdone hrunning (Or.inl rfl)
    · have hmove : transition (t.stateOf r) .succeed = some .succeeded := by
        rw [hquiet.stateOf, hrunning]
        rfl
      rw [finish_eq hmove]
      exact .settles r .succeeded hdone hrunning (Or.inr ⟨rfl, hstored⟩)

private theorem recordSuccesses_effect (keys : List InstanceKey)
    (htask : (s.computations r).task.isSome) (hstored : s.store.Stored (s.fingerprintOf r)) :
    Effect s a (recordSuccesses s r keys) := by
  cases keys with
  | nil => exact finish_effect h (Quiet.refl s) htask (Or.inr ⟨rfl, hstored⟩)
  | cons key rest => exact .quiet (Quiet.setPoint s r _)

private theorem recordFailures_effect (keys : List InstanceKey) (hquiet : Quiet s t)
    (htask : (s.computations r).task.isSome) : Effect s a (recordFailures t r keys) := by
  cases keys with
  | nil => exact finish_effect h hquiet htask (Or.inl rfl)
  | cons key rest => exact .quiet (hquiet.trans (Quiet.setPoint t r _))

private theorem executeFails_effect (exc : Raised) (htask : (s.computations r).task.isSome) :
    Effect s a (executeFails s r exc) :=
  recordFailures_effect h _ (Quiet.setFailure s r _) htask

end

private theorem validate_effect (todo : List (Fingerprint × Fingerprint)) (hquiet : Quiet s t)
    (hcall : t.joiningCall i = none) (hid : todo = [] → Registering s a runId plan) :
    Effect s a (validate t i runId plan todo) := by
  cases todo with
  | nil => exact .registers i (hid rfl) hquiet hcall
  | cons pair rest =>
    obtain ⟨f, d⟩ := pair
    refine .quiet (hquiet.trans (Quiet.setSubmit t i _ ?_))
    rw [hcall]
    rfl

private theorem taskResumes_effect (h : Sound concurrency s) (heq : taskResumes s r = some p) :
    Effect s a p := by
  obtain ⟨t, rest, htask, ⟨hwritten, rfl⟩ | rfl⟩ := taskResumes_cases heq
  · exact recordSuccesses_effect h _ (Option.isSome_of_eq_some htask) (h.written r t htask hwritten)
  · exact recordFailures_effect h _ (Quiet.refl s) (Option.isSome_of_eq_some htask)

private theorem taskRaises_effect (h : Sound concurrency s) {exc : Raised}
    (heq : taskRaises s r exc = some p) : Effect s a p := by
  obtain ⟨htask, rfl | rfl⟩ := taskRaises_cases heq
  · exact executeFails_effect h exc htask
  · exact finish_effect h (Quiet.refl s) htask (Or.inl rfl)

private theorem submitResume_effect {hasResult : Bool} (hsub : s.submits i = some task)
    (hanswer : task.answer = some hasResult) :
    Effect s (.submitResumes i) (submitResume s i task hasResult) := by
  obtain ⟨runId, plan, point, answer⟩ := task
  obtain rfl : answer = some hasResult := hanswer
  cases point with
  | validating f d rest =>
    have hcall : s.joiningCall i = none := by
      simp [State.joiningCall, SubmitTask.joiningCall, hsub]
    simp only [submitResume]
    split_ifs with hres
    · subst hasResult
      refine validate_effect rest (Quiet.refl s) hcall ?_
      rintro rfl
      exact Or.inr ⟨i, f, d, rfl, hsub⟩
    · exact .quiet ((Quiet.setSubmit s i none (by rw [hcall]; rfl)).trans (Quiet.reject _ _))
  | joining run joined c rest => exact .joins i hsub

/-- Every step has one of the effects. -/
theorem prepare_effect (h : Sound concurrency s) (hidle : Idle s) (heq : prepare s a = some p) :
    Effect s a p := by
  cases a with
  | submit runId plan =>
    cases heq
    unfold submit
    split_ifs with hknown
    · exact .quiet (Quiet.reject s _)
    · have hfree : s.runs.get? runId = none := by simpa using hknown
      have hcall : (openSubmit s).joiningCall s.nextSubmit = none := by
        simp [State.joiningCall, hidle s.nextSubmit le_rfl]
      exact validate_effect _ (Quiet.openSubmit s) hcall (fun _ => Or.inl ⟨rfl, hfree⟩)
  | submitAnswered i =>
    simp only [prepare] at heq
    split at heq
    · rename_i runId plan point hsub
      cases heq
      refine .quiet (Quiet.setSubmit s i _ ?_)
      simp [State.joiningCall, SubmitTask.joiningCall, hsub]
    · simp at heq
  | submitResumes i =>
    simp only [prepare] at heq
    split at heq
    · rename_i hsub
      cases heq
      exact submitResume_effect hsub rfl
    · simp at heq
  | submitRaises i =>
    simp only [prepare] at heq
    split at heq
    · cases heq
      exact .drops i
    · simp at heq
  | cancel runId =>
    cases heq
    unfold cancel
    split
    · exact .quiet (Quiet.refl s)
    · rename_i run hrun
      split_ifs with hresult
      · exact .quiet (Quiet.refl s)
      · have hopen : (s.runObjects run).result = none := by simpa using hresult
        simp only
        split
        · rename_i hempty
          exact .withdraws hrun hopen hempty
        · exact .awaits hrun hopen
  | cancelResumes i =>
    simp only [prepare] at heq
    split at heq
    · rename_i hcancel
      split_ifs at heq
      cases heq
      exact .answers i hcancel
    · simp at heq
  | runnerReturns r outputs | taskUnwinds r =>
    simp only [prepare] at heq
    split_ifs at heq
    cases heq
    exact .quiet (Quiet.setPoint s r _)
  | runnerRaises r exc =>
    simp only [prepare] at heq
    split_ifs at heq with hawaits
    cases heq
    exact executeFails_effect h exc (Sound.task_of_awaitsRunner hawaits)
  | taskAnswered r =>
    obtain ⟨s', hs', rfl⟩ := Option.map_eq_some_iff.mp heq
    obtain ⟨_, store, point, -, hext, -, rfl⟩ := taskAnswered_cases hs'
    exact .quiet ((Quiet.setStore hext).trans (Quiet.setPoint _ r point))
  | taskResumes r => exact taskResumes_effect h heq
  | taskRaises r exc => exact taskRaises_effect h heq
  | appended f outputs =>
    cases heq
    exact .quiet (Quiet.setStore (s.store.extends_putResult f outputs))

end Effects

end Grafy.Scheduler
