import Grafy.RunLaunch

/-!
What a `submit` that raises leaves behind. While it still looks up dependencies
it has registered nothing: whatever runs beside it and after it does what it
would have done without it. Once it joins computations its Run is in the table
and its demand on the records, and a store call that raises leaves them there.
-/
namespace Grafy.Scheduler

open Lifecycle Instances OrderedDict Results Reachability

variable {a : Action} {p : Prepared}

section Calls

/-- The suspended submissions and the rejected ones. -/
structure Calls where
  submits : ℕ → Option SubmitTask
  nextSubmit : ℕ
  rejections : List SubmitError

/-- A state that differs in its submissions only. -/
@[simps] def State.withCalls (s : State) (c : Calls) : State :=
  { s with submits := c.submits, nextSubmit := c.nextSubmit, rejections := c.rejections }

def State.calls (s : State) : Calls := ⟨s.submits, s.nextSubmit, s.rejections⟩

theorem withCalls_calls (s : State) : s.withCalls s.calls = s := rfl

def Prepared.withCalls (p : Prepared) (c : Calls) : Prepared := ⟨p.state.withCalls c, p.dispatches⟩

variable (concurrency : ℕ) (s : State) (c : Calls)

@[simp] theorem stateOf_withCalls (r : Ref) : (s.withCalls c).stateOf r = s.stateOf r := rfl

@[simp] theorem fingerprintOf_withCalls (r : Ref) :
    (s.withCalls c).fingerprintOf r = s.fingerprintOf r := rfl

theorem stateOf_withCalls_eq : (s.withCalls c).stateOf = s.stateOf := rfl

theorem modify_withCalls (r : Ref) (f : Computation → Computation) :
    (s.withCalls c).modify r f = (s.modify r f).withCalls c := rfl

theorem modifyRun_withCalls (run : RunRef) (f : Run → Run) :
    (s.withCalls c).modifyRun run f = (s.modifyRun run f).withCalls c := rfl

theorem setRecords_withCalls (records : Dict Fingerprint Ref) :
    (s.withCalls c).setRecords records = (s.setRecords records).withCalls c := rfl

theorem setReady_withCalls (ready : List Ref) :
    (s.withCalls c).setReady ready = (s.setReady ready).withCalls c := rfl

theorem setRunning_withCalls (running : List Ref) :
    (s.withCalls c).setRunning running = (s.setRunning running).withCalls c := rfl

theorem apply_withCalls (r : Ref) (event : ComputationEvent) :
    (s.withCalls c).apply r event = (s.apply r event).withCalls c := by
  simp only [State.apply, stateOf_withCalls]
  cases transition (s.stateOf r) event <;> rfl

theorem resolveRecord_withCalls (r : Ref) : resolveRecord (s.withCalls c) r =
    ((resolveRecord s r).1.withCalls c, (resolveRecord s r).2) := by
  simp only [resolveRecord, apply_withCalls, stateOf_withCalls, stateOf_withCalls_eq,
    State.withCalls_computations, State.withCalls_ready, setReady_withCalls]
  split_ifs <;> rfl

theorem resolveSweep_withCalls (refs : List Ref) : resolveSweep (s.withCalls c) refs =
    ((resolveSweep s refs).1.withCalls c, (resolveSweep s refs).2) := by
  induction refs generalizing s with
  | nil => rfl
  | cons r rest ih => simp only [resolveSweep, resolveRecord_withCalls, ih]

theorem resolveSweeps_withCalls (fuel : ℕ) :
    resolveSweeps (s.withCalls c) fuel = (resolveSweeps s fuel).withCalls c := by
  induction fuel generalizing s with
  | zero => rfl
  | succ fuel ih =>
    simp only [resolveSweeps, State.withCalls_records, resolveSweep_withCalls, ih]
    split_ifs <;> rfl

theorem startRecord_withCalls (r : Ref) :
    startRecord (s.withCalls c) r = (startRecord s r).withCalls c := by
  simp only [startRecord, apply_withCalls, State.withCalls_running, setRunning_withCalls,
    modify_withCalls]

theorem startQueue_withCalls (refs : List Ref) :
    startQueue concurrency (s.withCalls c) refs = (startQueue concurrency s refs).withCalls c := by
  induction refs generalizing s with
  | nil => rfl
  | cons r rest ih =>
    simp only [startQueue, State.withCalls_running, stateOf_withCalls, startRecord_withCalls, ih,
      setReady_withCalls]
    split_ifs <;> rfl

theorem foldl_withCalls {A : Type} {f : State → A → State}
    (hf : ∀ s a, f (s.withCalls c) a = (f s a).withCalls c) (l : List A) :
    l.foldl f (s.withCalls c) = (l.foldl f s).withCalls c := by
  induction l generalizing s with
  | nil => rfl
  | cons a rest ih => rw [List.foldl_cons, List.foldl_cons, hf, ih]

theorem releaseRecord_withCalls (runId : RunId) (r : Ref) :
    releaseRecord (s.withCalls c) runId r = (releaseRecord s runId r).withCalls c := by
  simp only [releaseRecord, modify_withCalls, State.withCalls_computations,
    State.withCalls_records, fingerprintOf_withCalls, setRecords_withCalls]
  split_ifs <;> rfl

theorem runResult_withCalls (run : Run) : runResult (s.withCalls c) run = runResult s run := rfl

theorem finishRun_withCalls (run : RunRef) :
    finishRun (s.withCalls c) run = (finishRun s run).withCalls c := by
  simp only [finishRun, modifyRun_withCalls, State.withCalls_runObjects, runResult_withCalls]
  rw [foldl_withCalls _ c (fun s r => releaseRecord_withCalls s c _ r), modifyRun_withCalls]

theorem completeRun_withCalls (run : RunRef) :
    completeRun (s.withCalls c) run = (completeRun s run).withCalls c := by
  have hjoined : ((s.withCalls c).runObjects run).joined.any
        (fun r => ¬ ((s.withCalls c).stateOf r).Terminal) =
      (s.runObjects run).joined.any (fun r => ¬ (s.stateOf r).Terminal) := rfl
  unfold completeRun
  rw [hjoined, finishRun_withCalls, State.withCalls_runObjects]
  split_ifs <;> rfl

theorem dispatch_withCalls :
    dispatch concurrency (s.withCalls c) = (dispatch concurrency s).withCalls c := by
  simp only [dispatch, resolvePending, startReady, completeRuns, State.withCalls_records,
    resolveSweeps_withCalls, State.withCalls_ready, startQueue_withCalls, State.withCalls_runs]
  exact foldl_withCalls _ c (fun s run => completeRun_withCalls s c run) _

theorem withdrawRecord_withCalls (runId : RunId) (r : Ref) :
    withdrawRecord (s.withCalls c) runId r =
      ((withdrawRecord s runId r).1.withCalls c, (withdrawRecord s runId r).2) := by
  simp only [withdrawRecord, modify_withCalls, stateOf_withCalls, State.withCalls_computations,
    apply_withCalls, State.withCalls_running, setRunning_withCalls]
  split_ifs <;> rfl

theorem withdrawRecords_withCalls (runId : RunId) (refs : List Ref) :
    withdrawRecords (s.withCalls c) runId refs =
      ((withdrawRecords s runId refs).1.withCalls c, (withdrawRecords s runId refs).2) := by
  induction refs generalizing s with
  | nil => rfl
  | cons r rest ih => simp only [withdrawRecords, withdrawRecord_withCalls, ih]

theorem withdraw_withCalls (runId : RunId) (run : RunRef) : withdraw (s.withCalls c) runId run =
    ((withdraw s runId run).1.withCalls c, (withdraw s runId run).2) := by
  simp only [withdraw, modifyRun_withCalls, State.withCalls_runObjects, withdrawRecords_withCalls]

theorem cancel_withCalls (runId : RunId) :
    cancel (s.withCalls c) runId = (cancel s runId).withCalls c := by
  simp only [cancel, State.withCalls_runs, State.withCalls_runObjects, withdraw_withCalls,
    finishRun_withCalls]
  cases s.runs.get? runId with
  | none => rfl
  | some run =>
    simp only
    split_ifs
    · rfl
    · split <;> rfl

theorem finish_withCalls (r : Ref) (event : ComputationEvent) :
    finish (s.withCalls c) r event = (finish s r event).withCalls c := by
  have hpoint : setPoint (s.withCalls c) r .done = (setPoint s r .done).withCalls c := rfl
  simp only [finish, hpoint, stateOf_withCalls, apply_withCalls, State.withCalls_running,
    setRunning_withCalls]
  split_ifs <;> rfl

theorem recordSuccesses_withCalls (r : Ref) (keys : List InstanceKey) :
    recordSuccesses (s.withCalls c) r keys = (recordSuccesses s r keys).withCalls c := by
  cases keys with
  | nil => exact finish_withCalls s c r .succeed
  | cons key rest => rfl

theorem recordFailures_withCalls (r : Ref) (keys : List InstanceKey) :
    recordFailures (s.withCalls c) r keys = (recordFailures s r keys).withCalls c := by
  cases keys with
  | nil => exact finish_withCalls s c r .fail
  | cons key rest => rfl

theorem executeFails_withCalls (r : Ref) (exc : Raised) :
    executeFails (s.withCalls c) r exc = (executeFails s r exc).withCalls c := by
  simp only [executeFails, modify_withCalls, State.withCalls_computations, recordFailures_withCalls]

/-- The actions that have to do with a submission. -/
def Action.submits : Action → Bool
  | .submit _ _ => true
  | .submitAnswered _ => true
  | .submitResumes _ => true
  | .submitRaises _ => true
  | _ => false

/-- What is no step of a submission does not look at the submissions. -/
theorem prepare_withCalls (h : a.submits = false) :
    prepare (s.withCalls c) a = (prepare s a).map (fun p => p.withCalls c) := by
  cases a with
  | submit | submitAnswered | submitResumes | submitRaises => cases h
  | cancel runId => exact congrArg some (cancel_withCalls s c runId)
  | cancelResumes i =>
    simp only [prepare, State.withCalls_cancels]
    cases s.cancels i with
    | none => rfl
    | some task =>
      have hdone : taskDone (s.withCalls c) = taskDone s := rfl
      have hcancel : (s.withCalls c).setCancel i none = (s.setCancel i none).withCalls c := rfl
      simp only [hdone, hcancel, finishRun_withCalls]
      split_ifs <;> rfl
  | runnerReturns r _ | runnerRaises r _ | taskUnwinds r =>
    have hawaits : awaitsRunner (s.withCalls c) r = awaitsRunner s r := rfl
    have hrequested : cancelRequested (s.withCalls c) r = cancelRequested s r := rfl
    simp only [prepare, hawaits, hrequested, executeFails_withCalls]
    split_ifs <;> rfl
  | taskAnswered r =>
    simp only [prepare, taskAnswered, State.withCalls_computations, State.withCalls_store]
    split
    · rfl
    · simp only [fingerprintOf_withCalls, Option.map_map]
      rfl
    · rfl
    · rfl
  | taskResumes r | taskRaises r _ =>
    simp only [prepare, taskResumes, taskRaises, State.withCalls_computations,
      recordSuccesses_withCalls, recordFailures_withCalls, executeFails_withCalls, finish_withCalls]
    split <;> rfl
  | appended fingerprint outputs => rfl

/-- It leaves them as they are, too. -/
theorem prepare_calls (h : a.submits = false) (hp : prepare s a = some p) :
    p.state.calls = s.calls := by
  have hsame := prepare_withCalls s s.calls h
  rw [withCalls_calls, hp] at hsame
  have hstate := congrArg Prepared.state (Option.some.inj hsame)
  rw [hstate]
  rfl

end Calls

variable {concurrency : ℕ} {s' : State}

section Beside

variable {e : ℕ → ℕ} {s t : State}

/-- Two states that differ in their submissions: those of the second are found
in the first under the numbers that `e` gives them. -/
structure Beside (e : ℕ → ℕ) (s t : State) : Prop where
  same : t = s.withCalls t.calls
  number : ∀ k, e (t.nextSubmit + k) = s.nextSubmit + k
  submits : ∀ j, t.submits j = s.submits (e j)

theorem Beside.map (h : Beside e s t) {f : State → State}
    (hf : ∀ s c, f (s.withCalls c) = (f s).withCalls c) : Beside e (f s) (f t) := by
  have hcalls : ∀ s, (f s).calls = s.calls := by
    intro s
    have hsame := hf s s.calls
    rw [withCalls_calls] at hsame
    rw [hsame]
    rfl
  have hnext : ∀ s, (f s).nextSubmit = s.nextSubmit := fun s => congrArg Calls.nextSubmit (hcalls s)
  have hsubmits : ∀ s, (f s).submits = s.submits := fun s => congrArg Calls.submits (hcalls s)
  refine ⟨?_, ?_, ?_⟩
  · rw [hcalls, ← hf, ← h.same]
  · rw [hnext, hnext]
    exact h.number
  · rw [hsubmits, hsubmits]
    exact h.submits

theorem Beside.setSubmit (h : Beside e s t) (hinjective : Function.Injective e) (j : ℕ)
    (task : Option SubmitTask) : Beside e (s.setSubmit (e j) task) (t.setSubmit j task) := by
  refine ⟨?_, h.number, fun k => ?_⟩
  · rw [h.same]
    rfl
  · simp only [State.setSubmit_submits]
    by_cases hk : k = j
    · simp [hk]
    · rw [Function.update_of_ne hk, Function.update_of_ne (hinjective.ne hk)]
      exact h.submits k

theorem Beside.reject (h : Beside e s t) (error : SubmitError) :
    Beside e (s.reject error) (t.reject error) := by
  refine ⟨?_, h.number, h.submits⟩
  rw [h.same]
  rfl

theorem Beside.openSubmit (h : Beside e s t) : Beside e (openSubmit s) (openSubmit t) := by
  refine ⟨?_, fun k => ?_, h.submits⟩
  · rw [h.same]
    rfl
  · have hnext := h.number (k + 1)
    simp only [openSubmit_nextSubmit]
    rw [← Nat.add_assoc, Nat.add_right_comm t.nextSubmit] at hnext
    omega

/-- Two stretches that end in such states, and dispatch alike. -/
structure BesidePrepared (e : ℕ → ℕ) (p q : Prepared) : Prop where
  state : Beside e p.state q.state
  dispatches : q.dispatches = p.dispatches

theorem Beside.validate (h : Beside e s t) (hinjective : Function.Injective e) (j : ℕ)
    (runId : RunId) (plan : RunPlan) (todo : List (Fingerprint × Fingerprint)) :
    BesidePrepared e (validate s (e j) runId plan todo) (validate t j runId plan todo) := by
  have hrun : t.nextRun = s.nextRun := by rw [h.same]; rfl
  have halloc : Beside e (allocateRun s runId plan) (allocateRun t runId plan) :=
    h.map (f := fun s => allocateRun s runId plan) (fun _ _ => rfl)
  cases todo with
  | nil =>
    change BesidePrepared e (register s (e j) runId plan) (register t j runId plan)
    unfold register
    rw [hrun]
    split
    · exact ⟨halloc.setSubmit hinjective j _, rfl⟩
    · exact ⟨halloc.setSubmit hinjective j _, rfl⟩
  | cons pair rest => exact ⟨h.setSubmit hinjective j _, rfl⟩

theorem Beside.submit (h : Beside e s t) (hinjective : Function.Injective e) (runId : RunId)
    (plan : RunPlan) : BesidePrepared e (submit s runId plan) (submit t runId plan) := by
  have hruns : t.runs = s.runs := by rw [h.same]; rfl
  unfold Scheduler.submit
  rw [hruns]
  split_ifs
  · exact ⟨h.reject _, rfl⟩
  · have hnumber : s.nextSubmit = e t.nextSubmit := (h.number 0).symm
    rw [hnumber]
    exact h.openSubmit.validate hinjective t.nextSubmit runId plan _

theorem join_withCalls (s : State) (c : Calls) (runId : RunId) (computation : ComputationPlan)
    (hasResult : Bool) : join (s.withCalls c) runId computation hasResult =
      ((join s runId computation hasResult).1,
        (join s runId computation hasResult).2.withCalls c) := by
  unfold join
  simp only [State.withCalls_records, stateOf_withCalls]
  split_ifs
  · rfl
  · cases s.records.get? computation.fingerprint with
    | none => rfl
    | some r =>
      simp only
      split_ifs <;> rfl

theorem wirePlan_withCalls (s : State) (c : Calls) (joined : Dict Fingerprint Ref)
    (plan : RunPlan) :
    wirePlan (s.withCalls c) joined plan = (wirePlan s joined plan).withCalls c := by
  refine foldl_withCalls s c (fun s computation => ?_) plan.computations
  cases joined.get? computation.fingerprint with
  | none => rfl
  | some r =>
    refine foldl_withCalls s c (fun s d => ?_) (sorted computation.dependsOn)
    unfold wireDependency
    cases joined.get? d with
    | none => rfl
    | some upstream =>
      simp only [State.withCalls_computations]
      split_ifs <;> rfl

theorem Beside.joinNext (h : Beside e s t) (hinjective : Function.Injective e) (j : ℕ)
    (task : SubmitTask) (run : RunRef) (joined : Dict Fingerprint Ref) (c : ComputationPlan)
    (rest : List ComputationPlan) (hasResult : Bool) :
    BesidePrepared e (joinNext s (e j) task run joined c rest hasResult)
      (joinNext t j task run joined c rest hasResult) := by
  have hjoins : join t task.runId c hasResult = ((join s task.runId c hasResult).1,
      (join s task.runId c hasResult).2.withCalls t.calls) := by
    conv_lhs => rw [h.same]
    exact join_withCalls s t.calls task.runId c hasResult
  have hjoined : Beside e (joinedState s task.runId run c hasResult)
      (joinedState t task.runId run c hasResult) := by
    refine h.map (f := fun s => joinedState s task.runId run c hasResult) (fun s c' => ?_)
    unfold joinedState
    rw [join_withCalls]
    rfl
  cases rest with
  | nil =>
    rw [joinNext_nil, joinNext_nil, hjoins]
    refine ⟨Beside.setSubmit (hjoined.map (f := fun s => wirePlan s _ _) fun s c' => ?_)
      hinjective j none, rfl⟩
    exact wirePlan_withCalls s c' _ _
  | cons d rest =>
    rw [joinNext_cons, joinNext_cons, hjoins]
    exact ⟨hjoined.setSubmit hinjective j _, rfl⟩

/-- The same step under other numbers of the submissions. -/
def Action.renumber (e : ℕ → ℕ) : Action → Action
  | .submitAnswered j => .submitAnswered (e j)
  | .submitResumes j => .submitResumes (e j)
  | .submitRaises j => .submitRaises (e j)
  | a => a

theorem Beside.store (h : Beside e s t) : t.store = s.store := by
  rw [h.same]
  rfl

theorem Beside.prepare (h : Beside e s t) (hinjective : Function.Injective e)
    (hp : prepare s (a.renumber e) = some p) :
    ∃ q, Scheduler.prepare t a = some q ∧ BesidePrepared e p q := by
  have hquiet : a.submits = false → a.renumber e = a →
      ∃ q, Scheduler.prepare t a = some q ∧ BesidePrepared e p q := by
    intro hsubmits hsame
    rw [hsame] at hp
    have hcalls := prepare_calls s hsubmits hp
    refine ⟨p.withCalls t.calls, ?_, ⟨?_, ?_, ?_⟩, rfl⟩
    · rw [h.same, prepare_withCalls s _ hsubmits, hp]
      rfl
    · rfl
    · intro k
      have hnext := congrArg Calls.nextSubmit hcalls
      exact (h.number k).trans (congrArg (· + k) hnext.symm)
    · intro j
      have hslots := congrArg Calls.submits hcalls
      exact (h.submits j).trans (congrFun hslots (e j)).symm
  cases a with
  | submit runId plan =>
    cases hp
    exact ⟨_, rfl, h.submit hinjective runId plan⟩
  | submitAnswered j =>
    simp only [Action.renumber, Scheduler.prepare] at hp ⊢
    rw [h.submits j, h.store]
    split at hp
    · cases hp
      exact ⟨_, rfl, h.setSubmit hinjective j _, rfl⟩
    · cases hp
  | submitResumes j =>
    simp only [Action.renumber, Scheduler.prepare] at hp ⊢
    rw [h.submits j]
    split at hp
    · rename_i runId plan point hasResult hslot
      cases hp
      refine ⟨_, rfl, ?_⟩
      cases point with
      | validating f d rest =>
        simp only [submitResume]
        split_ifs
        · exact h.validate hinjective j runId plan rest
        · exact ⟨(h.setSubmit hinjective j none).reject _, rfl⟩
      | joining run joined c rest =>
        exact h.joinNext hinjective j _ run joined c rest hasResult
    · cases hp
  | submitRaises j =>
    simp only [Action.renumber, Scheduler.prepare] at hp ⊢
    rw [h.submits j]
    split at hp
    · cases hp
      exact ⟨_, rfl, h.setSubmit hinjective j none, rfl⟩
    · cases hp
  | _ => exact hquiet rfl rfl

/-- The second state can take every step of the first that it can name. -/
theorem Beside.step (h : Beside e s t) (hinjective : Function.Injective e)
    (hstep : step concurrency s (a.renumber e) = some s') :
    ∃ t', Scheduler.step concurrency t a = some t' ∧ Beside e s' t' := by
  obtain ⟨p, hp, rfl⟩ := Option.map_eq_some_iff.mp hstep
  obtain ⟨q, hq, hbeside⟩ := h.prepare hinjective hp
  refine ⟨_, by rw [Scheduler.step, hq]; rfl, ?_⟩
  simp only [hbeside.dispatches]
  split_ifs
  · exact hbeside.state.map (dispatch_withCalls concurrency)
  · exact hbeside.state

end Beside

variable {s : State} {i j : ℕ} {actions : List Action}

section Alone

/-- The numbers of the submissions, when one has taken number `i`. -/
def lift (i j : ℕ) : ℕ := if j < i then j else j + 1

def lower (i j : ℕ) : Option ℕ := if j < i then some j else if j = i then none else some (j - 1)

theorem lift_injective (i : ℕ) : Function.Injective (lift i) := by
  intro j k h
  unfold lift at h
  split_ifs at h <;> omega

theorem lift_ne (i j : ℕ) : lift i j ≠ i := by
  unfold lift
  split_ifs <;> omega

theorem lift_of_lower {k : ℕ} (h : lower i j = some k) : lift i k = j := by
  unfold lower at h
  split_ifs at h with hlt hself
  · cases h
    exact if_pos hlt
  · cases h
    unfold lift
    rw [if_neg (by omega)]
    omega

theorem eq_of_lower (h : lower i j = none) : j = i := by
  unfold lower at h
  split_ifs at h with hlt hself
  exact hself

/-- A step without the submission of number `i`: its own steps are gone, and
those opened after it have the numbers before. -/
def Action.without (i : ℕ) : Action → Option Action
  | .submitAnswered j => (lower i j).map .submitAnswered
  | .submitResumes j => (lower i j).map .submitResumes
  | .submitRaises j => (lower i j).map .submitRaises
  | a => some a

/-- A step of the submission itself. -/
def Action.Own (i : ℕ) (a : Action) : Prop :=
  a = .submitAnswered i ∨ a = .submitResumes i ∨ a = .submitRaises i

theorem Action.without_none (h : a.without i = none) : a.Own i := by
  cases a with
  | submitAnswered j => exact Or.inl (congrArg _ (eq_of_lower (Option.map_eq_none_iff.mp h)))
  | submitResumes j =>
    exact Or.inr (Or.inl (congrArg _ (eq_of_lower (Option.map_eq_none_iff.mp h))))
  | submitRaises j =>
    exact Or.inr (Or.inr (congrArg _ (eq_of_lower (Option.map_eq_none_iff.mp h))))
  | _ => cases h

theorem Action.without_some {b : Action} (h : a.without i = some b) : b.renumber (lift i) = a := by
  cases a with
  | submitAnswered j | submitResumes j | submitRaises j =>
    obtain ⟨k, hk, rfl⟩ := Option.map_eq_some_iff.mp h
    simp only [Action.renumber, lift_of_lower hk]
  | _ =>
    cases h
    rfl

/-- The steps of a run but those of the submission of number `i`. -/
def others (i : ℕ) (actions : List Action) : List Action := actions.filterMap (Action.without i)

/-- The state after a list of steps. -/
def perform (concurrency : ℕ) (s : State) (actions : List Action) : Option State :=
  actions.foldlM (step concurrency) s

theorem perform_cons {rest : List Action} :
    perform concurrency s (a :: rest) = some s' ↔
      ∃ t, step concurrency s a = some t ∧ perform concurrency t rest = some s' := by
  rw [perform, List.foldlM_cons]
  exact Option.bind_eq_some_iff

theorem perform_append {before after : List Action} :
    perform concurrency s (before ++ after) = some s' ↔
      ∃ t, perform concurrency s before = some t ∧ perform concurrency t after = some s' := by
  rw [perform, List.foldlM_append]
  exact Option.bind_eq_some_iff

variable {s t : State} {i : ℕ}

/-- What every step of a run keeps, the run keeps. -/
theorem perform_keeps {I : State → Prop} (h : I s)
    (hkeeps : ∀ a ∈ actions, ∀ u v, I u → step concurrency u a = some v → I v)
    (hrun : perform concurrency s actions = some s') : I s' := by
  induction actions generalizing s with
  | nil =>
    cases hrun
    exact h
  | cons a rest ih =>
    obtain ⟨u, hu, hrest⟩ := perform_cons.mp hrun
    exact ih (hkeeps a (List.mem_cons_self ..) s u h hu)
      (fun b hb => hkeeps b (List.mem_cons_of_mem _ hb)) hrest

theorem others_cons (i : ℕ) (a : Action) (rest : List Action) :
    others i (a :: rest) = (a.without i).toList ++ others i rest := by
  cases h : a.without i <;> simp [others, h]

/-- The submission of number `i` waits for the store, before it has registered
anything. -/
def Validating (i : ℕ) (s : State) : Prop := ∃ task, s.submits i = some task ∧ task.point.Validates

theorem Validating.of_step (hi : i < s.nextSubmit) (hstep : step concurrency s a = some s')
    (h : Validating i s') : Validating i s := by
  obtain ⟨task, htask, hvalidates⟩ := h
  rcases (step_submits hstep).submits i task htask with ⟨old, hold, -, -, hbefore⟩ | ⟨hnew, -⟩
  · exact ⟨old, hold, hbefore hvalidates⟩
  · omega

/-- A submission that is through is not suspended again. -/
theorem gone_step (hi : i < s.nextSubmit) (hgone : s.submits i = none)
    (hstep : step concurrency s a = some s') : s'.submits i = none := by
  cases htask : s'.submits i with
  | none => rfl
  | some task =>
    rcases (step_submits hstep).submits i task htask with ⟨old, hold, -⟩ | ⟨hnew, -⟩
    · rw [hgone] at hold
      cases hold
    · omega

section

variable (h : Beside (lift i) s t)
include h

/-- The slot of the submission itself is none of those compared. -/
theorem Beside.setOwn (task : Option SubmitTask) : Beside (lift i) (s.setSubmit i task) t := by
  refine ⟨h.same, h.number, fun j => ?_⟩
  rw [State.setSubmit_submits, Function.update_of_ne (lift_ne i j)]
  exact h.submits j

/-- Its own steps change nothing else while it stays in its validation. -/
theorem Beside.own_prepare (ha : a.Own i) (hp : Scheduler.prepare s a = some p)
    (hvalidating : Validating i p.state) : Beside (lift i) p.state t ∧ p.dispatches = false := by
  obtain ⟨task, htask, hpoint⟩ := hvalidating
  have hmoved := (SubmitsMoved.prepare hp).submits i task htask
  rcases ha with rfl | rfl | rfl
  · simp only [Scheduler.prepare] at hp
    split at hp
    · cases hp
      exact ⟨h.setOwn _, rfl⟩
    · cases hp
  · simp only [Scheduler.prepare] at hp
    split at hp
    · rename_i runId plan point hasResult hslot
      cases hp
      cases point with
      | validating f d rest =>
        simp only [submitResume] at htask ⊢
        split_ifs at htask ⊢
        · cases rest with
          | nil =>
            exfalso
            change (register s i runId plan).state.submits i = some task at htask
            unfold register at htask
            split at htask
            · simp at htask
            · simp only [State.setSubmit_submits, Function.update_self, Option.some.injEq] at htask
              rw [← htask] at hpoint
              exact hpoint
          | cons pair rest => exact ⟨h.setOwn _, rfl⟩
        · simp at htask
      | joining run joined c rest =>
        exfalso
        rcases hmoved with ⟨old, hold, -, -, hbefore⟩ | ⟨-, -, hopened, -⟩
        · cases hslot.symm.trans hold
          exact hbefore hpoint
        · cases hopened
    · cases hp
  · simp only [Scheduler.prepare] at hp
    split at hp
    · cases hp
      simp at htask
    · cases hp

theorem Beside.own_step (ha : a.Own i) (hstep : Scheduler.step concurrency s a = some s')
    (hvalidating : Validating i s') : Beside (lift i) s' t := by
  obtain ⟨p, hp, hcases⟩ := step_cases hstep
  rcases hcases with ⟨hdispatches, rfl⟩ | ⟨-, rfl⟩
  · obtain ⟨task, htask, hpoint⟩ := hvalidating
    rw [(sameCalls_dispatch concurrency p.state).submits] at htask
    have hquiet := (h.own_prepare ha hp ⟨task, htask, hpoint⟩).2
    rw [hquiet] at hdispatches
    cases hdispatches
  · exact (h.own_prepare ha hp hvalidating).1

/-- The other steps are possible without it, and have the same outcome. -/
theorem Beside.step_others (hstep : Scheduler.step concurrency s a = some s')
    (hown : a.Own i → Beside (lift i) s' t) :
    ∃ t', perform concurrency t (a.without i).toList = some t' ∧ Beside (lift i) s' t' := by
  cases hwithout : a.without i with
  | none => exact ⟨t, rfl, hown (Action.without_none hwithout)⟩
  | some b =>
    rw [← Action.without_some hwithout] at hstep
    obtain ⟨t', ht', hbeside⟩ := h.step (lift_injective i) hstep
    exact ⟨t', perform_cons.mpr ⟨t', ht', rfl⟩, hbeside⟩

end

theorem step_number (hi : i < s.nextSubmit) (hstep : step concurrency s a = some s') :
    i < s'.nextSubmit :=
  hi.trans_le (step_submits hstep).nextSubmit

theorem Validating.of_perform (hi : i < s.nextSubmit)
    (hrun : perform concurrency s actions = some s') (h : Validating i s') : Validating i s := by
  induction actions generalizing s with
  | nil =>
    cases hrun
    exact h
  | cons a rest ih =>
    obtain ⟨u, hu, hrest⟩ := perform_cons.mp hrun
    exact (ih (step_number hi hu) hrest).of_step hi hu

theorem Beside.perform_validating (h : Beside (lift i) s t) (hi : i < s.nextSubmit)
    (hrun : perform concurrency s actions = some s') (hvalidating : Validating i s') :
    ∃ t', perform concurrency t (others i actions) = some t' ∧ Beside (lift i) s' t' := by
  induction actions generalizing s t with
  | nil =>
    cases hrun
    exact ⟨t, rfl, h⟩
  | cons a rest ih =>
    obtain ⟨u, hu, hrest⟩ := perform_cons.mp hrun
    have hnumber := step_number hi hu
    obtain ⟨v, hv, hbeside⟩ := h.step_others hu fun ha =>
      h.own_step ha hu (hvalidating.of_perform hnumber hrest)
    obtain ⟨t', ht', hend⟩ := ih hbeside hnumber hrest
    exact ⟨t', others_cons i a rest ▸ perform_append.mpr ⟨v, hv, ht'⟩, hend⟩

/-- A submission that is through takes no step. -/
theorem own_disabled (ha : a.Own i) (hgone : s.submits i = none) : step concurrency s a = none := by
  rcases ha with rfl | rfl | rfl <;> simp [step, prepare, hgone]

theorem Beside.perform_gone (h : Beside (lift i) s t) (hi : i < s.nextSubmit)
    (hgone : s.submits i = none) (hrun : perform concurrency s actions = some s') :
    ∃ t', perform concurrency t (others i actions) = some t' ∧ Beside (lift i) s' t' := by
  induction actions generalizing s t with
  | nil =>
    cases hrun
    exact ⟨t, rfl, h⟩
  | cons a rest ih =>
    obtain ⟨u, hu, hrest⟩ := perform_cons.mp hrun
    obtain ⟨v, hv, hbeside⟩ := h.step_others hu fun ha => by
      rw [own_disabled ha hgone] at hu
      cases hu
    obtain ⟨t', ht', hend⟩ := ih hbeside (step_number hi hu) (gone_step hi hgone hu) hrest
    exact ⟨t', others_cons i a rest ▸ perform_append.mpr ⟨v, hv, ht'⟩, hend⟩

end Alone

section Atomicity

variable {concurrency : ℕ} {store : ResultStore} {s s₁ s₂ t : State} {i : ℕ} {a : Action}
  {runId : RunId} {plan : RunPlan} {actions : List Action}

/-- The Runs, the records with their demanders and dependencies, and the queues
are the same. -/
structure SameDemand (s t : State) : Prop where
  runs : s.runs = t.runs
  runObjects : s.runObjects = t.runObjects
  records : s.records = t.records
  computations : s.computations = t.computations
  ready : s.ready = t.ready
  running : s.running = t.running

theorem Beside.sameDemand {e : ℕ → ℕ} (h : Beside e s t) : SameDemand s t := by
  rw [h.same]
  exact ⟨rfl, rfl, rfl, rfl, rfl, rfl⟩

/-- The actions the others take beside a call of `submit`, as they are when it
is never made. A call that finds its id in the table takes no number. -/
def beside (s : State) (runId : RunId) (actions : List Action) : List Action :=
  if (s.runs.get? runId).isSome then actions else others s.nextSubmit actions

theorem beside_known (h : s.Knows runId) : beside s runId actions = actions := if_pos h

theorem beside_free (h : ¬ s.Knows runId) :
    beside s runId actions = others s.nextSubmit actions := if_neg h

/-- The others alone would have come to the same. -/
def AsWithout (concurrency : ℕ) (s : State) (runId : RunId) (actions : List Action) (s₂ : State) :
    Prop :=
  ∃ t₂, perform concurrency s (beside s runId actions) = some t₂ ∧ SameDemand s₂ t₂

/-- The step in which the submission of number `i` raises: its store call does,
or it learns that a dependency outside its plan is not stored. -/
def Raises (i : ℕ) (s : State) (a : Action) : Prop :=
  a = .submitRaises i ∨ (a = .submitResumes i ∧
    ∃ task, s.submits i = some task ∧ task.point.Validates ∧ task.answer = some false)

/-- The call of `submit` raises, at once or in a state that meets the condition. -/
def RaisesWhen (concurrency : ℕ) (s : State) (runId : RunId) (plan : RunPlan)
    (actions : List Action) (meets : State → Prop) : Prop :=
  s.Knows runId ∨ ∃ before a after mid, actions = before ++ a :: after ∧
    perform concurrency s (.submit runId plan :: before) = some mid ∧
    Raises s.nextSubmit mid a ∧ meets mid

/-- Nobody else submits the same Run. -/
structure Unrivalled (s : State) (runId : RunId) (actions : List Action) : Prop where
  suspended : ∀ j task, s.submits j = some task → task.runId ≠ runId
  later : ∀ plan, Action.submit runId plan ∉ actions

theorem Beside.raised (h : Beside (lift i) s t) (hraises : Raises i s a)
    (hvalidating : Validating i s) (hstep : Scheduler.step concurrency s a = some s') :
    Beside (lift i) s' t ∧ s'.submits i = none := by
  obtain ⟨task, htask, -⟩ := hvalidating
  rcases hraises with rfl | ⟨rfl, task', htask', hpoint, hanswer⟩
  · simp only [Scheduler.step, Scheduler.prepare, htask, Option.map_some,
      Option.some.injEq] at hstep
    rw [← hstep]
    exact ⟨h.setOwn none, by simp⟩
  · obtain ⟨id, plan, point, answer⟩ := task'
    cases point with
    | joining => exact hpoint.elim
    | validating f d rest =>
      obtain rfl : answer = some false := hanswer
      simp only [Scheduler.step, Scheduler.prepare, htask', submitResume, Option.map_some,
        Option.some.injEq] at hstep
      rw [← hstep]
      have hset := h.setOwn none
      exact ⟨⟨hset.same, hset.number, hset.submits⟩, by simp⟩

/-- What a call that validates its plan has done: it has a number. -/
theorem Beside.of_submit (hidle : Idle s) (hfree : ¬ s.Knows runId)
    (hcall : Scheduler.step concurrency s (.submit runId plan) = some s₁)
    (hvalidating : Validating s.nextSubmit s₁) : Beside (lift s.nextSubmit) s₁ s := by
  obtain ⟨task, htask, hpoint⟩ := hvalidating
  rcases (step_submits hcall).submits _ task htask with ⟨old, hold, -⟩ | ⟨-, -, hopened, htodo⟩
  · rw [hidle _ le_rfl] at hold
    cases hold
  rw [← (Action.submit.inj hopened).2] at htodo
  unfold State.Knows at hfree
  simp only [Scheduler.step, Scheduler.prepare, Scheduler.submit, if_neg hfree,
    Option.map_some] at hcall
  cases hopen : openDependencies plan with
  | nil => exact absurd hopen (htodo hpoint)
  | cons pair rest =>
    simp only [hopen, Scheduler.validate, Bool.false_eq_true, if_false, Option.some.injEq] at hcall
    rw [← hcall]
    refine ⟨rfl, fun k => ?_, fun j => ?_⟩
    · simp only [lift, State.setSubmit_nextSubmit, openSubmit_nextSubmit]
      rw [if_neg (by omega)]
      omega
    · rw [State.setSubmit_submits, Function.update_of_ne (lift_ne _ j), openSubmit_submits]
      unfold lift
      split_ifs with hlt
      · rfl
      · rw [hidle j (Nat.le_of_not_lt hlt), hidle (j + 1) (by omega)]

theorem perform_duplicate (hknows : s.Knows runId)
    (hcall : step concurrency s (.submit runId plan) = some s₁) : ∃ error, s₁ = s.reject error := by
  unfold State.Knows at hknows
  simp only [step, prepare, submit, if_pos hknows, Option.map_some, Bool.false_eq_true, if_false,
    Option.some.injEq] at hcall
  exact ⟨_, hcall.symm⟩

theorem Sourced.perform (h : Sourced concurrency s)
    (hrun : perform concurrency s actions = some s') : Sourced concurrency s' :=
  perform_keeps h (fun _ _ _ _ hu hstep => hu.step hstep) hrun

theorem Action.renumber_id (a : Action) : a.renumber id = a := by
  cases a <;> rfl

/-- After a call that left no trace everything goes on as before. -/
theorem Beside.perform_all (h : Beside id s t)
    (hrun : perform concurrency s actions = some s') :
    ∃ t', perform concurrency t actions = some t' ∧ Beside id s' t' := by
  induction actions generalizing s t with
  | nil =>
    cases hrun
    exact ⟨t, rfl, h⟩
  | cons a rest ih =>
    obtain ⟨u, hu, hrest⟩ := perform_cons.mp hrun
    rw [← a.renumber_id] at hu
    obtain ⟨v, hv, hbeside⟩ := h.step Function.injective_id hu
    obtain ⟨t', ht', hend⟩ := ih hbeside hrest
    exact ⟨t', perform_cons.mpr ⟨v, hv, ht'⟩, hend⟩

theorem Raises.own (h : Raises i s a) : a.without i = none := by
  have hlower : lower i i = none := by simp [lower]
  rcases h with rfl | ⟨rfl, -⟩ <;> simp [Action.without, hlower]

/-- A submission that raises before it registers its Run was never there. -/
theorem asWithout_of_validating (hsourced : Sourced concurrency s)
    (hrun : perform concurrency s (.submit runId plan :: actions) = some s₂)
    (h : RaisesWhen concurrency s runId plan actions (Validating s.nextSubmit)) :
    AsWithout concurrency s runId actions s₂ := by
  obtain ⟨s₁, hcall, hrest⟩ := perform_cons.mp hrun
  by_cases hknows : s.Knows runId
  · obtain ⟨error, rfl⟩ := perform_duplicate hknows hcall
    have hstart : Beside id (s.reject error) s := ⟨rfl, fun _ => rfl, fun _ => rfl⟩
    obtain ⟨t₂, ht₂, hbeside⟩ := hstart.perform_all hrest
    exact ⟨t₂, (beside_known hknows).symm ▸ ht₂, hbeside.sameDemand⟩
  · obtain ⟨before, a, after, mid, rfl, hmid, hraises, hvalidating⟩ := h.resolve_left hknows
    obtain ⟨u, hu, hbefore⟩ := perform_cons.mp hmid
    cases hcall.symm.trans hu
    have hnumber := (submit_placed hknows hcall).2.1.number
    have hfirst := Beside.of_submit hsourced.valid.idle hknows hcall
      (hvalidating.of_perform hnumber hbefore)
    obtain ⟨t, ht, hbeside⟩ := hfirst.perform_validating hnumber hbefore hvalidating
    obtain ⟨v, hv, hlast⟩ := perform_append.mp hrest
    cases hbefore.symm.trans hv
    obtain ⟨w, hw, hafter⟩ := perform_cons.mp hlast
    obtain ⟨hraised, hgone⟩ := hbeside.raised hraises hvalidating hw
    have hmidNumber : s.nextSubmit < mid.nextSubmit := by
      obtain ⟨task, htask, -⟩ := hvalidating
      by_contra hge
      have hidle := (hsourced.perform hmid).valid.idle s.nextSubmit (Nat.le_of_not_lt hge)
      rw [hidle] at htask
      cases htask
    obtain ⟨t₂, ht₂, hend⟩ := hraised.perform_gone (step_number hmidNumber hw) hgone hafter
    refine ⟨t₂, ?_, hend.sameDemand⟩
    have hothers : others s.nextSubmit (before ++ a :: after) =
        others s.nextSubmit before ++ others s.nextSubmit after := by
      simp [others, hraises.own]
    rw [beside_free hknows, hothers]
    exact perform_append.mpr ⟨t, ht, ht₂⟩

/-- No call has been made for the Run. -/
structure Unsubmitted (runId : RunId) (s : State) : Prop where
  unknown : ¬ s.Knows runId
  suspended : ∀ j task, s.submits j = some task → task.runId ≠ runId

theorem Unsubmitted.step (h : Unsubmitted runId s) (hsourced : Sourced concurrency s)
    (ha : ∀ plan, a ≠ .submit runId plan) (hstep : Scheduler.step concurrency s a = some s') :
    Unsubmitted runId s' := by
  obtain ⟨p, hp, hcalls⟩ := step_sameCalls hstep
  refine ⟨fun hknows => ?_, fun j task htask => ?_⟩
  · have hafter : p.state.Knows runId := hknows.of_runs hcalls.runs.symm
    rcases (hsourced.valid.effect hp).runs hsourced.valid.registered with
      hkept | ⟨u, id, plan, hregisters, hu, hentered⟩
    · exact h.unknown (hafter.of_runs hkept.symm)
    · have hid : runId ≠ id := by
        rintro rfl
        rcases hregisters with ⟨rfl, -⟩ | ⟨j, f, d, -, hslot⟩
        · exact ha plan rfl
        · exact h.suspended j _ hslot rfl
      have hbefore : (allocateRun u id plan).Knows runId := hafter.of_runs hentered.symm
      unfold State.Knows at hbefore
      rw [allocateRun_runs, Dict.get?_set, if_neg hid, hu] at hbefore
      exact h.unknown hbefore
  · rcases (step_submits hstep).submits j task htask with ⟨old, hold, hid, -⟩ | ⟨-, -, rfl, -⟩
    · rw [← hid]
      exact h.suspended j old hold
    · rintro rfl
      exact ha task.plan rfl

theorem Unsubmitted.perform (h : Unsubmitted runId s) (hsourced : Sourced concurrency s)
    (ha : ∀ plan, Action.submit runId plan ∉ actions)
    (hrun : perform concurrency s actions = some s') : Unsubmitted runId s' := by
  refine (perform_keeps (I := fun u => Sourced concurrency u ∧ Unsubmitted runId u)
    ⟨hsourced, h⟩ ?_ hrun).2
  rintro a hmem u v ⟨hu, hfresh⟩ hstep
  have hother : ∀ plan, a ≠ .submit runId plan := by
    rintro plan rfl
    exact ha plan hmem
  exact ⟨hu.step hstep, hfresh.step hu hother hstep⟩

theorem knows_perform (hsourced : Sourced concurrency s) (h : s.Knows runId)
    (hrun : perform concurrency s actions = some s') : s'.Knows runId :=
  (perform_keeps (I := fun u => Sourced concurrency u ∧ u.Knows runId) ⟨hsourced, h⟩
    (fun _ _ _ _ hu hstep => ⟨hu.1.step hstep, step_knows hu.1.valid hstep hu.2⟩) hrun).2

theorem Placed.perform (h : Placed runId i s) (hrun : perform concurrency s actions = some s') :
    Placed runId i s' :=
  perform_keeps h (fun _ _ _ _ hu hstep => hu.step hstep) hrun

theorem submit_mem_others (h : Action.submit runId plan ∈ others i actions) :
    Action.submit runId plan ∈ actions := by
  obtain ⟨a, ha, hwithout⟩ := List.mem_filterMap.mp h
  have hsame := Action.without_some hwithout
  simp only [Action.renumber] at hsame
  rwa [hsame]

/-- A suspended submission either validates its plan or knows its Run. -/
theorem Sourced.validating_or_knows (h : Sourced concurrency s) (hplaced : Placed runId i s)
    {task : SubmitTask} (htask : s.submits i = some task) : Validating i s ∨ s.Knows runId := by
  obtain rfl := hplaced.runId task htask
  obtain ⟨id, plan, point, answer⟩ := task
  cases point with
  | validating f d rest => exact Or.inl ⟨_, htask, trivial⟩
  | joining run joined c rest => exact Or.inr (h.joining i _ (joiningCall_of_submits htask))

theorem Raises.suspended (h : Raises i s a) (hstep : step concurrency s a = some s') :
    ∃ task, s.submits i = some task := by
  rcases h with rfl | ⟨rfl, task, htask, -⟩
  · cases hslot : s.submits i with
    | some task => exact ⟨task, rfl⟩
    | none => simp [step, prepare, hslot] at hstep
  · exact ⟨task, htask⟩

/-- A submission that raises after it has registered its Run leaves the Run
behind, which the others alone would not have made. -/
theorem validating_of_asWithout (hsourced : Sourced concurrency s)
    (hrun : perform concurrency s (.submit runId plan :: actions) = some s₂)
    (hraises : RaisesWhen concurrency s runId plan actions (fun _ => True))
    (hunrivalled : Unrivalled s runId actions) (h : AsWithout concurrency s runId actions s₂) :
    RaisesWhen concurrency s runId plan actions (Validating s.nextSubmit) := by
  rcases hraises with hknows | ⟨before, a, after, mid, rfl, hmid, hraise, -⟩
  · exact Or.inl hknows
  by_cases hknows : s.Knows runId
  · exact Or.inl hknows
  refine Or.inr ⟨before, a, after, mid, rfl, hmid, hraise, ?_⟩
  obtain ⟨s₁, hcall, hbefore⟩ := perform_cons.mp hmid
  have hrest : perform concurrency s ((.submit runId plan :: before) ++ a :: after) = some s₂ :=
    hrun
  obtain ⟨u, hu, hlast⟩ := perform_append.mp hrest
  cases hmid.symm.trans hu
  obtain ⟨w, hw, -⟩ := perform_cons.mp hlast
  obtain ⟨task, htask⟩ := hraise.suspended hw
  have hplaced := (submit_placed hknows hcall).2.1.perform hbefore
  have hmidSourced := hsourced.perform hmid
  refine (hmidSourced.validating_or_knows hplaced htask).resolve_right fun hregistered => ?_
  obtain ⟨t₂, ht₂, hsame⟩ := h
  rw [beside_free hknows] at ht₂
  have halone : Unsubmitted runId t₂ :=
    Unsubmitted.perform ⟨hknows, hunrivalled.suspended⟩ hsourced
      (fun plan hmem => hunrivalled.later plan (submit_mem_others hmem)) ht₂
  exact halone.unknown ((knows_perform hmidSourced hregistered hlast).of_runs hsame.runs.symm)

/-- Whatever runs beside it, a `submit` that raises leaves everything as if it
had never been called when it raises before it registers its Run, and, where
nobody else submits that Run, only then. -/
theorem raised_submit_iff
    (hs : Reachable (step concurrency) (fun _ _ => True) (initial store) s)
    (hrun : perform concurrency s (.submit runId plan :: actions) = some s₂)
    (hraises : RaisesWhen concurrency s runId plan actions (fun _ => True)) :
    (RaisesWhen concurrency s runId plan actions (Validating s.nextSubmit) →
      AsWithout concurrency s runId actions s₂) ∧
    (Unrivalled s runId actions → AsWithout concurrency s runId actions s₂ →
      RaisesWhen concurrency s runId plan actions (Validating s.nextSubmit)) := by
  have hsourced : Sourced concurrency s :=
    hs.invariant (Sourced.initial store) (fun _ _ _ hheld _ hstep => hheld.step hstep)
  exact ⟨asWithout_of_validating hsourced hrun, validating_of_asWithout hsourced hrun hraises⟩

/-- A plan that asks for a dependency of its own making. -/
def danglingPlan : RunPlan := ⟨[], [computationOf "x" ["u"]], distinct_one "x"⟩

theorem danglingPlan_leaves_nothing : ∃ s₂, perform 1 (initial .empty)
    [.submit "1" danglingPlan, .submitRaises 0] = some s₂ ∧
      AsWithout 1 (initial .empty) "1" [.submitRaises 0] s₂ := by
  have hrun : (perform 1 (initial .empty) [.submit "1" danglingPlan, .submitRaises 0]).isSome := by
    decide
  have hmid : (perform 1 (initial .empty) [.submit "1" danglingPlan]).any (fun s =>
      (s.submits 0).any (fun task => task.joiningCall.isNone)) := by
    decide
  obtain ⟨s₂, hrun⟩ := Option.isSome_iff_exists.mp hrun
  obtain ⟨mid, hmid, hslot⟩ := (Option.any_eq_true _ _).mp hmid
  obtain ⟨task, htask, hjoins⟩ := (Option.any_eq_true _ _).mp hslot
  have hvalidates : task.point.Validates := by
    obtain ⟨id, plan, point, answer⟩ := task
    cases point with
    | validating => trivial
    | joining => simp [SubmitTask.joiningCall] at hjoins
  have hraises : ∀ meets, meets mid →
      RaisesWhen 1 (initial .empty) "1" danglingPlan [.submitRaises 0] meets := fun _ hmeets =>
    Or.inr ⟨[], .submitRaises 0, [], mid, rfl, hmid, Or.inl rfl, hmeets⟩
  exact ⟨s₂, hrun, (raised_submit_iff .start hrun (hraises _ trivial)).1
    (hraises _ ⟨task, htask, hvalidates⟩)⟩

/-- The store raises while the second of two computations is joined: the Run
stays in the table and the first computation waits for ever. -/
theorem raised_join_leaves_run : ¬ ∀ plan actions s₂,
    perform 1 (initial .empty) (.submit "1" plan :: actions) = some s₂ →
      RaisesWhen 1 (initial .empty) "1" plan actions (fun _ => True) →
        AsWithout 1 (initial .empty) "1" actions s₂ := by
  intro hclaim
  have hmid : (perform 1 (initial .empty) (.submit "1"
      ⟨[], [computationOf "x" [], computationOf "y" ["x"]], by decide⟩ :: joins 0)).any
        (fun s => (s.submits 0).isSome && (s.runs.get? "1").isSome) := by
    decide
  obtain ⟨mid, hmid, htest⟩ := (Option.any_eq_true _ _).mp hmid
  rw [Bool.and_eq_true] at htest
  obtain ⟨task, htask⟩ := Option.isSome_iff_exists.mp htest.1
  have hlast : step 1 mid (.submitRaises 0) = some (mid.setSubmit 0 none) := by
    simp [step, prepare, htask]
  have hend : perform 1 mid [.submitRaises 0] = some (mid.setSubmit 0 none) :=
    perform_cons.mpr ⟨_, hlast, rfl⟩
  have hrun := perform_append.mpr ⟨mid, hmid, hend⟩
  rw [List.cons_append] at hrun
  obtain ⟨t₂, ht₂, hsame⟩ := hclaim _ (joins 0 ++ [.submitRaises 0]) _ hrun
    (Or.inr ⟨joins 0, .submitRaises 0, [], mid, rfl, hmid, Or.inl rfl, trivial⟩)
  obtain rfl : initial .empty = t₂ := Option.some.inj ht₂
  have hruns := hsame.runs
  simp only [State.setSubmit_runs, initial_runs] at hruns
  rw [hruns] at htest
  exact absurd htest.2 (by decide)

end Atomicity

end Grafy.Scheduler
