import Grafy.SchedulerEffects

/-!
The bookkeeping of Runs in every reachable state: which Run objects exist,
which suspended call works on which of them, and that a suspended cancel has
withdrawn its Run. Together with the soundness invariant this is what the
later modules know about a state before they look at a step.
-/
namespace Grafy.Scheduler

open OrderedDict Results Reachability

structure Registered (s : State) : Prop where
  runs_lt : ∀ e ∈ s.runs, e.2 < s.nextRun
  runs_keyed : ∀ e ∈ s.runs, (s.runObjects e.2).runId = e.1
  vacant : ∀ x, s.nextRun ≤ x → s.runObjects x = vacantRun
  joining_lt : ∀ i call, s.joiningCall i = some call → call.run < s.nextRun
  joining_unique : ∀ i j call call', s.joiningCall i = some call →
    s.joiningCall j = some call' → call.run = call'.run → i = j
  joining_of : ∀ i call, s.joiningCall i = some call →
    (s.runObjects call.run).plan = call.plan ∧ (s.runObjects call.run).runId = call.runId
  withdrawn : ∀ i task, s.cancels i = some task →
    task.run < s.nextRun ∧ (s.runObjects task.run).withdrawn = true
  cancels_idle : ∀ i, s.nextCancel ≤ i → s.cancels i = none

/-- Steps between which no Run is registered and no call is opened. -/
structure RunsKept (s s' : State) : Prop where
  nextRun : s'.nextRun = s.nextRun
  runs : s'.runs = s.runs
  joiningCall : ∀ i call, s'.joiningCall i = some call → s.joiningCall i = some call
  cancels : ∀ i task, s'.cancels i = some task → s.cancels i = some task
  nextCancel : s'.nextCancel = s.nextCancel
  runId : ∀ x, (s'.runObjects x).runId = (s.runObjects x).runId
  plan : ∀ x, (s'.runObjects x).plan = (s.runObjects x).plan
  withdrawn : ∀ x, (s.runObjects x).withdrawn = true → (s'.runObjects x).withdrawn = true
  vacant : ∀ x, s.nextRun ≤ x → s.runObjects x = vacantRun → s'.runObjects x = vacantRun

namespace RunsKept

variable {s s' : State} {run : RunRef}

theorem refl (s : State) : RunsKept s s :=
  ⟨rfl, rfl, fun _ _ h => h, fun _ _ h => h, rfl, fun _ => rfl, fun _ => rfl, fun _ h => h,
    fun _ _ h => h⟩

theorem trans {t : State} (h : RunsKept s t) (h' : RunsKept t s') : RunsKept s s' := by
  refine ⟨h'.nextRun.trans h.nextRun, h'.runs.trans h.runs, ?_, ?_,
    h'.nextCancel.trans h.nextCancel, ?_, ?_, ?_, ?_⟩
  · exact fun i call hcall => h.joiningCall i call (h'.joiningCall i call hcall)
  · exact fun i task htask => h.cancels i task (h'.cancels i task htask)
  · exact fun x => (h'.runId x).trans (h.runId x)
  · exact fun x => (h'.plan x).trans (h.plan x)
  · exact fun x hx => h'.withdrawn x (h.withdrawn x hx)
  · exact fun x hge hx => h'.vacant x (h.nextRun.symm ▸ hge) (h.vacant x hge hx)

/-- The Run objects, the table and the suspended calls are literally the same. -/
theorem of_same (hobjects : s'.runObjects = s.runObjects) (hnext : s'.nextRun = s.nextRun)
    (hruns : s'.runs = s.runs) (hsubmits : s'.submits = s.submits)
    (hcancels : s'.cancels = s.cancels) (hnextCancel : s'.nextCancel = s.nextCancel) :
    RunsKept s s' := by
  refine ⟨hnext, hruns, ?_, ?_, hnextCancel, ?_, ?_, ?_, ?_⟩
  · intro i call hcall
    rwa [State.joiningCall, hsubmits] at hcall
  · intro i task htask
    rwa [hcancels] at htask
  all_goals
    intro x
    rw [hobjects]
  · exact fun h => h
  · exact fun _ h => h

theorem of_quiet (h : Quiet s s') : RunsKept s s' := by
  refine ⟨h.nextRun, h.runs, ?_, ?_, h.nextCancel, ?_, ?_, ?_, ?_⟩
  · intro i call hcall
    rwa [h.joiningCall i] at hcall
  · intro i task htask
    rwa [h.cancels] at htask
  all_goals
    intro x
    rw [h.runObjects]
  · exact fun h => h
  · exact fun _ h => h

theorem of_wired {edges : Ref → Ref → Prop} (h : Wired edges s s') : RunsKept s s' :=
  of_same h.runObjects h.calls.nextRun h.calls.runs h.calls.submits h.calls.cancels
    h.calls.nextCancel

/-- One Run object changes and keeps its identity. -/
theorem modifyRun (s : State) {f : Run → Run} (hlt : run < s.nextRun)
    (hrunId : (f (s.runObjects run)).runId = (s.runObjects run).runId)
    (hplan : (f (s.runObjects run)).plan = (s.runObjects run).plan)
    (hwithdrawn : (s.runObjects run).withdrawn = true → (f (s.runObjects run)).withdrawn = true) :
    RunsKept s (s.modifyRun run f) := by
  refine ⟨rfl, rfl, fun _ _ h => h, fun _ _ h => h, rfl, ?_, ?_, ?_, ?_⟩
  · intro x
    by_cases hx : x = run
    · simpa [hx] using hrunId
    · simp [hx]
  · intro x
    by_cases hx : x = run
    · simpa [hx] using hplan
    · simp [hx]
  · intro x
    by_cases hx : x = run
    · simpa [hx] using hwithdrawn
    · simp [hx]
  · intro x hge hv
    have hne : x ≠ run := Nat.ne_of_gt (Nat.lt_of_lt_of_le hlt hge)
    simpa [hne] using hv

theorem finishRun (s : State) (hlt : run < s.nextRun) : RunsKept s (finishRun s run) := by
  have hf := finishRun_finished s run
  refine ⟨hf.calls.nextRun, hf.calls.runs, ?_, ?_, hf.calls.nextCancel, ?_, ?_, ?_, ?_⟩
  · intro i call hcall
    rwa [State.joiningCall, hf.calls.submits] at hcall
  · intro i task htask
    rwa [hf.calls.cancels] at htask
  · intro x
    rw [hf.runObjects x]
    split_ifs with hx
    · rw [hx]
      rfl
    · rfl
  · intro x
    rw [hf.runObjects x]
    split_ifs with hx
    · rw [hx]
      rfl
    · rfl
  · intro x hw
    rw [hf.runObjects x]
    split_ifs with hx
    · rw [hx] at hw
      exact hw
    · exact hw
  · intro x hge hv
    have hne : x ≠ run := Nat.ne_of_gt (Nat.lt_of_lt_of_le hlt hge)
    rw [hf.runObjects x, if_neg hne]
    exact hv

/-- An unanswered Run object is not a vacant cell. -/
theorem lt_next_of_unanswered (hvacant : ∀ x, s.nextRun ≤ x → s.runObjects x = vacantRun)
    (h : (s.runObjects run).result = none) : run < s.nextRun := by
  by_contra hge
  rw [hvacant run (Nat.le_of_not_lt hge)] at h
  simp [vacantRun] at h

theorem resolveRecord (s : State) (r : Ref) : RunsKept s (resolveRecord s r).1 := by
  rcases resolveRecord_cases s r with h | ⟨-, -, h⟩ | ⟨-, -, h⟩ | ⟨-, -, h⟩ <;> rw [h]
  · exact RunsKept.refl s
  all_goals exact of_same rfl rfl rfl rfl rfl rfl

theorem dispatch (concurrency : ℕ)
    (hvacant : ∀ x, s.nextRun ≤ x → s.runObjects x = vacantRun) :
    RunsKept s (dispatch concurrency s) := by
  refine dispatch_rule (P := RunsKept s) ?_ ?_ ?_ ?_ s (RunsKept.refl s)
  · exact fun t r _ h => h.trans (resolveRecord t r)
  · exact fun t _ h => h.trans (of_same rfl rfl rfl rfl rfl rfl)
  · intro t r hr _ h
    rw [startRecord_eq hr]
    exact h.trans (of_same rfl rfl rfl rfl rfl rfl)
  · intro t run _ hopen _ h
    refine h.trans (finishRun t (lt_next_of_unanswered ?_ hopen))
    intro x hge
    rw [h.nextRun] at hge
    exact h.vacant x hge (hvacant x hge)

theorem withdrawRecords (s : State) (runId : RunId) (refs : List Ref) :
    RunsKept s (withdrawRecords s runId refs).1 :=
  withdrawRecords_rule (P := RunsKept s)
    (fun _ _ h => h.trans (of_same rfl rfl rfl rfl rfl rfl))
    (fun _ _ _ _ h => h.trans (of_same rfl rfl rfl rfl rfl rfl)) s refs (RunsKept.refl s)

theorem withdraw (s : State) (runId : RunId) (hlt : run < s.nextRun) :
    RunsKept s (withdraw s runId run).1 := by
  have hmark : RunsKept s (s.modifyRun run (fun x => { x with withdrawn := true })) :=
    modifyRun s hlt rfl rfl (fun _ => rfl)
  exact hmark.trans (withdrawRecords _ runId _)

theorem join (s : State) (runId : RunId) (c : ComputationPlan) (hasResult : Bool) :
    RunsKept s (join s runId c hasResult).2 := by
  rcases join_cases s runId c hasResult with ⟨-, heq⟩ | ⟨-, -, heq⟩ | ⟨-, r, -, -, heq⟩ <;>
    rw [heq] <;> exact of_same rfl rfl rfl rfl rfl rfl

end RunsKept

/-- A join up to the suspension or the wiring: one record is joined and
appended to the Run. -/
def joinedState (s : State) (runId : RunId) (run : RunRef) (c : ComputationPlan)
    (hasResult : Bool) : State :=
  (join s runId c hasResult).2.modifyRun run (fun x =>
    { x with joined := x.joined ++ [(join s runId c hasResult).1] })

section

variable (s : State)
include s

/-- What a join leaves of the other Runs and records, and what it adds. -/
theorem join_runObjects (runId : RunId) (c : ComputationPlan) (hasResult : Bool) :
    (join s runId c hasResult).2.runObjects = s.runObjects := by
  rcases join_cases s runId c hasResult with ⟨-, heq⟩ | ⟨-, -, heq⟩ | ⟨-, r, -, -, heq⟩ <;>
    rw [heq] <;> rfl

theorem join_sameStore (runId : RunId) (c : ComputationPlan) (hasResult : Bool) :
    (join s runId c hasResult).2.store = s.store ∧
    (join s runId c hasResult).2.submits = s.submits := by
  rcases join_cases s runId c hasResult with ⟨-, heq⟩ | ⟨-, -, heq⟩ | ⟨-, r, -, -, heq⟩ <;>
    rw [heq] <;> exact ⟨rfl, rfl⟩

theorem joinedState_runObjects (runId : RunId) (run : RunRef) (c : ComputationPlan)
    (hasResult : Bool) (x : RunRef) :
    (joinedState s runId run c hasResult).runObjects x =
      if x = run then { s.runObjects run with
        joined := (s.runObjects run).joined ++ [(join s runId c hasResult).1] }
      else s.runObjects x := by
  by_cases hx : x = run <;> simp [joinedState, join_runObjects, hx]

section

variable (i : ℕ) (task : SubmitTask) (run : RunRef) (joined : Dict Fingerprint Ref)
include task run joined

theorem joinNext_nil (c : ComputationPlan) (hasResult : Bool) :
    joinNext s i task run joined c [] hasResult =
      ⟨(wirePlan (joinedState s task.runId run c hasResult)
        (joined.set c.fingerprint (join s task.runId c hasResult).1) task.plan).setSubmit i none,
        true⟩ := rfl

theorem wired_joined (c : ComputationPlan) (hasResult : Bool) :
    Wired (PlanEdge task.plan (joined.set c.fingerprint (join s task.runId c hasResult).1))
      (joinedState s task.runId run c hasResult)
        (wirePlan (joinedState s task.runId run c hasResult)
        (joined.set c.fingerprint (join s task.runId c hasResult).1) task.plan) :=
  wirePlan_wired _ _ _

theorem joinNext_cons (c d : ComputationPlan) (rest : List ComputationPlan) (hasResult : Bool) :
    joinNext s i task run joined c (d :: rest) hasResult =
      ⟨(joinedState s task.runId run c hasResult).setSubmit i (some { task with
        point := .joining run (joined.set c.fingerprint (join s task.runId c hasResult).1) d rest,
        answer := none }), false⟩ := rfl

/-- What was joined stays, wired if nothing is left to join, and the call moves on. -/
theorem joinNext_wired (c : ComputationPlan) (rest : List ComputationPlan) (hasResult : Bool) :
    ∃ edges t next, Wired edges (joinedState s task.runId run c hasResult) t ∧
      (joinNext s i task run joined c rest hasResult).state = t.setSubmit i next := by
  cases rest with
  | nil => exact ⟨_, _, _, wired_joined s task run joined c hasResult, rfl⟩
  | cons d rest => exact ⟨fun _ _ => False, _, _, Wired.refl _, rfl⟩

end

theorem joinedState_runsKept (runId : RunId) {run : RunRef} (c : ComputationPlan) (hasResult : Bool)
    (hlt : run < s.nextRun) : RunsKept s (joinedState s runId run c hasResult) := by
  have hjoin := RunsKept.join s runId c hasResult
  refine hjoin.trans (RunsKept.modifyRun _ ?_ rfl rfl (fun h => h))
  rw [hjoin.nextRun]
  exact hlt

end

namespace Registered

variable {s s' : State} {run : RunRef}

section

variable (h : Registered s)
include h

theorem runs_get {runId : RunId} (hget : s.runs.get? runId = some run) :
    run < s.nextRun ∧ (s.runObjects run).runId = runId :=
  ⟨h.runs_lt _ (Dict.mem_of_get? hget), h.runs_keyed _ (Dict.mem_of_get? hget)⟩

theorem kept (hk : RunsKept s s') : Registered s' := by
  refine ⟨?_, ?_, ?_, ?_, ?_, ?_, ?_, ?_⟩
  · rw [hk.runs, hk.nextRun]
    exact h.runs_lt
  · rw [hk.runs]
    intro e he
    rw [hk.runId]
    exact h.runs_keyed e he
  · intro x hge
    rw [hk.nextRun] at hge
    exact hk.vacant x hge (h.vacant x hge)
  · intro i call hcall
    rw [hk.nextRun]
    exact h.joining_lt i call (hk.joiningCall i call hcall)
  · exact fun i j call call' hcall hcall' =>
      h.joining_unique i j call call' (hk.joiningCall i call hcall) (hk.joiningCall j call' hcall')
  · intro i call hcall
    rw [hk.plan, hk.runId]
    exact h.joining_of i call (hk.joiningCall i call hcall)
  · intro i task htask
    obtain ⟨hlt, hw⟩ := h.withdrawn i task (hk.cancels i task htask)
    exact ⟨hk.nextRun ▸ hlt, hk.withdrawn _ hw⟩
  · intro i hi
    cases hcancel : s'.cancels i with
    | none => rfl
    | some task =>
      have hidle := h.cancels_idle i (hk.nextCancel ▸ hi)
      rw [hk.cancels i task hcancel] at hidle
      simp at hidle

theorem setSubmit_none (i : ℕ) : Registered (s.setSubmit i none) := by
  refine h.kept ⟨rfl, rfl, ?_, fun _ _ h => h, rfl, fun _ => rfl, fun _ => rfl, fun _ h => h,
    fun _ _ h => h⟩
  intro j call hcall
  rw [joiningCall_setSubmit] at hcall
  split_ifs at hcall
  · simp at hcall
  · exact hcall

variable {task : SubmitTask}

/-- A call moves on with the Run it worked on, or with one nobody works on. -/
theorem setSubmit_some (i : ℕ) (call : JoiningCall) (htask : task.joiningCall = some call)
    (hlt : call.run < s.nextRun)
    (hother : ∀ j call', j ≠ i → s.joiningCall j = some call' → call'.run ≠ call.run)
    (hof : (s.runObjects call.run).plan = call.plan ∧ (s.runObjects call.run).runId = call.runId) :
    Registered (s.setSubmit i (some task)) := by
  have hcalls : ∀ j call', (s.setSubmit i (some task)).joiningCall j = some call' →
      (j = i ∧ call' = call) ∨ (j ≠ i ∧ s.joiningCall j = some call') := by
    intro j call' hcall'
    rw [joiningCall_setSubmit] at hcall'
    split_ifs at hcall' with hj
    · rw [Option.bind_some, htask] at hcall'
      exact Or.inl ⟨hj, (Option.some.inj hcall').symm⟩
    · exact Or.inr ⟨hj, hcall'⟩
  refine ⟨h.runs_lt, h.runs_keyed, h.vacant, ?_, ?_, ?_, h.withdrawn, h.cancels_idle⟩
  · intro j call' hcall'
    rcases hcalls j call' hcall' with ⟨-, rfl⟩ | ⟨-, hold⟩
    · exact hlt
    · exact h.joining_lt j call' hold
  · intro j k call' call'' hj hk heq
    rcases hcalls j call' hj with ⟨rfl, rfl⟩ | ⟨hne, hold⟩ <;>
      rcases hcalls k call'' hk with ⟨rfl, rfl⟩ | ⟨hne', hold'⟩
    · rfl
    · exact absurd heq.symm (hother k call'' hne' hold')
    · exact absurd heq (hother j call' hne hold)
    · exact h.joining_unique j k call' call'' hold hold' heq
  · intro j call' hcall'
    rcases hcalls j call' hcall' with ⟨-, rfl⟩ | ⟨-, hold⟩
    · exact hof
    · exact h.joining_of j call' hold

theorem allocateRun (runId : RunId) (plan : RunPlan) : Registered (allocateRun s runId plan) := by
  have hnew : ∀ x, x < s.nextRun → (Scheduler.allocateRun s runId plan).runObjects x =
      s.runObjects x := by
    intro x hx
    simp [Nat.ne_of_lt hx]
  refine ⟨?_, ?_, ?_, ?_, h.joining_unique, ?_, ?_, h.cancels_idle⟩
  · intro e he
    rcases Dict.mem_set he with rfl | hold
    · exact Nat.lt_succ_self _
    · exact Nat.lt_succ_of_lt (h.runs_lt e hold)
  · intro e he
    rcases Dict.mem_set he with rfl | hold
    · simp
    · rw [hnew _ (h.runs_lt e hold)]
      exact h.runs_keyed e hold
  · intro x hge
    have hlt : s.nextRun < x := hge
    simpa [Nat.ne_of_gt hlt] using h.vacant x (Nat.le_of_lt hlt)
  · exact fun i call hcall => Nat.lt_succ_of_lt (h.joining_lt i call hcall)
  · intro i call hcall
    rw [hnew _ (h.joining_lt i call hcall)]
    exact h.joining_of i call hcall
  · intro i task htask
    obtain ⟨hlt, hw⟩ := h.withdrawn i task htask
    rw [hnew _ hlt]
    exact ⟨Nat.lt_succ_of_lt hlt, hw⟩

theorem register (i : ℕ) (runId : RunId) (plan : RunPlan) :
    Registered (register s i runId plan).state := by
  have halloc := h.allocateRun runId plan
  unfold Scheduler.register
  split
  · exact halloc.setSubmit_none i
  · rename_i c rest _
    refine halloc.setSubmit_some i ⟨runId, plan, s.nextRun, [], c, rest⟩ rfl
      (Nat.lt_succ_self _) ?_ (by simp)
    intro j call' _ hcall'
    exact Nat.ne_of_lt (h.joining_lt j call' hcall')

theorem joinNext {i : ℕ} {joined : Dict Fingerprint Ref} {c : ComputationPlan}
    {rest : List ComputationPlan} (hasResult : Bool)
    (hcall : s.joiningCall i = some ⟨task.runId, task.plan, run, joined, c, rest⟩) :
    Registered (joinNext s i task run joined c rest hasResult).state := by
  have hlt : run < s.nextRun := h.joining_lt i _ hcall
  have hk := joinedState_runsKept s task.runId c hasResult hlt
  have hjoined := h.kept hk
  cases rest with
  | nil =>
    rw [joinNext_nil]
    exact (hjoined.kept (RunsKept.of_wired (wirePlan_wired _ _ _))).setSubmit_none i
  | cons d rest =>
    rw [joinNext_cons]
    refine hjoined.setSubmit_some i ⟨task.runId, task.plan, run, _, d, rest⟩ rfl ?_ ?_ ?_
    · rw [hk.nextRun]
      exact hlt
    · intro j call' hne hcall' heq
      exact hne (h.joining_unique j i call' _ (hk.joiningCall j call' hcall') hcall heq)
    · have hof := h.joining_of i _ hcall
      rw [hk.plan, hk.runId]
      exact hof

theorem openCancel (hlt : run < s.nextRun) (hw : (s.runObjects run).withdrawn = true)
    (tasks : List Ref) :
    Registered ((openCancel s).setCancel s.nextCancel (some ⟨run, tasks⟩)) := by
  refine ⟨h.runs_lt, h.runs_keyed, h.vacant, h.joining_lt, h.joining_unique, h.joining_of, ?_, ?_⟩
  · intro j task htask
    by_cases hj : j = s.nextCancel
    · subst j
      obtain rfl : ⟨run, tasks⟩ = task := by simpa using htask
      exact ⟨hlt, hw⟩
    · exact h.withdrawn j task (by simpa [hj] using htask)
  · intro j hj
    have hlt' : s.nextCancel < j := hj
    simpa [Nat.ne_of_gt hlt'] using h.cancels_idle j (Nat.le_of_lt hlt')

end

theorem setCancel_none (s : State) (i : ℕ) : RunsKept s (s.setCancel i none) := by
  refine ⟨rfl, rfl, fun _ _ h => h, ?_, rfl, fun _ => rfl, fun _ => rfl, fun _ h => h,
    fun _ _ h => h⟩
  intro j task htask
  by_cases hj : j = i
  · subst j
    simp at htask
  · simpa [hj] using htask

theorem withdraw_marks (s : State) (runId : RunId) (run : RunRef) :
    ((withdraw s runId run).1.runObjects run).withdrawn = true := by
  simp [withdraw_runObjects]

theorem effect (h : Registered s) {a : Action} {p : Prepared} (he : Effect s a p) :
    Registered p.state := by
  cases he with
  | quiet hquiet => exact h.kept (RunsKept.of_quiet hquiet)
  | drops i => exact h.setSubmit_none i
  | registers i _ hquiet _ => exact (h.kept (RunsKept.of_quiet hquiet)).register i _ _
  | joins i hsub => exact h.joinNext _ (joiningCall_of_submits hsub)
  | @withdraws runId run hrun _ _ =>
    have hlt := (h.runs_get hrun).1
    have hk := RunsKept.withdraw s runId hlt
    exact (h.kept hk).kept (RunsKept.finishRun _ (hk.nextRun.symm ▸ hlt))
  | @awaits runId run hrun _ =>
    have hlt := (h.runs_get hrun).1
    have hk := RunsKept.withdraw s runId hlt
    have hopen := (h.kept hk).openCancel (hk.nextRun.symm ▸ hlt) (withdraw_marks s runId run)
      (withdraw s runId run).2
    rw [hk.nextCancel] at hopen
    exact hopen
  | @answers i task htask =>
    have hlt := (h.withdrawn i task htask).1
    exact (h.kept (setCancel_none s i)).kept (RunsKept.finishRun (s.setCancel i none) hlt)
  | settles r state hquiet _ _ =>
    refine (h.kept (RunsKept.of_quiet hquiet)).kept ?_
    exact RunsKept.of_same rfl rfl rfl rfl rfl rfl

theorem initial (store : ResultStore) : Registered (initial store) := by
  refine ⟨by simp, by simp, ?_, ?_, ?_, ?_, by simp, by simp⟩
  all_goals simp [State.joiningCall]

end Registered

/-- What is known of every reachable state. -/
structure Valid (concurrency : ℕ) (s : State) : Prop where
  sound : Sound concurrency s
  idle : Idle s
  registered : Registered s

namespace Valid

variable {concurrency : ℕ} {s : State} {p : Prepared}

theorem effect (h : Valid concurrency s) {a : Action} (hp : prepare s a = some p) : Effect s a p :=
  prepare_effect h.sound h.idle hp

theorem prepare (h : Valid concurrency s) {a : Action} (hp : prepare s a = some p) :
    Valid concurrency p.state :=
  ⟨h.sound.prepare hp, h.idle.prepare hp, h.registered.effect (h.effect hp)⟩

theorem dispatch (h : Valid concurrency s) : Valid concurrency (dispatch concurrency s) := by
  have hcalls := sameCalls_dispatch concurrency s
  refine ⟨h.sound.dispatch, h.idle.of_same hcalls.submits hcalls.nextSubmit, ?_⟩
  exact h.registered.kept (RunsKept.dispatch concurrency h.registered.vacant)

/-- A decidable form of: no call is suspended. -/
def callsIdle (s : State) : Bool :=
  (List.range s.nextSubmit).all (fun i => (s.submits i).isNone) &&
  (List.range s.nextCancel).all (fun i => (s.cancels i).isNone)

theorem calls_idle (h : Valid concurrency s) (hidle : callsIdle s) :
    (∀ i, s.submits i = none) ∧ (∀ i, s.cancels i = none) := by
  simp only [callsIdle, Bool.and_eq_true, List.all_eq_true, List.mem_range,
    Option.isNone_iff_eq_none] at hidle
  constructor
  · intro i
    rcases Nat.lt_or_ge i s.nextSubmit with hlt | hge
    · exact hidle.1 i hlt
    · exact h.idle i hge
  · intro i
    rcases Nat.lt_or_ge i s.nextCancel with hlt | hge
    · exact hidle.2 i hlt
    · exact h.registered.cancels_idle i hge

theorem initial (store : ResultStore) : Valid concurrency (initial store) :=
  ⟨Sound.initial store, fun _ _ => rfl, Registered.initial store⟩

end Valid

variable {a : Action}

/-- A step is its effect, then a dispatch or nothing. -/
theorem step_cases {concurrency : ℕ} {s s' : State} (h : step concurrency s a = some s') :
    ∃ p, prepare s a = some p ∧
      ((p.dispatches = true ∧ s' = dispatch concurrency p.state) ∨
        (p.dispatches = false ∧ s' = p.state)) := by
  obtain ⟨p, hp, rfl⟩ := Option.map_eq_some_iff.mp h
  refine ⟨p, hp, ?_⟩
  cases p.dispatches with
  | true => exact Or.inl ⟨rfl, rfl⟩
  | false => exact Or.inr ⟨rfl, rfl⟩

/-- A validated submit registers only an id that nobody registered while it
waited for the store. -/
def RegistersFree (s : State) (a : Action) : Prop :=
  ∀ i runId plan f d, a = .submitResumes i →
    s.submits i = some ⟨runId, plan, .validating f d [], some true⟩ → s.runs.get? runId = none

theorem RegistersFree.free {s : State} (h : RegistersFree s a) {runId : RunId} {plan : RunPlan}
    (hreg : Registering s a runId plan) : s.runs.get? runId = none := by
  rcases hreg with ⟨-, hfree⟩ | ⟨i, f, d, ha, hsub⟩
  · exact hfree
  · exact h i runId plan f d ha hsub

def registersFree (s : State) : Action → Bool
  | .submitResumes i =>
    match s.submits i with
    | some ⟨runId, _, .validating _ _ [], some true⟩ => (s.runs.get? runId).isNone
    | _ => true
  | _ => true

theorem registersFree_sound {s : State} (h : registersFree s a) : RegistersFree s a := by
  rintro i runId plan f d rfl hsub
  simpa [registersFree, hsub] using h

/-- A condition on the states in which a step calls `_dispatch`. -/
def AtDispatch (P : State → Prop) (s : State) (a : Action) : Prop :=
  ∀ p, prepare s a = some p → p.dispatches = true → P p.state

def atDispatch (P : State → Prop) [DecidablePred P] (s : State) (a : Action) : Bool :=
  (prepare s a).all (fun p => p.dispatches = false ∨ P p.state)

theorem atDispatch_sound {P : State → Prop} [DecidablePred P] {s : State} (h : atDispatch P s a) :
    AtDispatch P s a := by
  intro p hp hd
  simpa [atDispatch, hp, hd] using h

section Invariants

variable {concurrency : ℕ} {meets : State → Action → Prop} {store : ResultStore} {s : State}
  {I : State → Prop}

/-- An invariant of every run: it holds initially, and every step keeps it,
whether it ends at its effect or with a dispatch. -/
theorem invariant_of_steps (hinit : I (initial store))
    (heffect : ∀ s a p, Valid concurrency s → I s → meets s a → prepare s a = some p → Effect s a p
      → p.dispatches = false → I p.state)
    (hdispatch : ∀ s a p, Valid concurrency s → I s → meets s a → prepare s a = some p → Effect s a
      p → p.dispatches = true → I (dispatch concurrency p.state))
    (h : Reachable (step concurrency) meets (initial store) s) :
    Valid concurrency s ∧ I s := by
  refine h.invariant (I := fun s => Valid concurrency s ∧ I s)
    ⟨Valid.initial store, hinit⟩ ?_
  rintro s a s' ⟨hvalid, hinv⟩ hmeets hstep
  obtain ⟨p, hp, hcases⟩ := step_cases hstep
  have hvalid' := hvalid.prepare hp
  have he := hvalid.effect hp
  rcases hcases with ⟨hd, rfl⟩ | ⟨hd, rfl⟩
  · exact ⟨hvalid'.dispatch, hdispatch s a p hvalid hinv hmeets hp he hd⟩
  · exact ⟨hvalid', heffect s a p hvalid hinv hmeets hp he hd⟩

/-- The same for an invariant that the effect alone already keeps. -/
theorem invariant_of_effects (hinit : I (initial store))
    (heffect : ∀ s a p, Valid concurrency s → I s → meets s a → prepare s a = some p → Effect s a p
      → I p.state)
    (hdispatch : ∀ s a p, meets s a → prepare s a = some p → p.dispatches = true → Valid concurrency
      p.state → I p.state → I (dispatch concurrency p.state))
    (h : Reachable (step concurrency) meets (initial store) s) :
    Valid concurrency s ∧ I s := by
  refine invariant_of_steps hinit ?_ ?_ h
  · exact fun s a p hvalid hinv hmeets hp he _ => heffect s a p hvalid hinv hmeets hp he
  · intro s a p hvalid hinv hmeets hp he hd
    exact hdispatch s a p hmeets hp hd (hvalid.prepare hp) (heffect s a p hvalid hinv hmeets hp he)

theorem valid_of_reachable (h : Reachable (step concurrency) meets (initial store) s) :
    Valid concurrency s :=
  (invariant_of_steps (I := fun _ => True) trivial (fun _ _ _ _ _ _ _ _ _ => trivial)
    (fun _ _ _ _ _ _ _ _ _ => trivial) h).1

end Invariants

section Samples

/-- A plan with one instance per computation, for concrete runs. -/
def computationOf (fingerprint : Fingerprint) (dependsOn : List Fingerprint) : ComputationPlan :=
  { (default : ComputationPlan) with
    fingerprint := fingerprint
    instances := [default]
    dependsOn := dependsOn }

theorem distinct_one (fingerprint : Fingerprint) :
    ([computationOf fingerprint []].map ComputationPlan.fingerprint).Nodup := List.nodup_singleton _

/-- A submit answered and resumed once. -/
def joins (i : ℕ) : List Action := [.submitAnswered i, .submitResumes i]

/-- The runner returns and the store is written without incident. -/
def completes (r : Ref) : List Action :=
  [.runnerReturns r [], .taskAnswered r, .taskResumes r, .taskAnswered r, .taskResumes r]

/-- A cancelled Run whose submit had returned: the cancel resumes once the
task has unwound. -/
def cancelledRun : List Action :=
  [.submit "1" ⟨[], [computationOf "x" []], distinct_one "x"⟩] ++ joins 0 ++
  [.cancel "1", .taskUnwinds 0, .cancelResumes 0]

end Samples

end Grafy.Scheduler
