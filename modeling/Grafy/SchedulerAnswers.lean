import Grafy.SchedulerRuns

/-!
The answers of Runs. A Run's result is final as long as no cancel resumes on a
Run that was answered while the cancel waited, and a success is sound as long
as no dispatch meets a Run that is only partly joined and whose joined
computations have all succeeded. Both conditions are needed.
-/
namespace Grafy.Scheduler

open OrderedDict Results Reachability

variable {s s' t : State} {run : RunRef} {a : Action} {p : Prepared} {concurrency : ℕ}

section Finality

/-- Every answer given in the first state still stands in the second. -/
structure KeepsAnswers (s s' : State) : Prop where
  nextRun : s.nextRun ≤ s'.nextRun
  result : ∀ x < s.nextRun, ∀ res, (s.runObjects x).result = some res →
    (s'.runObjects x).result = some res
  runs : ∀ runId run, s.runs.get? runId = some run → s'.runs.get? runId = some run

namespace KeepsAnswers

theorem refl (s : State) : KeepsAnswers s s := ⟨le_rfl, fun _ _ _ h => h, fun _ _ h => h⟩

theorem trans (h : KeepsAnswers s t) (h' : KeepsAnswers t s') : KeepsAnswers s s' := by
  refine ⟨h.nextRun.trans h'.nextRun, ?_, ?_⟩
  · intro x hx res hres
    exact h'.result x (Nat.lt_of_lt_of_le hx h.nextRun) res (h.result x hx res hres)
  · exact fun runId run hrun => h'.runs runId run (h.runs runId run hrun)

theorem of_results (hnext : s'.nextRun = s.nextRun) (hruns : s'.runs = s.runs)
    (hresult : ∀ x, (s'.runObjects x).result = (s.runObjects x).result) : KeepsAnswers s s' := by
  refine ⟨le_of_eq hnext.symm, ?_, ?_⟩
  · intro x _ res hres
    rw [hresult x]
    exact hres
  · rw [hruns]
    exact fun _ _ h => h

theorem modifyRun (s : State) (run : RunRef) {f : Run → Run}
    (hf : ∀ x, (f x).result = x.result) : KeepsAnswers s (s.modifyRun run f) := by
  refine of_results rfl rfl ?_
  intro x
  by_cases hx : x = run <;> simp [hx, hf]

theorem finishRun (h : (s.runObjects run).result = none) : KeepsAnswers s (finishRun s run) := by
  have hf := finishRun_finished s run
  refine ⟨le_of_eq hf.calls.nextRun.symm, ?_, ?_⟩
  · intro x _ res hres
    have hne : x ≠ run := by
      rintro rfl
      rw [h] at hres
      simp at hres
    rw [hf.runObjects x, if_neg hne]
    exact hres
  · rw [hf.calls.runs]
    exact fun _ _ h => h

theorem dispatch (concurrency : ℕ) (s : State) : KeepsAnswers s (dispatch concurrency s) := by
  refine dispatch_rule (P := KeepsAnswers s) ?_ ?_ ?_ ?_ s (refl s)
  · intro t r _ h
    refine h.trans ?_
    rcases resolveRecord_cases t r with heq | ⟨-, -, heq⟩ | ⟨-, -, heq⟩ | ⟨-, -, heq⟩ <;> rw [heq]
    · exact refl t
    all_goals exact of_results rfl rfl (fun _ => rfl)
  · exact fun t _ h => h.trans (of_results rfl rfl (fun _ => rfl))
  · intro t r hr _ h
    rw [startRecord_eq hr]
    exact h.trans (of_results rfl rfl (fun _ => rfl))
  · exact fun t run _ hopen _ h => h.trans (finishRun hopen)

theorem withdraw (s : State) (runId : RunId) (run : RunRef) :
    KeepsAnswers s (withdraw s runId run).1 := by
  have hmark := modifyRun s run (f := fun x => { x with withdrawn := true }) (fun _ => rfl)
  refine hmark.trans ?_
  exact withdrawRecords_rule
    (P := KeepsAnswers (s.modifyRun run (fun x => { x with withdrawn := true })))
    (fun _ _ h => h.trans (of_results rfl rfl (fun _ => rfl)))
    (fun _ _ _ _ h => h.trans (of_results rfl rfl (fun _ => rfl))) _ _ (refl _)

theorem register (s : State) (i : ℕ) {runId : RunId} (plan : RunPlan)
    (hfree : s.runs.get? runId = none) : KeepsAnswers s (register s i runId plan).state := by
  have halloc : KeepsAnswers s (allocateRun s runId plan) := by
    refine ⟨Nat.le_succ _, ?_, ?_⟩
    · intro x hx res hres
      simpa [Nat.ne_of_lt hx] using hres
    · intro other run hrun
      have hne : other ≠ runId := by
        rintro rfl
        rw [hfree] at hrun
        simp at hrun
      rw [allocateRun_runs, Dict.get?_set_ne _ _ hne]
      exact hrun
  unfold Scheduler.register
  split
  · exact halloc.trans (of_results rfl rfl (fun _ => rfl))
  · exact halloc.trans (of_results rfl rfl (fun _ => rfl))

theorem joinNext (s : State) (i : ℕ) (task : SubmitTask) (run : RunRef)
    (joined : Dict Fingerprint Ref) (c : ComputationPlan) (rest : List ComputationPlan)
    (hasResult : Bool) :
    KeepsAnswers s (joinNext s i task run joined c rest hasResult).state := by
  have hjoin : KeepsAnswers s (join s task.runId c hasResult).2 := by
    rcases join_cases s task.runId c hasResult with ⟨-, heq⟩ | ⟨-, -, heq⟩ | ⟨-, r, -, -, heq⟩ <;>
      rw [heq] <;> exact of_results rfl rfl (fun _ => rfl)
  have hjoined : KeepsAnswers s (joinedState s task.runId run c hasResult) :=
    hjoin.trans (modifyRun _ run (fun _ => rfl))
  obtain ⟨_, t, _, hwired, heq⟩ := joinNext_wired s i task run joined c rest hasResult
  rw [heq]
  refine hjoined.trans (of_results hwired.calls.nextRun hwired.calls.runs ?_)
  intro x
  rw [State.setSubmit_runObjects, hwired.runObjects]

end KeepsAnswers

/-- The condition under which answers are final: a cancel resumes only on a
Run that has not been answered meanwhile, and a validated submit registers
only an id that has not been registered meanwhile. -/
structure AnswersOnce (s : State) (a : Action) : Prop where
  cancel : ∀ i task, a = .cancelResumes i → s.cancels i = some task →
    (s.runObjects task.run).result = none
  submit : RegistersFree s a

theorem KeepsAnswers.effect (hmeets : AnswersOnce s a) (he : Effect s a p) :
    KeepsAnswers s p.state := by
  cases he with
  | quiet hquiet => exact of_results hquiet.nextRun hquiet.runs (fun x => by rw [hquiet.runObjects])
  | drops i => exact of_results rfl rfl (fun _ => rfl)
  | registers i hreg hquiet _ =>
    have hfree := hmeets.submit.free hreg
    have hq : KeepsAnswers s _ :=
      of_results hquiet.nextRun hquiet.runs (fun x => by rw [hquiet.runObjects])
    exact hq.trans (register _ i _ (by rw [hquiet.runs]; exact hfree))
  | joins i _ => exact joinNext s i _ _ _ _ _ _
  | @withdraws runId run _ hopen _ =>
    have hw := withdraw s runId run
    have hstill : ((Scheduler.withdraw s runId run).1.runObjects run).result = none := by
      rw [withdraw_runObjects]
      simpa using hopen
    exact hw.trans (finishRun hstill)
  | awaits _ _ => exact (withdraw s _ _).trans (of_results rfl rfl (fun _ => rfl))
  | @answers i task htask =>
    have hdrop : KeepsAnswers s (s.setCancel i none) := of_results rfl rfl (fun _ => rfl)
    exact hdrop.trans (finishRun (hmeets.cancel i task rfl htask))
  | settles r state hquiet _ _ =>
    exact of_results hquiet.nextRun hquiet.runs (fun x => by simp [hquiet.runObjects])

theorem KeepsAnswers.reachable (hvalid : Valid concurrency s)
    (h : Reachable (step concurrency) AnswersOnce s s') :
    Valid concurrency s' ∧ KeepsAnswers s s' := by
  refine h.invariant (I := fun t => Valid concurrency t ∧ KeepsAnswers s t)
    ⟨hvalid, refl s⟩ ?_
  rintro t a t' ⟨ht, hkeeps⟩ hmeets hstep
  obtain ⟨p, hp, hcases⟩ := step_cases hstep
  have heffect := effect hmeets (ht.effect hp)
  rcases hcases with ⟨-, rfl⟩ | ⟨-, rfl⟩
  · exact ⟨(ht.prepare hp).dispatch, (hkeeps.trans heffect).trans (dispatch concurrency p.state)⟩
  · exact ⟨ht.prepare hp, hkeeps.trans heffect⟩

/-- A recorded result is never replaced, and `wait` goes on returning it, in
every run in which a cancel resumes only on an unanswered Run and a validated
submit registers only a free id. -/
theorem results_final {concurrency : ℕ} {store : ResultStore} {s s' : State}
    (h : Reachable (step concurrency) AnswersOnce (initial store) s)
    (h' : Reachable (step concurrency) AnswersOnce s s') :
    (∀ run < s.nextRun, ∀ res, (s.runObjects run).result = some res →
      (s'.runObjects run).result = some res) ∧
    (∀ runId res, wait s runId = some res → wait s' runId = some res) := by
  have hvalid := (KeepsAnswers.reachable (Valid.initial store) h).1
  have hkeeps := (KeepsAnswers.reachable hvalid h').2
  refine ⟨hkeeps.result, ?_⟩
  intro runId res hwait
  obtain ⟨run, hrun, hres⟩ := Option.bind_eq_some_iff.mp hwait
  have hlt := (hvalid.registered.runs_get hrun).1
  exact Option.bind_eq_some_iff.mpr ⟨run, hkeeps.runs runId run hrun,
    hkeeps.result run hlt res hres⟩

def answersOnce (s : State) (a : Action) : Bool :=
  registersFree s a && match a with
    | .cancelResumes i => (s.cancels i).all (fun task => (s.runObjects task.run).result.isNone)
    | _ => true

theorem answersOnce_sound (h : answersOnce s a) : AnswersOnce s a := by
  obtain ⟨hsubmit, hcancel⟩ := Bool.and_eq_true_iff.mp h
  refine ⟨?_, registersFree_sound hsubmit⟩
  rintro i task rfl htask
  simpa [htask] using hcancel

/-- A cancelled Run keeps its answer while another one is submitted. -/
theorem cancelled_result_final :
    ∃ s s' res, Reachable (step 1) AnswersOnce (initial ResultStore.empty) s ∧
      Reachable (step 1) AnswersOnce s s' ∧ s'.runs.length = 2 ∧
      wait s "1" = some res ∧ res.status = .cancelled ∧ wait s' "1" = some res := by
  obtain ⟨s, hs, htest⟩ := exists_reachable (step 1) AnswersOnce answersOnce
    (initial ResultStore.empty) cancelledRun
    (fun s => (wait s "1").any (·.status = .cancelled) ∧
      (execute (step 1) answersOnce s
        [.submit "2" ⟨[], [computationOf "y" []], distinct_one "y"⟩]).any (·.runs.length = 2))
    (fun _ _ _ h => answersOnce_sound h) (by decide)
  obtain ⟨hanswer, hnext⟩ := of_decide_eq_true htest
  obtain ⟨res, hres, hstatus⟩ := (Option.any_eq_true _ _).mp hanswer
  obtain ⟨s', hs', hruns⟩ := exists_reachable (step 1) AnswersOnce answersOnce s
    [.submit "2" ⟨[], [computationOf "y" []], distinct_one "y"⟩] (·.runs.length = 2)
    (fun _ _ _ h => answersOnce_sound h) hnext
  exact ⟨s, s', res, hs, hs', of_decide_eq_true hruns, hres, of_decide_eq_true hstatus,
    (results_final hs hs').2 "1" res hres⟩

def doubleCancel : List Action :=
  [.submit "1" ⟨[], [computationOf "x" []], distinct_one "x"⟩] ++ joins 0 ++
    [.cancel "1", .cancel "1"]

/-- Two cancels of one Run: the second finds nothing to await and answers, and
the first, resuming, replaces that answer by one that lists no computation. -/
theorem second_answer_replaces_first :
    ∃ s s', Reachable (step 1) (fun _ _ => True) (initial ResultStore.empty) s ∧
      Reachable (step 1) (fun _ _ => True) s s' ∧
      wait s "1" = some ⟨"1", .cancelled, [("x", .cancelled)], []⟩ ∧
      wait s' "1" = some ⟨"1", .cancelled, [], []⟩ := by
  obtain ⟨s, hs, htest⟩ := exists_reachable (step 1) (fun _ _ => True) (fun _ _ => true)
    (initial ResultStore.empty) doubleCancel
    (fun s => wait s "1" = some ⟨"1", .cancelled, [("x", .cancelled)], []⟩ ∧
      (execute (step 1) (fun _ _ => true) s [.taskUnwinds 0, .cancelResumes 0]).any
        (wait · "1" = some ⟨"1", .cancelled, [], []⟩))
    (fun _ _ _ _ => trivial) (by decide)
  obtain ⟨hfirst, hnext⟩ := of_decide_eq_true htest
  obtain ⟨s', hs', hsecond⟩ := exists_reachable (step 1) (fun _ _ => True) (fun _ _ => true) s
    [.taskUnwinds 0, .cancelResumes 0] (wait · "1" = some ⟨"1", .cancelled, [], []⟩)
    (fun _ _ _ _ => trivial) hnext
  exact ⟨s, s', hs, hs', hfirst, of_decide_eq_true hsecond⟩

end Finality

variable {i : ℕ} {hasResult : Bool}

section Success

/-- With distinct fingerprints the answer lists the joined records in order. -/
theorem runResult_computations (s : State) (run : Run)
    (h : (run.joined.map s.fingerprintOf).Nodup) :
    (runResult s run).computations = run.joined.map
    (fun r => (s.fingerprintOf r, s.stateOf r)) := by
  have happend := Dict.foldl_set_eq_append s.fingerprintOf s.stateOf run.joined [] (by
    simpa [Dict.keys] using h)
  simpa [runResult] using happend

/-- A success was decided for a Run that was not withdrawn and none of whose
records ended badly. -/
theorem runResult_succeeded {run : Run} (h : (run.joined.map s.fingerprintOf).Nodup)
    (hstatus : (runResult s run).status = .succeeded) :
    run.withdrawn = false ∧ ∀ r ∈ run.joined, s.stateOf r ∉ unhealthyStates := by
  have hcomputations := runResult_computations s run h
  simp only [runResult] at hstatus hcomputations
  split_ifs at hstatus with hwithdrawn hany
  refine ⟨by simpa using hwithdrawn, ?_⟩
  intro r hr hbad
  refine hany (List.any_eq_true.mpr ⟨s.stateOf r, ?_, by simpa using hbad⟩)
  rw [hcomputations]
  exact List.mem_map.mpr ⟨_, List.mem_map.mpr ⟨r, hr, rfl⟩, rfl⟩

/-- What a Run has joined is an initial part of its plan, and a suspended
submit knows the rest; a recorded success covers the plan and is stored. -/
structure JoinsInOrder (s : State) : Prop where
  bound : ∀ x, ∀ r ∈ (s.runObjects x).joined, r < s.nextComputation
  partly : ∀ x, (s.runObjects x).result = none → ∃ rest,
    (s.runObjects x).joined.map s.fingerprintOf ++ rest = (s.runObjects x).plan.fingerprints
  suspended : ∀ i call, s.joiningCall i = some call → (s.runObjects call.run).result = none →
    (s.runObjects call.run).joined.map s.fingerprintOf ++
      (call.computation :: call.rest).map ComputationPlan.fingerprint = call.plan.fingerprints
  succeeded : ∀ x res, (s.runObjects x).result = some res → res.status = .succeeded →
    res.computations.keys = (s.runObjects x).plan.fingerprints ∧
    ∀ f ∈ res.computations.keys, s.store.Stored f

namespace JoinsInOrder

/-- The invariant reads the Runs, their suspended submits, the fingerprints of
allocated records and the store. -/
theorem kept (h : JoinsInOrder s)
    (hobjects : ∀ x, (s'.runObjects x).joined = (s.runObjects x).joined ∧
      (s'.runObjects x).plan = (s.runObjects x).plan ∧
      (s'.runObjects x).result = (s.runObjects x).result)
    (hnext : s.nextComputation ≤ s'.nextComputation)
    (hfp : ∀ u < s.nextComputation, s'.fingerprintOf u = s.fingerprintOf u)
    (hstore : s.store.Extends s'.store)
    (hcalls : ∀ i call, s'.joiningCall i = some call → s.joiningCall i = some call) :
    JoinsInOrder s' := by
  have hmap : ∀ x, (s.runObjects x).joined.map s'.fingerprintOf =
      (s.runObjects x).joined.map s.fingerprintOf := by
    intro x
    exact List.map_congr_left (fun r hr => hfp r (h.bound x r hr))
  refine ⟨?_, ?_, ?_, ?_⟩
  · intro x r hr
    rw [(hobjects x).1] at hr
    exact Nat.lt_of_lt_of_le (h.bound x r hr) hnext
  · intro x hopen
    rw [(hobjects x).2.2] at hopen
    rw [(hobjects x).1, (hobjects x).2.1, hmap]
    exact h.partly x hopen
  · intro i call hcall hopen
    rw [(hobjects _).2.2] at hopen
    rw [(hobjects _).1, hmap]
    exact h.suspended i call (hcalls i call hcall) hopen
  · intro x res hres hstatus
    rw [(hobjects x).2.2] at hres
    rw [(hobjects x).2.1]
    obtain ⟨hkeys, hstored⟩ := h.succeeded x res hres hstatus
    exact ⟨hkeys, fun f hf => hstore.stored (hstored f hf)⟩

theorem nodup (h : JoinsInOrder s) {x : RunRef} (hopen : (s.runObjects x).result = none) :
    ((s.runObjects x).joined.map s.fingerprintOf).Nodup := by
  obtain ⟨rest, hrest⟩ := h.partly x hopen
  have hplan := (s.runObjects x).plan.distinct
  rw [RunPlan.fingerprints] at hrest
  rw [← hrest] at hplan
  exact (List.nodup_append.mp hplan).1

/-- Finishing a Run keeps the invariant when a success it records is one of
the whole plan. -/
theorem finishRun (h : JoinsInOrder s) (run : RunRef)
    (hres : (runResult s (s.runObjects run)).status = .succeeded →
      (runResult s (s.runObjects run)).computations.keys = (s.runObjects run).plan.fingerprints ∧
      ∀ f ∈ (runResult s (s.runObjects run)).computations.keys, s.store.Stored f) :
    JoinsInOrder (finishRun s run) := by
  have hf := finishRun_finished s run
  have hfp : ∀ u, (Scheduler.finishRun s run).fingerprintOf u = s.fingerprintOf u := by
    intro u
    rw [State.fingerprintOf, hf.computations u]
    split_ifs <;> rfl
  have hmap : ∀ l : List Ref, l.map (Scheduler.finishRun s run).fingerprintOf =
      l.map s.fingerprintOf := fun l => List.map_congr_left (fun u _ => hfp u)
  refine ⟨?_, ?_, ?_, ?_⟩
  · intro x r hr
    rw [hf.runObjects x] at hr
    rw [hf.calls.nextComputation]
    split_ifs at hr
    · simp [answeredRun] at hr
    · exact h.bound x r hr
  · intro x hopen
    rw [hf.runObjects x] at hopen ⊢
    split_ifs at hopen ⊢
    · simp [answeredRun] at hopen
    · rw [hmap]
      exact h.partly x hopen
  · intro i call hcall hopen
    rw [State.joiningCall, hf.calls.submits] at hcall
    rw [hf.runObjects] at hopen ⊢
    split_ifs at hopen ⊢
    · simp [answeredRun] at hopen
    · rw [hmap]
      exact h.suspended i call hcall hopen
  · intro x res hx hstatus
    rw [hf.runObjects x] at hx ⊢
    rw [hf.calls.store]
    split_ifs at hx ⊢ with heq
    · cases hx
      exact hres hstatus
    · exact h.succeeded x res hx hstatus

theorem withdrawn_status {run : Run} (h : run.withdrawn = true) :
    (runResult s run).status ≠ .succeeded := by
  simp [runResult, h]

theorem quiet (h : JoinsInOrder s) (hquiet : Quiet s s') : JoinsInOrder s' := by
  refine h.kept ?_ (le_of_eq hquiet.nextComputation.symm) (fun u _ => hquiet.fingerprintOf u)
    hquiet.store ?_
  · intro x
    rw [hquiet.runObjects]
    exact ⟨rfl, rfl, rfl⟩
  · intro i call hcall
    rwa [hquiet.joiningCall i] at hcall

theorem withdraw (h : JoinsInOrder s) (runId : RunId) (run : RunRef) :
    JoinsInOrder (withdraw s runId run).1 := by
  have hw := withdraw_withdrawn s runId run
  refine h.kept ?_ (le_of_eq hw.calls.nextComputation.symm) ?_ ?_ ?_
  · intro x
    rw [withdraw_runObjects]
    by_cases hx : x = run <;> simp [hx]
  · intro u _
    rw [State.fingerprintOf, hw.plan u]
    rfl
  · rw [hw.calls.store]
    exact ResultStore.Extends.refl _
  · intro i call hcall
    rwa [State.joiningCall, hw.calls.submits] at hcall

theorem register (h : JoinsInOrder s) (hreg : Registered s) (i : ℕ) (runId : RunId)
    (plan : RunPlan) : JoinsInOrder (register s i runId plan).state := by
  -- the new Run is the only one that differs, and it has joined nothing
  have hnew : JoinsInOrder (allocateRun s runId plan) := by
    have hold : ∀ x, x ≠ s.nextRun → (allocateRun s runId plan).runObjects x = s.runObjects x := by
      intro x hx
      simp [hx]
    refine ⟨?_, ?_, ?_, ?_⟩
    · intro x r hr
      by_cases hx : x = s.nextRun
      · simp [hx] at hr
      · rw [hold x hx] at hr
        exact h.bound x r hr
    · intro x hopen
      by_cases hx : x = s.nextRun
      · exact ⟨plan.fingerprints, by simp [hx]⟩
      · rw [hold x hx] at hopen ⊢
        exact h.partly x hopen
    · intro j call hcall hopen
      have hne := Nat.ne_of_lt (hreg.joining_lt j call hcall)
      rw [hold _ hne] at hopen ⊢
      exact h.suspended j call hcall hopen
    · intro x res hres hstatus
      by_cases hx : x = s.nextRun
      · simp [hx] at hres
      · rw [hold x hx] at hres ⊢
        exact h.succeeded x res hres hstatus
  unfold Scheduler.register
  split
  · refine hnew.kept (fun _ => ⟨rfl, rfl, rfl⟩) le_rfl (fun _ _ => rfl)
      (ResultStore.Extends.refl _) ?_
    intro j call hcall
    rw [joiningCall_setSubmit] at hcall
    split_ifs at hcall
    · simp at hcall
    · exact hcall
  · rename_i c rest hplan
    refine ⟨hnew.bound, hnew.partly, ?_, hnew.succeeded⟩
    intro j call hcall hopen
    rw [joiningCall_setSubmit] at hcall
    split_ifs at hcall
    · cases hcall
      simp [RunPlan.fingerprints, hplan]
    · exact hnew.suspended j call hcall hopen

/-- One more record is joined, the next one of the plan. `s'` is any state
that differs from the joined one in the call that joins and in dependencies. -/
theorem of_joined {concurrency : ℕ} (h : JoinsInOrder s) (hvalid : Valid concurrency s) {i : ℕ}
    {call : JoiningCall} (hcall : s.joiningCall i = some call) {hasResult : Bool}
    (hres : hasResult = true → s.store.Stored call.computation.fingerprint)
    (hobjects : s'.runObjects =
      (joinedState s call.runId call.run call.computation hasResult).runObjects)
    (hnext : s'.nextComputation = (join s call.runId call.computation hasResult).2.nextComputation)
    (hfp : ∀ u, s'.fingerprintOf u =
      (join s call.runId call.computation hasResult).2.fingerprintOf u)
    (hstore : s'.store = s.store)
    (hcalls : ∀ j call', s'.joiningCall j = some call' →
      (j ≠ i ∧ s.joiningCall j = some call') ∨
      (call'.run = call.run ∧ call'.plan = call.plan ∧
        call'.computation :: call'.rest = call.rest)) : JoinsInOrder s' := by
  obtain ⟨-, hlast, hlt⟩ := hvalid.sound.join call.runId call.computation hres
  obtain ⟨hgrow, hplans⟩ := join_keeps s call.runId call.computation hasResult
  have hmap : ∀ x, (s.runObjects x).joined.map s'.fingerprintOf =
      (s.runObjects x).joined.map s.fingerprintOf := by
    intro x
    refine List.map_congr_left (fun r hr => ?_)
    rw [hfp, hplans r (h.bound x r hr)]
  have hself : (s.runObjects call.run).result = none →
      (s'.runObjects call.run).joined.map s'.fingerprintOf ++
        call.rest.map ComputationPlan.fingerprint = call.plan.fingerprints := by
    intro hopen
    have hsuspended := h.suspended i call hcall hopen
    rw [hobjects, joinedState_runObjects, if_pos rfl, List.map_append, hmap, List.map_singleton,
      hfp, hlast]
    simpa using hsuspended
  have hresult : ∀ x, (s'.runObjects x).result = (s.runObjects x).result := by
    intro x
    rw [hobjects, joinedState_runObjects]
    split_ifs with hx
    · rw [hx]
    · rfl
  have hplan : ∀ x, (s'.runObjects x).plan = (s.runObjects x).plan := by
    intro x
    rw [hobjects, joinedState_runObjects]
    split_ifs with hx
    · rw [hx]
    · rfl
  have hother : ∀ x, x ≠ call.run → s'.runObjects x = s.runObjects x := by
    intro x hx
    rw [hobjects, joinedState_runObjects, if_neg hx]
  refine ⟨?_, ?_, ?_, ?_⟩
  · intro x r hr
    rw [hnext]
    rw [hobjects, joinedState_runObjects] at hr
    split_ifs at hr
    · rcases mem_snoc.mp hr with hold | rfl
      · exact Nat.lt_of_lt_of_le (h.bound _ r hold) hgrow
      · exact hlt
    · exact Nat.lt_of_lt_of_le (h.bound x r hr) hgrow
  · intro x hopen
    rw [hresult] at hopen
    by_cases hx : x = call.run
    · subst x
      rw [hplan, (hvalid.registered.joining_of i call hcall).1]
      exact ⟨_, hself hopen⟩
    · rw [hother x hx, hmap]
      exact h.partly x hopen
  · intro j call' hcall' hopen
    rw [hresult] at hopen
    rcases hcalls j call' hcall' with ⟨hne, hold⟩ | ⟨hrun, hplan', hrest⟩
    · have hx : call'.run ≠ call.run := fun heq =>
        hne (hvalid.registered.joining_unique j i call' call hold hcall heq)
      rw [hother _ hx, hmap]
      exact h.suspended j call' hold hopen
    · rw [hrun] at hopen ⊢
      rw [hplan', hrest]
      exact hself hopen
  · intro x res hx hstatus
    rw [hresult] at hx
    rw [hplan, hstore]
    exact h.succeeded x res hx hstatus

theorem joinNext (h : JoinsInOrder s) (hvalid : Valid concurrency s) {task : SubmitTask}
    {joined : Dict Fingerprint Ref} {c : ComputationPlan} {rest : List ComputationPlan}
    (hcall : s.joiningCall i = some ⟨task.runId, task.plan, run, joined, c, rest⟩)
    (hres : hasResult = true → s.store.Stored c.fingerprint) :
    JoinsInOrder (joinNext s i task run joined c rest hasResult).state := by
  obtain ⟨hstore, hsubmits⟩ := join_sameStore s task.runId c hasResult
  have hcalls : ∀ j, (joinedState s task.runId run c hasResult).joiningCall j =
      s.joiningCall j := by
    intro j
    simp [State.joiningCall, joinedState, hsubmits]
  cases rest with
  | nil =>
    have hwired := wired_joined s task run joined c hasResult
    rw [joinNext_nil]
    refine h.of_joined hvalid hcall hres hwired.runObjects hwired.calls.nextComputation
      hwired.fingerprintOf (hwired.calls.store.trans hstore) ?_
    intro j call' hcall'
    rw [joiningCall_setSubmit] at hcall'
    split_ifs at hcall' with hj
    · simp at hcall'
    · rw [State.joiningCall, hwired.calls.submits] at hcall'
      exact Or.inl ⟨hj, hcalls j ▸ hcall'⟩
  | cons d rest =>
    rw [joinNext_cons]
    refine h.of_joined hvalid hcall hres rfl rfl (fun _ => rfl) hstore ?_
    intro j call' hcall'
    rw [joiningCall_setSubmit] at hcall'
    split_ifs at hcall' with hj
    · cases hcall'
      exact Or.inr ⟨rfl, rfl, rfl⟩
    · exact Or.inl ⟨hj, hcalls j ▸ hcall'⟩

theorem effect (h : JoinsInOrder s) (hvalid : Valid concurrency s) (he : Effect s a p) :
    JoinsInOrder p.state := by
  have hwithdrawn : ∀ {t : State} {run : RunRef}, (t.runObjects run).withdrawn = true →
      JoinsInOrder t → JoinsInOrder (Scheduler.finishRun t run) := by
    intro t run hw ht
    exact ht.finishRun run (fun hstatus => absurd hstatus (withdrawn_status hw))
  cases he with
  | quiet hquiet => exact h.quiet hquiet
  | drops i =>
    refine h.kept (fun _ => ⟨rfl, rfl, rfl⟩) le_rfl (fun _ _ => rfl)
      (ResultStore.Extends.refl _) ?_
    intro j call hcall
    rw [joiningCall_setSubmit] at hcall
    split_ifs at hcall
    · simp at hcall
    · exact hcall
  | registers i _ hquiet _ =>
    exact (h.quiet hquiet).register (hvalid.registered.kept (RunsKept.of_quiet hquiet)) i _ _
  | joins i hsub =>
    have hsound := hvalid.sound.submits i _ hsub
    refine h.joinNext hvalid (joiningCall_of_submits hsub) ?_
    rintro rfl
    exact hsound.answered rfl
  | @withdraws runId run _ _ _ =>
    exact hwithdrawn (Registered.withdraw_marks s runId run) (h.withdraw runId run)
  | @awaits runId run _ _ =>
    exact (h.withdraw runId run).kept (fun _ => ⟨rfl, rfl, rfl⟩) le_rfl (fun _ _ => rfl)
      (ResultStore.Extends.refl _) (fun _ _ hcall => hcall)
  | @answers i task htask =>
    have hdrop : JoinsInOrder (s.setCancel i none) :=
      h.kept (fun _ => ⟨rfl, rfl, rfl⟩) le_rfl (fun _ _ => rfl)
        (ResultStore.Extends.refl _) (fun _ _ hcall => hcall)
    exact hwithdrawn (hvalid.registered.withdrawn i task htask).2 hdrop
  | settles r state hquiet _ _ =>
    refine (h.quiet hquiet).kept (fun _ => ⟨rfl, rfl, rfl⟩) le_rfl ?_
      (ResultStore.Extends.refl _) (fun _ _ hcall => hcall)
    intro u _
    by_cases hu : u = r <;> simp [State.fingerprintOf, hu]

end JoinsInOrder

/-- The condition for a sound success: a Run that is still joining has joined
some computation that has not succeeded. -/
def NoEarlySuccess (s : State) : Prop :=
  ∀ run ∈ s.runs.values, (s.runObjects run).result = none →
    (s.runObjects run).withdrawn = false →
    (s.runObjects run).joined.length < (s.runObjects run).plan.computations.length →
    ∃ r ∈ (s.runObjects run).joined, s.stateOf r ≠ .succeeded

instance (s : State) : Decidable (NoEarlySuccess s) :=
  inferInstanceAs (Decidable (∀ run ∈ s.runs.values, _ → _ → _ → ∃ r ∈ _, _))

/-- A Run answered as succeeded had joined its whole plan, because nothing
becomes succeeded during a dispatch. -/
theorem complete_of_succeeded {e : State} (he : NoEarlySuccess e) (hd : DuringDispatch e t)
    (hsound : Sound concurrency t) (hjoins : JoinsInOrder t) (hrun : run ∈ t.runs.values)
    (hopen : (t.runObjects run).result = none)
    (hterminal : ∀ r ∈ (t.runObjects run).joined, (t.stateOf r).Terminal)
    (hstatus : (runResult t (t.runObjects run)).status = .succeeded) :
    (runResult t (t.runObjects run)).computations.keys = (t.runObjects run).plan.fingerprints ∧
    ∀ f ∈ (runResult t (t.runObjects run)).computations.keys, t.store.Stored f := by
  have hnodup := hjoins.nodup hopen
  obtain ⟨hactive, hhealthy⟩ := runResult_succeeded hnodup hstatus
  have hsucceeded : ∀ r ∈ (t.runObjects run).joined, t.stateOf r = .succeeded := by
    intro r hr
    have hend := hterminal r hr
    have hgood := hhealthy r hr
    cases hstate : t.stateOf r <;> rw [hstate] at hend hgood <;>
      first | rfl | exact absurd hend (by decide) | exact absurd hgood (by decide)
  have hkeys : (runResult t (t.runObjects run)).computations.keys =
      (t.runObjects run).joined.map t.fingerprintOf := by
    rw [runResult_computations t _ hnodup]
    simp [Dict.keys]
  obtain ⟨rest, hrest⟩ := hjoins.partly run hopen
  have hsame := hd.unanswered run hopen
  have hwhole : ¬ (t.runObjects run).joined.length <
      (t.runObjects run).plan.computations.length := by
    intro hshort
    rw [hd.calls.runs] at hrun
    rw [hsame] at hopen hactive hshort
    obtain ⟨r, hr, hne⟩ := he run hrun hopen hactive hshort
    exact hne (hd.succeeded r (hsucceeded r (by rw [hsame]; exact hr)))
  have hempty : rest = [] := by
    have hlen := congrArg List.length hrest
    simp only [List.length_append, List.length_map, RunPlan.fingerprints] at hlen
    exact List.length_eq_zero_iff.mp (by omega)
  rw [hempty, List.append_nil] at hrest
  refine ⟨hkeys.trans hrest, ?_⟩
  rw [hkeys]
  intro f hf
  obtain ⟨r, hr, rfl⟩ := List.mem_map.mp hf
  exact hsound.stored r (hsucceeded r hr)

theorem JoinsInOrder.dispatch (h : JoinsInOrder s) (hvalid : Valid concurrency s)
    (hearly : NoEarlySuccess s) : JoinsInOrder (dispatch concurrency s) := by
  refine (dispatch_rule_during (P := fun t => Sound concurrency t ∧ JoinsInOrder t) s
    ?_ ?_ ?_ ?_ ⟨hvalid.sound, h⟩).2.2
  · intro t r _ _ hkept
    obtain ⟨hsound, ht⟩ := hkept
    refine ⟨hsound.resolveRecord r, ?_⟩
    have hcalls := sameCalls_resolveRecord t r
    have hkept := RunsKept.resolveRecord t r
    rcases resolveRecord_cases t r with heq | ⟨-, -, heq⟩ | ⟨-, -, heq⟩ | ⟨-, -, heq⟩ <;> rw [heq]
    · exact ht
    all_goals
      refine ht.kept (fun _ => ⟨rfl, rfl, rfl⟩) le_rfl ?_ (ResultStore.Extends.refl _)
        (fun _ _ hcall => hcall)
      intro u _
      by_cases hu : u = r <;> simp [State.fingerprintOf, hu]
  · intro t queue hkept
    obtain ⟨hsound, ht⟩ := hkept
    exact ⟨hsound.setReady queue, ht.kept (fun _ => ⟨rfl, rfl, rfl⟩) le_rfl (fun _ _ => rfl)
      (ResultStore.Extends.refl _) (fun _ _ hcall => hcall)⟩
  · intro t r _ hr hroom hkept
    obtain ⟨hsound, ht⟩ := hkept
    refine ⟨hsound.startRecord hr hroom, ?_⟩
    rw [startRecord_eq hr]
    refine ht.kept (fun _ => ⟨rfl, rfl, rfl⟩) le_rfl ?_ (ResultStore.Extends.refl _)
      (fun _ _ hcall => hcall)
    intro u _
    by_cases hu : u = r <;> simp [State.fingerprintOf, hu]
  · intro t run hd hrun hopen hterminal hkept
    obtain ⟨hsound, ht⟩ := hkept
    exact ⟨hsound.finishRun run, ht.finishRun run
      (complete_of_succeeded hearly hd hsound ht hrun hopen hterminal)⟩

/-- Where no dispatch meets a Run that is partly joined and whose joined
computations have all succeeded, a recorded success lists exactly the
fingerprints of the submitted plan and each of them has a stored result. -/
theorem success_covers_plan {concurrency : ℕ} {store : ResultStore} {s : State}
    (h : Reachable (step concurrency) (AtDispatch NoEarlySuccess) (initial store) s)
    {run : RunRef} {res : RunResult} (hres : (s.runObjects run).result = some res)
    (hstatus : res.status = .succeeded) :
    res.computations.keys = (s.runObjects run).plan.fingerprints ∧
    ∀ f ∈ res.computations.keys, s.store.Stored f := by
  have hinv := invariant_of_effects (I := JoinsInOrder) ?_ ?_ ?_ h
  · exact hinv.2.succeeded run res hres hstatus
  · refine ⟨?_, ?_, ?_, ?_⟩ <;> simp [vacantRun, State.joiningCall]
  · exact fun s a p hvalid hs _ _ he => hs.effect hvalid he
  · exact fun s a p hmeets hp hd hvalid hs => hs.dispatch hvalid (hmeets p hp hd)

theorem distinct_two : ([computationOf "x" [], computationOf "y" []].map
    ComputationPlan.fingerprint).Nodup := by decide

/-- Another Run finishes between the two joins of Run 1. -/
def answeredBetween : List Action :=
  .submit "0" ⟨[], [computationOf "z" []], distinct_one "z"⟩ :: joins 0 ++
  .submit "1" ⟨[], [computationOf "x" [], computationOf "y" []], distinct_two⟩ :: joins 1 ++
  completes 0 ++ joins 1 ++ completes 1 ++ completes 2

theorem success_covers_plan_of_two :
    ∃ s res, Reachable (step 1) (AtDispatch NoEarlySuccess) (initial ResultStore.empty) s ∧
      (s.runObjects 1).result = some res ∧ res.status = .succeeded ∧
      (s.runObjects 1).plan.fingerprints = ["x", "y"] ∧
      res.computations.keys = (s.runObjects 1).plan.fingerprints ∧
      ∀ f ∈ res.computations.keys, s.store.Stored f := by
  obtain ⟨s, hs, htest⟩ := exists_reachable (step 1) (AtDispatch NoEarlySuccess)
    (atDispatch NoEarlySuccess) (initial ResultStore.empty) answeredBetween
    (fun s => (s.runObjects 1).result.any (·.status = .succeeded) ∧
      (s.runObjects 1).plan.fingerprints = ["x", "y"])
    (fun _ _ _ h => atDispatch_sound h) (by decide +kernel)
  obtain ⟨hany, hplan⟩ := of_decide_eq_true htest
  obtain ⟨res, hres, hstatus⟩ := (Option.any_eq_true _ _).mp hany
  have hsucceeded := of_decide_eq_true hstatus
  exact ⟨s, res, hs, hres, hsucceeded, hplan, success_covers_plan hs hres hsucceeded⟩

def earlyAnswer : List Action :=
  .submit "0" ⟨[], [computationOf "z" []], distinct_one "z"⟩ :: joins 0 ++
  .submit "1" ⟨[], [computationOf "x" [], computationOf "y" []], distinct_two⟩ :: completes 0

/-- Another Run's computation finishes while Run 1 is suspended before its
first join, and Run 1 is answered as succeeded with nothing computed. -/
theorem succeeded_before_joining :
    ∃ s, Reachable (step 1) (fun _ _ => True) (initial ResultStore.empty) s ∧
      (s.runObjects 1).result = some ⟨"1", .succeeded, [], []⟩ ∧
      (s.runObjects 1).plan.fingerprints = ["x", "y"] ∧
      ¬ s.store.Stored "x" ∧ ¬ s.store.Stored "y" := by
  obtain ⟨s, hs, htest⟩ := exists_reachable (step 1) (fun _ _ => True) (fun _ _ => true)
    (initial ResultStore.empty) earlyAnswer
    (fun s => (s.runObjects 1).result = some ⟨"1", .succeeded, [], []⟩ ∧
      (s.runObjects 1).plan.fingerprints = ["x", "y"] ∧
      ¬ s.store.Stored "x" ∧ ¬ s.store.Stored "y")
    (fun _ _ _ _ => trivial) (by decide +kernel)
  exact ⟨s, hs, of_decide_eq_true htest⟩

end Success

end Grafy.Scheduler
