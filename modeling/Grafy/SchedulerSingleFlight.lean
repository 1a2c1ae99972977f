import Grafy.SchedulerRuns

/-!
Single flight: at most one attempt per fingerprint is unfinished, and it is
the one the record table holds. Cancelling a Run while its own submit is
still joining breaks this: the resumed cancel also releases what was joined
meanwhile and forgets an attempt that has not finished.
-/
namespace Grafy.Scheduler

open Lifecycle OrderedDict Results Reachability

/-- Every unfinished attempt is the current one for its fingerprint. -/
def SingleFlight (s : State) : Prop :=
  ∀ r, ¬ (s.stateOf r).Terminal → s.records.get? (s.fingerprintOf r) = some r

namespace SingleFlight

variable {s s' : State}

/-- Nothing becomes unfinished, and no unfinished attempt is forgotten. -/
theorem of_fewer (h : SingleFlight s)
    (hstate : ∀ u, ¬ (s'.stateOf u).Terminal →
      ¬ (s.stateOf u).Terminal ∧ s'.fingerprintOf u = s.fingerprintOf u)
    (hrecords : ∀ u, ¬ (s'.stateOf u).Terminal → s.records.get? (s.fingerprintOf u) = some u →
      s'.records.get? (s.fingerprintOf u) = some u) : SingleFlight s' := by
  intro u hu
  obtain ⟨hold, hfp⟩ := hstate u hu
  rw [hfp]
  exact hrecords u hu (h u hold)

theorem resolveRecord (h : SingleFlight s) (r : Ref) : SingleFlight (resolveRecord s r).1 := by
  have hmove : ∀ state, s.stateOf r = .pending → SingleFlight (s.setState r state) := by
    intro state hp
    refine h.of_fewer (fun u hu => ?_) (fun _ _ hget => hget)
    by_cases hur : u = r
    · subst u
      simp [State.fingerprintOf, hp, terminal_iff]
    · simpa [State.fingerprintOf, hur] using hu
  rcases resolveRecord_cases s r with heq | ⟨hp, -, heq⟩ | ⟨hp, -, heq⟩ | ⟨hp, -, heq⟩ <;> rw [heq]
  · exact h
  · exact hmove _ hp
  · exact hmove _ hp
  · exact hmove _ hp

theorem startRecord (h : SingleFlight s) {r : Ref} (hr : s.stateOf r = .ready) :
    SingleFlight (startRecord s r) := by
  rw [startRecord_eq hr]
  refine h.of_fewer (fun u hu => ?_) (fun _ _ hget => hget)
  by_cases hur : u = r
  · subst u
    simp [State.fingerprintOf, hr, terminal_iff]
  · simpa [State.fingerprintOf, State.stateOf, hur] using hu

/-- Finishing a Run whose joined attempts are finished or still demanded. -/
theorem finishRun (h : SingleFlight s) (run : RunRef)
    (hjoined : ∀ r ∈ (s.runObjects run).joined, (s.stateOf r).Terminal ∨
      (s.computations r).demanders.filter (· ≠ (s.runObjects run).runId) ≠ []) :
    SingleFlight (finishRun s run) := by
  have hf := finishRun_finished s run
  have hcell : ∀ u, (Scheduler.finishRun s run).stateOf u = s.stateOf u ∧
      (Scheduler.finishRun s run).fingerprintOf u = s.fingerprintOf u := by
    intro u
    rw [State.stateOf, State.fingerprintOf, hf.computations u]
    split_ifs <;> exact ⟨rfl, rfl⟩
  refine h.of_fewer (fun u hu => ⟨(hcell u).1 ▸ hu, (hcell u).2⟩) ?_
  intro u hu hget
  by_contra hgone
  obtain ⟨hmem, hempty⟩ := hf.dropped _ u hget hgone
  rcases hjoined u hmem with hterminal | hdemanded
  · exact hu ((hcell u).1 ▸ hterminal)
  · exact hdemanded hempty

theorem dispatch (concurrency : ℕ) (h : SingleFlight s) : SingleFlight (dispatch concurrency s) :=
  dispatch_rule (P := SingleFlight) (fun _ r _ h => h.resolveRecord r)
    (fun _ _ h => h) (fun _ _ hr _ h => h.startRecord hr)
    (fun _ run _ _ hjoined h => h.finishRun run (fun r hr => Or.inl (hjoined r hr))) s h

section

variable (h : SingleFlight s)
include h

theorem withdrawRecords (runId : RunId) (refs : List Ref) :
    SingleFlight (withdrawRecords s runId refs).1 := by
  refine withdrawRecords_rule (P := SingleFlight) ?_ ?_ s refs h
  · intro t r ht
    refine ht.of_fewer (fun u hu => ?_) (fun _ _ hget => hget)
    by_cases hur : u = r
    · subst u
      simpa [State.fingerprintOf, State.stateOf] using hu
    · simpa [State.fingerprintOf, State.stateOf, hur] using hu
  · intro t r _ _ ht
    refine ht.of_fewer (fun u hu => ?_) (fun _ _ hget => hget)
    by_cases hur : u = r
    · subst u
      exact absurd (by simp [State.stateOf, cancelRecord, terminal_iff]) hu
    · simpa [State.fingerprintOf, State.stateOf, cancelRecord, hur] using hu

theorem kept (hrecords : s'.records = s.records) (hstate : ∀ u, s'.stateOf u = s.stateOf u)
    (hfp : ∀ u, s'.fingerprintOf u = s.fingerprintOf u) : SingleFlight s' := by
  refine h.of_fewer (fun u hu => ⟨hstate u ▸ hu, hfp u⟩) ?_
  intro u _ hget
  rw [hrecords]
  exact hget

/-- A fresh attempt replaces a terminal one, so it is the only unfinished one. -/
theorem join (runId : RunId) (c : ComputationPlan) (hasResult : Bool) :
    SingleFlight (join s runId c hasResult).2 := by
  rcases join_cases s runId c hasResult with ⟨-, heq⟩ | ⟨-, hterminal, heq⟩ | ⟨-, r, -, -, heq⟩ <;>
    rw [heq]
  · intro u hu
    by_cases hnew : u = s.nextComputation
    · subst u
      exact absurd (by simp [State.stateOf, terminal_iff]) hu
    · have hold := h u (by simpa [State.stateOf, hnew] using hu)
      simpa [State.fingerprintOf, hnew] using hold
  · intro u hu
    by_cases hnew : u = s.nextComputation
    · subst u
      simp [State.fingerprintOf]
    · have hopen : ¬ (s.stateOf u).Terminal := by simpa [State.stateOf, hnew] using hu
      have hold := h u hopen
      have hne : s.fingerprintOf u ≠ c.fingerprint := by
        intro heq
        rw [heq] at hold
        exact hopen (hterminal u hold)
      have hfp : ((allocate s { plan := c, demanders := [runId] }).setRecords
          (s.records.set c.fingerprint s.nextComputation)).fingerprintOf u = s.fingerprintOf u := by
        simp [State.fingerprintOf, hnew]
      rw [hfp, State.setRecords_records, Dict.get?_set_ne _ _ hne]
      exact hold
  · refine h.kept rfl ?_ ?_
    · intro u
      by_cases hu : u = r <;> simp [State.stateOf, addDemander, hu]
    · intro u
      by_cases hu : u = r <;> simp [State.fingerprintOf, addDemander, hu]

theorem joinNext (i : ℕ) (task : SubmitTask) (run : RunRef) (joined : Dict Fingerprint Ref)
    (c : ComputationPlan) (rest : List ComputationPlan) (hasResult : Bool) :
    SingleFlight (joinNext s i task run joined c rest hasResult).state := by
  have hjoin : SingleFlight (joinedState s task.runId run c hasResult) :=
    (h.join task.runId c hasResult).kept rfl (fun _ => rfl) (fun _ => rfl)
  obtain ⟨_, t, _, hwired, heq⟩ := joinNext_wired s i task run joined c rest hasResult
  rw [heq]
  exact hjoin.kept hwired.records hwired.stateOf hwired.fingerprintOf

end

end SingleFlight

/-- A record that may be released by the Run with this id: it is finished, or
another Run demands it. -/
def SettledWithout (s : State) (runId : RunId) (r : Ref) : Prop :=
  (s.stateOf r).Terminal ∨ (s.computations r).demanders.filter (· ≠ runId) ≠ []

instance (s : State) (runId : RunId) (r : Ref) : Decidable (SettledWithout s runId r) :=
  inferInstanceAs (Decidable (_ ∨ _))

namespace SettledWithout

variable {s : State} {runId : RunId} {r : Ref}

theorem discardDemander (h : SettledWithout s runId r) (u : Ref) :
    SettledWithout (s.discardDemander runId u) runId r := by
  by_cases hr : r = u
  · subst u
    simpa [SettledWithout, State.stateOf] using h
  · simpa [SettledWithout, State.stateOf, hr] using h

theorem cancelRecord (h : SettledWithout s runId r) (u : Ref) :
    SettledWithout (cancelRecord s u) runId r := by
  by_cases hr : r = u
  · exact Or.inl (by simp [State.stateOf, Scheduler.cancelRecord, hr, terminal_iff])
  · simpa [SettledWithout, State.stateOf, Scheduler.cancelRecord, hr] using h

/-- Withdrawing settles every record it goes over. -/
theorem withdrawRecords (refs : List Ref) (s : State) :
    ∀ r ∈ refs, SettledWithout (withdrawRecords s runId refs).1 runId r := by
  induction refs generalizing s with
  | nil => simp
  | cons u rest ih =>
    intro r hr
    simp only [Scheduler.withdrawRecords]
    rcases List.mem_cons.mp hr with rfl | hrest
    · -- the record itself is settled now and stays so while the rest is withdrawn
      refine withdrawRecords_rule (P := fun t => SettledWithout t runId r)
        (fun t u h => h.discardDemander u) (fun t u _ _ h => h.cancelRecord u) _ rest ?_
      rcases withdrawRecord_cases s runId r with ⟨hkept, heq⟩ | ⟨-, -, heq⟩ <;> rw [heq]
      · exact discardDemander hkept r
      · exact Or.inl (by simp [State.stateOf, Scheduler.cancelRecord, terminal_iff])
    · exact ih _ r hrest

end SettledWithout

/-- The condition under which a resumed cancel forgets no unfinished attempt:
what its Run has joined, also since the cancel began, is finished or demanded
by another Run. -/
def CancelSettled (s : State) (a : Action) : Prop :=
  ∀ i task, a = .cancelResumes i → s.cancels i = some task →
    ∀ r ∈ (s.runObjects task.run).joined, SettledWithout s (s.runObjects task.run).runId r

variable {concurrency : ℕ} {a : Action}

theorem SingleFlight.effect {s : State} (hvalid : Valid concurrency s) (h : SingleFlight s)
    {p : Prepared} (hmeets : CancelSettled s a) (he : Effect s a p) : SingleFlight p.state := by
  cases he with
  | quiet hquiet => exact h.kept hquiet.records hquiet.stateOf hquiet.fingerprintOf
  | drops i => exact h.kept rfl (fun _ => rfl) (fun _ => rfl)
  | registers i _ hquiet _ =>
    have hq := h.kept hquiet.records hquiet.stateOf hquiet.fingerprintOf
    unfold register
    split
    · exact hq.kept rfl (fun _ => rfl) (fun _ => rfl)
    · exact hq.kept rfl (fun _ => rfl) (fun _ => rfl)
  | joins i _ => exact h.joinNext i _ _ _ _ _ _
  | @withdraws runId run hrun _ _ =>
    have hid := (hvalid.registered.runs_get hrun).2
    have hkept := RunsKept.withdraw s runId (hvalid.registered.runs_get hrun).1
    have hmark : SingleFlight (s.modifyRun run (fun x => { x with withdrawn := true })) :=
      h.kept rfl (fun _ => rfl) (fun _ => rfl)
    have hwithdraw : SingleFlight (withdraw s runId run).1 := hmark.withdrawRecords runId _
    refine hwithdraw.finishRun run ?_
    rw [hkept.runId, hid]
    intro r hr
    refine SettledWithout.withdrawRecords _ _ r ?_
    simpa [withdraw_runObjects] using hr
  | @awaits runId run _ _ =>
    have hmark : SingleFlight (s.modifyRun run (fun x => { x with withdrawn := true })) :=
      h.kept rfl (fun _ => rfl) (fun _ => rfl)
    exact (hmark.withdrawRecords runId _).kept rfl (fun _ => rfl) (fun _ => rfl)
  | @answers i task htask =>
    have hdrop : SingleFlight (s.setCancel i none) := h.kept rfl (fun _ => rfl) (fun _ => rfl)
    exact hdrop.finishRun task.run (hmeets i task rfl htask)
  | @settles _ t r state hquiet hrunning hstate =>
    have hq := h.kept hquiet.records hquiet.stateOf hquiet.fingerprintOf
    refine hq.of_fewer ?_ (fun _ _ hget => hget)
    intro u hu
    by_cases hur : u = r
    · subst u
      refine absurd ?_ hu
      rcases hstate with rfl | ⟨rfl, -⟩ <;> simp [State.stateOf, terminal_iff]
    · simpa [State.stateOf, State.fingerprintOf, hur] using hu

theorem SingleFlight.reachable {store : ResultStore} {s : State} {meets : State → Action → Prop}
    (hmeets : ∀ s a, meets s a → CancelSettled s a)
    (h : Reachable (step concurrency) meets (initial store) s) :
    Valid concurrency s ∧ SingleFlight s := by
  refine invariant_of_effects (I := SingleFlight) ?_ ?_ ?_ h
  · intro r hr
    exact absurd (by simp [State.stateOf, vacantComputation, terminal_iff]) hr
  · exact fun s a p hvalid hs ha _ he => hs.effect hvalid (hmeets s a ha) he
  · exact fun s a p _ _ _ _ hs => hs.dispatch concurrency

/-- In every run the budget is kept and every transition is legal. Where no
resumed cancel releases an unfinished attempt that its Run alone demands,
every unfinished attempt is also the current one for its fingerprint. -/
theorem single_flight_and_budget (concurrency : ℕ) (store : ResultStore) :
    (∀ s, Reachable (step concurrency) (fun _ _ => True) (initial store) s →
      (∀ r, r ∈ s.running ↔ s.stateOf r = .running) ∧ s.running.Nodup ∧
      s.running.length ≤ concurrency ∧ s.illegalTransitions = []) ∧
    (∀ s, Reachable (step concurrency) CancelSettled (initial store) s → SingleFlight s) := by
  constructor
  · intro s hs
    have hsound := Sound.reachable hs
    exact ⟨hsound.running_iff, hsound.running_nodup, hsound.budget, hsound.legal⟩
  · intro s hs
    exact (SingleFlight.reachable (fun _ _ h => h) hs).2

/-- The condition as a test on the state before the step. -/
def cancelSettled (s : State) : Action → Bool
  | .cancelResumes i => (s.cancels i).all (fun task =>
    (s.runObjects task.run).joined.all (SettledWithout s (s.runObjects task.run).runId ·))
  | _ => true

theorem cancelSettled_sound {s : State} (h : cancelSettled s a) : CancelSettled s a := by
  rintro i task rfl htask r hr
  simp only [cancelSettled, htask, Option.all_some, List.all_eq_true, decide_eq_true_eq] at h
  exact h r hr

section Examples

theorem single_flight_after_cancel :
    ∃ s, Reachable (step 1) CancelSettled (initial ResultStore.empty) s ∧
      s.stateOf 0 = .cancelled ∧ SingleFlight s := by
  obtain ⟨s, hs, htest⟩ := exists_reachable (step 1) CancelSettled cancelSettled
    (initial ResultStore.empty) cancelledRun (fun s => s.stateOf 0 = .cancelled)
    (fun _ _ _ h => cancelSettled_sound h) (by decide)
  exact ⟨s, hs, by simpa using htest, (single_flight_and_budget 1 ResultStore.empty).2 s hs⟩

theorem distinct_unwired : ([computationOf "x" [], computationOf "y" [], computationOf "w" []].map
    ComputationPlan.fingerprint).Nodup := by decide

/-- Run 1 is cancelled while its own submit is still joining: `y` is joined
after the withdrawal and forgotten, still pending, when the cancel resumes. -/
def forgottenAttempt : List Action :=
  [.submit "0" ⟨[], [computationOf "z" []], distinct_one "z"⟩] ++ joins 0 ++
  [.submit "1" ⟨[], [computationOf "x" [], computationOf "y" [], computationOf "w" []],
    distinct_unwired⟩] ++ joins 1 ++ completes 0 ++ [.cancel "1"] ++ joins 1 ++
  [.taskUnwinds 1, .cancelResumes 0, .submit "2" ⟨[], [computationOf "y" []], distinct_one "y"⟩] ++
  joins 2

theorem two_attempts_in_flight :
    ∃ s, Reachable (step 1) (fun _ _ => True) (initial ResultStore.empty) s ∧
      ∃ r u, r ≠ u ∧ s.fingerprintOf r = s.fingerprintOf u ∧
        ¬ (s.stateOf r).Terminal ∧ ¬ (s.stateOf u).Terminal := by
  obtain ⟨s, hs, htest⟩ := exists_reachable (step 1) (fun _ _ => True) (fun _ _ => true)
    (initial ResultStore.empty) forgottenAttempt
    (fun s => s.fingerprintOf 2 = s.fingerprintOf 3 ∧
      ¬ (s.stateOf 2).Terminal ∧ ¬ (s.stateOf 3).Terminal)
    (fun _ _ _ _ => trivial) (by decide +kernel)
  exact ⟨s, hs, 2, 3, by decide, by simpa using htest⟩

end Examples

end Grafy.Scheduler
