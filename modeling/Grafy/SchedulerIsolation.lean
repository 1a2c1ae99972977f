import Grafy.SchedulerDependencies
import Grafy.SchedulerSingleFlight

/-!
Cancellation isolation: what becomes of a Run that was not cancelled while
others are. Demand is counted per record, but a cancellation spreads along
dependencies, and these may have been wired by another Run than the one whose
demand counts. A Run is safe as long as nothing it has joined waits on a
record that a cancel withdraws; where that is so at every cancel, and no submit
brings such a wait about later, every uncancelled Run succeeds.
-/
namespace Grafy.Scheduler

open Fingerprints Instances Lifecycle OrderedDict Planning Reachability Results

theorem joinedState_computations (s : State) (runId : RunId) (run : RunRef) (c : ComputationPlan)
    (hasResult : Bool) : (joinedState s runId run c hasResult).computations =
      (join s runId c hasResult).2.computations := rfl

variable {s s' : State} {runId : RunId} {a : Action} {p : Prepared} {sha256 : String → Fingerprint}
  {store : ResultStore} {plan : RunPlan}

section Identity

/-- A Run that was not cancelled is not a vacant cell. -/
theorem Registered.live (h : Registered s) :
    ∀ x, (s.runObjects x).withdrawn = false → x < s.nextRun := by
  intro x hx
  by_contra hge
  rw [h.vacant x (Nat.le_of_not_lt hge)] at hx
  simp [vacantRun] at hx

/-- The table of Runs holds every Run under its id, so no two share one. -/
def Keyed (s : State) : Prop := ∀ x, x < s.nextRun → s.runs.get? (s.runObjects x).runId = some x

namespace Keyed

section

variable (h : Keyed s)
include h

variable {x : RunRef}

theorem injective {y : RunRef} (hx : x < s.nextRun) (hy : y < s.nextRun)
    (heq : (s.runObjects x).runId = (s.runObjects y).runId) : x = y := by
  have hget := h x hx
  rw [heq, h y hy] at hget
  exact (Option.some.inj hget).symm

theorem mem_values (hx : x < s.nextRun) : x ∈ s.runs.values := Dict.mem_values_of_get? (h x hx)

theorem kept (hnext : s'.nextRun = s.nextRun) (hruns : s'.runs = s.runs)
    (hrunId : ∀ x, (s'.runObjects x).runId = (s.runObjects x).runId) : Keyed s' := by
  intro x hx
  rw [hruns, hrunId x]
  exact h x (hnext ▸ hx)

theorem finishRun (run : RunRef) : Keyed (finishRun s run) := by
  have hf := finishRun_finished s run
  refine h.kept hf.calls.nextRun hf.calls.runs ?_
  intro x
  rw [hf.runObjects x]
  split_ifs with hx
  · rw [hx]
    rfl
  · rfl

theorem withdraw (runId : RunId) (run : RunRef) : Keyed (withdraw s runId run).1 := by
  have hw := withdraw_withdrawn s runId run
  refine h.kept hw.calls.nextRun hw.calls.runs ?_
  intro x
  rw [withdraw_runObjects]
  by_cases hx : x = run <;> simp [hx]

theorem allocateRun (plan : RunPlan) (hfree : s.runs.get? runId = none) :
    Keyed (allocateRun s runId plan) := by
  intro x hx
  rcases Nat.lt_succ_iff_lt_or_eq.mp hx with hlt | rfl
  · have hold := h x hlt
    have hne : (s.runObjects x).runId ≠ runId := by
      intro heq
      rw [heq, hfree] at hold
      simp at hold
    simpa [Nat.ne_of_lt hlt, Dict.get?_set_ne _ _ hne] using hold
  · simp

theorem joinNext (i : ℕ) (task : SubmitTask) (run : RunRef) (joined : Dict Fingerprint Ref)
    (c : ComputationPlan) (rest : List ComputationPlan) (hasResult : Bool) :
    Keyed (joinNext s i task run joined c rest hasResult).state := by
  have hjoin := RunsKept.join s task.runId c hasResult
  have hjoined : Keyed (joinedState s task.runId run c hasResult) := by
    refine h.kept hjoin.nextRun hjoin.runs ?_
    intro x
    rw [joinedState_runObjects]
    split_ifs with hx
    · rw [hx]
    · rfl
  obtain ⟨_, t, _, hwired, heq⟩ := joinNext_wired s i task run joined c rest hasResult
  rw [heq]
  refine hjoined.kept hwired.calls.nextRun hwired.calls.runs ?_
  intro x
  rw [State.setSubmit_runObjects, hwired.runObjects]

/-- Only a submit that has just checked its id registers it. -/
theorem effect (he : Effect s a p) (hfree : RegistersFree s a) : Keyed p.state := by
  have hquiets : ∀ {t : State}, Quiet s t → Keyed t := fun hq =>
    h.kept hq.nextRun hq.runs (fun x => by rw [hq.runObjects])
  cases he with
  | quiet hquiet => exact hquiets hquiet
  | drops i => exact h.kept rfl rfl (fun _ => rfl)
  | @registers _ t i runId plan hregistering hquiet _ =>
    have hnone : t.runs.get? runId = none := by
      rw [hquiet.runs]
      exact hfree.free hregistering
    have halloc := (hquiets hquiet).allocateRun plan hnone
    unfold register
    split
    · exact halloc.kept rfl rfl (fun _ => rfl)
    · exact halloc.kept rfl rfl (fun _ => rfl)
  | joins i _ => exact h.joinNext i _ _ _ _ _ _
  | @withdraws runId run _ _ _ => exact (h.withdraw runId run).finishRun run
  | @awaits runId run _ _ => exact (h.withdraw runId run).kept rfl rfl (fun _ => rfl)
  | @answers i task _ =>
    have hdrop : Keyed (s.setCancel i none) := h.kept rfl rfl (fun _ => rfl)
    exact hdrop.finishRun task.run
  | settles r state hquiet _ _ => exact (hquiets hquiet).kept rfl rfl (fun _ => rfl)

end

end Keyed

/-- No submit is suspended before its Run is registered. -/
def AllJoining (s : State) : Prop := ∀ i task, s.submits i = some task → ¬ task.point.Validates

theorem AllJoining.prepare (h : AllJoining s) (hp : prepare s a = some p)
    (hplanned : SubmitsPlanned sha256 s a) : AllJoining p.state := by
  intro i task htask hvalidates
  rcases (SubmitsMoved.prepare hp).submits i task htask with
    ⟨old, hold, -, -, himp⟩ | ⟨-, -, ha, hopen⟩
  · exact h i old hold (himp hvalidates)
  · exact hopen hvalidates (hplanned _ _ ha).closed

theorem AllJoining.registersFree (h : AllJoining s) (a : Action) : RegistersFree s a := by
  intro i runId plan f d _ hsub
  exact absurd trivial (h i _ hsub)

end Identity

variable {r : Ref}

section Failures

/-- A runner or a store call that raises. -/
def Action.raises : Action → Bool
  | .submitRaises _ => true
  | .runnerRaises _ _ => true
  | .taskRaises _ _ => true
  | _ => false

def ExecutePoint.RecordsFailure : ExecutePoint → Prop
  | .recordFailure _ _ _ => True
  | _ => False

/-- Nothing has failed, and no task is recording a failure. -/
structure Unfailing (s : State) : Prop where
  states : ∀ r, s.stateOf r ≠ .failed ∧ s.stateOf r ≠ .skipped
  points : ∀ r point, (s.computations r).task.map ExecuteTask.point = some point →
    ¬ point.RecordsFailure

namespace Unfailing

theorem kept (h : Unfailing s)
    (hstate : ∀ u, s'.stateOf u = s.stateOf u ∨ (s'.stateOf u ≠ .failed ∧ s'.stateOf u ≠ .skipped))
    (hpoint : ∀ u point, (s'.computations u).task.map ExecuteTask.point = some point →
      (s.computations u).task.map ExecuteTask.point = some point ∨ ¬ point.RecordsFailure) :
    Unfailing s' := by
  refine ⟨?_, ?_⟩
  · intro u
    rcases hstate u with hsame | hother
    · rw [hsame]
      exact h.states u
    · exact hother
  · intro u point htask
    rcases hpoint u point htask with hsame | hother
    · exact h.points u point hsame
    · exact hother

/-- Only demand, dependencies, Runs and calls change. -/
theorem same (h : Unfailing s) (hcells : ∀ u, (s'.computations u).state = (s.computations u).state ∧
    (s'.computations u).task = (s.computations u).task) : Unfailing s' := by
  refine h.kept (fun u => Or.inl (hcells u).1) ?_
  intro u point htask
  rw [(hcells u).2] at htask
  exact Or.inl htask

theorem setPoint (h : Unfailing s) (r : Ref) {point : ExecutePoint}
    (hpoint : ¬ point.RecordsFailure) : Unfailing (setPoint s r point) := by
  refine h.kept (fun u => Or.inl (stateOf_setPoint s r point u)) ?_
  intro u point' htask
  rw [computations_setPoint] at htask
  split_ifs at htask
  · right
    cases hold : (s.computations u).task with
    | none => simp [hold] at htask
    | some task =>
      obtain rfl : point = point' := by simpa [hold] using htask
      exact hpoint
  · exact Or.inl htask

theorem finishRun (h : Unfailing s) (run : RunRef) : Unfailing (finishRun s run) := by
  have hf := finishRun_finished s run
  refine h.same ?_
  intro u
  rw [hf.computations u]
  split_ifs <;> exact ⟨rfl, rfl⟩

theorem withdraw (h : Unfailing s) (runId : RunId) (run : RunRef) :
    Unfailing (withdraw s runId run).1 := by
  have hw := withdraw_withdrawn s runId run
  refine h.kept ?_ ?_
  · intro u
    rcases hw.state u with hsame | ⟨hcancelled, -⟩
    · exact Or.inl hsame
    · right
      rw [hcancelled]
      exact ⟨by decide, by decide⟩
  · intro u point htask
    rw [hw.point u] at htask
    exact Or.inl htask

theorem joinNext (h : Unfailing s) (i : ℕ) (task : SubmitTask) (run : RunRef)
    (joined : Dict Fingerprint Ref) (c : ComputationPlan) (rest : List ComputationPlan)
    (hasResult : Bool) : Unfailing (joinNext s i task run joined c rest hasResult).state := by
  have hjoined : Unfailing (joinedState s task.runId run c hasResult) := by
    refine h.kept ?_ ?_
    · intro u
      rw [State.stateOf, joinedState_computations]
      rcases join_cell s task.runId c hasResult u with ⟨demanders, heq⟩ | ⟨-, state, _, heq, hst⟩
      · exact Or.inl (by rw [heq, State.stateOf])
      · right
        rw [heq]
        rcases hst with rfl | rfl <;> simp
    · intro u point htask
      rw [joinedState_computations] at htask
      rcases join_cell s task.runId c hasResult u with ⟨demanders, heq⟩ | ⟨-, state, _, heq, -⟩
      · rw [heq] at htask
        exact Or.inl htask
      · rw [heq] at htask
        simp at htask
  obtain ⟨_, t, _, hwired, heq⟩ := joinNext_wired s i task run joined c rest hasResult
  rw [heq]
  refine hjoined.same ?_
  intro u
  obtain ⟨deps, hcell, -, -⟩ := hwired.computations u
  rw [State.setSubmit_computations, hcell]
  exact ⟨rfl, rfl⟩

theorem validate (h : Unfailing s) (i : ℕ) (runId : RunId) (plan : RunPlan)
    (todo : List (Fingerprint × Fingerprint)) : Unfailing (validate s i runId plan todo).state := by
  unfold Scheduler.validate register
  split
  · split
    · exact h.same (fun _ => ⟨rfl, rfl⟩)
    · exact h.same (fun _ => ⟨rfl, rfl⟩)
  · exact h.same (fun _ => ⟨rfl, rfl⟩)

theorem finish (h : Unfailing s) (r : Ref) : Unfailing (finish s r .succeed).state := by
  have hdone : Unfailing (Scheduler.setPoint s r .done) := h.setPoint r id
  simp only [Scheduler.finish]
  split_ifs
  · exact hdone
  · simp only [State.apply]
    split
    · rename_i state hmove
      have hstate : state = .succeeded := transition_succeed hmove
      refine hdone.kept ?_ ?_
      · intro u
        by_cases hu : u = r
        · right
          simp [State.stateOf, hu, hstate]
        · left
          simp [State.stateOf, hu]
      · intro u point htask
        left
        by_cases hu : u = r
        · simpa [hu] using htask
        · simpa [hu] using htask
    · exact hdone.same (fun _ => ⟨rfl, rfl⟩)

theorem recordSuccesses (h : Unfailing s) (r : Ref) (keys : List InstanceKey) :
    Unfailing (recordSuccesses s r keys).state := by
  cases keys with
  | nil => exact h.finish r
  | cons key rest => exact h.setPoint r id

/-- Where nothing raises, nothing fails. -/
theorem prepare (h : Unfailing s) (heq : prepare s a = some p) (hraises : a.raises = false) :
    Unfailing p.state := by
  cases a with
  | submit runId plan =>
    cases heq
    unfold Scheduler.submit
    split_ifs
    · exact h.same (fun _ => ⟨rfl, rfl⟩)
    · have hopen : Unfailing (openSubmit s) := h.same (fun _ => ⟨rfl, rfl⟩)
      exact hopen.validate _ runId plan _
  | submitAnswered i =>
    simp only [Scheduler.prepare] at heq
    split at heq
    · cases heq
      exact h.same (fun _ => ⟨rfl, rfl⟩)
    · simp at heq
  | submitResumes i =>
    simp only [Scheduler.prepare] at heq
    split at heq
    · cases heq
      unfold submitResume
      split
      · split_ifs
        · exact h.validate i _ _ _
        · exact h.same (fun _ => ⟨rfl, rfl⟩)
      · exact h.joinNext i _ _ _ _ _ _
    · simp at heq
  | cancel runId =>
    cases heq
    unfold Scheduler.cancel
    split
    · exact h
    · rename_i run _
      split_ifs
      · exact h
      · simp only
        split
        · exact (h.withdraw runId run).finishRun run
        · exact (h.withdraw runId run).same (fun _ => ⟨rfl, rfl⟩)
  | cancelResumes i =>
    simp only [Scheduler.prepare] at heq
    split at heq
    · split_ifs at heq
      cases heq
      have hdrop : Unfailing (s.setCancel i none) := h.same (fun _ => ⟨rfl, rfl⟩)
      exact hdrop.finishRun _
    · simp at heq
  | runnerReturns r outputs | taskUnwinds r =>
    simp only [Scheduler.prepare] at heq
    split_ifs at heq
    cases heq
    exact h.setPoint r id
  | taskAnswered r =>
    obtain ⟨s', hs', rfl⟩ := Option.map_eq_some_iff.mp heq
    have hstore : ∀ store, Unfailing (s.setStore store) := fun store => h.same (fun _ => ⟨rfl, rfl⟩)
    unfold taskAnswered at hs'
    simp only at hs'
    split at hs'
    · cases hs'
      exact (hstore _).setPoint r id
    · obtain ⟨store, -, rfl⟩ := Option.map_eq_some_iff.mp hs'
      exact (hstore store).setPoint r id
    · rename_i hpoint
      exact absurd trivial (h.points r _ hpoint)
    · simp at hs'
  | taskResumes r =>
    simp only [Scheduler.prepare, taskResumes] at heq
    split at heq
    · cases heq
      exact h.recordSuccesses r _
    · cases heq
      exact h.recordSuccesses r _
    · rename_i hpoint
      exact absurd trivial (h.points r _ hpoint)
    · simp at heq
  | appended f outputs =>
    cases heq
    exact h.same (fun _ => ⟨rfl, rfl⟩)
  | _ => simp [Action.raises] at hraises

theorem resolveRecord (h : Unfailing s) (r : Ref) : Unfailing (resolveRecord s r).1 := by
  have hmove : ∀ state, state ≠ .failed ∧ state ≠ .skipped → Unfailing (s.setState r state) := by
    intro state hstate
    refine h.kept ?_ ?_
    · intro u
      by_cases hu : u = r <;> simp [hu, hstate]
    · intro u point htask
      left
      by_cases hu : u = r
      · simpa [hu] using htask
      · simpa [hu] using htask
  rcases resolveRecord_cases s r with heq | ⟨-, ⟨u, -, hfailed⟩, -⟩ | ⟨-, -, heq⟩ | ⟨-, -, heq⟩
  · rw [heq]
    exact h
  · have hu := h.states u
    simp [failedStates, hu.1, hu.2] at hfailed
  · rw [heq]
    exact hmove _ (by decide)
  · rw [heq]
    exact (hmove _ (by decide)).same (fun _ => ⟨rfl, rfl⟩)

theorem startRecord (h : Unfailing s) (hr : s.stateOf r = .ready) :
    Unfailing (startRecord s r) := by
  rw [startRecord_eq hr]
  refine h.kept ?_ ?_
  · intro u
    by_cases hu : u = r <;> simp [State.stateOf, hu]
  · intro u point htask
    by_cases hu : u = r
    · right
      obtain rfl : ExecutePoint.runner = point := by simpa [hu] using htask
      exact id
    · left
      simpa [hu] using htask

end Unfailing

end Failures

variable {edges : Ref → Ref → Prop}

section Waiting

/-- A pending record waits for each of its dependencies. -/
def Waits (s : State) (r u : Ref) : Prop :=
  s.stateOf r = .pending ∧ u ∈ (s.computations r).dependencies

/-- Neither cancelled nor, through pending records, waiting on a cancelled
one. -/
def Clear (s : State) (r : Ref) : Prop :=
  ∀ u, Relation.ReflTransGen (Waits s) r u → s.stateOf u ≠ .cancelled

namespace Clear

theorem not_cancelled (h : Clear s r) : s.stateOf r ≠ .cancelled := h r .refl

theorem waits (h : Clear s r) {u : Ref} (hu : Waits s r u) : Clear s u :=
  fun v hv => h v (.head hu hv)

/-- No wait and no cancellation is new. -/
theorem of_fewer (h : Clear s r) (hwaits : ∀ u v, Waits s' u v → Waits s u v)
    (hcancelled : ∀ u, s'.stateOf u = .cancelled → s.stateOf u = .cancelled) : Clear s' r :=
  fun u hu hstate => h u (Relation.ReflTransGen.mono hwaits _ _ hu) (hcancelled u hstate)

theorem of_not_pending (hpending : s.stateOf r ≠ .pending) (hcancelled : s.stateOf r ≠ .cancelled) :
    Clear s r := by
  intro u hu
  rcases hu.cases_head with rfl | ⟨v, hv, -⟩
  · exact hcancelled
  · exact absurd hv.1 hpending

theorem of_no_dependencies (hdeps : (s.computations r).dependencies = [])
    (hcancelled : s.stateOf r ≠ .cancelled) : Clear s r := by
  intro u hu
  rcases hu.cases_head with rfl | ⟨v, hv, -⟩
  · exact hcancelled
  · have hmem := hv.2
    rw [hdeps] at hmem
    simp at hmem

/-- Edges are wired only between records that are all clear, or where nothing
this record waits on is concerned. -/
theorem wired (h : Clear s r) (hw : Wired edges s s')
    (hedges : (∀ u v, edges u v → Clear s v) ∨ ∀ u v, edges u v → ¬ Relation.ReflTransGen (Waits s)
      r u) : Clear s' r := by
  have hstep : ∀ u v, Waits s' u v → Waits s u v ∨ edges u v := by
    intro u v hwaits
    obtain ⟨hpending, hmem⟩ := hwaits
    obtain ⟨deps, heq, -, hnew⟩ := hw.computations u
    rw [hw.stateOf u] at hpending
    rw [heq] at hmem
    exact (hnew v hmem).imp (fun hold => ⟨hpending, hold⟩) id
  intro u hu
  rw [hw.stateOf u]
  rcases hedges with hclear | hapart
  · -- everything reached is clear in the old state
    have hreached : Clear s u := by
      induction hu with
      | refl => exact h
      | tail _ hlast ih =>
        rcases hstep _ _ hlast with hold | hnew
        · exact ih.waits hold
        · exact hclear _ _ hnew
    exact hreached.not_cancelled
  · -- no new edge is ever taken
    have hreached : Relation.ReflTransGen (Waits s) r u := by
      induction hu with
      | refl => exact .refl
      | tail _ hlast ih =>
        rcases hstep _ _ hlast with hold | hnew
        · exact ih.tail hold
        · exact absurd ih (hapart _ _ hnew)
    exact h u hreached

end Clear

end Waiting

section Isolation

theorem runResult_all_succeeded {run : Run} (hw : run.withdrawn = false)
    (hall : ∀ r ∈ run.joined, s.stateOf r = .succeeded) :
    (runResult s run).status = .succeeded ∧
      ∀ entry ∈ (runResult s run).computations, entry.2 = .succeeded := by
  have hstates : ∀ (l : List Ref) (acc : Dict Fingerprint ComputationState),
      (∀ r ∈ l, s.stateOf r = .succeeded) → (∀ entry ∈ acc, entry.2 = .succeeded) →
      ∀ entry ∈ l.foldl (fun states r => Dict.set states (s.fingerprintOf r) (s.stateOf r)) acc,
        entry.2 = .succeeded := by
    intro l
    induction l with
    | nil => exact fun acc _ hacc => hacc
    | cons r rest ih =>
      intro acc hl hacc
      refine ih _ (fun u hu => hl u (List.mem_cons_of_mem _ hu)) ?_
      intro entry hentry
      rcases Dict.mem_set hentry with rfl | hold
      · exact hl r (List.mem_cons_self ..)
      · exact hacc entry hold
  have hcomputations := hstates run.joined [] hall (by simp)
  refine ⟨?_, hcomputations⟩
  simp only [runResult, hw, Bool.false_eq_true, ↓reduceIte]
  rw [if_neg]
  intro hany
  obtain ⟨state, hmem, hstate⟩ := List.any_eq_true.mp hany
  obtain ⟨entry, hentry, rfl⟩ := List.mem_map.mp hmem
  rw [hcomputations entry hentry] at hstate
  simp [unhealthyStates, failedStates] at hstate

/-- The records a suspended submit has joined or is about to share. -/
def Held (s : State) (joined : Dict Fingerprint Ref) (c : ComputationPlan) (hasResult : Bool)
    (r : Ref) : Prop :=
  r ∈ joined.values ∨
    (hasResult = false ∧ s.records.get? c.fingerprint = some r ∧ ¬ (s.stateOf r).Terminal)

/-- The condition under which the cancellation of a Run stays with it. A
cancel withdraws no record that a record of another uncancelled Run waits on
and nobody else demands; a submit of an uncancelled Run shares no record that
waits on a cancelled one; and a submit whose Run was cancelled meanwhile wires
nothing cancelled to what an uncancelled Run waits on. -/
structure Undisturbed (s : State) (a : Action) : Prop where
  cancels : ∀ runId run, a = .cancel runId → s.runs.get? runId = some run →
    (s.runObjects run).result = none → ∀ x ∈ s.runs.values, x ≠ run →
      (s.runObjects x).withdrawn = false → ∀ r ∈ (s.runObjects x).joined,
        ∀ u ∈ (s.runObjects run).joined, Relation.TransGen (Waits s) r u → SettledWithout s runId u
  shares : ∀ i runId plan run joined c rest, a = .submitResumes i →
    s.submits i = some ⟨runId, plan, .joining run joined c rest, some false⟩ →
    (s.runObjects run).withdrawn = false →
      ∀ r, s.records.get? c.fingerprint = some r → ¬ (s.stateOf r).Terminal → Clear s r
  wires : ∀ i runId plan run joined c hasResult, a = .submitResumes i →
    s.submits i = some ⟨runId, plan, .joining run joined c [], some hasResult⟩ →
    (s.runObjects run).withdrawn = true →
      (∀ v, Held s joined c hasResult v → Clear s v) ∨
      ∀ x ∈ s.runs.values, (s.runObjects x).withdrawn = false → ∀ r ∈ (s.runObjects x).joined,
        ∀ v, Held s joined c hasResult v → ¬ Relation.ReflTransGen (Waits s) r v

/-- What a join leaves of waits, cancellations, demand and successes. -/
structure JoinGrows (s s' : State) : Prop where
  waits : ∀ u v, Waits s' u v → Waits s u v
  cancelled : ∀ u, s'.stateOf u = .cancelled → s.stateOf u = .cancelled
  demanders : ∀ u, ∀ id ∈ (s.computations u).demanders, id ∈ (s'.computations u).demanders
  succeeded : ∀ u, s.stateOf u = .succeeded → s'.stateOf u = .succeeded

theorem JoinGrows.clear (h : JoinGrows s s') (hr : Clear s r) : Clear s' r :=
  hr.of_fewer h.waits h.cancelled

private theorem allocate_grows {c : Computation}
    (hvacant : s.computations s.nextComputation = vacantComputation) (hdeps : c.dependencies = [])
    (hstate : c.state ≠ .cancelled) (records : Dict Fingerprint Ref) :
    JoinGrows s ((allocate s c).setRecords records) := by
  refine ⟨?_, ?_, ?_, ?_⟩
  · intro u v hwaits
    obtain ⟨hpending, hmem⟩ := hwaits
    by_cases hu : u = s.nextComputation
    · subst u
      simp [hdeps] at hmem
    · exact ⟨by simpa [State.stateOf, hu] using hpending, by simpa [hu] using hmem⟩
  · intro u hu
    by_cases hnew : u = s.nextComputation
    · subst u
      simp [State.stateOf, hstate] at hu
    · simpa [State.stateOf, hnew] using hu
  · intro u id hid
    by_cases hnew : u = s.nextComputation
    · subst u
      rw [hvacant] at hid
      simp [vacantComputation] at hid
    · simpa [hnew] using hid
  · intro u hu
    by_cases hnew : u = s.nextComputation
    · subst u
      rw [State.stateOf, hvacant] at hu
      simp [vacantComputation] at hu
    · simpa [State.stateOf, hnew] using hu

theorem join_grows (hvacant : s.computations s.nextComputation = vacantComputation) (runId : RunId)
    (c : ComputationPlan) (hasResult : Bool) : JoinGrows s (join s runId c hasResult).2 := by
  rcases join_cases s runId c hasResult with ⟨-, heq⟩ | ⟨-, -, heq⟩ | ⟨-, r, -, -, heq⟩ <;> rw [heq]
  · exact allocate_grows hvacant rfl (by simp) s.records
  · exact allocate_grows hvacant rfl (by simp) _
  · refine ⟨?_, ?_, ?_, ?_⟩
    · intro u v hwaits
      obtain ⟨hpending, hmem⟩ := hwaits
      by_cases hu : u = r
      · subst u
        exact ⟨by simpa [State.stateOf, addDemander] using hpending,
          by simpa [addDemander] using hmem⟩
      · exact ⟨by simpa [State.stateOf, addDemander, hu] using hpending,
          by simpa [addDemander, hu] using hmem⟩
    · intro u hcancelled
      by_cases hu : u = r
      · simpa [State.stateOf, addDemander, hu] using hcancelled
      · simpa [State.stateOf, addDemander, hu] using hcancelled
    · intro u id hid
      by_cases hu : u = r
      · subst u
        simp only [addDemander, State.modify_computations, Function.update_self]
        split_ifs
        · exact hid
        · exact List.mem_append_left _ hid
      · simpa [addDemander, hu] using hid
    · intro u hsucceeded
      by_cases hu : u = r
      · subst u
        simpa [State.stateOf, addDemander] using hsucceeded
      · simpa [State.stateOf, addDemander, hu] using hsucceeded

/-- The record a join answers with: a new one, which waits on nothing, or the
one in flight. -/
theorem join_record (s : State) (runId : RunId) (c : ComputationPlan) (hasResult : Bool) :
    (runId ∈ ((join s runId c hasResult).2.computations (join s runId c hasResult).1).demanders ∨
      (join s runId c hasResult).2.stateOf (join s runId c hasResult).1 = .succeeded) ∧
    (((join s runId c hasResult).1 = s.nextComputation ∧
        Clear (join s runId c hasResult).2 (join s runId c hasResult).1) ∨
      (hasResult = false ∧ s.records.get? c.fingerprint = some (join s runId c hasResult).1 ∧
        ¬ (s.stateOf (join s runId c hasResult).1).Terminal)) := by
  rcases join_cases s runId c hasResult with
    ⟨-, heq⟩ | ⟨-, -, heq⟩ | ⟨hres, r, hget, hopen, heq⟩ <;> rw [heq]
  · exact ⟨Or.inr (by simp [State.stateOf]), Or.inl ⟨rfl,
      Clear.of_no_dependencies (by simp) (by simp [State.stateOf])⟩⟩
  · exact ⟨Or.inl (by simp), Or.inl ⟨rfl,
      Clear.of_no_dependencies (by simp) (by simp [State.stateOf])⟩⟩
  · refine ⟨Or.inl ?_, Or.inr ⟨hres, hget, hopen⟩⟩
    simp only [addDemander, State.modify_computations, Function.update_self]
    split_ifs with hmem
    · exact hmem
    · exact List.mem_append_right _ (List.mem_singleton_self _)

/-- What is known of the Runs that were not cancelled: what they have joined
is clear and demanded by them, or has succeeded, and their answer is a
success. -/
structure Isolated (s : State) : Prop where
  clear : ∀ x, (s.runObjects x).withdrawn = false → ∀ r ∈ (s.runObjects x).joined, Clear s r
  demanded : ∀ x, (s.runObjects x).withdrawn = false → ∀ r ∈ (s.runObjects x).joined,
    (s.runObjects x).runId ∈ (s.computations r).demanders ∨ s.stateOf r = .succeeded
  held : ∀ i call, s.joiningCall i = some call → (s.runObjects call.run).withdrawn = false →
    ∀ r ∈ call.joined.values, r ∈ (s.runObjects call.run).joined ∨ s.stateOf r = .succeeded
  answered : ∀ x, (s.runObjects x).withdrawn = false → ∀ result,
    (s.runObjects x).result = some result →
      result.status = .succeeded ∧ ∀ entry ∈ result.computations, entry.2 = .succeeded

namespace Isolated

variable {run : RunRef}

section

variable (h : Isolated s)
include h

section

variable (hobjects : s'.runObjects = s.runObjects)
  (hjoining : ∀ i call, s'.joiningCall i = some call → s.joiningCall i = some call)
include hobjects hjoining

/-- The Runs and their calls are the same, demand and successes stay, and
nothing becomes cancelled or waits for more. -/
theorem kept (hwaits : ∀ u v, Waits s' u v → Waits s u v)
    (hcancelled : ∀ u, s'.stateOf u = .cancelled → s.stateOf u = .cancelled)
    (hdemanders : ∀ u, ∀ id ∈ (s.computations u).demanders, id ∈ (s'.computations u).demanders)
    (hsucceeded : ∀ u, s.stateOf u = .succeeded → s'.stateOf u = .succeeded) : Isolated s' := by
  refine ⟨?_, ?_, ?_, ?_⟩
  · rw [hobjects]
    exact fun x hx r hr => (h.clear x hx r hr).of_fewer hwaits hcancelled
  · rw [hobjects]
    exact fun x hx r hr => (h.demanded x hx r hr).imp (hdemanders r _) (hsucceeded r)
  · rw [hobjects]
    exact fun i call hcall hx r hr =>
      (h.held i call (hjoining i call hcall) hx r hr).imp id (hsucceeded r)
  · rw [hobjects]
    exact h.answered

/-- One record moves on, neither to wait nor to be cancelled. -/
theorem moved {r : Ref} (hothers : ∀ u, u ≠ r → s'.computations u = s.computations u)
    (hdemanders : (s'.computations r).demanders = (s.computations r).demanders)
    (hstate : s'.stateOf r ≠ .pending ∧ s'.stateOf r ≠ .cancelled)
    (hbefore : s.stateOf r ≠ .succeeded) : Isolated s' := by
  refine h.kept hobjects hjoining ?_ ?_ ?_ ?_
  · intro u v hwaits
    by_cases hu : u = r
    · exact absurd (hu ▸ hwaits.1) hstate.1
    · rwa [Waits, State.stateOf, hothers u hu] at hwaits
  · intro u hcancelled
    by_cases hu : u = r
    · exact absurd (hu ▸ hcancelled) hstate.2
    · rwa [State.stateOf, hothers u hu] at hcancelled
  · intro u id hmem
    by_cases hu : u = r
    · rwa [hu, hdemanders, ← hu]
    · rwa [hothers u hu]
  · intro u hsucceeded
    by_cases hu : u = r
    · exact absurd (hu ▸ hsucceeded) hbefore
    · rwa [State.stateOf, hothers u hu]

theorem same
    (hcells : ∀ u, (s'.computations u).state = (s.computations u).state ∧ (s'.computations
      u).dependencies = (s.computations u).dependencies ∧ (s'.computations u).demanders =
      (s.computations u).demanders) : Isolated s' := by
  refine h.kept hobjects hjoining ?_ ?_ ?_ ?_
  · intro u v hwaits
    obtain ⟨hpending, hmem⟩ := hwaits
    rw [State.stateOf, (hcells u).1] at hpending
    rw [(hcells u).2.1] at hmem
    exact ⟨hpending, hmem⟩
  · intro u hu
    rwa [State.stateOf, (hcells u).1] at hu
  · intro u id hid
    rw [(hcells u).2.2]
    exact hid
  · intro u hu
    rw [State.stateOf, (hcells u).1]
    exact hu

end

/-- Finishing a Run that was cancelled, or all of whose records succeeded. -/
theorem finishRun (hkeyed : Keyed s)
    (hlive : ∀ x, (s.runObjects x).withdrawn = false → x < s.nextRun) (hlt : run < s.nextRun)
    (hend : (s.runObjects run).withdrawn = false → ∀ r ∈ (s.runObjects run).joined, s.stateOf r =
      .succeeded) :
    Isolated (finishRun s run) := by
  have hf := finishRun_finished s run
  have hstate : ∀ u, (Scheduler.finishRun s run).stateOf u = s.stateOf u := by
    intro u
    rw [State.stateOf, hf.computations u]
    split_ifs <;> rfl
  have hwaits : ∀ u v, Waits (Scheduler.finishRun s run) u v → Waits s u v := by
    intro u v hwaits
    obtain ⟨hpending, hmem⟩ := hwaits
    rw [hstate u] at hpending
    rw [hf.computations u] at hmem
    split_ifs at hmem <;> exact ⟨hpending, hmem⟩
  have hother : ∀ x, ((Scheduler.finishRun s run).runObjects x).withdrawn = false → x ≠ run →
      (Scheduler.finishRun s run).runObjects x = s.runObjects x ∧
        (s.runObjects x).withdrawn = false := by
    intro x hx hne
    rw [hf.runObjects x, if_neg hne] at hx ⊢
    exact ⟨rfl, hx⟩
  have hself : (Scheduler.finishRun s run).runObjects run = answeredRun s run := by
    rw [hf.runObjects run, if_pos rfl]
  refine ⟨?_, ?_, ?_, ?_⟩
  · intro x hx r hr
    by_cases hrun : x = run
    · subst x
      rw [hself] at hr
      simp [answeredRun] at hr
    · obtain ⟨heq, hold⟩ := hother x hx hrun
      rw [heq] at hr
      exact (h.clear x hold r hr).of_fewer hwaits (fun u hu => hstate u ▸ hu)
  · intro x hx r hr
    by_cases hrun : x = run
    · subst x
      rw [hself] at hr
      simp [answeredRun] at hr
    · obtain ⟨heq, hold⟩ := hother x hx hrun
      rw [heq] at hr ⊢
      rw [hstate r]
      refine (h.demanded x hold r hr).imp (fun hid => ?_) id
      have hne : (s.runObjects x).runId ≠ (s.runObjects run).runId :=
        fun heq => hrun (hkeyed.injective (hlive x hold) hlt heq)
      rw [hf.computations r]
      split_ifs
      · exact List.mem_filter.mpr ⟨hid, by simpa using hne⟩
      · exact hid
  · intro i call hcall hx r hr
    rw [State.joiningCall, hf.calls.submits] at hcall
    rw [hstate r]
    by_cases hrun : call.run = run
    · have hopen : (s.runObjects call.run).withdrawn = false := by
        rw [hrun, hself] at hx
        rw [hrun]
        exact hx
      rcases h.held i call hcall hopen r hr with hmem | hsucceeded
      · rw [hrun] at hmem hopen
        exact Or.inr (hend hopen r hmem)
      · exact Or.inr hsucceeded
    · obtain ⟨heq, hold⟩ := hother call.run hx hrun
      rw [heq]
      exact h.held i call hcall hold r hr
  · intro x hx result hresult
    by_cases hrun : x = run
    · subst x
      rw [hself] at hx hresult
      obtain rfl : runResult s (s.runObjects run) = result := Option.some.inj hresult
      exact runResult_all_succeeded hx (hend hx)
    · obtain ⟨heq, hold⟩ := hother x hx hrun
      rw [heq] at hresult
      exact h.answered x hold result hresult

/-- One more record is joined; a Run that was not cancelled gets a clear one. -/
theorem joined (hvacant : s.computations s.nextComputation = vacantComputation)
    (hid : (s.runObjects run).runId = runId) (c : ComputationPlan) (hasResult : Bool)
    (hclear : (s.runObjects run).withdrawn = false → Clear (join s runId c hasResult).2 (join s
      runId c hasResult).1) :
    Isolated (joinedState s runId run c hasResult) := by
  have hgrows := join_grows hvacant runId c hasResult
  have hrecord := (join_record s runId c hasResult).1
  have hobject : ∀ x, ((joinedState s runId run c hasResult).runObjects x).withdrawn =
      (s.runObjects x).withdrawn ∧
      ((joinedState s runId run c hasResult).runObjects x).runId = (s.runObjects x).runId ∧
      ((joinedState s runId run c hasResult).runObjects x).result = (s.runObjects x).result := by
    intro x
    rw [joinedState_runObjects]
    split_ifs with hx
    · rw [hx]
      exact ⟨rfl, rfl, rfl⟩
    · exact ⟨rfl, rfl, rfl⟩
  have hjoined : ∀ x r, r ∈ ((joinedState s runId run c hasResult).runObjects x).joined →
      r ∈ (s.runObjects x).joined ∨ (x = run ∧ r = (join s runId c hasResult).1) := by
    intro x r hr
    rw [joinedState_runObjects] at hr
    split_ifs at hr with hx
    · rcases List.mem_append.mp hr with hr | hr
      · exact Or.inl (hx.symm ▸ hr)
      · exact Or.inr ⟨hx, List.mem_singleton.mp hr⟩
    · exact Or.inl hr
  refine ⟨?_, ?_, ?_, ?_⟩
  · intro x hx r hr
    rw [(hobject x).1] at hx
    rcases hjoined x r hr with hold | ⟨rfl, rfl⟩
    · exact hgrows.clear (h.clear x hx r hold)
    · exact hclear hx
  · intro x hx r hr
    rw [(hobject x).1] at hx
    rw [(hobject x).2.1]
    rcases hjoined x r hr with hold | ⟨rfl, rfl⟩
    · exact (h.demanded x hx r hold).imp (hgrows.demanders r _) (hgrows.succeeded r)
    · rw [hid]
      exact hrecord
  · intro i call hcall hx r hr
    rw [(hobject call.run).1] at hx
    have hsubmits : (joinedState s runId run c hasResult).submits = s.submits :=
      (join_sameStore s runId c hasResult).2
    rw [State.joiningCall, hsubmits] at hcall
    refine (h.held i call hcall hx r hr).imp (fun hmem => ?_) (hgrows.succeeded r)
    rw [joinedState_runObjects]
    split_ifs with hrun
    · rw [hrun] at hmem
      exact List.mem_append_left _ hmem
    · exact hmem
  · intro x hx result hresult
    rw [(hobject x).1] at hx
    rw [(hobject x).2.2] at hresult
    exact h.answered x hx result hresult

/-- A suspended call moves on with records of its Run. -/
theorem setSubmit (i : ℕ) (task : Option SubmitTask)
    (htask : ∀ call, task.bind SubmitTask.joiningCall = some call → (s.runObjects
      call.run).withdrawn = false → ∀ r ∈ call.joined.values, r ∈ (s.runObjects call.run).joined ∨
      s.stateOf r = .succeeded) :
    Isolated (s.setSubmit i task) := by
  refine ⟨h.clear, h.demanded, ?_, h.answered⟩
  intro j call hcall
  rw [joiningCall_setSubmit] at hcall
  split_ifs at hcall
  · exact htask call hcall
  · exact h.held j call hcall

theorem wired (hw : Wired edges s s')
    (hedges : (∀ u v, edges u v → Clear s v) ∨ ∀ x, (s.runObjects x).withdrawn = false → ∀ r ∈
      (s.runObjects x).joined, ∀ u v, edges u v → ¬ Relation.ReflTransGen (Waits s) r u) :
    Isolated s' := by
  refine ⟨?_, ?_, ?_, ?_⟩
  · rw [hw.runObjects]
    intro x hx r hr
    exact (h.clear x hx r hr).wired hw (hedges.imp id (fun hapart => hapart x hx r hr))
  · rw [hw.runObjects]
    intro x hx r hr
    obtain ⟨deps, heq, -, -⟩ := hw.computations r
    rw [hw.stateOf r, heq]
    exact h.demanded x hx r hr
  · rw [hw.runObjects]
    intro i call hcall hx r hr
    rw [State.joiningCall, hw.calls.submits] at hcall
    rw [hw.stateOf r]
    exact h.held i call hcall hx r hr
  · rw [hw.runObjects]
    exact h.answered

theorem withdraw (hkeyed : Keyed s)
    (hlive : ∀ x, (s.runObjects x).withdrawn = false → x < s.nextRun) (hlt : run < s.nextRun)
    (hid : (s.runObjects run).runId = runId)
    (hapart : ∀ x, x ≠ run → (s.runObjects x).withdrawn = false → ∀ r ∈ (s.runObjects x).joined, ∀ u
      ∈ (s.runObjects run).joined, Relation.TransGen (Waits s) r u → SettledWithout s runId u) :
    Isolated (withdraw s runId run).1 := by
  have hw := withdraw_withdrawn s runId run
  have hstate : ∀ u, (Scheduler.withdraw s runId run).1.stateOf u = s.stateOf u ∨
      ((Scheduler.withdraw s runId run).1.stateOf u = .cancelled ∧
        u ∈ (s.runObjects run).joined ∧ ¬ SettledWithout s runId u) := by
    intro u
    rcases hw.state u with hsame | ⟨hcancelled, hmem, hopen, hempty⟩
    · exact Or.inl hsame
    · exact Or.inr ⟨hcancelled, hmem, fun hsettled => hsettled.elim hopen (fun hne => hne hempty)⟩
  have hwaits : ∀ u v, Waits (Scheduler.withdraw s runId run).1 u v → Waits s u v := by
    intro u v hwaits
    obtain ⟨hpending, hmem⟩ := hwaits
    rw [hw.dependencies u] at hmem
    rcases hstate u with hsame | ⟨hcancelled, -⟩
    · exact ⟨hsame ▸ hpending, hmem⟩
    · rw [hcancelled] at hpending
      simp at hpending
  have hsucceeded : ∀ u, s.stateOf u = .succeeded →
      (Scheduler.withdraw s runId run).1.stateOf u = .succeeded := by
    intro u hu
    rcases hstate u with hsame | ⟨-, -, hopen⟩
    · exact hsame.trans hu
    · exact absurd (Or.inl (by rw [hu]; decide)) hopen
  -- the Run itself is marked, so an unmarked one is another one
  have hother : ∀ x, ((Scheduler.withdraw s runId run).1.runObjects x).withdrawn = false →
      x ≠ run ∧ (s.runObjects x).withdrawn = false ∧
        (Scheduler.withdraw s runId run).1.runObjects x = s.runObjects x := by
    intro x hx
    rw [withdraw_runObjects] at hx ⊢
    by_cases hrun : x = run
    · simp [hrun] at hx
    · rw [Function.update_of_ne hrun] at hx ⊢
      exact ⟨hrun, hx, rfl⟩
  have hdemands : ∀ x, x ≠ run → (s.runObjects x).withdrawn = false →
      ∀ u, (s.runObjects x).runId ∈ (s.computations u).demanders →
        (s.runObjects x).runId ∈ (s.computations u).demanders.filter (· ≠ runId) := by
    intro x hrun hx u hmem
    have hne : (s.runObjects x).runId ≠ runId := by
      rw [← hid]
      exact fun heq => hrun (hkeyed.injective (hlive x hx) hlt heq)
    exact List.mem_filter.mpr ⟨hmem, by simpa using hne⟩
  refine ⟨?_, ?_, ?_, ?_⟩
  · intro x hx r hr
    obtain ⟨hrun, hold, heq⟩ := hother x hx
    rw [heq] at hr
    intro u hu hcancelled
    have hreach := Relation.ReflTransGen.mono hwaits _ _ hu
    rcases hstate u with hsame | ⟨-, hmem, hopen⟩
    · exact h.clear x hold r hr u hreach (hsame ▸ hcancelled)
    · rcases Relation.reflTransGen_iff_eq_or_transGen.mp hreach with rfl | htrans
      · -- a record of this Run is still demanded by it
        rcases h.demanded x hold u hr with hmem' | hdone
        · exact hopen (Or.inr (List.ne_nil_of_mem (hdemands x hrun hold u hmem')))
        · exact hopen (Or.inl (by rw [hdone]; decide))
      · exact hopen (hapart x hrun hold r hr u hmem htrans)
  · intro x hx r hr
    obtain ⟨hrun, hold, heq⟩ := hother x hx
    rw [heq] at hr ⊢
    refine (h.demanded x hold r hr).imp (fun hmem => ?_) (hsucceeded r)
    rw [hw.demanders r]
    split_ifs
    · exact hdemands x hrun hold r hmem
    · exact hmem
  · intro i call hcall hx r hr
    obtain ⟨hrun, hold, heq⟩ := hother call.run hx
    rw [State.joiningCall, hw.calls.submits] at hcall
    rw [heq]
    exact (h.held i call hcall hold r hr).imp id (hsucceeded r)
  · intro x hx result hresult
    obtain ⟨hrun, hold, heq⟩ := hother x hx
    rw [heq] at hresult
    exact h.answered x hold result hresult

variable {concurrency : ℕ}

/-- A submit resumes with the answer to one join. -/
theorem joinNext (hvalid : Valid concurrency s) (hkeyed : Keyed s) {i : ℕ}
    {joined : Dict Fingerprint Ref} {c : ComputationPlan} {rest : List ComputationPlan}
    {hasResult : Bool}
    (hsub : s.submits i = some ⟨runId, plan, .joining run joined c rest, some hasResult⟩)
    (hmeets : Undisturbed s (.submitResumes i)) :
    Isolated (joinNext s i ⟨runId, plan, .joining run joined c rest, some hasResult⟩ run joined c
      rest hasResult).state := by
  have hcall := joiningCall_of_submits hsub
  have hid := (hvalid.registered.joining_of i _ hcall).2
  have hvacant := hvalid.sound.vacant s.nextComputation le_rfl
  have hgrows := join_grows hvacant runId c hasResult
  have hnew := (join_record s runId c hasResult).2
  have hclear : (s.runObjects run).withdrawn = false →
      Clear (join s runId c hasResult).2 (join s runId c hasResult).1 := by
    intro hopen
    rcases hnew with ⟨-, hfresh⟩ | ⟨rfl, hget, hterminal⟩
    · exact hfresh
    · exact hgrows.clear
        (hmeets.shares i runId plan run joined c rest rfl hsub hopen _ hget hterminal)
  have hjoined := h.joined hvacant hid c hasResult hclear
  have hobject : (joinedState s runId run c hasResult).runObjects run =
      { s.runObjects run with
        joined := (s.runObjects run).joined ++ [(join s runId c hasResult).1] } := by
    rw [joinedState_runObjects, if_pos rfl]
  -- what the call holds after the join
  have hvalues : ∀ r ∈ (joined.set c.fingerprint (join s runId c hasResult).1).values,
      r ∈ joined.values ∨ r = (join s runId c hasResult).1 := by
    intro r hr
    obtain ⟨entry, hentry, rfl⟩ := List.mem_map.mp hr
    rcases Dict.mem_set hentry with rfl | hold
    · exact Or.inr rfl
    · exact Or.inl (List.mem_map_of_mem hold)
  have hheld : (s.runObjects run).withdrawn = false →
      ∀ r ∈ (joined.set c.fingerprint (join s runId c hasResult).1).values,
        r ∈ ((joinedState s runId run c hasResult).runObjects run).joined ∨
          (joinedState s runId run c hasResult).stateOf r = .succeeded := by
    intro hopen r hr
    rw [hobject]
    rcases hvalues r hr with hold | rfl
    · exact (h.held i _ hcall hopen r hold).imp (List.mem_append_left _) (hgrows.succeeded r)
    · exact Or.inl (List.mem_append_right _ (List.mem_singleton_self _))
  cases rest with
  | cons d rest =>
    rw [joinNext_cons]
    refine hjoined.setSubmit i _ ?_
    intro call hcall'
    cases hcall'
    intro hopen
    rw [hobject] at hopen
    exact hheld hopen
  | nil =>
    rw [joinNext_nil]
    have hedge : ∀ u v, PlanEdge plan (joined.set c.fingerprint (join s runId c hasResult).1) u v →
        u ∈ (joined.set c.fingerprint (join s runId c hasResult).1).values ∧
        v ∈ (joined.set c.fingerprint (join s runId c hasResult).1).values := by
      rintro u v ⟨_, -, hu, _, -, hv⟩
      exact ⟨Dict.mem_values_of_get? hu, Dict.mem_values_of_get? hv⟩
    refine (hjoined.wired (wirePlan_wired _ _ _) ?_).setSubmit i none (by simp)
    cases hopen : (s.runObjects run).withdrawn with
    | false =>
      left
      intro u v huv
      rcases hheld hopen v (hedge u v huv).2 with hmem | hsucceeded
      · refine hjoined.clear run ?_ v hmem
        rw [hobject]
        exact hopen
      · exact Clear.of_not_pending (by rw [hsucceeded]; decide) (by rw [hsucceeded]; decide)
    | true =>
      rcases hmeets.wires i runId plan run joined c hasResult rfl hsub hopen with hclears | hapart
      · left
        intro u v huv
        rcases hvalues v (hedge u v huv).2 with hold | rfl
        · exact hgrows.clear (hclears v (Or.inl hold))
        · rcases hnew with ⟨-, hfresh⟩ | ⟨hres, hget, hterminal⟩
          · exact hfresh
          · exact hgrows.clear (hclears _ (Or.inr ⟨hres, hget, hterminal⟩))
      · right
        intro x hx r hr u v huv hreach
        have hreach' : Relation.ReflTransGen (Waits s) r u :=
          Relation.ReflTransGen.mono hgrows.waits _ _ hreach
        -- the joined list of an uncancelled Run is not the one that grew
        have hxrun : x ≠ run := by
          rintro rfl
          rw [hobject] at hx
          simp [hopen] at hx
        rw [joinedState_runObjects, if_neg hxrun] at hx hr
        have hvalue := hkeyed.mem_values (hvalid.registered.live x hx)
        rcases hvalues u (hedge u v huv).1 with hold | rfl
        · exact hapart x hvalue hx r hr u (Or.inl hold) hreach'
        · rcases hnew with ⟨hfresh, -⟩ | ⟨hres, hget, hterminal⟩
          · -- nothing waits on a record that did not exist
            refine h.clear x hx r hr _ hreach' ?_
            rw [hfresh, State.stateOf, hvacant]
            rfl
          · exact hapart x hvalue hx r hr _ (Or.inr ⟨hres, hget, hterminal⟩) hreach'

theorem register (hreg : Registered s) (i : ℕ) (runId : RunId) (plan : RunPlan) :
    Isolated (register s i runId plan).state := by
  have halloc : Isolated (allocateRun s runId plan) := by
    refine ⟨?_, ?_, ?_, ?_⟩
    · intro x hx r hr
      by_cases hnew : x = s.nextRun
      · simp [hnew] at hr
      · exact h.clear x (by simpa [hnew] using hx) r (by simpa [hnew] using hr)
    · intro x hx r hr
      by_cases hnew : x = s.nextRun
      · simp [hnew] at hr
      · simpa [hnew, State.stateOf] using
          h.demanded x (by simpa [hnew] using hx) r (by simpa [hnew] using hr)
    · intro j call hcall hx r hr
      have hne : call.run ≠ s.nextRun := Nat.ne_of_lt (hreg.joining_lt j call hcall)
      simpa [hne, State.stateOf] using h.held j call hcall (by simpa [hne] using hx) r hr
    · intro x hx result hresult
      by_cases hnew : x = s.nextRun
      · simp [hnew] at hresult
      · exact h.answered x (by simpa [hnew] using hx) result (by simpa [hnew] using hresult)
  unfold Scheduler.register
  split
  · exact halloc.setSubmit i none (by simp)
  · refine halloc.setSubmit i _ ?_
    intro call hcall _ r hr
    cases hcall
    simp [Dict.values] at hr

theorem effect (hvalid : Valid concurrency s) (hkeyed : Keyed s) (he : Effect s a p)
    (hunfailing : Unfailing p.state) (hmeets : Undisturbed s a) : Isolated p.state := by
  have hreg := hvalid.registered
  have hlive := hreg.live
  have hquiets : ∀ {t : State}, Quiet s t → Isolated t := by
    intro t hq
    refine h.same hq.runObjects ?_ (fun u => ⟨hq.state u, hq.dependencies u, hq.demanders u⟩)
    intro i call hcall
    rwa [hq.joiningCall i] at hcall
  cases he with
  | quiet hquiet => exact hquiets hquiet
  | drops i => exact h.setSubmit i none (by simp)
  | @registers _ t i runId plan _ hquiet _ =>
    exact (hquiets hquiet).register (hreg.kept (RunsKept.of_quiet hquiet)) i runId plan
  | joins i hsub => exact h.joinNext hvalid hkeyed hsub hmeets
  | @withdraws runId run hrun hopen _ =>
    obtain ⟨hlt, hid⟩ := hreg.runs_get hrun
    have hwithdraw := h.withdraw hkeyed hlive hlt hid (fun x hne hx =>
      hmeets.cancels runId run rfl hrun hopen x (hkeyed.mem_values (hlive x hx)) hne hx)
    have hkept := RunsKept.withdraw s runId hlt
    have hmark := Registered.withdraw_marks s runId run
    refine hwithdraw.finishRun (hkeyed.withdraw runId run) (hreg.kept hkept).live
      (hkept.nextRun.symm ▸ hlt) ?_
    intro hnot
    rw [hmark] at hnot
    simp at hnot
  | @awaits runId run hrun hopen =>
    obtain ⟨hlt, hid⟩ := hreg.runs_get hrun
    have hwithdraw := h.withdraw hkeyed hlive hlt hid (fun x hne hx =>
      hmeets.cancels runId run rfl hrun hopen x (hkeyed.mem_values (hlive x hx)) hne hx)
    exact hwithdraw.same rfl (fun _ _ hcall => hcall) (fun _ => ⟨rfl, rfl, rfl⟩)
  | @answers i task htask =>
    obtain ⟨hlt, hmark⟩ := hreg.withdrawn i task htask
    have hdrop : Isolated (s.setCancel i none) :=
      h.same rfl (fun _ _ hcall => hcall) (fun _ => ⟨rfl, rfl, rfl⟩)
    have hkeyed' : Keyed (s.setCancel i none) := hkeyed.kept rfl rfl (fun _ => rfl)
    refine hdrop.finishRun hkeyed' hlive hlt ?_
    intro hnot
    rw [State.setCancel_runObjects, hmark] at hnot
    simp at hnot
  | @settles _ t r state hquiet hrunning hstate =>
    -- a settled record succeeded, since nothing fails
    have hsucceeded : state = .succeeded := by
      rcases hstate with rfl | ⟨rfl, -⟩
      · exact absurd (by simp [State.stateOf]) (hunfailing.states r).1
      · rfl
    subst state
    have htrunning : t.stateOf r = .running := (hquiet.stateOf r).trans hrunning
    refine (hquiets hquiet).moved (r := r) rfl (fun _ _ hcall => hcall) ?_ ?_ ?_ ?_
    · exact fun u hu => by simp [hu]
    · simp
    · simp [State.stateOf]
    · simp [htrunning]

/-- One iteration of the sweep: a record that gets cancelled waited on a
cancelled one, so no clear record waited on it. -/
theorem resolveRecord (hunfailing : Unfailing s) (r : Ref) : Isolated (resolveRecord s r).1 := by
  have hmove : ∀ state, s.stateOf r = .pending → state ≠ .pending →
      (state = .cancelled → ∀ x, (s.runObjects x).withdrawn = false →
        ∀ v ∈ (s.runObjects x).joined, ¬ Relation.ReflTransGen (Waits s) v r) →
      Isolated (s.setState r state) := by
    intro state hpending hne happart
    have hwaits : ∀ u v, Waits (s.setState r state) u v → Waits s u v := by
      intro u v hwaits
      obtain ⟨hu, hmem⟩ := hwaits
      by_cases hur : u = r
      · subst u
        simp [hne] at hu
      · exact ⟨by simpa [hur] using hu, by simpa [hur] using hmem⟩
    have hsucceeded : ∀ u, s.stateOf u = .succeeded →
        (s.setState r state).stateOf u = .succeeded := by
      intro u hu
      by_cases hur : u = r
      · subst u
        rw [hpending] at hu
        simp at hu
      · simpa [hur] using hu
    refine ⟨?_, ?_, ?_, h.answered⟩
    · intro x hx v hv u hu hcancelled
      have hreach := Relation.ReflTransGen.mono hwaits _ _ hu
      by_cases hur : u = r
      · subst u
        exact happart (by simpa using hcancelled) x hx v hv hreach
      · exact h.clear x hx v hv u hreach (by simpa [hur] using hcancelled)
    · intro x hx v hv
      refine (h.demanded x hx v hv).imp (fun hmem => ?_) (hsucceeded v)
      by_cases hvr : v = r
      · subst v
        simpa using hmem
      · simpa [hvr] using hmem
    · exact fun i call hcall hx v hv => (h.held i call hcall hx v hv).imp id (hsucceeded v)
  rcases resolveRecord_cases s r with
    heq | ⟨-, ⟨u, -, hfailed⟩, -⟩ | ⟨hp, ⟨u, hu, hcancelled⟩, heq⟩ | ⟨hp, -, heq⟩
  · rw [heq]
    exact h
  · have hstates := hunfailing.states u
    simp [failedStates, hstates.1, hstates.2] at hfailed
  · rw [heq]
    refine hmove _ hp (by decide) ?_
    intro _ x hx v hv hreach
    exact h.clear x hx v hv u (hreach.tail ⟨hp, hu⟩) hcancelled
  · rw [heq]
    refine (hmove .ready hp (by decide) (fun hready => absurd hready (by decide))).same rfl
      (fun _ _ hcall => hcall) (fun _ => ⟨rfl, rfl, rfl⟩)

theorem startRecord (hr : s.stateOf r = .ready) : Isolated (startRecord s r) := by
  rw [startRecord_eq hr]
  refine h.moved (r := r) rfl (fun _ _ hcall => hcall) ?_ ?_ ?_ ?_
  · exact fun u hu => by simp [hu]
  · simp
  · simp [State.stateOf]
  · simp [hr]

end

end Isolated

/-- All that the argument needs of a state, besides its validity. -/
structure Undisrupted (s : State) : Prop where
  joining : AllJoining s
  keyed : Keyed s
  unfailing : Unfailing s
  isolated : Isolated s

variable {concurrency : ℕ}

/-- A dispatch keeps all of it: it finishes an uncancelled Run only when all
its records have succeeded. -/
theorem Undisrupted.dispatch (h : Undisrupted s) (hreg : Registered s) :
    Undisrupted (dispatch concurrency s) := by
  suffices hall : Registered (Scheduler.dispatch concurrency s) ∧
      Keyed (Scheduler.dispatch concurrency s) ∧ Unfailing (Scheduler.dispatch concurrency s) ∧
      Isolated (Scheduler.dispatch concurrency s) by
    obtain ⟨-, hkeyed, hunfailing, hisolated⟩ := hall
    refine ⟨?_, hkeyed, hunfailing, hisolated⟩
    intro i task htask
    rw [(sameCalls_dispatch concurrency s).submits] at htask
    exact h.joining i task htask
  refine dispatch_rule (P := fun t => Registered t ∧ Keyed t ∧ Unfailing t ∧ Isolated t)
    ?_ ?_ ?_ ?_ s ⟨hreg, h.keyed, h.unfailing, h.isolated⟩
  · rintro t r - ⟨hreg, hkeyed, hunfailing, hisolated⟩
    have hkept := RunsKept.resolveRecord t r
    exact ⟨hreg.kept hkept, hkeyed.kept hkept.nextRun hkept.runs hkept.runId,
      hunfailing.resolveRecord r, hisolated.resolveRecord hunfailing r⟩
  · rintro t queue ⟨hreg, hkeyed, hunfailing, hisolated⟩
    exact ⟨hreg.kept (RunsKept.of_same rfl rfl rfl rfl rfl rfl),
      hkeyed.kept rfl rfl (fun _ => rfl), hunfailing.same (fun _ => ⟨rfl, rfl⟩),
      hisolated.same rfl (fun _ _ hcall => hcall) (fun _ => ⟨rfl, rfl, rfl⟩)⟩
  · rintro t r hr - ⟨hreg, hkeyed, hunfailing, hisolated⟩
    refine ⟨?_, ?_, hunfailing.startRecord hr, hisolated.startRecord hr⟩
    · rw [startRecord_eq hr]
      exact hreg.kept (RunsKept.of_same rfl rfl rfl rfl rfl rfl)
    · rw [startRecord_eq hr]
      exact hkeyed.kept rfl rfl (fun _ => rfl)
  · rintro t run hrun - hterminal ⟨hreg, hkeyed, hunfailing, hisolated⟩
    obtain ⟨entry, hentry, rfl⟩ := List.mem_map.mp hrun
    have hlt := hreg.runs_lt entry hentry
    refine ⟨hreg.kept (RunsKept.finishRun t hlt), hkeyed.finishRun _, hunfailing.finishRun _,
      hisolated.finishRun hkeyed hreg.live hlt ?_⟩
    -- a finished record that neither failed nor was cancelled has succeeded
    intro hopen r hr
    have hcancelled := (hisolated.clear _ hopen r hr).not_cancelled
    have hfailed := hunfailing.states r
    have hopen' := (terminal_iff _).mp (hterminal r hr)
    cases hstate : t.stateOf r <;> simp_all

/-- The steps of the runs in question: planned submits, nothing raises, and no
cancellation reaches an uncancelled Run. -/
structure StaysApart (sha256 : String → Fingerprint) (s : State) (a : Action) : Prop where
  planned : SubmitsPlanned sha256 s a
  quiet : a.raises = false
  undisturbed : Undisturbed s a

theorem Undisrupted.reachable
    (h : Reachable (step concurrency) (StaysApart sha256) (initial store) s) : Undisrupted s := by
  refine (invariant_of_effects (I := Undisrupted) ?_ ?_ ?_ h).2
  · refine ⟨by simp [AllJoining], by simp [Keyed], ⟨?_, ?_⟩, ⟨?_, ?_, ?_, ?_⟩⟩
    all_goals simp [State.stateOf, vacantComputation, vacantRun, State.joiningCall]
  · intro s a p hvalid hs hmeets hp he
    have hunfailing := hs.unfailing.prepare hp hmeets.quiet
    exact ⟨hs.joining.prepare hp hmeets.planned,
      hs.keyed.effect he (hs.joining.registersFree a), hunfailing,
      hs.isolated.effect hvalid hs.keyed he hunfailing hmeets.undisturbed⟩
  · exact fun s a p _ _ _ hvalid hs => hs.dispatch hvalid.registered

/-- In every run in which nothing raises and no cancellation reaches it, what
an uncancelled Run has joined is never cancelled or skipped, and its answer is
a success. -/
theorem uncancelled_run_succeeds {sha256 : String → Fingerprint} {concurrency : ℕ}
    {store : ResultStore} {s : State}
    (h : Reachable (step concurrency) (StaysApart sha256) (initial store) s) {x : RunRef}
    (hx : (s.runObjects x).withdrawn = false) :
    (∀ r ∈ (s.runObjects x).joined, s.stateOf r ≠ .cancelled ∧ s.stateOf r ≠ .skipped) ∧
    ∀ result, (s.runObjects x).result = some result →
      result.status = .succeeded ∧ ∀ entry ∈ result.computations, entry.2 = .succeeded := by
  have hs := Undisrupted.reachable h
  refine ⟨?_, hs.isolated.answered x hx⟩
  intro r hr
  exact ⟨(hs.isolated.clear x hx r hr).not_cancelled, (hs.unfailing.states r).2⟩

end Isolation

section Examples

/-- A test that implies the condition: a cancel finds no record of another
uncancelled Run pending, and a submit shares only records that are not. -/
def staysApart (s : State) (a : Action) : Bool :=
  !a.raises && match a with
    | .cancel runId => s.runs.values.all (fun x => s.runs.get? runId = some x ||
        (s.runObjects x).withdrawn || (s.runObjects x).joined.all (s.stateOf · ≠ .pending))
    | .submitResumes i => (s.joiningCall i).all (fun call =>
        !(s.runObjects call.run).withdrawn &&
        (s.records.get? call.computation.fingerprint).all (s.stateOf · ≠ .pending))
    | _ => true

theorem staysApart_sound (h : staysApart s a) : a.raises = false ∧ Undisturbed s a := by
  simp only [staysApart, Bool.and_eq_true, Bool.not_eq_true'] at h
  obtain ⟨hraises, htest⟩ := h
  refine ⟨hraises, ?_, ?_, ?_⟩
  · rintro runId run rfl hrun - x hx hne hopen r hr u - hwaits
    have hpending : s.stateOf r ≠ .pending := by
      have hall := List.all_eq_true.mp htest x hx
      have hother : run ≠ x := fun heq => hne heq.symm
      simp only [hrun, hopen, Option.some.injEq, hother, decide_false, Bool.false_or,
        List.all_eq_true, decide_eq_true_eq] at hall
      exact hall r hr
    obtain ⟨v, hv, -⟩ := Relation.TransGen.head'_iff.mp hwaits
    exact absurd hv.1 hpending
  · rintro i runId plan run joined c rest rfl hsub - r hget hopen
    simp only [joiningCall_of_submits hsub, hget, Option.all_some, Bool.and_eq_true,
      decide_eq_true_eq] at htest
    refine Clear.of_not_pending htest.2 ?_
    intro hcancelled
    rw [hcancelled] at hopen
    exact hopen (by decide)
  · rintro i runId plan run joined c hasResult rfl hsub hwithdrawn
    simp [joiningCall_of_submits hsub, hwithdrawn] at htest

/-- Run 2 shares the loader of Run 1, which is cancelled with its filter. -/
def cancelledBeside : List Action :=
  [.submit "1" (pipelinePlan .empty [keyOf "filter"])] ++ joins 0 ++ joins 0 ++
  [.submit "2" (pipelinePlan .empty [keyOf "load"])] ++ joins 1 ++ [.cancel "1"] ++ completes 0

theorem load_survives_cancel :
    ∃ s, Reachable (step 1) (StaysApart pipelineDigest) (initial ResultStore.empty) s ∧
      s.stateOf 1 = .cancelled ∧
      ∃ result, (s.runObjects 1).result = some result ∧ result.status = .succeeded := by
  have hmeets : ∀ a ∈ cancelledBeside, ∀ s, staysApart s a → StaysApart pipelineDigest s a := by
    intro a ha s hcheck
    obtain ⟨hraises, hundisturbed⟩ := staysApart_sound hcheck
    refine ⟨?_, hraises, hundisturbed⟩
    rintro runId plan rfl
    have hplan : plan = pipelinePlan .empty [keyOf "filter"] ∨
      plan = pipelinePlan .empty [keyOf "load"] := by
      simpa [submittedPlans, cancelledBeside, joins, completes] using mem_submittedPlans ha
    rcases hplan with rfl | rfl
    · exact pipelinePlan_planned (empty_extends _) (by decide)
    · exact pipelinePlan_planned (empty_extends _) (by decide)
  obtain ⟨s, hs, htest⟩ := exists_reachable (step 1) (StaysApart pipelineDigest) staysApart
    (initial ResultStore.empty) cancelledBeside
    (fun s => s.stateOf 1 = .cancelled ∧ (s.runObjects 1).withdrawn = false ∧
      (s.runObjects 1).result.isSome) hmeets (by decide +kernel)
  simp only [decide_eq_true_eq] at htest
  obtain ⟨hcancelled, hopen, hanswered⟩ := htest
  obtain ⟨result, hresult⟩ := Option.isSome_iff_exists.mp hanswered
  exact ⟨s, hs, hcancelled, result, hresult,
    ((uncancelled_run_succeeds hs hopen).2 result hresult).1⟩

/-- The store after the loader has written its result. -/
def loadedStore : ResultStore := ⟨[(loadDigest, [])], []⟩

/-- Run 2 is planned when the loader's result is stored but its record still
runs: it shares the filter, which waits on that record, and demands only the
filter. Cancelling Run 1 cancels the loader and, through it, the filter. -/
def cancelledThrough : List Action :=
  [.submit "1" (pipelinePlan .empty [keyOf "filter"])] ++ joins 0 ++ joins 0 ++
  [.runnerReturns 0 [], .taskAnswered 0] ++
  [.submit "2" (pipelinePlan loadedStore [keyOf "filter"])] ++ joins 1 ++
  [.cancel "1", .taskUnwinds 0, .cancelResumes 0]

/-- The second submit finds the result its plan was made over. -/
def loadStored (s : State) (a : Action) : Bool :=
  !a.raises && match a with
    | .submit runId _ => runId = "1" || (s.store.getResult loadDigest).any List.isEmpty
    | _ => true

theorem loadStored_extends (h : (store.getResult loadDigest).any List.isEmpty) :
    loadedStore.Extends store := by
  intro f outputs hf
  rw [ResultStore.getResult, loadedStore, Dict.get?_cons] at hf
  split_ifs at hf with heq
  · cases hf
    rw [← heq]
    cases hget : store.getResult loadDigest with
    | none => simp [hget] at h
    | some outputs =>
      have hempty : outputs = [] := by simpa [hget] using h
      rw [hempty]
  · simp at hf

theorem filter_cancelled_with_other_run :
    ∃ s, Reachable (step 1) (fun s a => SubmitsPlanned pipelineDigest s a ∧ a.raises = false)
        (initial ResultStore.empty) s ∧
      (s.runObjects 1).withdrawn = false ∧
      ∃ result, (s.runObjects 1).result = some result ∧ result.status = .failed ∧
        result.computations = [(filterDigest, .cancelled)] := by
  have hmeets : ∀ a ∈ cancelledThrough, ∀ s, loadStored s a →
      SubmitsPlanned pipelineDigest s a ∧ a.raises = false := by
    intro a ha s hcheck
    simp only [loadStored, Bool.and_eq_true, Bool.not_eq_true'] at hcheck
    refine ⟨?_, hcheck.1⟩
    rintro runId plan rfl
    have hplan : (runId = "1" ∧ plan = pipelinePlan .empty [keyOf "filter"]) ∨
        (runId = "2" ∧ plan = pipelinePlan loadedStore [keyOf "filter"]) := by
      simpa [cancelledThrough, joins] using ha
    rcases hplan with ⟨-, rfl⟩ | ⟨rfl, rfl⟩
    · exact pipelinePlan_planned (empty_extends _) (by decide)
    · exact pipelinePlan_planned (loadStored_extends (by simpa using hcheck.2)) (by decide)
  obtain ⟨s, hs, htest⟩ := exists_reachable (step 1) (fun s a =>
      SubmitsPlanned pipelineDigest s a ∧ a.raises = false) loadStored
    (initial ResultStore.empty) cancelledThrough
    (fun s => (s.runObjects 1).withdrawn = false ∧
      (s.runObjects 1).result = some ⟨"2", .failed, [(filterDigest, .cancelled)], []⟩)
    hmeets (by decide +kernel)
  simp only [decide_eq_true_eq] at htest
  exact ⟨s, hs, htest.1, _, htest.2, rfl, rfl⟩

end Examples

end Grafy.Scheduler
