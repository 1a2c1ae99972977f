import Grafy.PlanningExact
import Grafy.SchedulerWiring

/-!
Dependency safety: a computation is started only when every result it reads
is stored. A planned computation reads only what it depends on or what the
store had when it was planned, so it is enough that its dependencies are wired
before it is found ready. Records are visible to every dispatch as soon as
they are joined, but their dependencies are wired only after the last join of
their submit, and a dispatch in between starts them too early; a store call
that raises at a join leaves them unwired for good.
-/
namespace Grafy.Scheduler

open Fingerprints Instances OrderedDict Planning Reachability Results

/-- Every upstream is a dependency or has a stored result. -/
def Covered (store : ResultStore) (c : ComputationPlan) : Prop :=
  ∀ g ∈ c.upstreamFingerprints.values, g ∈ c.dependsOn ∨ store.Stored g

variable {c : ComputationPlan}

theorem Covered.mono {store store' : ResultStore} (h : Covered store c)
    (hstore : store.Extends store') : Covered store' c :=
  fun g hg => (h g hg).imp id hstore.stored

/-- A plan made by `plan_run` over an expanded graph and its fingerprints, its
queries answered by stores that have only grown since. -/
def Planned (sha256 : String → Fingerprint) (store : ResultStore) (plan : RunPlan) : Prop :=
  ∃ graph facts fps targets stores, graph.Topological ∧
    computeFingerprints sha256 graph facts = .ok fps ∧
    Set.InjOn sha256 (documentTexts graph facts fps) ∧
    planRun graph fps targets stores = .ok plan ∧ ∀ k, (stores k).Extends store

variable {sha256 : String → Fingerprint}

variable {plan : RunPlan}

/-- A plan made by `plan_run` leaves nothing for `submit` to look up. -/
theorem Planned.closed {store : ResultStore} (h : Planned sha256 store plan) :
    openDependencies plan = [] := by
  obtain ⟨graph, facts, fps, targets, stores, htopo, hfps, -, hplan, -⟩ := h
  obtain ⟨-, hcovers⟩ := computeFingerprints_ok hfps
  obtain ⟨w, hplanned, -, -⟩ := planned_of_ok htopo hcovers hplan
  rw [openDependencies, List.flatMap_eq_nil_iff]
  intro c hc
  rw [List.map_eq_nil_iff, List.filter_eq_nil_iff]
  intro d hd
  have hdepends : d ∈ c.dependsOn := (List.mem_insertionSort _).mp hd
  have hkey := (hplanned.keys d).mpr (((hplanned.computations c hc).dependsOn d).mp hdepends).2.1
  simpa using hkey

/-- A plan names no dependency outside itself and its computations are covered. -/
structure PlanCovered (store : ResultStore) (plan : RunPlan) : Prop where
  closed : openDependencies plan = []
  covered : ∀ c ∈ plan.computations, Covered store c

theorem PlanCovered.mono {store store' : ResultStore} (h : PlanCovered store plan)
    (hstore : store.Extends store') : PlanCovered store' plan :=
  ⟨h.closed, fun c hc => (h.covered c hc).mono hstore⟩

theorem Planned.covered {store : ResultStore} (h : Planned sha256 store plan) :
    PlanCovered store plan := by
  refine ⟨h.closed, ?_⟩
  obtain ⟨graph, facts, fps, targets, stores, htopo, hfps, hfree, hplan, hstores⟩ := h
  obtain ⟨hfingerprinted, hcovers⟩ := computeFingerprints_ok hfps
  obtain ⟨w, hplanned, hdone, hwalked⟩ := planned_of_ok htopo hcovers hplan
  intro c hc g hg
  have hdescribes := hplanned.computations c hc
  obtain ⟨connection, hconnection, hread⟩ := hdescribes.upstreamRead g hg
  rcases upstream_planned_or_stored hfingerprinted hfree htopo hwalked hdone hdescribes
    hconnection hread with hdepends | ⟨k, hk⟩
  · exact Or.inl hdepends
  · exact Or.inr ((hstores k).stored hk)

/-- Every submitted plan comes from `plan_run`. -/
def SubmitsPlanned (sha256 : String → Fingerprint) (s : State) (a : Action) : Prop :=
  ∀ runId plan, a = .submit runId plan → Planned sha256 s.store plan

variable {a : Action} {p : Prepared}

variable {s : State}

theorem Effect.store (he : Effect s a p) : s.store.Extends p.state.store := by
  cases he with
  | quiet hquiet | settles r state hquiet _ _ => exact hquiet.store
  | drops i => exact ResultStore.Extends.refl _
  | registers i _ hquiet _ =>
    unfold register
    split
    · exact hquiet.store
    · exact hquiet.store
  | @joins i runId plan run joined c rest hasResult hsub =>
    have hjoined : (joinedState s runId run c hasResult).store = s.store :=
      (join_sameStore s runId c hasResult).1
    cases rest with
    | nil =>
      rw [joinNext_nil]
      show s.store.Extends (wirePlan _ _ _).store
      rw [(wirePlan_wired _ _ _).calls.store, hjoined]
      exact ResultStore.Extends.refl _
    | cons d rest =>
      rw [joinNext_cons]
      show s.store.Extends (joinedState s runId run c hasResult).store
      rw [hjoined]
      exact ResultStore.Extends.refl _
  | @withdraws runId run _ _ _ =>
    show s.store.Extends (finishRun _ run).store
    rw [(finishRun_finished _ run).calls.store, (withdraw_withdrawn s runId run).calls.store]
    exact ResultStore.Extends.refl _
  | @awaits runId run _ _ =>
    show s.store.Extends (withdraw s runId run).1.store
    rw [(withdraw_withdrawn s runId run).calls.store]
    exact ResultStore.Extends.refl _
  | @answers i task _ =>
    show s.store.Extends (finishRun _ task.run).store
    rw [(finishRun_finished _ task.run).calls.store]
    exact ResultStore.Extends.refl _

/-- The plans of suspended submits are covered. -/
def SubmitsCovered (s : State) : Prop :=
  ∀ i task, s.submits i = some task → PlanCovered s.store task.plan

theorem SubmitsCovered.prepare (h : SubmitsCovered s) (hp : prepare s a = some p)
    (he : Effect s a p)
    (hplans : ∀ runId plan, a = .submit runId plan → PlanCovered s.store plan) :
    SubmitsCovered p.state := by
  intro i task htask
  refine PlanCovered.mono ?_ he.store
  rcases (SubmitsMoved.prepare hp).submits i task htask with ⟨old, hold, -, hplan, -⟩ |
    ⟨-, -, ha, -⟩
  · rw [← hplan]
    exact h i old hold
  · exact hplans task.runId task.plan ha

theorem SubmitsCovered.registering (h : SubmitsCovered s) {runId : RunId}
    (hregistering : Registering s a runId plan)
    (hplans : ∀ runId plan, a = .submit runId plan → PlanCovered s.store plan) :
    PlanCovered s.store plan := by
  rcases hregistering with ⟨ha, -⟩ | ⟨j, f, d, -, hsub⟩
  · exact hplans runId plan ha
  · exact h j _ hsub

/-- What is known of the results that computations read: what is yet to be
joined and what has been joined is covered, and nothing is ready or running
before its upstreams are stored. -/
structure Fed (s : State) : Prop where
  joining : ∀ i call, s.joiningCall i = some call →
    ∀ c ∈ call.computation :: call.rest, Covered s.store c
  records : ∀ u, Covered s.store (s.computations u).plan
  started : ∀ u, s.stateOf u = .ready ∨ s.stateOf u = .running →
    ∀ g ∈ (s.computations u).plan.upstreamFingerprints.values, s.store.Stored g

namespace Fed

variable {s' : State}

section

variable (h : Fed s)
include h

theorem kept (hstore : s.store.Extends s'.store)
    (hjoining : ∀ i call, s'.joiningCall i = some call → s.joiningCall i = some call)
    (hplan : ∀ u, (s'.computations u).plan = (s.computations u).plan)
    (hstate : ∀ u, s'.stateOf u = .ready ∨ s'.stateOf u = .running → s.stateOf u = .ready ∨
      s.stateOf u = .running) : Fed s' := by
  refine ⟨?_, ?_, ?_⟩
  · exact fun i call hcall c hc => (h.joining i call (hjoining i call hcall) c hc).mono hstore
  · intro u
    rw [hplan u]
    exact (h.records u).mono hstore
  · intro u hu g hg
    rw [hplan u] at hg
    exact hstore.stored (h.started u (hstate u hu) g hg)

theorem same (hstore : s'.store = s.store) (hsubmits : s'.submits = s.submits)
    (hplan : ∀ u, (s'.computations u).plan = (s.computations u).plan)
    (hstate : ∀ u, s'.stateOf u = s.stateOf u) : Fed s' := by
  refine h.kept ?_ ?_ hplan (fun u hu => hstate u ▸ hu)
  · rw [hstore]
    exact ResultStore.Extends.refl _
  · intro i call hcall
    rwa [State.joiningCall, hsubmits] at hcall

theorem finishRun (run : RunRef) : Fed (finishRun s run) := by
  have hf := finishRun_finished s run
  refine h.same hf.calls.store hf.calls.submits ?_ ?_
  · intro u
    rw [hf.computations u]
    split_ifs <;> rfl
  · intro u
    rw [State.stateOf, hf.computations u]
    split_ifs <;> rfl

theorem withdraw (runId : RunId) (run : RunRef) : Fed (withdraw s runId run).1 := by
  have hw := withdraw_withdrawn s runId run
  refine h.kept ?_ ?_ hw.plan ?_
  · rw [hw.calls.store]
    exact ResultStore.Extends.refl _
  · intro i call hcall
    rwa [State.joiningCall, hw.calls.submits] at hcall
  · intro u hu
    rcases hw.state u with hsame | ⟨hcancelled, -⟩
    · rw [hsame] at hu
      exact hu
    · rw [hcancelled] at hu
      simp at hu

/-- A joined record has the plan the submit brought, and is not started. -/
theorem joined (runId : RunId) (run : RunRef) (c : ComputationPlan) (hasResult : Bool)
    (hc : Covered s.store c) : Fed (joinedState s runId run c hasResult) := by
  have hstore : (joinedState s runId run c hasResult).store = s.store :=
    (join_sameStore s runId c hasResult).1
  refine ⟨?_, ?_, ?_⟩
  · intro i call hcall
    rw [hstore]
    have hsubmits : (joinedState s runId run c hasResult).submits = s.submits :=
      (join_sameStore s runId c hasResult).2
    rw [State.joiningCall, hsubmits] at hcall
    exact h.joining i call hcall
  · intro u
    rw [hstore]
    show Covered s.store ((join s runId c hasResult).2.computations u).plan
    rcases join_cell s runId c hasResult u with ⟨demanders, heq⟩ | ⟨-, state, demanders, heq, -⟩
    · rw [heq]
      exact h.records u
    · rw [heq]
      exact hc
  · intro u hu g hg
    rw [hstore]
    have hcell : (joinedState s runId run c hasResult).computations u =
        (join s runId c hasResult).2.computations u := rfl
    rw [State.stateOf, hcell] at hu
    rw [hcell] at hg
    rcases join_cell s runId c hasResult u with ⟨demanders, heq⟩ | ⟨-, state, demanders, heq, hst⟩
    · rw [heq] at hu hg
      exact h.started u hu g hg
    · rw [heq] at hu
      rcases hst with rfl | rfl <;> simp at hu

/-- A suspended call moves on to computations that are covered. -/
theorem setSubmit (i : ℕ) (task : Option SubmitTask)
    (htask : ∀ call, task.bind SubmitTask.joiningCall = some call → ∀ c ∈ call.computation ::
      call.rest, Covered s.store c) : Fed (s.setSubmit i task) := by
  refine ⟨?_, h.records, h.started⟩
  intro j call hcall
  rw [joiningCall_setSubmit] at hcall
  split_ifs at hcall
  · exact htask call hcall
  · exact h.joining j call hcall

theorem joinNext {i : ℕ} {task : SubmitTask} {run : RunRef} {joined : Dict Fingerprint Ref}
    {rest : List ComputationPlan} (hasResult : Bool) (hrest : ∀ d ∈ c :: rest, Covered s.store d) :
    Fed (joinNext s i task run joined c rest hasResult).state := by
  have hjoined := h.joined task.runId run c hasResult (hrest c (List.mem_cons_self ..))
  cases rest with
  | nil =>
    have hwired := wired_joined s task run joined c hasResult
    rw [joinNext_nil]
    refine (hjoined.same hwired.calls.store hwired.calls.submits ?_ hwired.stateOf).setSubmit i none
      (by simp)
    intro u
    obtain ⟨deps, heq, -, -⟩ := hwired.computations u
    rw [heq]
  | cons d rest =>
    have hstore : (joinedState s task.runId run c hasResult).store = s.store :=
      (join_sameStore s task.runId c hasResult).1
    rw [joinNext_cons]
    refine hjoined.setSubmit i _ ?_
    intro call hcall e he
    cases hcall
    rw [hstore]
    exact hrest e (List.mem_cons_of_mem _ he)

theorem register (i : ℕ) (runId : RunId) (hplan : ∀ c ∈ plan.computations, Covered s.store c) :
    Fed (register s i runId plan).state := by
  have halloc : Fed (allocateRun s runId plan) := h.same rfl rfl (fun _ => rfl) (fun _ => rfl)
  unfold Scheduler.register
  split
  · exact halloc.setSubmit i none (by simp)
  · rename_i c rest hcomputations
    refine halloc.setSubmit i _ ?_
    intro call hcall
    cases hcall
    rw [hcomputations] at hplan
    exact hplan

theorem effect (hsubmits : SubmitsCovered s) {a : Action} {p : Prepared} (he : Effect s a p)
    (hplans : ∀ runId plan, a = .submit runId plan → PlanCovered s.store plan) : Fed p.state := by
  have hquiets : ∀ {t : State}, Quiet s t → Fed t := by
    intro t hquiet
    refine h.kept hquiet.store ?_ hquiet.plan (fun u hu => hquiet.stateOf u ▸ hu)
    intro i call hcall
    rwa [hquiet.joiningCall i] at hcall
  cases he with
  | quiet hquiet => exact hquiets hquiet
  | drops i => exact h.setSubmit i none (by simp)
  | @registers _ t i runId plan hregistering hquiet _ =>
    have hplan := (hsubmits.registering hregistering hplans).mono hquiet.store
    exact (hquiets hquiet).register i runId hplan.covered
  | joins i hsub => exact h.joinNext _ (h.joining i _ (joiningCall_of_submits hsub))
  | @withdraws runId run _ _ _ => exact (h.withdraw runId run).finishRun run
  | @awaits runId run _ _ =>
    exact (h.withdraw runId run).same rfl rfl (fun _ => rfl) (fun _ => rfl)
  | @answers i task _ =>
    have hdrop : Fed (s.setCancel i none) := h.same rfl rfl (fun _ => rfl) (fun _ => rfl)
    exact hdrop.finishRun task.run
  | @settles _ t r state hquiet _ hstate =>
    refine (hquiets hquiet).kept (ResultStore.Extends.refl _) (fun _ _ hcall => hcall) ?_ ?_
    · intro u
      by_cases hu : u = r <;> simp [hu]
    · intro u hu
      by_cases hur : u = r
      · subst u
        rcases hstate with rfl | ⟨rfl, -⟩ <;> simp [State.stateOf] at hu
      · simpa [State.stateOf, hur] using hu

end

end Fed

variable {concurrency : ℕ}

/-- What becomes ready in a dispatch has all its upstreams stored. -/
theorem Fed.dispatch (h : Fed s) (hsound : Sound concurrency s) (hwired : ∀ r ∈ s.records.values,
      s.stateOf r = .pending →
      (∀ u ∈ (s.computations r).dependencies, s.stateOf u = .succeeded) → s.WiredFor r) :
    Fed (dispatch concurrency s) := by
  suffices hduring : DuringDispatch s (Scheduler.dispatch concurrency s) ∧
      ∀ u, (Scheduler.dispatch concurrency s).stateOf u = .ready ∨
        (Scheduler.dispatch concurrency s).stateOf u = .running →
        ∀ g ∈ (s.computations u).plan.upstreamFingerprints.values, s.store.Stored g by
    obtain ⟨hd, hstarted⟩ := hduring
    refine ⟨?_, ?_, ?_⟩
    · intro i call hcall
      rw [State.joiningCall, hd.calls.submits] at hcall
      rw [hd.calls.store]
      exact h.joining i call hcall
    · intro u
      rw [hd.plan u, hd.calls.store]
      exact h.records u
    · intro u hu
      rw [hd.plan u, hd.calls.store]
      exact hstarted u hu
  refine dispatch_rule_during (P := fun t => ∀ u, t.stateOf u = .ready ∨ t.stateOf u = .running →
    ∀ g ∈ (s.computations u).plan.upstreamFingerprints.values, s.store.Stored g) s ?_ ?_ ?_ ?_
    h.started
  · intro t r hd hr ht
    rcases resolveRecord_cases t r with heq | ⟨-, -, heq⟩ | ⟨-, -, heq⟩ | ⟨hp, hall, heq⟩ <;>
      rw [heq]
    · exact ht
    · intro u hu
      by_cases hur : u = r
      · simp [hur] at hu
      · exact ht u (by simpa [hur] using hu)
    · intro u hu
      by_cases hur : u = r
      · simp [hur] at hu
      · exact ht u (by simpa [hur] using hu)
    · intro u hu
      by_cases hur : u = r
      · -- the record that becomes ready: its dependencies are stored
        subst u
        intro g hg
        rcases h.records r g hg with hdepends | hstored
        · have hmem : r ∈ s.records.values := by
            obtain ⟨entry, hentry, rfl⟩ := List.mem_map.mp hr
            exact List.mem_map_of_mem (hd.records entry hentry)
          have hsucceeded : ∀ u ∈ (s.computations r).dependencies, s.stateOf u = .succeeded := by
            intro u hu
            rw [← hd.dependencies r] at hu
            exact hd.succeeded u (hall u hu)
          rcases hwired r hmem (hd.pending r hp) hsucceeded g hdepends with
            hstored | ⟨u, hu, rfl⟩
          · exact hstored
          · exact hsound.stored u (hsucceeded u hu)
        · exact hstored
      · exact ht u (by simpa [State.stateOf, hur] using hu)
  · exact fun t queue ht => ht
  · intro t r _ hr _ ht
    rw [startRecord_eq hr]
    intro u hu
    by_cases hur : u = r
    · subst u
      exact ht r (Or.inl hr)
    · exact ht u (by simpa [State.stateOf, hur] using hu)
  · intro t run _ _ _ _ ht
    have hf := finishRun_finished t run
    intro u hu
    refine ht u ?_
    rw [State.stateOf, hf.computations u] at hu
    split_ifs at hu <;> exact hu

/-- The submits bring plans of `plan_run`, and no dispatch comes upon a submit
that has not wired what it holds. -/
def PlansSettled (sha256 : String → Fingerprint) (x : State × List Ref) (a : Action) : Prop :=
  SubmitsPlanned sha256 x.1 a ∧ AtDispatch (fun s => JoinsSettled s x.2) x.1 a

/-- What is kept along a run with its history. -/
structure FedRun (concurrency : ℕ) (x : State × List Ref) : Prop where
  valid : Valid concurrency x.1
  submits : SubmitsCovered x.1
  fed : Fed x.1
  wiring : WiringDue x.1 x.2

theorem FedRun.step {x y : State × List Ref} (h : FedRun concurrency x)
    (hmeets : PlansSettled sha256 x a) (hstep : stepLeaving concurrency x a = some y) :
    FedRun concurrency y := by
  obtain ⟨s, left⟩ := x
  obtain ⟨hvalid, hsubmits, hfed, hwiring⟩ := h
  obtain ⟨hplanned, hdispatch⟩ := hmeets
  obtain ⟨s', hs', rfl⟩ := Option.map_eq_some_iff.mp hstep
  obtain ⟨p, hp, hcases⟩ := step_cases hs'
  have he := hvalid.effect hp
  have hplans : ∀ runId plan, a = .submit runId plan → PlanCovered s.store plan :=
    fun runId plan ha => (hplanned runId plan ha).covered
  have hvalid' := hvalid.prepare hp
  have hsubmits' := hsubmits.prepare hp he hplans
  have hfed' := hfed.effect hsubmits he hplans
  have hwiring' := hwiring.effect hvalid.sound he
    (fun _ _ hregistering => (hsubmits.registering hregistering hplans).closed)
  rcases hcases with ⟨hd, rfl⟩ | ⟨-, rfl⟩
  · have hleft : left ++ leavesUnwired s a = left := by
      rw [leavesUnwired_of_dispatches hp hd, List.append_nil]
    show FedRun concurrency (dispatch concurrency p.state, left ++ leavesUnwired s a)
    have hwiring' : WiringDue p.state left := hleft ▸ hwiring'
    rw [hleft]
    have hwired := hwiring'.settled hvalid'.idle (hdispatch p hp hd)
    refine ⟨hvalid'.dispatch, ?_, hfed'.dispatch hvalid'.sound hwired, hwiring'.dispatch⟩
    have hcalls := sameCalls_dispatch concurrency p.state
    rw [SubmitsCovered, hcalls.submits, hcalls.store]
    exact hsubmits'
  · exact ⟨hvalid', hsubmits', hfed', hwiring'⟩

theorem FedRun.start (store : ResultStore) : FedRun concurrency (initial store, []) := by
  refine ⟨Valid.initial store, by simp [SubmitsCovered], ⟨?_, ?_, ?_⟩, ⟨?_, ?_, ?_⟩⟩
  · simp [State.joiningCall]
  · intro u g hg
    simp [vacantComputation, Dict.values, default, instInhabitedComputationPlan.default] at hg
  · simp [State.stateOf, vacantComputation]
  · simp [State.joiningCall]
  · simp [vacantComputation]
  · simp [Dict.values]

/-- In every run of planned submits in which no dispatch comes upon a submit
that has not wired what it holds, a running computation has all its upstream
results. -/
theorem running_reads_stored (sha256 : String → Fingerprint) (concurrency : ℕ)
    (store : ResultStore) (x : State × List Ref)
    (h : Reachable (stepLeaving concurrency) (PlansSettled sha256) (initial store, []) x) :
    ∀ r, x.1.stateOf r = .running →
      ∀ g ∈ (x.1.computations r).plan.upstreamFingerprints.values, x.1.store.Stored g :=
  fun r hr => (h.invariant (FedRun.start store) (fun _ _ _ => FedRun.step)).fed.started r
    (Or.inr hr)

section Examples

/-- The plan for some targets of the pipeline over a store. -/
def pipelinePlan (store : ResultStore) (targets : List InstanceKey) : RunPlan :=
  (planRun pipeline pipelineFingerprints targets (fun _ => store)).toOption.getD
    ⟨[], [], List.nodup_nil⟩

theorem pipelinePlan_planned {old store : ResultStore} {targets : List InstanceKey}
    (hstore : old.Extends store) (h : ∀ target ∈ targets, target ∈ pipeline.order) :
    Planned pipelineDigest store (pipelinePlan old targets) := by
  obtain ⟨-, hcovers⟩ := computeFingerprints_ok pipeline_fingerprints
  obtain ⟨plan, w, hplan, -⟩ := planRun_ok pipeline_topological hcovers h (fun _ => old)
  refine ⟨pipeline, plainFacts, pipelineFingerprints, targets, fun _ => old,
    pipeline_topological, pipeline_fingerprints, pipeline_collision_free, ?_, fun _ => hstore⟩
  rw [pipelinePlan, hplan]
  rfl

theorem empty_extends (store : ResultStore) : ResultStore.empty.Extends store := by
  intro f outputs hf
  simp [ResultStore.getResult, ResultStore.empty] at hf

/-- The plans a list of actions submits. -/
def submittedPlans (actions : List Action) : List RunPlan :=
  actions.filterMap (fun a => match a with
    | .submit _ plan => some plan
    | _ => none)

theorem mem_submittedPlans {actions : List Action} {runId : RunId}
    (h : .submit runId plan ∈ actions) : plan ∈ submittedPlans actions :=
  List.mem_filterMap.mpr ⟨_, h, rfl⟩

def filterRun : List Action :=
  [.submit "1" (pipelinePlan .empty [keyOf "filter"])] ++ joins 0 ++ joins 0 ++ completes 0

theorem filter_reads_stored :
    ∃ x, Reachable (stepLeaving 2) (PlansSettled pipelineDigest) (initial ResultStore.empty, []) x ∧
      x.1.stateOf 1 = .running ∧
      loadDigest ∈ (x.1.computations 1).plan.upstreamFingerprints.values ∧
      x.1.store.Stored loadDigest := by
  have hmeets : ∀ a ∈ filterRun, ∀ x, atDispatch (fun s => JoinsSettled s x.2) x.1 a →
      PlansSettled pipelineDigest x a := by
    intro a ha x hcheck
    refine ⟨?_, atDispatch_sound hcheck⟩
    rintro runId plan rfl
    obtain rfl : plan = pipelinePlan .empty [keyOf "filter"] := by
      simpa [submittedPlans, filterRun, joins, completes] using mem_submittedPlans ha
    exact pipelinePlan_planned (empty_extends _) (by decide)
  obtain ⟨x, hx, htest⟩ := exists_reachable (stepLeaving 2) (PlansSettled pipelineDigest)
    (fun x a => atDispatch (fun s => JoinsSettled s x.2) x.1 a) (initial ResultStore.empty, [])
    filterRun (fun x => x.1.stateOf 1 = .running ∧ loadDigest ∈
      (x.1.computations 1).plan.upstreamFingerprints.values) hmeets (by decide +kernel)
  simp only [Bool.decide_and, Bool.and_eq_true, decide_eq_true_eq] at htest
  exact ⟨x, hx, htest.1, htest.2,
    running_reads_stored pipelineDigest 2 ResultStore.empty x hx 1 htest.1 loadDigest htest.2⟩

/-- Run 1 has joined `load` and `filter` and waits to join `view` when the
computation of Run 0 finishes: its dispatch starts both. -/
def earlyStart : List Action :=
  [.submit "0" (pipelinePlan .empty [keyOf "ping"])] ++ joins 0 ++
  [.runnerReturns 0 [], .taskAnswered 0, .taskResumes 0, .taskAnswered 0,
    .submit "1" (pipelinePlan .empty [keyOf "filter", keyOf "view"])] ++ joins 1 ++ joins 1 ++
  [.taskResumes 0]

theorem filter_started_before_load :
    ∃ s, Reachable (step 2) (SubmitsPlanned pipelineDigest) (initial ResultStore.empty) s ∧
      ∃ r, s.stateOf r = .running ∧
        ∃ g ∈ (s.computations r).plan.upstreamFingerprints.values, ¬ s.store.Stored g := by
  have hmeets : ∀ a ∈ earlyStart, ∀ s, true → SubmitsPlanned pipelineDigest s a := by
    rintro a ha s - runId plan rfl
    have hplan : plan = pipelinePlan .empty [keyOf "ping"] ∨
        plan = pipelinePlan .empty [keyOf "filter", keyOf "view"] := by
      simpa [submittedPlans, earlyStart, joins] using mem_submittedPlans ha
    rcases hplan with rfl | rfl
    · exact pipelinePlan_planned (empty_extends _) (by decide)
    · exact pipelinePlan_planned (empty_extends _) (by decide)
  obtain ⟨s, hs, htest⟩ := exists_reachable (step 2) (SubmitsPlanned pipelineDigest)
    (fun _ _ => true) (initial ResultStore.empty) earlyStart
    (fun s => s.stateOf 2 = .running ∧ loadDigest ∈
      (s.computations 2).plan.upstreamFingerprints.values ∧ ¬ s.store.Stored loadDigest)
    hmeets (by decide +kernel)
  simp only [Bool.decide_and, Bool.and_eq_true, decide_eq_true_eq] at htest
  exact ⟨s, hs, 2, htest.1, loadDigest, htest.2.1, htest.2.2⟩

end Examples

end Grafy.Scheduler
