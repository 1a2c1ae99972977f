import Grafy.SchedulerRuns

/-!
Who wires the dependencies of a record. A submit joins the computations of its
plan one by one and wires them all after the last join, so between its joins
and after a store call that raises there the records it has joined are in the
table without their dependencies. A history, which no step reads, remembers
the records left behind by submits that raised.
-/
namespace Grafy.Scheduler

open OrderedDict Reachability Results

variable {s : State} {a : Action} {p : Prepared} {c : ComputationPlan} {plan : RunPlan}

/-- What a plan depends on is in the plan when `submit` has nothing to look up. -/
theorem mem_fingerprints_of_closed (h : openDependencies plan = []) (hc : c ∈ plan.computations)
    {d : Fingerprint} (hd : d ∈ c.dependsOn) : d ∈ plan.fingerprints := by
  rw [openDependencies, List.flatMap_eq_nil_iff] at h
  have hnone := h c hc
  rw [List.map_eq_nil_iff, List.filter_eq_nil_iff] at hnone
  simpa using hnone d ((List.mem_insertionSort _).mpr hd)

/-- A record is wired for each dependency of its plan that has no stored
result. -/
def State.WiredFor (s : State) (r : Ref) : Prop :=
  ∀ d ∈ (s.computations r).plan.dependsOn, s.store.Stored d ∨
    ∃ u ∈ (s.computations r).dependencies, s.fingerprintOf u = d

instance (s : State) : DecidablePred s.WiredFor := fun r =>
  inferInstanceAs (Decidable (∀ d ∈ (s.computations r).plan.dependsOn, _))

theorem State.WiredFor.mono {s s' : State} {r : Ref} (h : s.WiredFor r)
    (hstore : s.store.Extends s'.store)
    (hplan : (s'.computations r).plan = (s.computations r).plan)
    (hdeps : ∀ u ∈ (s.computations r).dependencies,
      u ∈ (s'.computations r).dependencies ∧ s'.fingerprintOf u = s.fingerprintOf u) :
    s'.WiredFor r := by
  intro d hd
  rw [hplan] at hd
  rcases h d hd with hstored | ⟨u, hu, rfl⟩
  · exact Or.inl (hstore.stored hstored)
  · exact Or.inr ⟨u, (hdeps u hu).1, (hdeps u hu).2⟩

/-- The records a submit that raises at a join leaves behind. -/
def leavesUnwired (s : State) : Action → List Ref
  | .submitRaises i => ((s.joiningCall i).map (fun call => call.joined.values)).getD []
  | _ => []

/-- A step that dispatches raises nothing. -/
theorem leavesUnwired_of_dispatches (hp : prepare s a = some p) (hd : p.dispatches = true) :
    leavesUnwired s a = [] := by
  cases a with
  | submitRaises i =>
    simp only [prepare] at hp
    split at hp
    · cases hp
      simp at hd
    · simp at hp
  | _ => rfl

/-- The steps of the scheduler with a history that no step reads: the records
left behind by submits that raised. -/
def stepLeaving (concurrency : ℕ) (x : State × List Ref) (a : Action) : Option (State × List Ref) :=
  (step concurrency x.1 a).map (fun s => (s, x.2 ++ leavesUnwired x.1 a))

/-- The history stops no step: every run is one that keeps it. -/
theorem reachable_leaving {concurrency : ℕ} {meets : State → Action → Prop} {s0 s : State}
    (h : Reachable (step concurrency) meets s0 s) : ∃ left,
      Reachable (stepLeaving concurrency) (fun x a => meets x.1 a) (s0, []) (s, left) := by
  induction h with
  | start => exact ⟨[], .start⟩
  | @next s s' a _ hmeets hs ih =>
    obtain ⟨left, hleft⟩ := ih
    refine ⟨left ++ leavesUnwired s a, .next hleft hmeets ?_⟩
    simp [stepLeaving, hs]

/-- A submit that has joined the record is suspended before its last join, or
has raised there. -/
def HalfJoined (s : State) (left : List Ref) (r : Ref) : Prop :=
  r ∈ left ∨ ∃ i < s.nextSubmit, ∃ call ∈ s.joiningCall i, r ∈ call.joined.values

instance (s : State) (left : List Ref) : DecidablePred (HalfJoined s left) := fun r =>
  inferInstanceAs (Decidable (r ∈ left ∨ ∃ i < s.nextSubmit, ∃ call ∈ s.joiningCall i, _))

/-- The condition under which a dispatch starts nothing too early: a submit
that is suspended between its joins, or that raised there, holds no pending
record that would be found ready and is still to be wired. -/
def JoinsSettled (s : State) (left : List Ref) : Prop :=
  ∀ r ∈ s.records.values, HalfJoined s left r → s.stateOf r = .pending →
    (∀ u ∈ (s.computations r).dependencies, s.stateOf u = .succeeded) → s.WiredFor r

instance (s : State) (left : List Ref) : Decidable (JoinsSettled s left) :=
  inferInstanceAs (Decidable (∀ r ∈ s.records.values, _ → _ → _ → _))

/-- A suspended submit joins the computations of its plan in order, and its
plan depends on nothing outside itself. -/
structure JoiningCall.InOrder (call : JoiningCall) : Prop where
  order : ∃ done, call.plan.computations = done ++ call.computation :: call.rest ∧
    call.joined.keys = done.map ComputationPlan.fingerprint
  closed : openDependencies call.plan = []

namespace JoiningCall.InOrder

variable {runId : RunId} {run : RunRef} {joined : Dict Fingerprint Ref} {d : ComputationPlan}
  {rest : List ComputationPlan}

theorem new (h : openDependencies plan = []) (hplan : plan.computations = c :: rest) :
    InOrder ⟨runId, plan, run, [], c, rest⟩ :=
  ⟨⟨[], hplan, rfl⟩, h⟩

section

variable (h : InOrder ⟨runId, plan, run, joined, c, rest⟩)
include h

theorem current : c ∈ plan.computations := by
  obtain ⟨done, hplan, -⟩ := h.order
  have hplan : plan.computations = done ++ c :: rest := hplan
  simp [hplan]

/-- The current computation has not been joined yet. -/
theorem fresh : c.fingerprint ∉ joined.keys := by
  obtain ⟨done, hplan, hkeys⟩ := h.order
  have hplan : plan.computations = done ++ c :: rest := hplan
  have hkeys : joined.keys = done.map ComputationPlan.fingerprint := hkeys
  have hdistinct := plan.distinct
  rw [hplan, List.map_append, List.map_cons] at hdistinct
  rw [hkeys]
  intro hmem
  exact (List.nodup_append.mp hdistinct).2.2 _ hmem _ (List.mem_cons_self ..) rfl

theorem joined_keys (r : Ref) : (joined.set c.fingerprint r).keys =
    joined.keys ++ [c.fingerprint] := by
  rw [Dict.set_of_get?_none (Dict.get?_eq_none h.fresh)]
  simp [Dict.keys]

theorem held {u : Ref} {f : Fingerprint} (hu : joined.get? f = some u) (r : Ref) :
    (joined.set c.fingerprint r).get? f = some u := by
  rw [Dict.get?_set_ne _ _ ?_, hu]
  rintro rfl
  exact h.fresh (Dict.mem_keys_of_get? hu)

end

theorem next (h : InOrder ⟨runId, plan, run, joined, c, d :: rest⟩) (r : Ref) :
    InOrder ⟨runId, plan, run, joined.set c.fingerprint r, d, rest⟩ := by
  refine ⟨?_, h.closed⟩
  obtain ⟨done, hplan, hkeys⟩ := h.order
  refine ⟨done ++ [c], ?_, ?_⟩
  · simpa using hplan
  · have hkeys : joined.keys = done.map ComputationPlan.fingerprint := hkeys
    show (joined.set c.fingerprint r).keys = _
    rw [h.joined_keys r, hkeys]
    simp

/-- After the last join every computation of the plan has its record. -/
theorem last (h : InOrder ⟨runId, plan, run, joined, c, []⟩) (r : Ref) {f : Fingerprint}
    (hf : f ∈ plan.fingerprints) : ((joined.set c.fingerprint r).get? f).isSome := by
  refine Dict.get?_isSome_of_mem_keys ?_
  obtain ⟨done, hplan, hkeys⟩ := h.order
  have hplan : plan.computations = done ++ [c] := hplan
  have hkeys : joined.keys = done.map ComputationPlan.fingerprint := hkeys
  rw [h.joined_keys r, hkeys]
  simpa [RunPlan.fingerprints, hplan] using hf

end JoiningCall.InOrder

/-- The call has joined the record for a computation of its plan and will wire
it after its last join. -/
def HeldBy (s : State) (call : JoiningCall) (r : Ref) : Prop :=
  call.joined.get? (s.fingerprintOf r) = some r ∧ (s.computations r).plan ∈ call.plan.computations

/-- Who wires the pending records: each is wired, or held by a submit that is
still to wire it, or left behind by one that raised. -/
structure WiringDue (s : State) (left : List Ref) : Prop where
  calls : ∀ i call, s.joiningCall i = some call → call.InOrder
  bound : ∀ r, ∀ u ∈ (s.computations r).dependencies, u < s.nextComputation
  records : ∀ r ∈ s.records.values, s.stateOf r = .pending → s.WiredFor r ∨ r ∈ left ∨
    ∃ i call, s.joiningCall i = some call ∧ HeldBy s call r

namespace WiringDue

variable {s' : State} {left : List Ref} {i : ℕ}

section

variable (h : WiringDue s left)
include h

theorem kept (hstore : s.store.Extends s'.store)
    (hnext : s'.nextComputation = s.nextComputation)
    (hcalls : ∀ i, s'.joiningCall i = s.joiningCall i)
    (hrecords : ∀ r ∈ s'.records.values, r ∈ s.records.values)
    (hplan : ∀ u, (s'.computations u).plan = (s.computations u).plan)
    (hdeps : ∀ u, (s'.computations u).dependencies = (s.computations u).dependencies)
    (hstate : ∀ u, s'.stateOf u = .pending → s.stateOf u = .pending) : WiringDue s' left := by
  have hfp : ∀ u, s'.fingerprintOf u = s.fingerprintOf u := by
    intro u
    rw [State.fingerprintOf, hplan u, State.fingerprintOf]
  refine ⟨fun i call hcall => h.calls i call (hcalls i ▸ hcall), ?_, ?_⟩
  · intro r
    rw [hdeps r, hnext]
    exact h.bound r
  intro r hr hp
  rcases h.records r (hrecords r hr) (hstate r hp) with hwired | hleft |
    ⟨i, call, hcall, hget, hmem⟩
  · refine Or.inl (hwired.mono hstore (hplan r) (fun u hu => ⟨?_, hfp u⟩))
    rw [hdeps r]
    exact hu
  · exact Or.inr (Or.inl hleft)
  · refine Or.inr (Or.inr ⟨i, call, (hcalls i).trans hcall, ?_, ?_⟩)
    · rw [hfp r]
      exact hget
    · rw [hplan r]
      exact hmem

theorem quiet (hquiet : Quiet s s') : WiringDue s' left := by
  refine h.kept hquiet.store hquiet.nextComputation hquiet.joiningCall ?_ hquiet.plan
    hquiet.dependencies (fun u hu => hquiet.stateOf u ▸ hu)
  rw [hquiet.records]
  exact fun _ hr => hr

theorem finishRun (run : RunRef) : WiringDue (finishRun s run) left := by
  have hf := finishRun_finished s run
  refine h.kept ?_ hf.calls.nextComputation ?_ ?_ ?_ ?_ ?_
  · rw [hf.calls.store]
    exact ResultStore.Extends.refl _
  · intro i
    rw [State.joiningCall, hf.calls.submits]
    rfl
  · intro r hr
    obtain ⟨entry, hentry, rfl⟩ := List.mem_map.mp hr
    exact List.mem_map_of_mem (hf.entries entry hentry)
  all_goals
    intro u
    simp only [State.stateOf, hf.computations u]
    split_ifs
  · rfl
  · rfl
  · rfl
  · rfl
  · exact fun hu => hu
  · exact fun hu => hu

theorem withdraw (runId : RunId) (run : RunRef) : WiringDue (withdraw s runId run).1 left := by
  have hw := withdraw_withdrawn s runId run
  refine h.kept ?_ hw.calls.nextComputation ?_ ?_ hw.plan hw.dependencies ?_
  · rw [hw.calls.store]
    exact ResultStore.Extends.refl _
  · intro i
    rw [State.joiningCall, hw.calls.submits]
    rfl
  · rw [hw.records]
    exact fun _ hr => hr
  · intro u hu
    rcases hw.state u with hsame | ⟨hcancelled, -⟩
    · exact hsame.symm.trans hu
    · rw [hcancelled] at hu
      simp at hu

/-- A call ends or is opened: the records of the other calls stay held. -/
theorem setSubmit (task : Option SubmitTask) (hlost : ∀ call, s.joiningCall i = some call →
      ∀ r, HeldBy s call r → r ∈ left)
    (hnew : ∀ call, task.bind SubmitTask.joiningCall = some call → call.InOrder) :
    WiringDue (s.setSubmit i task) left := by
  refine ⟨?_, h.bound, ?_⟩
  · intro j call hcall
    rw [joiningCall_setSubmit] at hcall
    split_ifs at hcall
    · exact hnew call hcall
    · exact h.calls j call hcall
  · intro r hr hp
    rcases h.records r hr hp with hwired | hleft | ⟨j, call, hcall, hheld⟩
    · exact Or.inl hwired
    · exact Or.inr (Or.inl hleft)
    · by_cases hj : j = i
      · subst j
        exact Or.inr (Or.inl (hlost call hcall r hheld))
      · refine Or.inr (Or.inr ⟨j, call, ?_, hheld⟩)
        rw [joiningCall_setSubmit, if_neg hj]
        exact hcall

/-- A raising submit leaves behind what it held. -/
theorem drops (i : ℕ) :
    WiringDue (s.setSubmit i none) (left ++ leavesUnwired s (.submitRaises i)) := by
  have hlonger : WiringDue s (left ++ leavesUnwired s (.submitRaises i)) := by
    refine ⟨h.calls, h.bound, ?_⟩
    intro r hr hp
    rcases h.records r hr hp with hwired | hleft | hheld
    · exact Or.inl hwired
    · exact Or.inr (Or.inl (List.mem_append_left _ hleft))
    · exact Or.inr (Or.inr hheld)
  refine hlonger.setSubmit none ?_ (by simp)
  intro call hcall r hheld
  refine List.mem_append_right _ ?_
  simpa [leavesUnwired, hcall] using Dict.mem_values_of_get? hheld.1

theorem register {runId : RunId} (hcall : s.joiningCall i = none)
    (hclosed : openDependencies plan = []) : WiringDue (register s i runId plan).state left := by
  have halloc : WiringDue (allocateRun s runId plan) left :=
    h.kept (ResultStore.Extends.refl _) rfl (fun _ => rfl) (fun _ hr => hr) (fun _ => rfl)
      (fun _ => rfl) (fun _ hu => hu)
  have hnone : ∀ call, (allocateRun s runId plan).joiningCall i = some call →
      ∀ r, HeldBy (allocateRun s runId plan) call r → r ∈ left := by
    intro call hsome
    have hsome : s.joiningCall i = some call := hsome
    rw [hcall] at hsome
    simp at hsome
  unfold Scheduler.register
  split
  · exact halloc.setSubmit none hnone (by simp)
  · rename_i c rest hcomputations
    refine halloc.setSubmit _ hnone ?_
    intro call hnew
    cases hnew
    exact .new hclosed hcomputations

end

end WiringDue

variable {concurrency : ℕ}

section Join

variable (hsound : Sound concurrency s) {runId : RunId} {hasResult : Bool}
include hsound

/-- A pending record of the table after a join is the one just joined, with
the plan of the submit, or an old one that the join leaves alone. -/
theorem joined_record {r : Ref} (hr : r ∈ (join s runId c hasResult).2.records.values)
    (hp : (join s runId c hasResult).2.stateOf r = .pending) :
    ((join s runId c hasResult).1 = r ∧
      ((join s runId c hasResult).2.computations r).plan = c) ∨
    (r ∈ s.records.values ∧ r < s.nextComputation ∧ s.stateOf r = .pending) := by
  have hold : r ∈ s.records.values →
      r ∈ s.records.values ∧ r < s.nextComputation ∧ s.stateOf r = .pending := by
    intro hmem
    obtain ⟨⟨f, u⟩, hentry, rfl⟩ := List.mem_map.mp hmem
    have hlt : u < s.nextComputation := (hsound.records_keyed f u hentry).2
    refine ⟨hmem, hlt, ?_⟩
    rw [State.stateOf] at hp
    rcases join_cell s runId c hasResult u with ⟨demanders, heq⟩ | ⟨hnew, -⟩
    · rw [heq] at hp
      exact hp
    · exact absurd hnew (Nat.ne_of_lt hlt)
  rcases join_cases s runId c hasResult with ⟨-, heq⟩ | ⟨-, -, heq⟩ | ⟨-, u, -, -, heq⟩
  · rw [heq] at hr
    exact Or.inr (hold hr)
  · have hr' := hr
    rw [heq] at hr'
    obtain ⟨entry, hentry, rfl⟩ := List.mem_map.mp hr'
    rcases Dict.mem_set hentry with rfl | hentry
    · refine Or.inl ⟨by rw [heq], ?_⟩
      rw [heq]
      simp
    · exact Or.inr (hold (List.mem_map_of_mem hentry))
  · rw [heq] at hr
    exact Or.inr (hold hr)

omit hsound in
/-- A join leaves the plans and dependencies of the old records. -/
theorem join_old (s : State) (runId : RunId) (c : ComputationPlan) (hasResult : Bool) {u : Ref}
    (hu : u < s.nextComputation) :
    ((join s runId c hasResult).2.computations u).plan = (s.computations u).plan ∧
    ((join s runId c hasResult).2.computations u).dependencies =
      (s.computations u).dependencies := by
  rcases join_cell s runId c hasResult u with ⟨demanders, heq⟩ | ⟨hnew, -⟩
  · rw [heq]
    exact ⟨rfl, rfl⟩
  · exact absurd hnew (Nat.ne_of_lt hu)

omit hsound in
theorem joined_wiredFor {left : List Ref} (h : WiringDue s left) {r : Ref}
    (hr : r < s.nextComputation) (hwired : s.WiredFor r) (run : RunRef) :
    (joinedState s runId run c hasResult).WiredFor r := by
  obtain ⟨hplan, hdeps⟩ := join_old s runId c hasResult hr
  have hstore : (joinedState s runId run c hasResult).store = s.store :=
    (join_sameStore s runId c hasResult).1
  refine hwired.mono ?_ hplan ?_
  · rw [hstore]
    exact ResultStore.Extends.refl _
  · intro u hu
    refine ⟨?_, (join_keeps s runId c hasResult).2 u (h.bound r u hu)⟩
    show u ∈ ((join s runId c hasResult).2.computations r).dependencies
    rw [hdeps]
    exact hu

variable {left : List Ref} {plan : RunPlan} {run : RunRef} {joined : Dict Fingerprint Ref}
  {rest : List ComputationPlan} {i : ℕ}

omit hsound in
theorem joined_bound (h : WiringDue s left) (run : RunRef) (r : Ref) :
    ∀ u ∈ ((joinedState s runId run c hasResult).computations r).dependencies,
      u < (joinedState s runId run c hasResult).nextComputation := by
  intro u hu
  refine Nat.lt_of_lt_of_le ?_ (join_keeps s runId c hasResult).1
  have hu : u ∈ ((join s runId c hasResult).2.computations r).dependencies := hu
  rcases join_cell s runId c hasResult r with ⟨demanders, heq⟩ | ⟨-, state, demanders, heq, -⟩
  · rw [heq] at hu
    exact h.bound r u hu
  · rw [heq] at hu
    simp at hu

/-- After a join the wiring of every pending record is due to the same call as
before, and that of the record just joined to the call that joined it. -/
theorem joined_due (h : WiringDue s left)
    (hcall : s.joiningCall i = some ⟨runId, plan, run, joined, c, rest⟩)
    (hres : hasResult = true → s.store.Stored c.fingerprint) {r : Ref}
    (hr : r ∈ (joinedState s runId run c hasResult).records.values)
    (hp : (joinedState s runId run c hasResult).stateOf r = .pending) :
    (joinedState s runId run c hasResult).WiredFor r ∨ r ∈ left ∨
    (∃ j call, j ≠ i ∧ s.joiningCall j = some call ∧
      HeldBy (joinedState s runId run c hasResult) call r) ∨
    ((joined.set c.fingerprint (join s runId c hasResult).1).get?
        ((joinedState s runId run c hasResult).fingerprintOf r) = some r ∧
      ((joinedState s runId run c hasResult).computations r).plan ∈ plan.computations) := by
  have horder := h.calls i _ hcall
  have hcells : ∀ u, (joinedState s runId run c hasResult).computations u =
      (join s runId c hasResult).2.computations u := fun _ => rfl
  rcases joined_record hsound hr hp with ⟨rfl, hplan⟩ | ⟨hmem, hlt, hp'⟩
  · refine Or.inr (Or.inr (Or.inr ⟨?_, ?_⟩))
    · have hfp : (joinedState s runId run c hasResult).fingerprintOf (join s runId c hasResult).1 =
          c.fingerprint := (hsound.join runId c hres).2.1
      rw [hfp]
      exact Dict.get?_set_self ..
    · rw [hcells, hplan]
      exact horder.current
  · have hplan := (join_old s runId c hasResult hlt).1
    have hfp : (joinedState s runId run c hasResult).fingerprintOf r = s.fingerprintOf r := by
      rw [State.fingerprintOf, hcells, hplan, State.fingerprintOf]
    rcases h.records r hmem hp' with hwired | hleft | ⟨j, call, hj, hget, hplanned⟩
    · exact Or.inl (joined_wiredFor h hlt hwired run)
    · exact Or.inr (Or.inl hleft)
    · rw [← hfp] at hget
      rw [← hplan, ← hcells] at hplanned
      by_cases hji : j = i
      · subst j
        rw [hcall] at hj
        cases hj
        exact Or.inr (Or.inr (Or.inr ⟨horder.held hget _, hplanned⟩))
      · exact Or.inr (Or.inr (Or.inl ⟨j, call, hji, hj, hget, hplanned⟩))

omit hsound in
/-- The last join wires every record that the call holds. -/
theorem joined_wires (hdue : openDependencies plan = [])
    (hlast : ∀ f ∈ plan.fingerprints, (joined.get? f).isSome)
    (hentries : ∀ f r, (f, r) ∈ joined → s.fingerprintOf r = f) {r : Ref}
    (hget : joined.get? (s.fingerprintOf r) = some r)
    (hplan : (s.computations r).plan ∈ plan.computations) :
    (wirePlan s joined plan).WiredFor r := by
  intro d hd
  have hcell : ∀ u, ((wirePlan s joined plan).computations u).plan = (s.computations u).plan := by
    intro u
    obtain ⟨deps, heq, -, -⟩ := (wirePlan_wired s joined plan).computations u
    rw [heq]
  rw [hcell] at hd
  obtain ⟨u, hu⟩ := Option.isSome_iff_exists.mp
    (hlast d (mem_fingerprints_of_closed hdue hplan hd))
  refine Or.inr ⟨u, wirePlan_complete s ⟨_, hplan, hget, d, hd, hu⟩, ?_⟩
  rw [State.fingerprintOf, hcell]
  exact hentries d u (Dict.mem_of_get? hu)

end Join

namespace WiringDue

variable {left : List Ref} {i : ℕ} {task : SubmitTask} {run : RunRef}
  {joined : Dict Fingerprint Ref} {rest : List ComputationPlan} {hasResult : Bool}

theorem joinNext (h : WiringDue s left) (hsound : Sound concurrency s)
    (hcall : s.joiningCall i = some ⟨task.runId, task.plan, run, joined, c, rest⟩)
    (hres : hasResult = true → s.store.Stored c.fingerprint)
    (hjoined : ∀ f r, (f, r) ∈ joined → s.fingerprintOf r = f ∧ r < s.nextComputation) :
    WiringDue (joinNext s i task run joined c rest hasResult).state left := by
  have horder := h.calls i _ hcall
  have hentries := hsound.join_entries task.runId c hres hjoined
  have hcalls : ∀ j, (joinedState s task.runId run c hasResult).joiningCall j =
      s.joiningCall j := by
    intro j
    rw [State.joiningCall]
    exact congrArg (fun submits => (submits j).bind SubmitTask.joiningCall)
      (join_sameStore s task.runId c hasResult).2
  cases rest with
  | nil =>
    rw [joinNext_nil]
    have hwired := wired_joined s task run joined c hasResult
    have hplans : ∀ u, ((wirePlan (joinedState s task.runId run c hasResult)
        (joined.set c.fingerprint (join s task.runId c hasResult).1) task.plan).computations u).plan
          = ((joinedState s task.runId run c hasResult).computations u).plan := by
      intro u
      obtain ⟨deps, heq, -, -⟩ := hwired.computations u
      rw [heq]
    refine ⟨?_, ?_, ?_⟩
    · intro j call hj
      rw [joiningCall_setSubmit] at hj
      split_ifs at hj with hji
      · simp at hj
      · rw [State.joiningCall, hwired.calls.submits] at hj
        exact h.calls j call ((hcalls j).symm.trans hj)
    · intro r u hu
      have hnext := hwired.calls.nextComputation
      obtain ⟨deps, heq, -, hnew⟩ := hwired.computations r
      rw [State.setSubmit_computations, heq] at hu
      rw [State.setSubmit_nextComputation, hnext]
      rcases hnew u hu with hold | ⟨_, _, _, d, _, hget⟩
      · exact joined_bound h run r u hold
      · exact (hentries d u (Dict.mem_of_get? hget)).2
    · intro r hr hp
      rw [State.setSubmit_records, hwired.records] at hr
      have hp : (joinedState s task.runId run c hasResult).stateOf r = .pending :=
        (hwired.stateOf r).symm.trans hp
      rcases joined_due hsound h hcall hres hr hp with
        hdone | hleft | ⟨j, call, hji, hj, hget, hplan⟩ | ⟨hget, hplan⟩
      · obtain ⟨deps, heq, hold, -⟩ := hwired.computations r
        refine Or.inl (hdone.mono ?_ (hplans r) (fun u hu => ⟨?_, ?_⟩))
        · rw [State.setSubmit_store, hwired.calls.store]
          exact ResultStore.Extends.refl _
        · rw [State.setSubmit_computations, heq]
          exact hold u hu
        · rw [State.fingerprintOf, State.setSubmit_computations, hplans, State.fingerprintOf]
      · exact Or.inr (Or.inl hleft)
      · refine Or.inr (Or.inr ⟨j, call, ?_, ?_, ?_⟩)
        · rw [joiningCall_setSubmit, if_neg hji, State.joiningCall, hwired.calls.submits]
          exact (hcalls j).trans hj
        · rw [State.fingerprintOf, State.setSubmit_computations, hplans]
          exact hget
        · rw [State.setSubmit_computations, hplans]
          exact hplan
      · exact Or.inl (joined_wires (s := joinedState s task.runId run c hasResult) horder.closed
          (fun _ hf => horder.last _ hf) (fun f u hu => (hentries f u hu).1) hget hplan)
  | cons d rest =>
    rw [joinNext_cons]
    refine ⟨?_, joined_bound h run, ?_⟩
    · intro j call hj
      rw [joiningCall_setSubmit] at hj
      split_ifs at hj with hji
      · cases hj
        exact horder.next _
      · exact h.calls j call ((hcalls j).symm.trans hj)
    · intro r hr hp
      rcases joined_due hsound h hcall hres hr hp with
        hdone | hleft | ⟨j, call, hji, hj, hheld⟩ | hheld
      · exact Or.inl hdone
      · exact Or.inr (Or.inl hleft)
      · refine Or.inr (Or.inr ⟨j, call, ?_, hheld⟩)
        rw [joiningCall_setSubmit, if_neg hji]
        exact (hcalls j).trans hj
      · refine Or.inr (Or.inr ⟨i, ⟨task.runId, task.plan, run, joined.set c.fingerprint
          (join s task.runId c hasResult).1, d, rest⟩, ?_, hheld⟩)
        rw [joiningCall_setSubmit, if_pos rfl]
        rfl

theorem effect (h : WiringDue s left) (hsound : Sound concurrency s) (he : Effect s a p)
    (hclosed : ∀ runId plan, Registering s a runId plan → openDependencies plan = []) :
    WiringDue p.state (left ++ leavesUnwired s a) := by
  have hlonger : ∀ {t : State}, WiringDue t left → WiringDue t (left ++ leavesUnwired s a) :=
    fun ht => ⟨ht.calls, ht.bound, fun r hr hp => (ht.records r hr hp).imp id
      (Or.imp (List.mem_append_left _) id)⟩
  cases he with
  | quiet hquiet => exact hlonger (h.quiet hquiet)
  | drops i => exact h.drops i
  | @registers _ t i runId plan hregistering hquiet hcall =>
    exact hlonger ((h.quiet hquiet).register hcall (hclosed runId plan hregistering))
  | joins i hsub =>
    have htask := hsound.submits i _ hsub
    refine hlonger (h.joinNext hsound (joiningCall_of_submits hsub) ?_ htask.joined)
    rintro rfl
    exact htask.answered rfl
  | @withdraws runId run _ _ _ => exact hlonger ((h.withdraw runId run).finishRun run)
  | @awaits runId run _ _ =>
    exact hlonger ((h.withdraw runId run).kept (ResultStore.Extends.refl _) rfl (fun _ => rfl)
      (fun _ hr => hr) (fun _ => rfl) (fun _ => rfl) (fun _ hu => hu))
  | @answers i task _ =>
    have hdrop : WiringDue (s.setCancel i none) left :=
      h.kept (ResultStore.Extends.refl _) rfl (fun _ => rfl) (fun _ hr => hr) (fun _ => rfl)
        (fun _ => rfl) (fun _ hu => hu)
    exact hlonger (hdrop.finishRun task.run)
  | @settles _ t r state hquiet _ hstate =>
    refine hlonger ((h.quiet hquiet).kept (ResultStore.Extends.refl _) rfl (fun _ => rfl)
      (fun _ hr => hr) ?_ ?_ ?_)
    · intro u
      by_cases hu : u = r <;> simp [hu]
    · intro u
      by_cases hu : u = r <;> simp [hu]
    · intro u hu
      by_cases hur : u = r
      · subst u
        rcases hstate with rfl | ⟨rfl, -⟩ <;> simp [State.stateOf] at hu
      · simpa [State.stateOf, hur] using hu

theorem dispatch (h : WiringDue s left) : WiringDue (dispatch concurrency s) left := by
  have hd := dispatch_during concurrency s
  refine h.kept ?_ hd.calls.nextComputation ?_ ?_ hd.plan hd.dependencies hd.pending
  · rw [hd.calls.store]
    exact ResultStore.Extends.refl _
  · intro i
    rw [State.joiningCall, hd.calls.submits]
    rfl
  · intro r hr
    obtain ⟨entry, hentry, rfl⟩ := List.mem_map.mp hr
    exact List.mem_map_of_mem (hd.records entry hentry)

/-- When no unfinished submit holds what a dispatch would find ready, all it
would find ready is wired. -/
theorem settled (h : WiringDue s left) (hidle : Idle s) (hsettled : JoinsSettled s left) :
    ∀ r ∈ s.records.values, s.stateOf r = .pending →
      (∀ u ∈ (s.computations r).dependencies, s.stateOf u = .succeeded) → s.WiredFor r := by
  intro r hr hp hready
  rcases h.records r hr hp with hwired | hleft | ⟨i, call, hcall, hget, -⟩
  · exact hwired
  · exact hsettled r hr (Or.inl hleft) hp hready
  · refine hsettled r hr (Or.inr ⟨i, ?_, call, hcall, Dict.mem_values_of_get? hget⟩) hp hready
    by_contra hge
    rw [State.joiningCall, hidle i (Nat.le_of_not_lt hge)] at hcall
    simp at hcall

end WiringDue

end Grafy.Scheduler
