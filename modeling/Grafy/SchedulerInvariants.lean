import Grafy.Reachability
import Grafy.SchedulerSteps

/-!
The invariant every reachable state of the scheduler has, whatever the order
of submits, cancels, completions and raising store calls: the budget set is
exactly the running records and within the budget, no illegal transition was
attempted, and a succeeded record or an answered success has a stored result.
-/
namespace Grafy.Scheduler

open Lifecycle Instances OrderedDict Results

/-- The result has been written when `_execute` waits here. -/
def ExecutePoint.Written : ExecutePoint → Prop
  | .putResult _ answered => answered = true
  | .recordSuccess _ _ _ => True
  | _ => False

section Tasks

variable {s : State} {r : Ref}

theorem taskAnswered_cases {s' : State} (heq : taskAnswered s r = some s') :
    ∃ t store point, (s.computations r).task = some t ∧ s.store.Extends store ∧
      (point.Written → t.point.Written ∨ store.Stored (s.fingerprintOf r)) ∧
      s' = setPoint (s.setStore store) r point := by
  unfold taskAnswered at heq
  simp only at heq
  split at heq
  · rename_i outputs hpoint
    obtain ⟨t, htask, -⟩ := Option.map_eq_some_iff.mp hpoint
    exact ⟨t, _, _, htask, s.store.extends_putResult _ _,
      fun _ => Or.inr (s.store.stored_putResult _ _), (Option.some.inj heq).symm⟩
  · rename_i hpoint
    obtain ⟨t, htask, hat⟩ := Option.map_eq_some_iff.mp hpoint
    obtain ⟨store, hstore, rfl⟩ := Option.map_eq_some_iff.mp heq
    exact ⟨t, _, _, htask, ResultStore.extends_recordSuccess hstore,
      fun _ => Or.inl (hat ▸ trivial), rfl⟩
  · rename_i hpoint
    obtain ⟨t, htask, -⟩ := Option.map_eq_some_iff.mp hpoint
    exact ⟨t, _, _, htask, s.store.extends_recordFailure _ _, False.elim,
      (Option.some.inj heq).symm⟩
  · simp at heq

theorem taskResumes_cases {p : Prepared} (heq : taskResumes s r = some p) :
    ∃ t rest, (s.computations r).task = some t ∧
      (t.point.Written ∧ p = recordSuccesses s r rest ∨ p = recordFailures s r rest) := by
  unfold taskResumes at heq
  split at heq
  · rename_i hpoint
    obtain ⟨t, htask, hat⟩ := Option.map_eq_some_iff.mp hpoint
    exact ⟨t, _, htask, Or.inl ⟨hat ▸ rfl, (Option.some.inj heq).symm⟩⟩
  · rename_i hpoint
    obtain ⟨t, htask, hat⟩ := Option.map_eq_some_iff.mp hpoint
    exact ⟨t, _, htask, Or.inl ⟨hat ▸ trivial, (Option.some.inj heq).symm⟩⟩
  · rename_i hpoint
    obtain ⟨t, htask, -⟩ := Option.map_eq_some_iff.mp hpoint
    exact ⟨t, _, htask, Or.inr (Option.some.inj heq).symm⟩
  · simp at heq

theorem taskRaises_cases {exc : Raised} {p : Prepared} (heq : taskRaises s r exc = some p) :
    (s.computations r).task.isSome ∧ (p = executeFails s r exc ∨ p = finish s r .fail) := by
  unfold taskRaises at heq
  rw [← Option.isSome_map (f := ExecuteTask.point)]
  split at heq
  · rename_i hpoint
    exact ⟨hpoint ▸ rfl, Or.inl (Option.some.inj heq).symm⟩
  · rename_i hpoint
    exact ⟨hpoint ▸ rfl, Or.inl (Option.some.inj heq).symm⟩
  · rename_i hpoint
    exact ⟨hpoint ▸ rfl, Or.inr (Option.some.inj heq).symm⟩
  · simp at heq

end Tasks

def SubmitPoint.joined : SubmitPoint → Dict Fingerprint Ref
  | .validating _ _ _ => []
  | .joining _ joined _ _ => joined

/-- What a suspended submit remembers is true: a positive answer was a stored
result, and the records it joined are those of their fingerprints. -/
structure SubmitTask.Sound (s : State) (t : SubmitTask) : Prop where
  answered : t.answer = some true → s.store.Stored t.point.query
  joined : ∀ f r, (f, r) ∈ t.point.joined → s.fingerprintOf r = f ∧ r < s.nextComputation

theorem SubmitTask.Sound.mono {s s' : State} {t : SubmitTask} (h : t.Sound s)
    (hstore : s.store.Extends s'.store) (hnext : s.nextComputation ≤ s'.nextComputation)
    (hplan : ∀ u < s.nextComputation, s'.fingerprintOf u = s.fingerprintOf u) : t.Sound s' := by
  refine ⟨fun ha => hstore.stored (h.answered ha), ?_⟩
  intro f r hr
  obtain ⟨hkey, hlt⟩ := h.joined f r hr
  exact ⟨(hplan r hlt).trans hkey, Nat.lt_of_lt_of_le hlt hnext⟩

structure Sound (concurrency : ℕ) (s : State) : Prop where
  running_iff : ∀ r, r ∈ s.running ↔ s.stateOf r = .running
  running_nodup : s.running.Nodup
  budget : s.running.length ≤ concurrency
  legal : s.illegalTransitions = []
  untasked : ∀ r, s.stateOf r = .pending ∨ s.stateOf r = .ready → (s.computations r).task = none
  stored : ∀ r, s.stateOf r = .succeeded → s.store.Stored (s.fingerprintOf r)
  written : ∀ r t, (s.computations r).task = some t → t.point.Written →
    s.store.Stored (s.fingerprintOf r)
  records_nodup : s.records.keys.Nodup
  records_keyed : ∀ f r, (f, r) ∈ s.records → s.fingerprintOf r = f ∧ r < s.nextComputation
  submits : ∀ i t, s.submits i = some t → t.Sound s
  vacant : ∀ r, s.nextComputation ≤ r → s.computations r = vacantComputation

namespace Sound

variable {concurrency : ℕ} {s s' : State} {r : Ref} {hasResult : Bool} {p : Prepared}
  {state : ComputationState} {store : ResultStore} {joined : Dict Fingerprint Ref}
  {task : SubmitTask} {a : Action}

theorem records_get (h : Sound concurrency s) {f : Fingerprint} (hget : s.records.get? f = some r) :
    s.fingerprintOf r = f ∧ r < s.nextComputation :=
  h.records_keyed f r (Dict.mem_of_get? hget)

theorem lt_next_of_not_terminal (h : Sound concurrency s) (hr : ¬ (s.stateOf r).Terminal) :
    r < s.nextComputation := by
  by_contra hge
  have hv := h.vacant r (Nat.le_of_not_lt hge)
  rw [State.stateOf, hv] at hr
  exact hr (by decide)

theorem lt_next_of_task (h : Sound concurrency s) (hr : (s.computations r).task.isSome) :
    r < s.nextComputation := by
  by_contra hge
  rw [h.vacant r (Nat.le_of_not_lt hge)] at hr
  simp [vacantComputation] at hr

/-- The invariant does not read demanders, dependencies, failures or Runs. -/
theorem congr (h : Sound concurrency s) (hrunning : s'.running = s.running)
    (hillegal : s'.illegalTransitions = s.illegalTransitions)
    (hcomp : ∀ u, (s'.computations u).state = (s.computations u).state ∧
      (s'.computations u).plan = (s.computations u).plan ∧
      (s'.computations u).task = (s.computations u).task)
    (hstore : s.store.Extends s'.store)
    (hnodup : s'.records.keys.Nodup) (hrecords : ∀ e ∈ s'.records, e ∈ s.records)
    (hnext : s'.nextComputation = s.nextComputation)
    (hsubmits : ∀ i t, s'.submits i = some t → t.Sound s ∨ t.Sound s')
    (hvacant : ∀ u, s.nextComputation ≤ u → s.computations u = vacantComputation →
      s'.computations u = vacantComputation) : Sound concurrency s' where
  running_iff r := by
    rw [hrunning, State.stateOf, (hcomp r).1]
    exact h.running_iff r
  running_nodup := by
    rw [hrunning]
    exact h.running_nodup
  budget := by
    rw [hrunning]
    exact h.budget
  legal := by
    rw [hillegal]
    exact h.legal
  untasked r := by
    rw [State.stateOf, (hcomp r).1, (hcomp r).2.2]
    exact h.untasked r
  stored r := by
    rw [State.stateOf, (hcomp r).1, State.fingerprintOf, (hcomp r).2.1]
    exact fun hr => hstore.stored (h.stored r hr)
  written r t := by
    rw [State.fingerprintOf, (hcomp r).2.1, (hcomp r).2.2]
    exact fun ht hw => hstore.stored (h.written r t ht hw)
  records_nodup := hnodup
  records_keyed f r hr := by
    rw [State.fingerprintOf, (hcomp r).2.1, hnext]
    exact h.records_keyed f r (hrecords _ hr)
  submits i t ht := by
    rcases hsubmits i t ht with hold | hnew
    · refine hold.mono hstore (le_of_eq hnext.symm) (fun u _ => ?_)
      rw [State.fingerprintOf, (hcomp u).2.1, State.fingerprintOf]
    · exact hnew
  vacant r hr := hvacant r (hnext ▸ hr) (h.vacant r (hnext ▸ hr))

theorem finishRun (h : Sound concurrency s) (run : RunRef) :
    Sound concurrency (finishRun s run) := by
  have hf := finishRun_finished s run
  refine h.congr hf.running hf.illegal ?_ ?_ (hf.nodup h.records_nodup) hf.entries
    hf.calls.nextComputation ?_ ?_
  · intro u
    rw [hf.computations u]
    split_ifs <;> simp
  · rw [hf.calls.store]
    exact ResultStore.Extends.refl _
  · rw [hf.calls.submits]
    exact fun i t ht => Or.inl (h.submits i t ht)
  · intro u _ hu
    rw [hf.computations u, hu]
    simp [vacantComputation]

/-- Moving one record: the new budget set has to follow its new state, and a
task or a success needs what it stands for. -/
theorem update (h : Sound concurrency s) {f : Computation → Computation} (running : List Ref)
    (hr : r < s.nextComputation) (hplan : (f (s.computations r)).plan = (s.computations r).plan)
    (hrunning : ∀ u, u ∈ running ↔ if u = r then (f (s.computations r)).state = .running else
      s.stateOf u = .running) (hnodup : running.Nodup) (hbudget : running.length ≤ concurrency)
    (huntasked : (f (s.computations r)).state = .pending ∨ (f (s.computations r)).state = .ready →
      (f (s.computations r)).task = none)
    (hstored : (f (s.computations r)).state = .succeeded → s.store.Stored (s.fingerprintOf r))
    (hwritten : ∀ t, (f (s.computations r)).task = some t → t.point.Written → s.store.Stored
      (s.fingerprintOf r)) :
    Sound concurrency ((s.modify r f).setRunning running) := by
  have hfp : ∀ u, ((s.modify r f).setRunning running).fingerprintOf u = s.fingerprintOf u := by
    intro u
    by_cases hu : u = r
    · subst u
      simp [State.fingerprintOf, hplan]
    · simp [State.fingerprintOf, hu]
  have hstate : ∀ u, ((s.modify r f).setRunning running).stateOf u =
      if u = r then (f (s.computations r)).state else s.stateOf u := by
    intro u
    by_cases hu : u = r <;> simp [State.stateOf, hu]
  refine ⟨?_, hnodup, hbudget, h.legal, ?_, ?_, ?_, h.records_nodup, ?_, ?_, ?_⟩
  · intro u
    rw [hstate]
    have hu := hrunning u
    split_ifs at hu ⊢ <;> exact hu
  · intro u
    rw [hstate]
    split_ifs with hu
    · subst u
      simpa using huntasked
    · simpa [hu] using h.untasked u
  · intro u
    rw [hstate, hfp]
    split_ifs with hu
    · subst u
      exact hstored
    · exact h.stored u
  · intro u t
    rw [hfp]
    by_cases hu : u = r
    · subst u
      simpa using hwritten t
    · simpa [hu] using h.written u t
  · intro g u hu
    rw [hfp]
    exact h.records_keyed g u hu
  · exact fun i t ht =>
      (h.submits i t ht).mono (ResultStore.Extends.refl _) le_rfl (fun u _ => hfp u)
  · intro u hu
    have hne : u ≠ r := by
      rintro rfl
      exact absurd hr (Nat.not_lt.mpr hu)
    simpa [hne] using h.vacant u hu

/-- Deciding a pending record, whatever the verdict. -/
theorem setState_of_pending (h : Sound concurrency s) (hp : s.stateOf r = .pending)
    (hs : state ≠ .running ∧ state ≠ .succeeded) : Sound concurrency (s.setState r state) := by
  have htask := h.untasked r (Or.inl hp)
  have hlt := h.lt_next_of_not_terminal (r := r) (by rw [hp]; decide)
  refine h.update (f := fun c => { c with state := state }) s.running hlt rfl ?_
    h.running_nodup h.budget (fun _ => htask) (fun hst => absurd hst hs.2) (fun t ht => ?_)
  · intro u
    split_ifs with hu
    · subst u
      simp [h.running_iff, hp, hs.1]
    · exact h.running_iff u
  · rw [htask] at ht
    simp at ht

theorem setReady (h : Sound concurrency s) (ready : List Ref) :
    Sound concurrency (s.setReady ready) :=
  h.congr rfl rfl (fun _ => ⟨rfl, rfl, rfl⟩) (ResultStore.Extends.refl _) h.records_nodup
    (fun _ he => he) rfl
    (fun i t ht => Or.inl (h.submits i t ht)) (fun _ _ hu => hu)

theorem resolveRecord (h : Sound concurrency s) (r : Ref) :
    Sound concurrency (resolveRecord s r).1 := by
  rcases resolveRecord_cases s r with heq | ⟨hp, -, heq⟩ | ⟨hp, -, heq⟩ | ⟨hp, -, heq⟩ <;> rw [heq]
  · exact h
  · exact h.setState_of_pending hp (by decide)
  · exact h.setState_of_pending hp (by decide)
  · exact (h.setState_of_pending hp (by decide)).setReady _

theorem startRecord (h : Sound concurrency s) (hr : s.stateOf r = .ready)
    (hroom : s.running.length < concurrency) : Sound concurrency (startRecord s r) := by
  have hnot : r ∉ s.running := by
    rw [h.running_iff, hr]
    decide
  rw [startRecord_eq hr]
  simp only [hnot, ↓reduceIte]
  refine h.update _ (h.lt_next_of_not_terminal (by rw [hr]; decide)) rfl ?_ ?_ ?_ (by simp)
    (by simp) ?_
  · intro u
    by_cases hu : u = r
    · simp [hu]
    · simp [hu, h.running_iff]
  · exact h.running_nodup.append (List.nodup_singleton r) (by simpa using hnot)
  · simp only [List.length_append, List.length_singleton]
    omega
  · intro t ht hw
    cases ht
    exact absurd hw (by simp [ExecutePoint.Written])

theorem dispatch (h : Sound concurrency s) : Sound concurrency (dispatch concurrency s) :=
  dispatch_rule (P := Sound concurrency) (fun _ r _ h => h.resolveRecord r)
    (fun _ queue h => h.setReady queue) (fun _ _ hr hroom h => h.startRecord hr hroom)
    (fun _ run _ _ _ h => h.finishRun run) s h

theorem discardDemander (h : Sound concurrency s) (runId : RunId) (r : Ref) :
    Sound concurrency (s.discardDemander runId r) := by
  refine h.congr rfl rfl ?_ (ResultStore.Extends.refl _) h.records_nodup (fun _ he => he) rfl
    (fun i t ht => Or.inl (h.submits i t ht)) ?_
  · intro u
    by_cases hu : u = r <;> simp [hu]
  · intro u _ hu
    by_cases hur : u = r
    · subst u
      simp [hu, vacantComputation]
    · simpa [hur] using hu

theorem cancelRecord (h : Sound concurrency s) (hr : ¬ (s.stateOf r).Terminal) :
    Sound concurrency (cancelRecord s r) := by
  refine h.update _ (h.lt_next_of_not_terminal hr) rfl ?_ (h.running_nodup.filter _) ?_ (by simp)
    (by simp) ?_
  · intro u
    by_cases hu : u = r
    · simp [hu]
    · simp [hu, h.running_iff]
  · exact (List.length_filter_le ..).trans h.budget
  · intro t ht hw
    obtain ⟨t', ht', rfl⟩ := Option.map_eq_some_iff.mp ht
    exact h.written r t' ht' hw

theorem withdrawRecords (h : Sound concurrency s) (runId : RunId) (refs : List Ref) :
    Sound concurrency (withdrawRecords s runId refs).1 :=
  withdrawRecords_rule (P := Sound concurrency) (fun _ r h => h.discardDemander runId r)
    (fun _ _ hr _ h => h.cancelRecord hr) s refs h

theorem setSubmit (h : Sound concurrency s) (i : ℕ) (task : Option SubmitTask)
    (htask : ∀ t, task = some t → t.Sound s) : Sound concurrency (s.setSubmit i task) := by
  refine h.congr rfl rfl (fun _ => ⟨rfl, rfl, rfl⟩) (ResultStore.Extends.refl _) h.records_nodup
    (fun _ he => he) rfl ?_ (fun _ _ hu => hu)
  intro j t ht
  by_cases hj : j = i
  · subst j
    exact Or.inl (htask t (by simpa using ht))
  · exact Or.inl (h.submits j t (by simpa [hj] using ht))

theorem setStore (h : Sound concurrency s) (hstore : s.store.Extends store) :
    Sound concurrency (s.setStore store) :=
  h.congr rfl rfl (fun _ => ⟨rfl, rfl, rfl⟩) hstore h.records_nodup (fun _ he => he) rfl
    (fun i t ht => Or.inl (h.submits i t ht)) (fun _ _ hu => hu)

/-- Bookkeeping that no field of the invariant reads. -/
theorem of_same (h : Sound concurrency s) (hc : s'.computations = s.computations)
    (hn : s'.nextComputation = s.nextComputation) (hrunning : s'.running = s.running)
    (hillegal : s'.illegalTransitions = s.illegalTransitions) (hrecords : s'.records = s.records)
    (hstore : s'.store = s.store) (hsubmits : s'.submits = s.submits) : Sound concurrency s' := by
  refine h.congr hrunning hillegal ?_ ?_ ?_ ?_ hn ?_ (fun _ _ hu => hc ▸ hu)
  · intro u
    rw [hc]
    exact ⟨rfl, rfl, rfl⟩
  · rw [hstore]
    exact ResultStore.Extends.refl _
  · rw [hrecords]
    exact h.records_nodup
  · rw [hrecords]
    exact fun _ he => he
  · rw [hsubmits]
    exact fun i t ht => Or.inl (h.submits i t ht)

/-- A new record is pending, or succeeded with its result stored. -/
theorem allocate (h : Sound concurrency s) {c : Computation} (htask : c.task = none)
    (hstate : c.state = .pending ∨ (c.state = .succeeded ∧ s.store.Stored c.plan.fingerprint)) :
    Sound concurrency (allocate s c) := by
  have hcells : ∀ u, (Scheduler.allocate s c).computations u =
      if u = s.nextComputation then c else s.computations u := by
    intro u
    by_cases hu : u = s.nextComputation <;> simp [hu]
  have hnotRunning : c.state ≠ .running := by
    rcases hstate with hp | ⟨hs, -⟩
    · rw [hp]
      decide
    · rw [hs]
      decide
  have hfree : s.nextComputation ∉ s.running := by
    rw [h.running_iff, State.stateOf, h.vacant _ le_rfl]
    decide
  refine ⟨?_, h.running_nodup, h.budget, h.legal, ?_, ?_, ?_, h.records_nodup, ?_, ?_, ?_⟩
  · intro u
    rw [State.stateOf, hcells]
    split_ifs with hu
    · subst u
      simpa [hnotRunning] using hfree
    · exact h.running_iff u
  · intro u
    rw [State.stateOf, hcells]
    split_ifs
    · exact fun _ => htask
    · exact h.untasked u
  · intro u
    rw [State.stateOf, State.fingerprintOf, hcells]
    split_ifs
    · intro hs
      rcases hstate with hp | ⟨-, hstored⟩
      · rw [hp] at hs
        simp at hs
      · exact hstored
    · exact h.stored u
  · intro u t
    rw [State.fingerprintOf, hcells]
    split_ifs
    · rw [htask]
      simp
    · exact h.written u t
  · intro g u hu
    obtain ⟨hkey, hlt⟩ := h.records_keyed g u hu
    have hne : u ≠ s.nextComputation := Nat.ne_of_lt hlt
    refine ⟨?_, Nat.lt_succ_of_lt hlt⟩
    rw [State.fingerprintOf, hcells, if_neg hne]
    exact hkey
  · intro i t ht
    refine (h.submits i t ht).mono (ResultStore.Extends.refl _) (Nat.le_succ _) ?_
    intro u hu
    rw [State.fingerprintOf, hcells, if_neg (Nat.ne_of_lt hu)]
    rfl
  · intro u hu
    have hlt : s.nextComputation < u := hu
    rw [hcells, if_neg (Nat.ne_of_gt hlt)]
    exact h.vacant u (Nat.le_of_lt hlt)

/-- A fresh attempt takes its fingerprint's place in the record table. -/
theorem setRecords (h : Sound concurrency s) (hr : r < s.nextComputation) :
    Sound concurrency (s.setRecords (s.records.set (s.fingerprintOf r) r)) := by
  refine ⟨h.running_iff, h.running_nodup, h.budget, h.legal, h.untasked, h.stored, h.written,
    Dict.keys_set_nodup h.records_nodup _ _, ?_, ?_, h.vacant⟩
  · intro f u hu
    rcases Dict.mem_set hu with heq | hold
    · cases heq
      exact ⟨rfl, hr⟩
    · exact h.records_keyed f u hold
  · exact fun i t ht =>
      (h.submits i t ht).mono (ResultStore.Extends.refl _) le_rfl (fun _ _ => rfl)

theorem addDemander (h : Sound concurrency s) {runId : RunId} (hr : r < s.nextComputation) :
    Sound concurrency (addDemander s runId r) := by
  refine h.congr rfl rfl ?_ (ResultStore.Extends.refl _) h.records_nodup (fun _ he => he) rfl
    (fun i t ht => Or.inl (h.submits i t ht)) ?_
  · intro u
    by_cases hu : u = r <;> simp [Scheduler.addDemander, hu]
  · intro u hge hu
    have hne : u ≠ r := Nat.ne_of_gt (Nat.lt_of_lt_of_le hr hge)
    simpa [Scheduler.addDemander, hne] using hu

theorem wired (h : Sound concurrency s) {edges : Ref → Ref → Prop} (hw : Wired edges s s')
    (hedges : ∀ u v, edges u v → u < s.nextComputation) : Sound concurrency s' := by
  refine h.congr hw.running hw.illegal ?_ ?_ ?_ ?_ hw.calls.nextComputation ?_ ?_
  · intro u
    obtain ⟨deps, heq, -, -⟩ := hw.computations u
    simp [heq]
  · rw [hw.calls.store]
    exact ResultStore.Extends.refl _
  · rw [hw.records]
    exact h.records_nodup
  · rw [hw.records]
    exact fun _ he => he
  · rw [hw.calls.submits]
    exact fun i t ht => Or.inl (h.submits i t ht)
  · intro u hge hu
    obtain ⟨deps, heq, -, hnew⟩ := hw.computations u
    have hdeps : deps = [] := by
      apply List.eq_nil_iff_forall_not_mem.mpr
      intro v hv
      rcases hnew v hv with hold | hedge
      · simp [hu, vacantComputation] at hold
      · exact absurd (hedges u v hedge) (Nat.not_lt.mpr hge)
    rw [heq, hu, hdeps]
    rfl

theorem modifyRun (h : Sound concurrency s) (run : RunRef) (f : Run → Run) :
    Sound concurrency (s.modifyRun run f) :=
  h.of_same rfl rfl rfl rfl rfl rfl rfl

/-- Joining keeps the invariant, and the record joined is one of its
fingerprint. -/
theorem join (h : Sound concurrency s) (runId : RunId) (c : ComputationPlan)
    (hres : hasResult = true → s.store.Stored c.fingerprint) :
    Sound concurrency (join s runId c hasResult).2 ∧
    (Scheduler.join s runId c hasResult).2.fingerprintOf
      (Scheduler.join s runId c hasResult).1 = c.fingerprint ∧
    (Scheduler.join s runId c hasResult).1 <
      (Scheduler.join s runId c hasResult).2.nextComputation := by
  rcases join_cases s runId c hasResult with ⟨hr, heq⟩ | ⟨-, -, heq⟩ | ⟨-, r, hget, -, heq⟩ <;>
    rw [heq]
  · refine ⟨h.allocate rfl (Or.inr ⟨rfl, hres hr⟩), ?_, Nat.lt_succ_self _⟩
    simp [State.fingerprintOf]
  · have hnew : Sound concurrency (Scheduler.allocate s { plan := c, demanders := [runId] }) :=
      h.allocate rfl (Or.inl rfl)
    have hfp : (Scheduler.allocate s { plan := c, demanders := [runId] }).fingerprintOf
        s.nextComputation = c.fingerprint := by simp [State.fingerprintOf]
    refine ⟨?_, hfp, Nat.lt_succ_self _⟩
    have hset := hnew.setRecords (r := s.nextComputation) (Nat.lt_succ_self _)
    rw [hfp] at hset
    exact hset
  · obtain ⟨hkey, hlt⟩ := h.records_get hget
    refine ⟨h.addDemander hlt, ?_, hlt⟩
    rw [← hkey]
    simp [State.fingerprintOf, Scheduler.addDemander]

/-- The records a submit remembers after one more join are still those of
their fingerprints. -/
theorem join_entries (h : Sound concurrency s) (runId : RunId) (c : ComputationPlan)
    (hres : hasResult = true → s.store.Stored c.fingerprint)
    (hjoined : ∀ f r, (f, r) ∈ joined → s.fingerprintOf r = f ∧ r < s.nextComputation) :
    ∀ f r, (f, r) ∈ joined.set c.fingerprint (Scheduler.join s runId c hasResult).1 →
      (Scheduler.join s runId c hasResult).2.fingerprintOf r = f ∧
        r < (Scheduler.join s runId c hasResult).2.nextComputation := by
  obtain ⟨-, hfp, hlt⟩ := h.join runId c hres
  obtain ⟨hnext, hplans⟩ := join_keeps s runId c hasResult
  intro f r hr
  rcases Dict.mem_set hr with heq | hold
  · cases heq
    exact ⟨hfp, hlt⟩
  · obtain ⟨hkey, hbound⟩ := hjoined f r hold
    exact ⟨(hplans r hbound).trans hkey, Nat.lt_of_lt_of_le hbound hnext⟩

theorem register (h : Sound concurrency s) (i : ℕ) (runId : RunId) (plan : RunPlan) :
    Sound concurrency (register s i runId plan).state := by
  have halloc : Sound concurrency (allocateRun s runId plan) :=
    h.of_same rfl rfl rfl rfl rfl rfl rfl
  unfold Scheduler.register
  split
  · exact halloc.setSubmit i none (by simp)
  · refine halloc.setSubmit i _ ?_
    rintro t ht
    cases ht
    exact ⟨by simp, by simp [SubmitPoint.joined]⟩

theorem validate (h : Sound concurrency s) (i : ℕ) (runId : RunId) (plan : RunPlan)
    (todo : List (Fingerprint × Fingerprint)) :
    Sound concurrency (validate s i runId plan todo).state := by
  cases todo with
  | nil => exact h.register i runId plan
  | cons pair rest =>
    obtain ⟨f, d⟩ := pair
    refine h.setSubmit i _ ?_
    rintro t ht
    cases ht
    exact ⟨by simp, by simp [SubmitPoint.joined]⟩

theorem submit (h : Sound concurrency s) (runId : RunId) (plan : RunPlan) :
    Sound concurrency (submit s runId plan).state := by
  unfold Scheduler.submit
  split
  · exact h.of_same rfl rfl rfl rfl rfl rfl rfl
  · have hopen : Sound concurrency (openSubmit s) := h.of_same rfl rfl rfl rfl rfl rfl rfl
    exact hopen.validate _ runId plan _

theorem joinNext (h : Sound concurrency s) (i : ℕ) (run : RunRef) (c : ComputationPlan)
    (rest : List ComputationPlan) (hres : hasResult = true → s.store.Stored c.fingerprint)
    (hjoined : ∀ f r, (f, r) ∈ joined → s.fingerprintOf r = f ∧ r < s.nextComputation) :
    Sound concurrency (joinNext s i task run joined c rest hasResult).state := by
  have hjoin := (h.join task.runId c hres).1
  have hentries := h.join_entries task.runId c hres hjoined
  have hrun := hjoin.modifyRun run (fun x =>
    { x with joined := x.joined ++ [(Scheduler.join s task.runId c hasResult).1] })
  cases rest with
  | nil =>
    refine Sound.setSubmit ?_ i none (by simp)
    refine hrun.wired (wirePlan_wired _ _ _) ?_
    rintro u v ⟨e, -, hu, -⟩
    exact (hentries _ u (Dict.mem_of_get? hu)).2
  | cons d rest =>
    refine hrun.setSubmit i _ ?_
    rintro t ht
    cases ht
    exact ⟨by simp, hentries⟩

theorem submitResume (h : Sound concurrency s) {i : ℕ} (htask : task.Sound s)
    (hanswer : task.answer = some hasResult) :
    Sound concurrency (submitResume s i task hasResult).state := by
  have hres : hasResult = true → s.store.Stored task.point.query := by
    rintro rfl
    exact htask.answered hanswer
  unfold Scheduler.submitResume
  have hjoined := htask.joined
  split
  · split_ifs
    · exact h.validate i task.runId task.plan _
    · have hdrop : Sound concurrency (s.setSubmit i none) := h.setSubmit i none (by simp)
      exact hdrop.of_same rfl rfl rfl rfl rfl rfl rfl
  · rename_i heq
    rw [heq] at hres hjoined
    exact h.joinNext i _ _ _ hres hjoined

theorem cancel (h : Sound concurrency s) (runId : RunId) :
    Sound concurrency (cancel s runId).state := by
  have hwithdraw : ∀ run, Sound concurrency (Scheduler.withdraw s runId run).1 := by
    intro run
    exact (h.modifyRun run _).withdrawRecords runId _
  unfold Scheduler.cancel
  split
  · exact h
  · rename_i run _
    split_ifs
    · exact h
    · simp only
      split
      · exact (hwithdraw run).finishRun run
      · exact (hwithdraw run).of_same rfl rfl rfl rfl rfl rfl rfl

theorem setPoint (h : Sound concurrency s) {point : ExecutePoint}
    (htask : (s.computations r).task.isSome)
    (hpoint : point.Written → s.store.Stored (s.fingerprintOf r)) :
    Sound concurrency (setPoint s r point) := by
  obtain ⟨task, hsome⟩ := Option.isSome_iff_exists.mp htask
  refine h.update
    (f := fun c => { c with task := c.task.map (fun t => { t with point := point }) })
    s.running (h.lt_next_of_task htask) rfl ?_ h.running_nodup h.budget ?_
    (h.stored r) ?_
  · intro u
    split_ifs with hu
    · subst u
      exact h.running_iff r
    · exact h.running_iff u
  · intro hstate
    have hnone := h.untasked r hstate
    simp [hnone]
  · intro t ht hw
    simp only [hsome, Option.map_some, Option.some.injEq] at ht
    subst ht
    exact hpoint hw

theorem running_of_task (h : Sound concurrency s) (htask : (s.computations r).task.isSome)
    (hterminal : ¬ (s.stateOf r).Terminal) : s.stateOf r = .running := by
  by_contra hne
  have hidle : s.stateOf r = .pending ∨ s.stateOf r = .ready := by
    rw [terminal_iff] at hterminal
    tauto
  rw [h.untasked r hidle] at htask
  simp at htask

/-- Moving a running record to a terminal state frees its slot. -/
theorem settle (h : Sound concurrency s) {state : ComputationState}
    (hrunning : s.stateOf r = .running) (hterminal : state.Terminal)
    (hstored : state = .succeeded → s.store.Stored (s.fingerprintOf r)) :
    Sound concurrency ((s.setState r state).setRunning (s.running.filter (· ≠ r))) := by
  have hstate := (terminal_iff state).mp hterminal
  refine h.update (f := fun c => { c with state := state }) _
    (h.lt_next_of_not_terminal (by rw [hrunning]; decide)) rfl ?_ (h.running_nodup.filter _)
    ((List.length_filter_le ..).trans h.budget) ?_ hstored (h.written r)
  · intro u
    by_cases hu : u = r
    · simp [hu, hstate.2.2]
    · simp [hu, h.running_iff]
  · intro hidle
    exact absurd hidle (by simp [hstate.1, hstate.2.1])

/-- A computation with a task that is not terminal is running, so `_finish`
always has a legal move. -/
theorem finish (h : Sound concurrency s) {event : ComputationEvent}
    (htask : (s.computations r).task.isSome)
    (hevent : event = .fail ∨ (event = .succeed ∧ s.store.Stored (s.fingerprintOf r))) :
    Sound concurrency (finish s r event).state := by
  have hdone : Sound concurrency (Scheduler.setPoint s r .done) :=
    h.setPoint htask (by simp [ExecutePoint.Written])
  by_cases hterminal : (s.stateOf r).Terminal
  · rw [finish_terminal hterminal]
    exact hdone
  · have hrunning := h.running_of_task htask hterminal
    have hfp : (Scheduler.setPoint s r .done).fingerprintOf r = s.fingerprintOf r := by
      simp [State.fingerprintOf, computations_setPoint]
    have hset : (Scheduler.setPoint s r .done).stateOf r = .running := by
      rw [stateOf_setPoint]
      exact hrunning
    rcases hevent with rfl | ⟨rfl, hstored⟩
    · have hmove : transition (s.stateOf r) .fail = some .failed := by rw [hrunning]; rfl
      rw [finish_eq hmove]
      exact hdone.settle hset (by decide) (by simp)
    · have hmove : transition (s.stateOf r) .succeed = some .succeeded := by rw [hrunning]; rfl
      rw [finish_eq hmove]
      exact hdone.settle hset (by decide) (fun _ => hfp ▸ hstored)

theorem recordSuccesses (h : Sound concurrency s) (keys : List InstanceKey)
    (htask : (s.computations r).task.isSome) (hstored : s.store.Stored (s.fingerprintOf r)) :
    Sound concurrency (recordSuccesses s r keys).state := by
  cases keys with
  | nil => exact h.finish htask (Or.inr ⟨rfl, hstored⟩)
  | cons key rest => exact h.setPoint htask (fun _ => hstored)

theorem recordFailures (h : Sound concurrency s) (keys : List InstanceKey)
    (htask : (s.computations r).task.isSome) :
    Sound concurrency (recordFailures s r keys).state := by
  cases keys with
  | nil => exact h.finish htask (Or.inl rfl)
  | cons key rest => exact h.setPoint htask (by simp [ExecutePoint.Written])

theorem executeFails (h : Sound concurrency s) (exc : Raised)
    (htask : (s.computations r).task.isSome) : Sound concurrency (executeFails s r exc).state := by
  have hfailure : Sound concurrency (s.modify r (fun c =>
      { c with failure := some (if exc.text = "" then exc.className else exc.text) })) := by
    refine h.congr rfl rfl ?_ (ResultStore.Extends.refl _) h.records_nodup (fun _ he => he) rfl
      (fun i t ht => Or.inl (h.submits i t ht)) ?_
    · intro u
      by_cases hu : u = r <;> simp [hu]
    · intro u hge hu
      have hne : u ≠ r := Nat.ne_of_gt (Nat.lt_of_lt_of_le (h.lt_next_of_task htask) hge)
      simpa [hne] using hu
  exact hfailure.recordFailures _ (by simpa using htask)

theorem taskAnswered (h : Sound concurrency s) (heq : taskAnswered s r = some s') :
    Sound concurrency s' := by
  obtain ⟨t, store, point, htask, hext, hwritten, rfl⟩ := taskAnswered_cases heq
  refine (h.setStore hext).setPoint (Option.isSome_of_eq_some htask) (fun hpoint => ?_)
  exact (hwritten hpoint).elim (fun hw => hext.stored (h.written r t htask hw)) id

theorem taskResumes (h : Sound concurrency s) (heq : taskResumes s r = some p) :
    Sound concurrency p.state := by
  obtain ⟨t, rest, htask, ⟨hwritten, rfl⟩ | rfl⟩ := taskResumes_cases heq
  · exact h.recordSuccesses _ (Option.isSome_of_eq_some htask) (h.written r t htask hwritten)
  · exact h.recordFailures _ (Option.isSome_of_eq_some htask)

theorem taskRaises (h : Sound concurrency s) {exc : Raised} (heq : taskRaises s r exc = some p) :
    Sound concurrency p.state := by
  obtain ⟨htask, rfl | rfl⟩ := taskRaises_cases heq
  · exact h.executeFails exc htask
  · exact h.finish htask (Or.inl rfl)

theorem task_of_awaitsRunner {s : State} (h : awaitsRunner s r) :
    (s.computations r).task.isSome := by
  unfold awaitsRunner at h
  cases htask : (s.computations r).task with
  | none => simp [htask] at h
  | some _ => rfl

theorem task_of_cancelRequested {s : State} (h : cancelRequested s r) :
    (s.computations r).task.isSome := by
  unfold cancelRequested at h
  cases htask : (s.computations r).task with
  | none => simp [htask] at h
  | some _ => rfl

theorem prepare (h : Sound concurrency s) (heq : prepare s a = some p) :
    Sound concurrency p.state := by
  cases a with
  | submit runId plan =>
    cases heq
    exact h.submit runId plan
  | submitAnswered i =>
    simp only [Scheduler.prepare] at heq
    split at heq
    · rename_i runId plan point hsub
      cases heq
      refine h.setSubmit i _ ?_
      rintro t ht
      cases ht
      exact ⟨fun ha => by simpa [ResultStore.Stored] using ha, (h.submits i _ hsub).joined⟩
    · simp at heq
  | submitResumes i =>
    simp only [Scheduler.prepare] at heq
    split at heq
    · rename_i hsub
      cases heq
      exact h.submitResume (h.submits i _ hsub) rfl
    · simp at heq
  | submitRaises i =>
    simp only [Scheduler.prepare] at heq
    split at heq
    · cases heq
      exact h.setSubmit i none (by simp)
    · simp at heq
  | cancel runId =>
    cases heq
    exact h.cancel runId
  | cancelResumes i =>
    simp only [Scheduler.prepare] at heq
    split at heq
    · split_ifs at heq
      cases heq
      have hdrop : Sound concurrency (s.setCancel i none) := h.of_same rfl rfl rfl rfl rfl rfl rfl
      exact hdrop.finishRun _
    · simp at heq
  | runnerReturns r outputs =>
    simp only [Scheduler.prepare] at heq
    split_ifs at heq with hawaits
    cases heq
    exact h.setPoint (task_of_awaitsRunner hawaits) (by simp [ExecutePoint.Written])
  | runnerRaises r exc =>
    simp only [Scheduler.prepare] at heq
    split_ifs at heq with hawaits
    cases heq
    exact h.executeFails exc (task_of_awaitsRunner hawaits)
  | taskAnswered r =>
    obtain ⟨s', hs', rfl⟩ := Option.map_eq_some_iff.mp heq
    exact h.taskAnswered hs'
  | taskResumes r => exact h.taskResumes heq
  | taskRaises r exc => exact h.taskRaises heq
  | taskUnwinds r =>
    simp only [Scheduler.prepare] at heq
    split_ifs at heq with hrequested
    cases heq
    exact h.setPoint (task_of_cancelRequested hrequested) (by simp [ExecutePoint.Written])
  | appended f outputs =>
    cases heq
    exact h.setStore (s.store.extends_putResult f outputs)

theorem initial (store : ResultStore) : Sound concurrency (initial store) := by
  refine ⟨?_, List.nodup_nil, by simp, rfl, ?_, ?_, ?_, by simp [Dict.keys], by simp, by simp, ?_⟩
  · simp [State.stateOf, vacantComputation]
  · simp [State.stateOf, vacantComputation]
  · simp [State.stateOf, vacantComputation]
  · simp [vacantComputation]
  · simp

theorem step (h : Sound concurrency s) (heq : step concurrency s a = some s') :
    Sound concurrency s' := by
  obtain ⟨p, hp, rfl⟩ := Option.map_eq_some_iff.mp heq
  have hprepared := h.prepare hp
  split_ifs
  · exact hprepared.dispatch
  · exact hprepared

/-- Every reachable state is sound, under any condition on the steps. -/
theorem reachable {meets : State → Action → Prop}
    (h : Reachability.Reachable (Scheduler.step concurrency) meets (Scheduler.initial store) s) :
    Sound concurrency s :=
  h.invariant (Sound.initial store) (fun _ _ _ hs _ heq => hs.step heq)

end Sound

end Grafy.Scheduler
