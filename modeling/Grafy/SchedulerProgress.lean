import Grafy.SchedulerSingleFlight
import Mathlib.Data.Fintype.EquivFin

/-!
No Run is stranded. A dispatch leaves no pending record it could decide, no
ready record while there is budget, and no unanswered Run whose records are
all finished. When no call is suspended the state is one a dispatch left, so
an unanswered Run waits for a running record, or else for an endless chain of
pending ones, which the dependencies of the submitted plans exclude.
-/
namespace Grafy.Scheduler

open Lifecycle OrderedDict Results Reachability

variable {s s' : State} {r : Ref}

section Resolve

/-- How many of some records are pending. -/
def pendingCount (s : State) (refs : List Ref) : ℕ := refs.countP (s.stateOf · = .pending)

theorem pendingCount_le (h : ∀ u, s'.stateOf u = .pending → s.stateOf u = .pending)
    (refs : List Ref) : pendingCount s' refs ≤ pendingCount s refs :=
  List.countP_mono_left (fun u _ hu => by simpa using h u (by simpa using hu))

theorem pendingCount_lt (h : ∀ u, s'.stateOf u = .pending → s.stateOf u = .pending)
    (hbefore : s.stateOf r = .pending) (hafter : s'.stateOf r ≠ .pending) {refs : List Ref}
    (hr : r ∈ refs) : pendingCount s' refs < pendingCount s refs := by
  induction refs with
  | nil => simp at hr
  | cons u rest ih =>
    have hle := pendingCount_le h rest
    simp only [pendingCount, List.countP_cons] at hle ih ⊢
    rcases List.mem_cons.mp hr with rfl | hrest
    · simp only [hbefore, hafter, decide_true, decide_false]
      simp only [↓reduceIte, Bool.false_eq_true]
      omega
    · have hlt := ih hrest
      have hu := h u
      by_cases hs' : s'.stateOf u = .pending
      · simp only [hs', hu hs', decide_true, ↓reduceIte]
        omega
      · simp only [hs', decide_false, Bool.false_eq_true, ↓reduceIte]
        omega

theorem resolveRecord_pending (s : State) (r u : Ref)
    (h : (resolveRecord s r).1.stateOf u = .pending) : s.stateOf u = .pending := by
  rcases resolveRecord_cases s r with heq | ⟨-, -, heq⟩ | ⟨-, -, heq⟩ | ⟨-, -, heq⟩ <;>
    rw [heq] at h
  · exact h
  all_goals
    by_cases hu : u = r
    · simp [State.stateOf, hu] at h
    · simpa [State.stateOf, hu] using h

/-- An iteration that decides a record leaves one pending record fewer. -/
theorem resolveRecord_decides (h : (resolveRecord s r).2 = true) :
    s.stateOf r = .pending ∧ (resolveRecord s r).1.stateOf r ≠ .pending := by
  rcases resolveRecord_cases s r with heq | ⟨hp, -, heq⟩ | ⟨hp, -, heq⟩ | ⟨hp, -, heq⟩
  · rw [heq] at h
    simp at h
  all_goals
    refine ⟨hp, ?_⟩
    rw [heq]
    simp [State.stateOf]

theorem resolveRecord_idle (h : (resolveRecord s r).2 = false) : (resolveRecord s r).1 = s := by
  rcases resolveRecord_cases s r with heq | ⟨-, -, heq⟩ | ⟨-, -, heq⟩ | ⟨-, -, heq⟩ <;>
    rw [heq] at h ⊢ <;> simp at h

theorem resolveSweep_pending (s : State) (refs : List Ref) (u : Ref)
    (h : (resolveSweep s refs).1.stateOf u = .pending) : s.stateOf u = .pending := by
  induction refs generalizing s with
  | nil => exact h
  | cons r rest ih => exact resolveRecord_pending s r u (ih _ h)

theorem resolveSweep_decides (s : State) (refs all : List Ref) (hrefs : ∀ r ∈ refs, r ∈ all)
    (h : (resolveSweep s refs).2 = true) :
    pendingCount (resolveSweep s refs).1 all < pendingCount s all := by
  induction refs generalizing s with
  | nil => simp [resolveSweep] at h
  | cons r rest ih =>
    have hrest : ∀ u ∈ rest, u ∈ all := fun u hu => hrefs u (List.mem_cons_of_mem _ hu)
    have hr : r ∈ all := hrefs r (List.mem_cons_self ..)
    simp only [resolveSweep, Bool.or_eq_true] at h ⊢
    have hfirst := pendingCount_le (resolveRecord_pending s r) all
    rcases h with hdecides | hlater
    · obtain ⟨hbefore, hafter⟩ := resolveRecord_decides hdecides
      have hlt := pendingCount_lt (resolveRecord_pending s r) hbefore hafter hr
      exact Nat.lt_of_le_of_lt (pendingCount_le (resolveSweep_pending _ rest) all) hlt
    · exact Nat.lt_of_lt_of_le (ih _ hrest hlater) hfirst

theorem resolveSweep_idle (s : State) (refs : List Ref) (h : (resolveSweep s refs).2 = false) :
    (resolveSweep s refs).1 = s ∧ ∀ r ∈ refs, (resolveRecord s r).2 = false := by
  induction refs generalizing s with
  | nil => exact ⟨rfl, by simp⟩
  | cons r rest ih =>
    simp only [resolveSweep, Bool.or_eq_false_iff] at h ⊢
    have hsame := resolveRecord_idle h.1
    rw [hsame] at h ⊢
    obtain ⟨heq, hidle⟩ := ih s h.2
    refine ⟨heq, ?_⟩
    intro u hu
    rcases List.mem_cons.mp hu with rfl | hu
    · exact h.1
    · exact hidle u hu

/-- With fuel for one sweep more than there are pending records, the sweeps
end with one that decides nothing. -/
theorem resolveSweeps_idle (fuel : ℕ) (s : State) (h : pendingCount s s.records.values < fuel) :
    ∀ r ∈ (resolveSweeps s fuel).records.values,
      (resolveRecord (resolveSweeps s fuel) r).2 = false := by
  induction fuel generalizing s with
  | zero => exact absurd h (Nat.not_lt_zero _)
  | succ fuel ih =>
    have hrecords : (resolveSweep s s.records.values).1.records = s.records :=
      resolveSweep_rule (P := fun t => t.records = s.records)
        (fun t r _ ht => (resolveRecord_records t r).trans ht) s _ (fun _ hr => hr) rfl
    simp only [resolveSweeps]
    split_ifs with hchanged
    · apply ih
      have hlt := resolveSweep_decides s _ s.records.values (fun _ hr => hr) hchanged
      rw [hrecords]
      omega
    · obtain ⟨hsame, hidle⟩ := resolveSweep_idle s s.records.values (by simpa using hchanged)
      rw [hsame]
      exact hidle

theorem resolvePending_idle (s : State) :
    ∀ r ∈ (resolvePending s).records.values, (resolveRecord (resolvePending s) r).2 = false := by
  apply resolveSweeps_idle
  have hle : pendingCount s s.records.values ≤ s.records.values.length := List.countP_le_length
  have hlength : s.records.values.length = s.records.length := List.length_map ..
  omega

end Resolve

/-- Every pending record of the table waits for an unfinished dependency. -/
def Decided (s : State) : Prop :=
  ∀ r ∈ s.records.values, s.stateOf r = .pending →
    (∀ u ∈ (s.computations r).dependencies, s.stateOf u ∉ failedStates ∧ s.stateOf u ≠ .cancelled) ∧
    ∃ u ∈ (s.computations r).dependencies, s.stateOf u ≠ .succeeded

/-- What a dispatch leaves: nothing more to decide, to start or to answer. -/
structure Dispatched (concurrency : ℕ) (s : State) : Prop where
  decided : Decided s
  started : ∀ r ∈ s.ready, s.stateOf r = .ready → concurrency ≤ s.running.length
  awaiting : ∀ run ∈ s.runs.values, (s.runObjects run).result = none →
    ∃ r ∈ (s.runObjects run).joined, ¬ (s.stateOf r).Terminal

/-- Every ready record waits in the queue. -/
def ReadyQueued (s : State) : Prop := ∀ r, s.stateOf r = .ready → r ∈ s.ready

variable {concurrency : ℕ}

section Dispatched

private theorem decided_resolvePending (s : State) : Decided (resolvePending s) := by
  intro r hr hp
  exact resolveRecord_undecided (resolvePending_idle s r hr) hp

private theorem decided_startRecord (hr : s.stateOf r = .ready) (h : Decided s) :
    Decided (startRecord s r) := by
  have hstate : ∀ u, (startRecord s r).stateOf u = if u = r then .running else s.stateOf u := by
    intro u
    rw [startRecord_eq hr]
    by_cases hu : u = r <;> simp [State.stateOf, hu]
  have hdeps : ∀ u, ((startRecord s r).computations u).dependencies =
      (s.computations u).dependencies := by
    intro u
    rw [startRecord_eq hr]
    by_cases hu : u = r <;> simp [hu]
  intro v hv hp
  have hv' : v ∈ s.records.values := by
    rw [startRecord_eq hr] at hv
    exact hv
  rw [hstate] at hp
  split_ifs at hp
  obtain ⟨hbad, w, hw, hne⟩ := h v hv' hp
  rw [hdeps]
  refine ⟨?_, w, hw, ?_⟩
  · intro u hu
    rw [hstate]
    split_ifs
    · decide
    · exact hbad u hu
  · rw [hstate]
    split_ifs
    · decide
    · exact hne

private theorem decided_finishRun (run : RunRef) (h : Decided s) : Decided (finishRun s run) := by
  have hf := finishRun_finished s run
  have hcell : ∀ u, (finishRun s run).stateOf u = s.stateOf u ∧
      ((finishRun s run).computations u).dependencies = (s.computations u).dependencies := by
    intro u
    rw [State.stateOf, hf.computations u]
    split_ifs <;> exact ⟨rfl, rfl⟩
  intro r hr hp
  have hr' : r ∈ s.records.values := by
    obtain ⟨entry, hentry, rfl⟩ := List.mem_map.mp hr
    exact List.mem_map.mpr ⟨entry, hf.entries entry hentry, rfl⟩
  rw [(hcell r).1] at hp
  obtain ⟨hbad, w, hw, hne⟩ := h r hr' hp
  rw [(hcell r).2]
  refine ⟨?_, w, hw, ?_⟩
  · intro u hu
    rw [(hcell u).1]
    exact hbad u hu
  · rw [(hcell w).1]
    exact hne

/-- The start loop stops with an empty queue or a spent budget. -/
private theorem started_startQueue (concurrency : ℕ) (queue : List Ref) (s : State) :
    ∀ r ∈ (startQueue concurrency s queue).ready,
      concurrency ≤ (startQueue concurrency s queue).running.length := by
  induction queue generalizing s with
  | nil => simp [startQueue]
  | cons r rest ih =>
    simp only [startQueue]
    split_ifs with hroom hready
    · exact ih s
    · exact ih _
    · intro u _
      exact Nat.le_of_not_lt hroom

private theorem readyQueued_startQueue (queue : List Ref) (s : State)
    (h : ∀ r, s.stateOf r = .ready → r ∈ queue) : ReadyQueued (startQueue concurrency s queue) := by
  induction queue generalizing s with
  | nil =>
    intro r hr
    exact absurd (h r hr) (by simp)
  | cons r rest ih =>
    simp only [startQueue]
    split_ifs with hroom hready
    · refine ih s (fun u hu => ?_)
      rcases List.mem_cons.mp (h u hu) with rfl | hrest
      · exact absurd hu (by simpa using hready)
      · exact hrest
    · have hr : s.stateOf r = .ready := by simpa using hready
      refine ih _ (fun u hu => ?_)
      rw [startRecord_eq hr] at hu
      by_cases hur : u = r
      · simp [State.stateOf, hur] at hu
      · rcases List.mem_cons.mp (h u (by simpa [State.stateOf, hur] using hu)) with heq | hrest
        · exact absurd heq hur
        · exact hrest
    · exact h

/-- Completing answers every Run of the table that has nothing left to wait
for. -/
private theorem awaiting_completeRuns (s : State) :
    ∀ run ∈ s.runs.values, ((completeRuns s).runObjects run).result = none →
      ∃ r ∈ ((completeRuns s).runObjects run).joined, ¬ ((completeRuns s).stateOf r).Terminal := by
  have hstate : ∀ (t : State) (x : RunRef) u, (finishRun t x).stateOf u = t.stateOf u := by
    intro t x u
    rw [State.stateOf, (finishRun_finished t x).computations u]
    split_ifs <;> rfl
  -- a Run that was looked at stays answered or waiting while others are
  have hkeep : ∀ (t : State) (x run : RunRef),
      ((t.runObjects run).result = none → ∃ r ∈ (t.runObjects run).joined,
        ¬ (t.stateOf r).Terminal) →
      ((completeRun t x).runObjects run).result = none →
      ∃ r ∈ ((completeRun t x).runObjects run).joined,
        ¬ ((completeRun t x).stateOf r).Terminal := by
    intro t x run hrun
    unfold completeRun
    split_ifs
    · exact hrun
    · exact hrun
    · intro hopen
      rw [(finishRun_finished t x).runObjects run] at hopen ⊢
      split_ifs at hopen ⊢
      · simp [answeredRun] at hopen
      · obtain ⟨r, hr, hnot⟩ := hrun hopen
        exact ⟨r, hr, by rw [hstate]; exact hnot⟩
  have hself : ∀ (t : State) (run : RunRef),
      ((completeRun t run).runObjects run).result = none →
      ∃ r ∈ ((completeRun t run).runObjects run).joined,
        ¬ ((completeRun t run).stateOf r).Terminal := by
    intro t run
    unfold completeRun
    split_ifs with hresult hjoined
    · intro hopen
      simp [hopen] at hresult
    · intro _
      obtain ⟨r, hr, hnot⟩ := List.any_eq_true.mp hjoined
      exact ⟨r, hr, by simpa using hnot⟩
    · intro hopen
      rw [(finishRun_finished t run).runObjects run, if_pos rfl] at hopen
      simp [answeredRun] at hopen
  have hloop : ∀ (l : List RunRef) (t : State) (run : RunRef), run ∈ l ∨
      ((t.runObjects run).result = none → ∃ r ∈ (t.runObjects run).joined,
        ¬ (t.stateOf r).Terminal) →
      ((l.foldl completeRun t).runObjects run).result = none →
      ∃ r ∈ ((l.foldl completeRun t).runObjects run).joined,
        ¬ ((l.foldl completeRun t).stateOf r).Terminal := by
    intro l
    induction l with
    | nil =>
      intro t run h
      exact h.resolve_left (by simp)
    | cons x rest ih =>
      intro t run h
      refine ih _ run ?_
      rcases h with hmem | hrun
      · rcases List.mem_cons.mp hmem with rfl | hrest
        · exact Or.inr (hself t run)
        · exact Or.inl hrest
      · exact Or.inr (hkeep t x run hrun)
  exact fun run hrun => hloop _ s run (Or.inl hrun)

theorem dispatch_dispatched (s : State) : Dispatched concurrency (dispatch concurrency s) := by
  have hdecided : Decided (startReady concurrency (resolvePending s)) :=
    startReady_rule (P := Decided) (fun _ _ h => h)
      (fun _ _ hr _ h => decided_startRecord hr h) _ (decided_resolvePending s)
  have hstarted := started_startQueue concurrency (resolvePending s).ready (resolvePending s)
  have hfinish := completeRuns_rule
    (P := fun t => Decided t ∧ (∀ r ∈ t.ready, concurrency ≤ t.running.length) ∧
      t.runs = (startReady concurrency (resolvePending s)).runs)
    (fun t run _ _ _ ⟨hd, hs, hruns⟩ => ?_) _ ⟨hdecided, hstarted, rfl⟩
  · refine ⟨hfinish.1, fun r hr _ => hfinish.2.1 r hr, ?_⟩
    intro run hrun
    have hruns := hfinish.2.2
    refine awaiting_completeRuns _ run ?_
    rw [← hruns]
    exact hrun
  · have hf := finishRun_finished t run
    refine ⟨decided_finishRun run hd, ?_, hf.calls.runs.trans hruns⟩
    rw [hf.ready, hf.running]
    exact hs

theorem ReadyQueued.dispatch (h : ReadyQueued s) : ReadyQueued (dispatch concurrency s) := by
  have hresolve : ReadyQueued (resolvePending s) := by
    refine resolvePending_rule (P := ReadyQueued) ?_ s h
    intro t r _ ht u hu
    rcases resolveRecord_cases t r with heq | ⟨-, -, heq⟩ | ⟨-, -, heq⟩ | ⟨-, -, heq⟩ <;>
      rw [heq] at hu ⊢
    · exact ht u hu
    all_goals
      by_cases hur : u = r
      · simp [State.stateOf, hur] at hu ⊢
      · have hold := ht u (by simpa [State.stateOf, hur] using hu)
        simp [hold]
  have hstart : ReadyQueued (startReady concurrency (resolvePending s)) :=
    readyQueued_startQueue _ _ hresolve
  refine completeRuns_rule (P := ReadyQueued) ?_ _ hstart
  intro t run _ _ _ ht u hu
  have hf := finishRun_finished t run
  rw [hf.ready]
  refine ht u ?_
  rw [State.stateOf, hf.computations u] at hu
  split_ifs at hu <;> exact hu

end Dispatched

/-- The depends_on relation of all submitted plans together: the first
fingerprint is one the second depends on. -/
def DependsOn (s : State) (d f : Fingerprint) : Prop :=
  ∃ x, ∃ c ∈ (s.runObjects x).plan.computations, c.fingerprint = f ∧ d ∈ c.dependsOn

theorem DependsOn.mono {d f : Fingerprint}
    (h : ∀ x, (s'.runObjects x).plan = (s.runObjects x).plan ∨ (s.runObjects x).plan.computations =
      []) (hd : DependsOn s d f) : DependsOn s' d f := by
  obtain ⟨x, c, hc, hf⟩ := hd
  rcases h x with heq | hempty
  · exact ⟨x, c, heq ▸ hc, hf⟩
  · rw [hempty] at hc
    simp at hc

/-- Every wired edge is one a submitted plan asks for. -/
def EdgesPlanned (s : State) : Prop :=
  ∀ u, ∀ v ∈ (s.computations u).dependencies,
    u < s.nextComputation ∧ v < s.nextComputation ∧
      DependsOn s (s.fingerprintOf v) (s.fingerprintOf u)

variable {a : Action} {p : Prepared}

namespace EdgesPlanned

section

variable (h : EdgesPlanned s)
include h

theorem kept
    (hdeps : ∀ u, ∀ v ∈ (s'.computations u).dependencies, v ∈ (s.computations u).dependencies)
    (hfp : ∀ u < s.nextComputation, s'.fingerprintOf u = s.fingerprintOf u)
    (hnext : s.nextComputation ≤ s'.nextComputation)
    (hplans : ∀ d f, DependsOn s d f → DependsOn s' d f) : EdgesPlanned s' := by
  intro u v hv
  obtain ⟨hu, hv', hd⟩ := h u v (hdeps u v hv)
  refine ⟨Nat.lt_of_lt_of_le hu hnext, Nat.lt_of_lt_of_le hv' hnext, ?_⟩
  rw [hfp u hu, hfp v hv']
  exact hplans _ _ hd

/-- Nothing changes but demand, states, tasks and marks. -/
theorem same
    (hcells : ∀ u, (s'.computations u).plan = (s.computations u).plan ∧ (s'.computations
      u).dependencies = (s.computations u).dependencies)
    (hnext : s'.nextComputation = s.nextComputation)
    (hplans : ∀ x, (s'.runObjects x).plan = (s.runObjects x).plan) : EdgesPlanned s' := by
  refine h.kept ?_ ?_ (le_of_eq hnext.symm) (fun d f => DependsOn.mono (fun x => Or.inl (hplans x)))
  · intro u v hv
    exact (hcells u).2 ▸ hv
  · intro u _
    rw [State.fingerprintOf, (hcells u).1, State.fingerprintOf]

theorem finishRun (run : RunRef) : EdgesPlanned (finishRun s run) := by
  have hf := finishRun_finished s run
  refine h.same ?_ hf.calls.nextComputation ?_
  · intro u
    rw [hf.computations u]
    split_ifs <;> exact ⟨rfl, rfl⟩
  · intro x
    rw [hf.runObjects x]
    split_ifs with hx
    · rw [hx]
      rfl
    · rfl

theorem withdraw (runId : RunId) (run : RunRef) : EdgesPlanned (withdraw s runId run).1 := by
  have hw := withdraw_withdrawn s runId run
  refine h.same ?_ hw.calls.nextComputation ?_
  · exact fun u => ⟨hw.plan u, hw.dependencies u⟩
  · intro x
    rw [withdraw_runObjects]
    by_cases hx : x = run <;> simp [hx]

theorem joined (runId : RunId) (run : RunRef) (c : ComputationPlan) (hasResult : Bool) :
    EdgesPlanned (joinedState s runId run c hasResult) := by
  obtain ⟨hnext, hplans⟩ := join_keeps s runId c hasResult
  refine h.kept ?_ hplans hnext ?_
  · intro u v hv
    have hv' : v ∈ ((join s runId c hasResult).2.computations u).dependencies := hv
    rcases join_cell s runId c hasResult u with ⟨_, heq⟩ | ⟨-, _, _, heq, -⟩
    · rw [heq] at hv'
      exact hv'
    · rw [heq] at hv'
      simp at hv'
  · intro d f
    refine DependsOn.mono (fun x => Or.inl ?_)
    rw [joinedState_runObjects]
    split_ifs with hx
    · rw [hx]
    · rfl

section

variable (hvalid : Valid concurrency s)
include hvalid

/-- Wiring adds the edges of the plan the submit was called with. -/
theorem joinNext {i : ℕ} {task : SubmitTask} {run : RunRef} {joined : Dict Fingerprint Ref}
    {c : ComputationPlan} {rest : List ComputationPlan} {hasResult : Bool}
    (hsub : s.submits i = some ⟨task.runId, task.plan, .joining run joined c rest, task.answer⟩)
    (hres : hasResult = true → s.store.Stored c.fingerprint) :
    EdgesPlanned (joinNext s i task run joined c rest hasResult).state := by
  have hjoined := h.joined task.runId run c hasResult
  cases rest with
  | nil =>
    have hwired := wired_joined s task run joined c hasResult
    have hentries := hvalid.sound.join_entries task.runId c hres
      (hvalid.sound.submits i _ hsub).joined
    have hof := (hvalid.registered.joining_of i _ (joiningCall_of_submits hsub)).1
    rw [joinNext_nil]
    intro u v hv
    have hbase : ∀ d f, DependsOn (joinedState s task.runId run c hasResult) d f →
        DependsOn ((wirePlan (joinedState s task.runId run c hasResult)
          (joined.set c.fingerprint (join s task.runId c hasResult).1) task.plan).setSubmit i none)
          d f := by
      intro d f
      refine DependsOn.mono (fun x => Or.inl ?_)
      rw [State.setSubmit_runObjects, hwired.runObjects]
    obtain ⟨deps, heq, -, hnew⟩ := hwired.computations u
    have hv' : v ∈ deps := by
      rw [State.setSubmit_computations, heq] at hv
      exact hv
    have hfp := hwired.fingerprintOf
    have hnext := hwired.calls.nextComputation
    rcases hnew v hv' with hold | ⟨e, he, hu, d, hd, hvd⟩
    · obtain ⟨hu, hlt, hdep⟩ := hjoined u v hold
      refine ⟨hnext.symm ▸ hu, hnext.symm ▸ hlt, hbase _ _ ?_⟩
      rw [← hfp u, ← hfp v] at hdep
      exact hdep
    · obtain ⟨hkeyu, hltu⟩ := hentries _ u (Dict.mem_of_get? hu)
      obtain ⟨hkeyv, hltv⟩ := hentries _ v (Dict.mem_of_get? hvd)
      refine ⟨hnext.symm ▸ hltu, hnext.symm ▸ hltv, hbase _ _ ⟨run, e, ?_, ?_, ?_⟩⟩
      · rw [joinedState_runObjects, if_pos rfl]
        exact hof.symm ▸ he
      · exact ((hfp u).trans hkeyu).symm
      · have hkey := (hfp v).trans hkeyv
        exact hkey.symm ▸ hd
  | cons d rest =>
    rw [joinNext_cons]
    exact hjoined.same (fun _ => ⟨rfl, rfl⟩) rfl (fun _ => rfl)

theorem effect (he : Effect s a p) : EdgesPlanned p.state := by
  have hquiet : ∀ {t}, Quiet s t → EdgesPlanned t := fun hq =>
    h.same (fun u => ⟨hq.plan u, hq.dependencies u⟩) hq.nextComputation
      (fun x => by rw [hq.runObjects])
  cases he with
  | quiet hq => exact hquiet hq
  | drops i => exact h.same (fun _ => ⟨rfl, rfl⟩) rfl (fun _ => rfl)
  | @registers _ t i runId plan _ hq _ =>
    have hvacant := (hvalid.registered.kept (RunsKept.of_quiet hq)).vacant t.nextRun le_rfl
    have halloc : EdgesPlanned (allocateRun t runId plan) := by
      refine (hquiet hq).kept (fun _ _ hv => hv) (fun _ _ => rfl) le_rfl ?_
      intro d f
      refine DependsOn.mono (fun x => ?_)
      by_cases hx : x = t.nextRun
      · subst x
        exact Or.inr (by rw [hvacant]; rfl)
      · exact Or.inl (by simp [hx])
    unfold register
    split
    · exact halloc.same (fun _ => ⟨rfl, rfl⟩) rfl (fun _ => rfl)
    · exact halloc.same (fun _ => ⟨rfl, rfl⟩) rfl (fun _ => rfl)
  | joins i hsub =>
    refine h.joinNext hvalid hsub ?_
    rintro rfl
    exact (hvalid.sound.submits i _ hsub).answered rfl
  | withdraws _ _ _ => exact (h.withdraw _ _).finishRun _
  | awaits _ _ => exact (h.withdraw _ _).same (fun _ => ⟨rfl, rfl⟩) rfl (fun _ => rfl)
  | @answers i task _ =>
    have hdrop : EdgesPlanned (s.setCancel i none) :=
      h.same (fun _ => ⟨rfl, rfl⟩) rfl (fun _ => rfl)
    exact hdrop.finishRun task.run
  | settles r state hq _ _ =>
    refine (hquiet hq).same ?_ rfl (fun _ => rfl)
    intro u
    by_cases hu : u = r <;> simp [hu]

theorem dispatch : EdgesPlanned (dispatch concurrency s) := by
  have hd := dispatch_during concurrency s
  have hkept := RunsKept.dispatch concurrency hvalid.registered.vacant
  exact h.same (fun u => ⟨hd.plan u, hd.dependencies u⟩) hd.calls.nextComputation hkept.plan

end

end

end EdgesPlanned

/-- Every unanswered Run is in the table that a dispatch sweeps. -/
def Tabled (s : State) : Prop := ∀ run, (s.runObjects run).result = none → run ∈ s.runs.values

namespace Tabled

section

variable (h : Tabled s)
include h

theorem kept (hruns : s'.runs = s.runs)
    (hopen : ∀ x, (s'.runObjects x).result = none → (s.runObjects x).result = none) :
    Tabled s' := by
  intro run hrun
  rw [hruns]
  exact h run (hopen run hrun)

theorem finishRun (run : RunRef) : Tabled (finishRun s run) := by
  have hf := finishRun_finished s run
  refine h.kept hf.calls.runs ?_
  intro x hopen
  rw [hf.runObjects x] at hopen
  split_ifs at hopen
  · simp [answeredRun] at hopen
  · exact hopen

theorem withdraw (runId : RunId) (run : RunRef) : Tabled (withdraw s runId run).1 := by
  refine h.kept (withdraw_withdrawn s runId run).calls.runs ?_
  intro x hopen
  rw [withdraw_runObjects] at hopen
  by_cases hx : x = run
  · simpa [hx] using hopen
  · simpa [hx] using hopen

theorem allocateRun {runId : RunId} (plan : RunPlan) (hfree : s.runs.get? runId = none) :
    Tabled (allocateRun s runId plan) := by
  intro x hopen
  rw [allocateRun_runs, Dict.set_of_get?_none hfree]
  by_cases hx : x = s.nextRun
  · subst x
    simp [Dict.values]
  · have hold := h x (by simpa [hx] using hopen)
    obtain ⟨entry, hentry, rfl⟩ := List.mem_map.mp hold
    exact List.mem_map.mpr ⟨entry, List.mem_append_left _ hentry, rfl⟩

theorem joinNext (i : ℕ) (task : SubmitTask) (run : RunRef) (joined : Dict Fingerprint Ref)
    (c : ComputationPlan) (rest : List ComputationPlan) (hasResult : Bool) :
    Tabled (joinNext s i task run joined c rest hasResult).state := by
  have hjoined : Tabled (joinedState s task.runId run c hasResult) := by
    refine h.kept (RunsKept.join s task.runId c hasResult).runs ?_
    intro x hopen
    rw [joinedState_runObjects] at hopen
    split_ifs at hopen with hx
    · rw [hx]
      exact hopen
    · exact hopen
  obtain ⟨_, t, _, hwired, heq⟩ := joinNext_wired s i task run joined c rest hasResult
  rw [heq]
  refine hjoined.kept hwired.calls.runs ?_
  intro x hopen
  rwa [State.setSubmit_runObjects, hwired.runObjects] at hopen

theorem effect (hmeets : RegistersFree s a) (he : Effect s a p) : Tabled p.state := by
  have hquiet : ∀ {t}, Quiet s t → Tabled t := fun hq =>
    h.kept hq.runs (fun x hopen => by rwa [hq.runObjects] at hopen)
  cases he with
  | quiet hq => exact hquiet hq
  | drops i => exact h.kept rfl (fun _ hopen => hopen)
  | @registers _ t i runId plan hreg hq _ =>
    have hfree : t.runs.get? runId = none := by
      rw [hq.runs]
      exact hmeets.free hreg
    have halloc := (hquiet hq).allocateRun plan hfree
    unfold register
    split
    · exact halloc.kept rfl (fun _ hopen => hopen)
    · exact halloc.kept rfl (fun _ hopen => hopen)
  | joins i _ => exact h.joinNext i _ _ _ _ _ _
  | withdraws _ _ _ => exact (h.withdraw _ _).finishRun _
  | awaits _ _ => exact (h.withdraw _ _).kept rfl (fun _ hopen => hopen)
  | @answers i task _ =>
    have hdrop : Tabled (s.setCancel i none) := h.kept rfl (fun _ hopen => hopen)
    exact hdrop.finishRun task.run
  | settles r state hq _ _ => exact (hquiet hq).kept rfl (fun _ hopen => hopen)

end

theorem dispatch (concurrency : ℕ) (h : Tabled s) : Tabled (dispatch concurrency s) := by
  have hd := dispatch_during concurrency s
  refine h.kept hd.calls.runs ?_
  intro x hopen
  rw [hd.unanswered x hopen] at hopen
  exact hopen

end Tabled

namespace ReadyQueued

section

variable (h : ReadyQueued s)
include h

theorem kept (hready : s'.ready = s.ready)
    (hstate : ∀ u, s'.stateOf u = .ready → s.stateOf u = .ready) : ReadyQueued s' := by
  intro u hu
  rw [hready]
  exact h u (hstate u hu)

theorem finishRun (run : RunRef) : ReadyQueued (finishRun s run) := by
  have hf := finishRun_finished s run
  refine h.kept hf.ready ?_
  intro u hu
  rw [State.stateOf, hf.computations u] at hu
  split_ifs at hu <;> exact hu

theorem withdraw (runId : RunId) (run : RunRef) : ReadyQueued (withdraw s runId run).1 := by
  have hw := withdraw_withdrawn s runId run
  refine h.kept hw.ready ?_
  intro u hu
  rcases hw.state u with hsame | ⟨hcancelled, -⟩
  · rw [hsame] at hu
    exact hu
  · rw [hcancelled] at hu
    simp at hu

theorem joinNext (i : ℕ) (task : SubmitTask) (run : RunRef) (joined : Dict Fingerprint Ref)
    (c : ComputationPlan) (rest : List ComputationPlan) (hasResult : Bool) :
    ReadyQueued (joinNext s i task run joined c rest hasResult).state := by
  have hready : (join s task.runId c hasResult).2.ready = s.ready := by
    rcases join_cases s task.runId c hasResult with ⟨-, heq⟩ | ⟨-, -, heq⟩ | ⟨-, r, -, -, heq⟩ <;>
      rw [heq] <;> rfl
  have hjoined : ReadyQueued (joinedState s task.runId run c hasResult) := by
    refine h.kept hready ?_
    intro u hu
    have hu' : ((join s task.runId c hasResult).2.computations u).state = .ready := hu
    rcases join_cell s task.runId c hasResult u with ⟨_, heq⟩ | ⟨-, state, _, heq, hstate⟩
    · rw [heq] at hu'
      exact hu'
    · rw [heq] at hu'
      rcases hstate with rfl | rfl <;> simp at hu'
  obtain ⟨_, t, _, hwired, heq⟩ := joinNext_wired s i task run joined c rest hasResult
  rw [heq]
  refine hjoined.kept hwired.ready ?_
  intro u hu
  rw [← hwired.stateOf u]
  exact hu

theorem effect (he : Effect s a p) : ReadyQueued p.state := by
  have hquiet : ∀ {t}, Quiet s t → ReadyQueued t := fun hq =>
    h.kept hq.ready (fun u hu => by rwa [hq.stateOf u] at hu)
  cases he with
  | quiet hq => exact hquiet hq
  | drops i => exact h.kept rfl (fun _ hu => hu)
  | registers i _ hq _ =>
    unfold register
    split
    · exact (hquiet hq).kept rfl (fun _ hu => hu)
    · exact (hquiet hq).kept rfl (fun _ hu => hu)
  | joins i _ => exact h.joinNext i _ _ _ _ _ _
  | withdraws _ _ _ => exact (h.withdraw _ _).finishRun _
  | awaits _ _ => exact (h.withdraw _ _).kept rfl (fun _ hu => hu)
  | @answers i task _ =>
    have hdrop : ReadyQueued (s.setCancel i none) := h.kept rfl (fun _ hu => hu)
    exact hdrop.finishRun task.run
  | settles r state hq _ hstate =>
    refine (hquiet hq).kept rfl ?_
    intro u hu
    by_cases hur : u = r
    · rcases hstate with rfl | ⟨rfl, -⟩ <;> simp [State.stateOf, hur] at hu
    · simpa [State.stateOf, hur] using hu

end

end ReadyQueued

/-- The condition for progress: no store call of a submit raises, a validated
submit registers a free id, and a resumed cancel forgets no unfinished attempt. -/
structure KeepsGoing (s : State) (a : Action) : Prop where
  answered : ∀ i, a ≠ .submitRaises i
  free : RegistersFree s a
  settled : CancelSettled s a

/-- While no submit is joining and no cancel is suspended, the state is as
the last dispatch left it. -/
def Quiescent (concurrency : ℕ) (s : State) : Prop :=
  (∀ i, s.joiningCall i = none) → (∀ i, s.cancels i = none) → Dispatched concurrency s

theorem Quiescent.effect (h : Quiescent concurrency s) (hmeets : KeepsGoing s a) (he : Effect s a p)
    (hd : p.dispatches = false) : Quiescent concurrency p.state := by
  cases he with
  | quiet hq =>
    intro hcalls hcancels
    have hbase := h (fun i => (hq.joiningCall i).symm.trans (hcalls i))
      (fun i => by rw [← hq.cancels]; exact hcancels i)
    refine ⟨?_, ?_, ?_⟩
    · intro r hr hp
      rw [hq.records] at hr
      rw [hq.stateOf] at hp
      obtain ⟨hbad, w, hw, hne⟩ := hbase.decided r hr hp
      rw [hq.dependencies r]
      refine ⟨?_, w, hw, ?_⟩
      · intro u hu
        rw [hq.stateOf]
        exact hbad u hu
      · rw [hq.stateOf]
        exact hne
    · intro r hr hready
      rw [hq.running]
      exact hbase.started r (hq.ready ▸ hr) ((hq.stateOf r).symm.trans hready)
    · intro run hrun hopen
      rw [hq.runs] at hrun
      rw [hq.runObjects] at hopen ⊢
      obtain ⟨r, hr, hnot⟩ := hbase.awaiting run hrun hopen
      exact ⟨r, hr, by rw [hq.stateOf]; exact hnot⟩
  | drops i => exact absurd rfl (hmeets.answered i)
  | registers i _ _ _ =>
    unfold register at hd ⊢
    split at hd
    · simp at hd
    · -- the submit is suspended at its first join
      intro hcalls
      have hcall := hcalls i
      simp [joiningCall_setSubmit, SubmitTask.joiningCall] at hcall
  | @joins i runId plan run joined c rest hasResult _ =>
    cases rest with
    | nil => simp [joinNext_nil] at hd
    | cons d rest =>
      intro hcalls
      have hcall := hcalls i
      simp [joinNext_cons, joiningCall_setSubmit, SubmitTask.joiningCall] at hcall
  | awaits _ _ =>
    intro _ hcancels
    have hcancel := hcancels s.nextCancel
    simp at hcancel
  | _ => simp at hd

/-- All that the argument needs of a state. -/
structure Advancing (concurrency : ℕ) (s : State) : Prop where
  edges : EdgesPlanned s
  tabled : Tabled s
  queued : ReadyQueued s
  quiescent : Quiescent concurrency s

theorem Advancing.reachable {store : ResultStore}
    (h : Reachable (step concurrency) KeepsGoing (initial store) s) :
    Valid concurrency s ∧ Advancing concurrency s := by
  refine invariant_of_steps (I := Advancing concurrency) ?_ ?_ ?_ h
  · refine ⟨?_, ?_, ?_, ?_⟩
    · intro u v hv
      simp [vacantComputation] at hv
    · intro run hrun
      simp [vacantRun] at hrun
    · intro r hr
      simp [State.stateOf, vacantComputation] at hr
    · intro _ _
      refine ⟨?_, ?_, ?_⟩
      · intro r hr
        simp [Dict.values] at hr
      · simp
      · simp [Dict.values]
  · intro s a p hvalid hs hmeets _ he hd
    exact ⟨hs.edges.effect hvalid he, hs.tabled.effect hmeets.free he, hs.queued.effect he,
      hs.quiescent.effect hmeets he hd⟩
  · intro s a p hvalid hs hmeets hp he _
    exact ⟨(hs.edges.effect hvalid he).dispatch (hvalid.prepare hp),
      (hs.tabled.effect hmeets.free he).dispatch concurrency, (hs.queued.effect he).dispatch,
      fun _ _ => dispatch_dispatched p.state⟩

/-- A chain of pending records that never ends closes a cycle of depends_on. -/
theorem exists_cycle_of_pending_chain (hedges : EdgesPlanned s)
    (hchain : ∀ r, s.stateOf r = .pending → ∃ u ∈ (s.computations r).dependencies, s.stateOf u =
      .pending) (hr : s.stateOf r = .pending) : ∃ f, Relation.TransGen (DependsOn s) f f := by
  by_contra hacyclic
  have hno : ∀ f, ¬ Relation.TransGen (DependsOn s) f f := fun f hf => hacyclic ⟨f, hf⟩
  -- on the finitely many records the edges are then well-founded
  let before : Fin s.nextComputation → Fin s.nextComputation → Prop :=
    Relation.TransGen (fun v u => v.val ∈ (s.computations u.val).dependencies)
  have hlift : ∀ v u, before v u →
      Relation.TransGen (DependsOn s) (s.fingerprintOf v.val) (s.fingerprintOf u.val) := by
    intro v u hvu
    exact Relation.TransGen.lift (fun x : Fin s.nextComputation => s.fingerprintOf x.val)
      (fun a b hab => (hedges b.val a.val hab).2.2) v u hvu
  have htrans : IsTrans (Fin s.nextComputation) before := ⟨fun _ _ _ => Relation.TransGen.trans⟩
  have hirrefl : Std.Irrefl before := ⟨fun u hu => hno _ (hlift u u hu)⟩
  have hwf : WellFounded before := Finite.wellFounded_of_trans_of_irrefl before
  have hnever : ∀ u : Fin s.nextComputation, s.stateOf u.val ≠ .pending := by
    intro u
    induction u using hwf.induction with
    | _ u ih =>
      intro hu
      obtain ⟨v, hv, hpending⟩ := hchain u.val hu
      have hlt := (hedges u.val v hv).2.1
      exact ih ⟨v, hlt⟩ (Relation.TransGen.single hv) hpending
  obtain ⟨u, hu, -⟩ := hchain r hr
  exact hnever ⟨r, (hedges r u hu).1⟩ hr

/-- In every run that meets the condition, whenever no call is suspended and
the submitted plans have no common dependency cycle, an unanswered Run means
that some computation is running. -/
theorem no_run_stranded {concurrency : ℕ} (hpos : 1 ≤ concurrency) {store : ResultStore}
    {s : State} (h : Reachable (step concurrency) KeepsGoing (initial store) s)
    (hsubmits : ∀ i, s.submits i = none) (hcancels : ∀ i, s.cancels i = none)
    (hacyclic : ∀ f, ¬ Relation.TransGen (DependsOn s) f f) {run : RunRef}
    (hopen : (s.runObjects run).result = none) : ∃ r, s.stateOf r = .running := by
  obtain ⟨hvalid, hadv⟩ := Advancing.reachable h
  have hsingle := (SingleFlight.reachable (fun _ _ h => h.settled) h).2
  have hdispatched := hadv.quiescent (fun i => by simp [State.joiningCall, hsubmits i]) hcancels
  by_contra hidle
  have hnotRunning : ∀ r, s.stateOf r ≠ .running := fun r hr => hidle ⟨r, hr⟩
  have hempty : s.running = [] := by
    refine List.eq_nil_iff_forall_not_mem.mpr (fun r hr => ?_)
    exact hnotRunning r ((hvalid.sound.running_iff r).mp hr)
  have hnotReady : ∀ r, s.stateOf r ≠ .ready := by
    intro r hr
    have hfull := hdispatched.started r (hadv.queued r hr) hr
    rw [hempty] at hfull
    simp only [List.length_nil] at hfull
    omega
  have hunfinished : ∀ r, ¬ (s.stateOf r).Terminal → s.stateOf r = .pending := by
    intro r hr
    by_contra hp
    exact hr ((terminal_iff _).mpr ⟨hp, hnotReady r, hnotRunning r⟩)
  have hchain : ∀ r, s.stateOf r = .pending →
      ∃ u ∈ (s.computations r).dependencies, s.stateOf u = .pending := by
    intro r hp
    have hget := hsingle r (by rw [hp]; decide)
    obtain ⟨hbad, u, hu, hne⟩ := hdispatched.decided r (Dict.mem_values_of_get? hget) hp
    refine ⟨u, hu, hunfinished u ?_⟩
    obtain ⟨hfailed, hcancelled⟩ := hbad u hu
    cases hstate : s.stateOf u <;> rw [hstate] at hfailed hcancelled hne <;>
      first | decide | exact absurd rfl hne | exact absurd rfl hcancelled |
        exact absurd (by decide) hfailed
  obtain ⟨r, -, hr⟩ := hdispatched.awaiting run (hadv.tabled run hopen) hopen
  obtain ⟨f, hf⟩ := exists_cycle_of_pending_chain hadv.edges hchain (hunfinished r hr)
  exact hacyclic f hf

section Examples

/-- A numbering that grows along depends_on excludes cycles. -/
theorem acyclic_of_rank (rank : Fingerprint → ℕ) (h : ∀ d f, DependsOn s d f → rank d < rank f) :
    ∀ f, ¬ Relation.TransGen (DependsOn s) f f := by
  intro f hf
  have hlt := Relation.TransGen.lift rank (p := (· < ·)) h f f hf
  simp [Function.onFun, Relation.transGen_eq_self] at hlt

/-- The numbering by length, as a test over the Runs that exist. -/
def rankedByLength (s : State) : Bool :=
  (List.range s.nextRun).all (fun x => (s.runObjects x).plan.computations.all (fun c =>
    c.dependsOn.all (fun d => d.length < c.fingerprint.length)))

theorem acyclic_of_rankedByLength (hvalid : Valid concurrency s) (h : rankedByLength s) :
    ∀ f, ¬ Relation.TransGen (DependsOn s) f f := by
  refine acyclic_of_rank String.length ?_
  rintro d f ⟨x, c, hc, rfl, hd⟩
  simp only [rankedByLength, List.all_eq_true, List.mem_range, decide_eq_true_eq] at h
  rcases Nat.lt_or_ge x s.nextRun with hlt | hge
  · exact h x hlt c hc d hd
  · rw [hvalid.registered.vacant x hge] at hc
    simp [vacantRun] at hc

def keepsGoing (s : State) (a : Action) : Bool :=
  registersFree s a && cancelSettled s a && match a with
    | .submitRaises _ => false
    | _ => true

theorem keepsGoing_sound (h : keepsGoing s a) : KeepsGoing s a := by
  simp only [keepsGoing, Bool.and_eq_true] at h
  refine ⟨?_, registersFree_sound h.1.1, cancelSettled_sound h.1.2⟩
  rintro i rfl
  simp at h

theorem unanswered_run_has_running :
    ∃ s, Reachable (step 1) KeepsGoing (initial ResultStore.empty) s ∧
      (s.runObjects 0).result = none ∧ s.stateOf 1 = .pending ∧ ∃ r, s.stateOf r = .running := by
  obtain ⟨s, hs, htest⟩ := exists_reachable (step 1) KeepsGoing keepsGoing
    (initial ResultStore.empty)
    (.submit "1" ⟨[], [computationOf "x" [], computationOf "yy" ["x"]], by decide⟩ ::
      joins 0 ++ joins 0)
    (fun s => Valid.callsIdle s ∧ rankedByLength s ∧ (s.runObjects 0).result = none ∧
      s.stateOf 1 = .pending)
    (fun _ _ _ h => keepsGoing_sound h) (by decide +kernel)
  obtain ⟨hidle, hranked, hopen, hpending⟩ := of_decide_eq_true htest
  have hvalid := valid_of_reachable hs
  obtain ⟨hsubmits, hcancels⟩ := hvalid.calls_idle hidle
  exact ⟨s, hs, hopen, hpending, no_run_stranded le_rfl hs hsubmits hcancels
    (acyclic_of_rankedByLength hvalid hranked) hopen⟩

/-- No store call raises. -/
def storeAnswers : State → Action → Bool
  | _, .submitRaises _ => false
  | _, .taskRaises _ _ => false
  | _, _ => true

theorem distinct_pair : ([computationOf "y" [], computationOf "ww" ["y"]].map
    ComputationPlan.fingerprint).Nodup := by decide

theorem distinct_three : ([computationOf "x" [], computationOf "y" [], computationOf "ww" ["y"]].map
    ComputationPlan.fingerprint).Nodup := by decide

/-- Run 1 is cancelled while its submit is joining, and the attempt at `y` it
joined meanwhile is forgotten. Run 2 then makes a fresh attempt at `y` and
shares `ww` with the late submit of Run 1, which wires it to the forgotten
attempt. -/
def strandedRun : List Action :=
  .submit "0" ⟨[], [computationOf "z" []], distinct_one "z"⟩ :: joins 0 ++
  .submit "1" ⟨[], [computationOf "x" [], computationOf "y" [], computationOf "ww" ["y"]],
    distinct_three⟩ :: joins 1 ++ completes 0 ++ .cancel "1" :: joins 1 ++
  [.taskUnwinds 1, .cancelResumes 0] ++
  .submit "2" ⟨[], [computationOf "y" [], computationOf "ww" ["y"]], distinct_pair⟩ ::
  joins 2 ++ joins 2 ++ joins 1 ++ completes 3

theorem run_stranded :
    ∃ s, Reachable (step 1) (fun s a => storeAnswers s a) (initial ResultStore.empty) s ∧
      (∀ i, s.submits i = none) ∧ (∀ i, s.cancels i = none) ∧
      (∀ f, ¬ Relation.TransGen (DependsOn s) f f) ∧
      (s.runObjects 2).result = none ∧ ∀ r, s.stateOf r ≠ .running := by
  obtain ⟨s, hs, htest⟩ := exists_reachable (step 1) (fun s a => storeAnswers s a) storeAnswers
    (initial ResultStore.empty) strandedRun
    (fun s => Valid.callsIdle s ∧ rankedByLength s ∧ (s.runObjects 2).result = none ∧
      s.running = [])
    (fun _ _ _ h => h) (by decide +kernel)
  obtain ⟨hidle, hranked, hopen, hempty⟩ := of_decide_eq_true htest
  have hvalid := valid_of_reachable hs
  obtain ⟨hsubmits, hcancels⟩ := hvalid.calls_idle hidle
  refine ⟨s, hs, hsubmits, hcancels, acyclic_of_rankedByLength hvalid hranked, hopen, ?_⟩
  intro r hr
  have hmem := (hvalid.sound.running_iff r).mpr hr
  rw [hempty] at hmem
  simp at hmem

end Examples

end Grafy.Scheduler
