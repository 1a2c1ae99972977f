import Grafy.Scheduler

/-!
What each operation of the scheduler can do. Every branch of an operation is
read once, as an equation for the state it returns; a loop is read as a rule
that carries a property of the state through its iterations. Later modules
derive their invariants from these and do not unfold the operations again.
-/
namespace Grafy.Scheduler

open Lifecycle OrderedDict Results

variable {r : Ref} {event : ComputationEvent} {state : ComputationState}

namespace State

@[simps!] def setState (s : State) (r : Ref) (state : ComputationState) : State :=
  s.modify r (fun c => { c with state := state })

@[simps!] def discardDemander (s : State) (runId : RunId) (r : Ref) : State :=
  s.modify r (fun c => { c with demanders := c.demanders.filter (· ≠ runId) })

theorem apply_eq {s : State} (h : transition (s.stateOf r) event = some state) :
    s.apply r event = s.setState r state := by
  simp only [apply, h, setState]

theorem computations_modify_eq (s : State) (r : Ref) (f : Computation → Computation) (u : Ref) :
    (s.modify r f).computations u = if u = r then f (s.computations u) else s.computations u := by
  by_cases h : u = r
  · subst u
    simp
  · simp [h]

@[simp] theorem stateOf_setState (s : State) (r : Ref) (state : ComputationState) (u : Ref) :
    (s.setState r state).stateOf u = if u = r then state else s.stateOf u := by
  by_cases h : u = r <;> simp [stateOf, h]

end State

/-- Two states that agree on the store, the suspended calls, the allocation
counters and the table of Runs. Dispatching never changes any of these. -/
structure SameCalls (s s' : State) : Prop where
  store : s'.store = s.store
  nextComputation : s'.nextComputation = s.nextComputation
  nextRun : s'.nextRun = s.nextRun
  runs : s'.runs = s.runs
  submits : s'.submits = s.submits
  nextSubmit : s'.nextSubmit = s.nextSubmit
  cancels : s'.cancels = s.cancels
  nextCancel : s'.nextCancel = s.nextCancel
  rejections : s'.rejections = s.rejections

theorem SameCalls.refl (s : State) : SameCalls s s := ⟨rfl, rfl, rfl, rfl, rfl, rfl, rfl, rfl, rfl⟩

variable {t u : State}

theorem SameCalls.trans {s : State} (h : SameCalls s t) (h' : SameCalls t u) : SameCalls s u :=
  ⟨h'.1.trans h.1, h'.2.trans h.2, h'.3.trans h.3, h'.4.trans h.4, h'.5.trans h.5,
    h'.6.trans h.6, h'.7.trans h.7, h'.8.trans h.8, h'.9.trans h.9⟩

variable {P : State → Prop}

section Resolve

/-- One iteration leaves the state alone or decides one pending record. -/
theorem resolveRecord_cases (s : State) (r : Ref) :
    resolveRecord s r = (s, false) ∨
    (s.stateOf r = .pending ∧
      (∃ u ∈ (s.computations r).dependencies, s.stateOf u ∈ failedStates) ∧
      resolveRecord s r = (s.setState r .skipped, true)) ∨
    (s.stateOf r = .pending ∧
      (∃ u ∈ (s.computations r).dependencies, s.stateOf u = .cancelled) ∧
      resolveRecord s r = (s.setState r .cancelled, true)) ∨
    (s.stateOf r = .pending ∧
      (∀ u ∈ (s.computations r).dependencies, s.stateOf u = .succeeded) ∧
      resolveRecord s r = ((s.setState r .ready).setReady (s.ready ++ [r]), true)) := by
  simp only [resolveRecord]
  split_ifs with hpending hfailed hcancelled hall
  · exact Or.inl rfl
  all_goals have hp : s.stateOf r = .pending := by simpa using hpending
  · refine Or.inr (Or.inl ⟨hp, by simpa using hfailed, ?_⟩)
    have hmove : transition (s.stateOf r) .skip = some .skipped := by rw [hp]; rfl
    rw [State.apply_eq hmove]
  · refine Or.inr (Or.inr (Or.inl ⟨hp, by simpa using hcancelled, ?_⟩))
    have hmove : transition (s.stateOf r) .cancel = some .cancelled := by rw [hp]; rfl
    rw [State.apply_eq hmove]
  · refine Or.inr (Or.inr (Or.inr ⟨hp, by simpa using hall, ?_⟩))
    have hmove : transition (s.stateOf r) .dependenciesSatisfied = some .ready := by rw [hp]; rfl
    rw [State.apply_eq hmove]
    rfl
  · exact Or.inl rfl

/-- An iteration that decides nothing met no pending record it could decide. -/
theorem resolveRecord_undecided {s : State} (h : (resolveRecord s r).2 = false)
    (hp : s.stateOf r = .pending) :
    (∀ u ∈ (s.computations r).dependencies, s.stateOf u ∉ failedStates ∧ s.stateOf u ≠ .cancelled) ∧
    ∃ u ∈ (s.computations r).dependencies, s.stateOf u ≠ .succeeded := by
  simp only [resolveRecord, hp, ne_eq, not_true_eq_false, ↓reduceIte] at h
  split_ifs at h with hfailed hcancelled hall
  simp only [List.any_map, List.any_eq_true, Function.comp_apply, decide_eq_true_eq,
    not_exists, not_and] at hfailed hcancelled
  simp only [List.all_map, List.all_eq_true, Function.comp_apply, decide_eq_true_eq,
    not_forall] at hall
  obtain ⟨u, hu, hne⟩ := hall
  exact ⟨fun v hv => ⟨hfailed v hv, hcancelled v hv⟩, u, hu, hne⟩

theorem resolveRecord_records (s : State) (r : Ref) :
    (resolveRecord s r).1.records = s.records := by
  rcases resolveRecord_cases s r with h | ⟨-, -, h⟩ | ⟨-, -, h⟩ | ⟨-, -, h⟩ <;> simp [h]

section

variable (hrecord : ∀ s r, r ∈ s.records.values → P s → P (resolveRecord s r).1) (s : State)
include hrecord s

theorem resolveSweep_rule (refs : List Ref) (hrefs : ∀ r ∈ refs, r ∈ s.records.values) (hs : P s) :
    P (resolveSweep s refs).1 := by
  induction refs generalizing s with
  | nil => exact hs
  | cons r rest ih =>
    simp only [resolveSweep]
    apply ih
    · intro u hu
      rw [resolveRecord_records]
      exact hrefs u (List.mem_cons_of_mem _ hu)
    · exact hrecord s r (hrefs r (List.mem_cons_self ..)) hs

theorem resolvePending_rule (hs : P s) : P (resolvePending s) := by
  have hsweeps : ∀ fuel s, P s → P (resolveSweeps s fuel) := by
    intro fuel
    induction fuel with
    | zero => exact fun _ hs => hs
    | succ fuel ih =>
      intro s hs
      have hswept := resolveSweep_rule hrecord s s.records.values (fun _ h => h) hs
      simp only [resolveSweeps]
      split
      · exact ih _ hswept
      · exact hswept
  exact hsweeps _ s hs

end

end Resolve

variable {concurrency : ℕ}

section Start

theorem startRecord_eq {s : State} (h : s.stateOf r = .ready) :
    startRecord s r =
      (s.modify r (fun c => { c with state := .running, task := some ⟨.runner, false⟩ })).setRunning
        (if r ∈ s.running then s.running else s.running ++ [r]) := by
  simp only [startRecord]
  have hmove : transition (s.stateOf r) .start = some .running := by rw [h]; rfl
  rw [State.apply_eq hmove]
  simp only [State.setState, State.modify, State.setRunning, Function.update_self,
    Function.update_idem]
  rfl

/-- Starting keeps a property that survives each start and does not read the
queue. -/
theorem startReady_rule
    (hqueue : ∀ s queue, P s → P (s.setReady queue))
    (hstart : ∀ s r, s.stateOf r = .ready → s.running.length < concurrency →
      P s → P (startRecord s r))
    (s : State) (hs : P s) : P (startReady concurrency s) := by
  have hloop : ∀ queue s, P s → P (startQueue concurrency s queue) := by
    intro queue
    induction queue with
    | nil => exact fun s hs => hqueue s [] hs
    | cons r rest ih =>
      intro s hs
      simp only [startQueue]
      split_ifs with hroom hready
      · exact ih s hs
      · exact ih _ (hstart s r (by simpa using hready) hroom hs)
      · exact hqueue s _ hs
  exact hloop s.ready s hs

end Start

variable {refs refs' : List Ref}

section Complete

theorem releaseRecord_eq (s : State) (runId : RunId) (r : Ref) :
    ∃ records, releaseRecord s runId r = (s.discardDemander runId r).setRecords records ∧
      (records = s.records ∨
        ((s.computations r).demanders.filter (· ≠ runId) = [] ∧
          s.records.get? (s.fingerprintOf r) = some r ∧
          records = s.records.erase (s.fingerprintOf r))) := by
  simp only [releaseRecord]
  split_ifs with h
  · refine ⟨s.records.erase (s.fingerprintOf r), ?_, Or.inr ⟨?_, ?_, rfl⟩⟩
    · simp [State.discardDemander, State.fingerprintOf]
    · simpa using h.1
    · simpa [State.fingerprintOf] using h.2
  · exact ⟨s.records, rfl, Or.inl rfl⟩

/-- What releasing some records from a Run's demand does: demand is dropped
on them, and entries of the record table disappear only for those of them
that nobody else demands. -/
structure Released (runId : RunId) (refs : List Ref) (s s' : State) : Prop where
  calls : SameCalls s s'
  runObjects : s'.runObjects = s.runObjects
  ready : s'.ready = s.ready
  running : s'.running = s.running
  illegal : s'.illegalTransitions = s.illegalTransitions
  computations : ∀ u, s'.computations u =
    if u ∈ refs then
      { s.computations u with demanders := (s.computations u).demanders.filter (· ≠ runId) }
    else s.computations u
  kept : ∀ f u, s'.records.get? f = some u → s.records.get? f = some u
  entries : ∀ e ∈ s'.records, e ∈ s.records
  nodup : s.records.keys.Nodup → s'.records.keys.Nodup
  dropped : ∀ f u, s.records.get? f = some u → s'.records.get? f ≠ some u →
    u ∈ refs ∧ (s.computations u).demanders.filter (· ≠ runId) = []

private theorem releaseRecord_released (s : State) (runId : RunId) (r : Ref) :
    Released runId [r] s (releaseRecord s runId r) := by
  obtain ⟨records, heq, hrecords⟩ := releaseRecord_eq s runId r
  rw [heq]
  refine ⟨⟨rfl, rfl, rfl, rfl, rfl, rfl, rfl, rfl, rfl⟩, rfl, rfl, rfl, rfl, ?_, ?_, ?_, ?_, ?_⟩
  · intro u
    simp only [List.mem_singleton, State.setRecords_computations]
    exact State.computations_modify_eq s r
      (fun c => { c with demanders := c.demanders.filter (· ≠ runId) }) u
  all_goals simp only [State.setRecords_records]
  · intro f u hu
    rcases hrecords with rfl | ⟨-, -, rfl⟩
    · exact hu
    · rw [Dict.get?_erase] at hu
      split_ifs at hu
      exact hu
  · intro e he
    rcases hrecords with rfl | ⟨-, -, rfl⟩
    · exact he
    · exact Dict.mem_of_mem_erase he
  · intro hnodup
    rcases hrecords with rfl | ⟨-, -, rfl⟩
    · exact hnodup
    · exact Dict.keys_erase_nodup hnodup _
  · intro f u hu hgone
    rcases hrecords with rfl | ⟨hempty, hget, rfl⟩
    · exact absurd hu hgone
    · rw [Dict.get?_erase] at hgone
      by_cases hf : f = s.fingerprintOf r
      · subst f
        obtain rfl : u = r := Option.some.inj (hu.symm.trans hget)
        exact ⟨List.mem_singleton_self _, hempty⟩
      · simp [hf, hu] at hgone

private theorem Released.append {runId : RunId} {s : State} (h : Released runId refs s t)
    (h' : Released runId refs' t u) : Released runId (refs ++ refs') s u := by
  refine ⟨h.calls.trans h'.calls, h'.runObjects.trans h.runObjects, h'.ready.trans h.ready,
    h'.running.trans h.running, h'.illegal.trans h.illegal, ?_, ?_, ?_, ?_, ?_⟩
  · intro v
    rw [h'.computations v, h.computations v]
    by_cases hv : v ∈ refs <;> by_cases hv' : v ∈ refs' <;> simp [hv, hv', List.filter_filter]
  · exact fun f v hv => h.kept f v (h'.kept f v hv)
  · exact fun e he => h.entries e (h'.entries e he)
  · exact fun hnodup => h'.nodup (h.nodup hnodup)
  · intro f v hv hgone
    by_cases hstill : t.records.get? f = some v
    · obtain ⟨hmem, hempty⟩ := h'.dropped f v hstill hgone
      refine ⟨List.mem_append_right _ hmem, ?_⟩
      rw [h.computations v] at hempty
      split_ifs at hempty
      · simpa [List.filter_filter] using hempty
      · exact hempty
    · obtain ⟨hmem, hempty⟩ := h.dropped f v hv hstill
      exact ⟨List.mem_append_left _ hmem, hempty⟩

theorem releaseRecords_released (runId : RunId) (refs : List Ref) (s : State) :
    Released runId refs s (refs.foldl (fun s r => releaseRecord s runId r) s) := by
  induction refs generalizing s with
  | nil =>
    exact ⟨SameCalls.refl s, rfl, rfl, rfl, rfl, by simp, fun _ _ h => h, fun _ h => h,
      fun h => h, fun _ _ h h' => absurd h h'⟩
  | cons r rest ih =>
    simp only [List.foldl_cons]
    exact (releaseRecord_released s runId r).append (ih _)

/-- The answered Run. -/
def answeredRun (s : State) (run : RunRef) : Run :=
  { s.runObjects run with result := some (runResult s (s.runObjects run)), joined := [] }

/-- `_finish_run` answers the Run and releases what it joined; `t` is the
state just before the joined list is cleared. -/
theorem finishRun_eq (s : State) (run : RunRef) :
    ∃ t, Released (s.runObjects run).runId (s.runObjects run).joined
        (s.modifyRun run (fun x =>
          { x with result := some (runResult s (s.runObjects run)) })) t ∧
      finishRun s run = t.modifyRun run (fun x => { x with joined := [] }) :=
  ⟨_, releaseRecords_released _ _ _, rfl⟩

structure Finished (run : RunRef) (s s' : State) : Prop where
  calls : SameCalls s s'
  ready : s'.ready = s.ready
  running : s'.running = s.running
  illegal : s'.illegalTransitions = s.illegalTransitions
  runObjects : ∀ x, s'.runObjects x = if x = run then answeredRun s run else s.runObjects x
  computations : ∀ u, s'.computations u =
    if u ∈ (s.runObjects run).joined then
      { s.computations u with
        demanders := (s.computations u).demanders.filter (· ≠ (s.runObjects run).runId) }
    else s.computations u
  kept : ∀ f u, s'.records.get? f = some u → s.records.get? f = some u
  entries : ∀ e ∈ s'.records, e ∈ s.records
  nodup : s.records.keys.Nodup → s'.records.keys.Nodup
  dropped : ∀ f u, s.records.get? f = some u → s'.records.get? f ≠ some u →
    u ∈ (s.runObjects run).joined ∧
      (s.computations u).demanders.filter (· ≠ (s.runObjects run).runId) = []

theorem finishRun_finished (s : State) (run : RunRef) : Finished run s (finishRun s run) := by
  obtain ⟨t, ht, heq⟩ := finishRun_eq s run
  rw [heq]
  refine ⟨⟨ht.calls.1, ht.calls.2, ht.calls.3, ht.calls.4, ht.calls.5, ht.calls.6, ht.calls.7,
    ht.calls.8, ht.calls.9⟩, ht.ready, ht.running, ht.illegal, ?_, ht.computations, ht.kept,
    ht.entries, ht.nodup, ht.dropped⟩
  intro x
  by_cases hx : x = run
  · subst x
    simp [ht.runObjects, answeredRun]
  · simp [ht.runObjects, hx]

/-- Only unanswered Runs of the table whose joined records are all terminal
are finished. -/
theorem completeRuns_rule
    (hfinish : ∀ s run, run ∈ s.runs.values → (s.runObjects run).result = none →
      (∀ r ∈ (s.runObjects run).joined, (s.stateOf r).Terminal) →
      P s → P (finishRun s run))
    (s : State) (hs : P s) : P (completeRuns s) := by
  have hloop : ∀ (l : List RunRef) s, (∀ run ∈ l, run ∈ s.runs.values) → P s →
      P (l.foldl completeRun s) := by
    intro l
    induction l with
    | nil => exact fun _ _ hs => hs
    | cons run rest ih =>
      intro s hl hs
      have hrest : ∀ x ∈ rest, x ∈ s.runs.values := fun x hx => hl x (List.mem_cons_of_mem _ hx)
      simp only [List.foldl_cons]
      unfold completeRun
      split_ifs with hresult hjoined
      · exact ih s hrest hs
      · exact ih s hrest hs
      · refine ih _ ?_ (hfinish s run (hl run (List.mem_cons_self ..))
          (by simpa using hresult) ?_ hs)
        · rw [(finishRun_finished s run).calls.runs]
          exact hrest
        · intro r hr
          by_contra hnot
          exact hjoined (List.any_eq_true.mpr ⟨r, hr, by simpa using hnot⟩)
  exact hloop _ s (fun _ h => h) hs

end Complete

section Dispatch

theorem dispatch_rule
    (hrecord : ∀ s r, r ∈ s.records.values → P s → P (resolveRecord s r).1)
    (hqueue : ∀ s queue, P s → P (s.setReady queue))
    (hstart : ∀ s r, s.stateOf r = .ready → s.running.length < concurrency →
      P s → P (startRecord s r))
    (hfinish : ∀ s run, run ∈ s.runs.values → (s.runObjects run).result = none →
      (∀ r ∈ (s.runObjects run).joined, (s.stateOf r).Terminal) →
      P s → P (finishRun s run))
    (s : State) (hs : P s) : P (dispatch concurrency s) :=
  completeRuns_rule hfinish _ (startReady_rule hqueue hstart _ (resolvePending_rule hrecord s hs))

theorem sameCalls_resolveRecord (s : State) (r : Ref) : SameCalls s (resolveRecord s r).1 := by
  rcases resolveRecord_cases s r with h | ⟨-, -, h⟩ | ⟨-, -, h⟩ | ⟨-, -, h⟩ <;> rw [h]
  · exact SameCalls.refl s
  all_goals exact ⟨rfl, rfl, rfl, rfl, rfl, rfl, rfl, rfl, rfl⟩

theorem sameCalls_startRecord {s : State} (h : s.stateOf r = .ready) :
    SameCalls s (startRecord s r) := by
  rw [startRecord_eq h]
  exact ⟨rfl, rfl, rfl, rfl, rfl, rfl, rfl, rfl, rfl⟩

/-- Dispatching touches neither the store nor any suspended call. -/
theorem sameCalls_dispatch (concurrency : ℕ) (s : State) :
    SameCalls s (dispatch concurrency s) := by
  refine dispatch_rule (P := SameCalls s) ?_ ?_ ?_ ?_ s (SameCalls.refl s)
  · exact fun t r _ h => h.trans (sameCalls_resolveRecord t r)
  · exact fun t _ h => h.trans ⟨rfl, rfl, rfl, rfl, rfl, rfl, rfl, rfl, rfl⟩
  · exact fun t r hr _ h => h.trans (sameCalls_startRecord hr)
  · exact fun t run _ _ _ h => h.trans (finishRun_finished t run).calls

/-- What a dispatch that began in `e` never does before it reaches `t`: it
changes no call, plan or dependency and no unanswered Run, and it makes no
record pending or succeeded. -/
structure DuringDispatch (e t : State) : Prop where
  calls : SameCalls e t
  plan : ∀ u, (t.computations u).plan = (e.computations u).plan
  dependencies : ∀ u, (t.computations u).dependencies = (e.computations u).dependencies
  unanswered : ∀ x, (t.runObjects x).result = none → t.runObjects x = e.runObjects x
  pending : ∀ u, t.stateOf u = .pending → e.stateOf u = .pending
  succeeded : ∀ u, t.stateOf u = .succeeded → e.stateOf u = .succeeded
  records : ∀ entry ∈ t.records, entry ∈ e.records

namespace DuringDispatch

variable {e : State}

theorem refl (e : State) : DuringDispatch e e :=
  ⟨SameCalls.refl e, fun _ => rfl, fun _ => rfl, fun _ _ => rfl, fun _ h => h, fun _ h => h,
    fun _ h => h⟩

section

variable (h : DuringDispatch e t)
include h

/-- Only one record moved, and neither to pending nor to succeeded. -/
theorem move {t' : State} (hcalls : SameCalls t t') (hobjects : t'.runObjects = t.runObjects)
    (hrecords : t'.records = t.records)
    (hcells : ∀ u, ∃ state task, t'.computations u = { t.computations u with state := state, task :=
      task } ∧ (state = (t.computations u).state ∨ (state ≠ .pending ∧ state ≠ .succeeded))) :
    DuringDispatch e t' := by
  refine ⟨h.calls.trans hcalls, ?_, ?_, ?_, ?_, ?_, ?_⟩
  · intro u
    obtain ⟨state, task, heq, -⟩ := hcells u
    rw [heq]
    exact h.plan u
  · intro u
    obtain ⟨state, task, heq, -⟩ := hcells u
    rw [heq]
    exact h.dependencies u
  · rw [hobjects]
    exact h.unanswered
  · intro u hu
    obtain ⟨state, task, heq, hstate⟩ := hcells u
    rw [State.stateOf, heq] at hu
    rcases hstate with hsame | hmoved
    · exact h.pending u (hsame.symm.trans hu)
    · exact absurd hu hmoved.1
  · intro u hu
    obtain ⟨state, task, heq, hstate⟩ := hcells u
    rw [State.stateOf, heq] at hu
    rcases hstate with hsame | hmoved
    · exact h.succeeded u (hsame.symm.trans hu)
    · exact absurd hu hmoved.2
  · rw [hrecords]
    exact h.records

theorem setState (r : Ref) (hstate : state ≠ .pending ∧ state ≠ .succeeded) (ready : List Ref) :
    DuringDispatch e ((t.setState r state).setReady ready) := by
  refine h.move ⟨rfl, rfl, rfl, rfl, rfl, rfl, rfl, rfl, rfl⟩ rfl rfl ?_
  intro u
  by_cases hu : u = r
  · subst u
    exact ⟨state, (t.computations r).task, by simp, Or.inr hstate⟩
  · exact ⟨t.stateOf u, (t.computations u).task, by simp [hu, State.stateOf], Or.inl rfl⟩

theorem resolveRecord (r : Ref) : DuringDispatch e (resolveRecord t r).1 := by
  rcases resolveRecord_cases t r with heq | ⟨-, -, heq⟩ | ⟨-, -, heq⟩ | ⟨-, -, heq⟩ <;> rw [heq]
  · exact h
  · exact h.setState r (by decide) t.ready
  · exact h.setState r (by decide) t.ready
  · exact h.setState r (by decide) _

theorem startRecord (hr : t.stateOf r = .ready) : DuringDispatch e (startRecord t r) := by
  rw [startRecord_eq hr]
  refine h.move ⟨rfl, rfl, rfl, rfl, rfl, rfl, rfl, rfl, rfl⟩ rfl rfl ?_
  intro u
  by_cases hu : u = r
  · subst u
    exact ⟨.running, some ⟨.runner, false⟩, by simp, Or.inr (by decide)⟩
  · exact ⟨t.stateOf u, (t.computations u).task, by simp [hu, State.stateOf], Or.inl rfl⟩

theorem finishRun (run : RunRef) : DuringDispatch e (finishRun t run) := by
  have hf := finishRun_finished t run
  have hcell : ∀ u, ∃ demanders, (Scheduler.finishRun t run).computations u =
      { t.computations u with demanders := demanders } := by
    intro u
    rw [hf.computations u]
    split_ifs
    · exact ⟨_, rfl⟩
    · exact ⟨_, rfl⟩
  refine ⟨h.calls.trans hf.calls, ?_, ?_, ?_, ?_, ?_, fun entry he => h.records _ (hf.entries _ he)⟩
  · intro u
    obtain ⟨demanders, heq⟩ := hcell u
    rw [heq]
    exact h.plan u
  · intro u
    obtain ⟨demanders, heq⟩ := hcell u
    rw [heq]
    exact h.dependencies u
  · intro x hopen
    rw [hf.runObjects x] at hopen ⊢
    split_ifs at hopen ⊢
    · simp [answeredRun] at hopen
    · exact h.unanswered x hopen
  · intro u hu
    obtain ⟨demanders, heq⟩ := hcell u
    rw [State.stateOf, heq] at hu
    exact h.pending u hu
  · intro u hu
    obtain ⟨demanders, heq⟩ := hcell u
    rw [State.stateOf, heq] at hu
    exact h.succeeded u hu

end

end DuringDispatch

/-- The rule for a dispatch from `e`, with what is known on the way. -/
theorem dispatch_rule_during (e : State)
    (hrecord : ∀ s r, DuringDispatch e s → r ∈ s.records.values → P s → P (resolveRecord s r).1)
    (hqueue : ∀ s queue, P s → P (s.setReady queue))
    (hstart : ∀ s r, DuringDispatch e s → s.stateOf r = .ready → s.running.length < concurrency →
      P s → P (startRecord s r))
    (hfinish : ∀ s run, DuringDispatch e s → run ∈ s.runs.values →
      (s.runObjects run).result = none →
      (∀ r ∈ (s.runObjects run).joined, (s.stateOf r).Terminal) → P s → P (finishRun s run))
    (he : P e) : DuringDispatch e (dispatch concurrency e) ∧ P (dispatch concurrency e) := by
  refine dispatch_rule (P := fun s => DuringDispatch e s ∧ P s) ?_ ?_ ?_ ?_ e
    ⟨DuringDispatch.refl e, he⟩
  · exact fun s r hr ⟨hd, hs⟩ => ⟨hd.resolveRecord r, hrecord s r hd hr hs⟩
  · intro s queue hkept
    obtain ⟨hd, hs⟩ := hkept
    refine ⟨⟨hd.calls.trans ⟨rfl, rfl, rfl, rfl, rfl, rfl, rfl, rfl, rfl⟩, hd.plan,
      hd.dependencies, hd.unanswered, hd.pending, hd.succeeded, hd.records⟩, hqueue s queue hs⟩
  · exact fun s r hr hroom ⟨hd, hs⟩ => ⟨hd.startRecord hr, hstart s r hd hr hroom hs⟩
  · exact fun s run hrun hopen hjoined ⟨hd, hs⟩ =>
      ⟨hd.finishRun run, hfinish s run hd hrun hopen hjoined hs⟩

theorem dispatch_during (concurrency : ℕ) (s : State) : DuringDispatch s (dispatch concurrency s) :=
  (dispatch_rule_during (P := fun _ => True) s (fun _ _ _ _ _ => trivial) (fun _ _ _ => trivial)
    (fun _ _ _ _ _ _ => trivial) (fun _ _ _ _ _ _ _ => trivial) trivial).1

end Dispatch

section Withdraw

def cancelRecord (s : State) (r : Ref) : State :=
  (s.modify r (fun c => { c with
    state := .cancelled
    task := c.task.map (fun t => { t with cancelRequested := true }) })).setRunning
      (s.running.filter (· ≠ r))

/-- After its demand is dropped, a record is kept, or nobody demands it any
more and it is cancelled. -/
theorem withdrawRecord_cases (s : State) (runId : RunId) (r : Ref) :
    (((s.stateOf r).Terminal ∨ (s.computations r).demanders.filter (· ≠ runId) ≠ []) ∧
      withdrawRecord s runId r = (s.discardDemander runId r, false)) ∨
    (¬ (s.stateOf r).Terminal ∧ (s.computations r).demanders.filter (· ≠ runId) = [] ∧
      withdrawRecord s runId r =
        (cancelRecord (s.discardDemander runId r) r, (s.computations r).task.isSome)) := by
  have hfold : s.modify r (fun c => { c with demanders := c.demanders.filter (· ≠ runId) }) =
      s.discardDemander runId r := rfl
  simp only [withdrawRecord, hfold]
  split_ifs with h
  · exact Or.inl ⟨by simpa [State.stateOf] using h, rfl⟩
  · obtain ⟨hterminal, hempty⟩ := not_or.mp h
    refine Or.inr ⟨by simpa [State.stateOf] using hterminal, by simpa using hempty, ?_⟩
    rw [State.apply_eq (transition_cancel_of_not_terminal hterminal)]
    simp [cancelRecord, State.setState, State.modify, State.setRunning, State.discardDemander]

theorem withdrawRecords_rule {runId : RunId}
    (hdiscard : ∀ s r, P s → P (s.discardDemander runId r))
    (hcancel : ∀ s r, ¬ (s.stateOf r).Terminal → (s.computations r).demanders = [] →
      P s → P (cancelRecord s r))
    (s : State) (refs : List Ref) (hs : P s) : P (withdrawRecords s runId refs).1 := by
  induction refs generalizing s with
  | nil => exact hs
  | cons r rest ih =>
    simp only [withdrawRecords]
    apply ih
    rcases withdrawRecord_cases s runId r with ⟨-, heq⟩ | ⟨hterminal, hempty, heq⟩
    · rw [heq]
      exact hdiscard s r hs
    · rw [heq]
      refine hcancel _ r ?_ ?_ (hdiscard s r hs)
      · simpa [State.stateOf] using hterminal
      · simpa using hempty

/-- What withdrawing some records does: demand is dropped on them, and those
of them that are unfinished and that nobody else demands are cancelled. -/
structure Withdrawn (runId : RunId) (refs : List Ref) (s s' : State) : Prop where
  calls : SameCalls s s'
  runObjects : s'.runObjects = s.runObjects
  records : s'.records = s.records
  ready : s'.ready = s.ready
  plan : ∀ u, (s'.computations u).plan = (s.computations u).plan
  dependencies : ∀ u, (s'.computations u).dependencies = (s.computations u).dependencies
  demanders : ∀ u, (s'.computations u).demanders =
    if u ∈ refs then (s.computations u).demanders.filter (· ≠ runId)
    else (s.computations u).demanders
  state : ∀ u, s'.stateOf u = s.stateOf u ∨
    (s'.stateOf u = .cancelled ∧ u ∈ refs ∧ ¬ (s.stateOf u).Terminal ∧
      (s.computations u).demanders.filter (· ≠ runId) = [])
  point : ∀ u, (s'.computations u).task.map ExecuteTask.point =
    (s.computations u).task.map ExecuteTask.point

private theorem withdrawRecord_withdrawn (s : State) (runId : RunId) (r : Ref) :
    Withdrawn runId [r] s (withdrawRecord s runId r).1 := by
  have hdemanders : ∀ u, ((s.discardDemander runId r).computations u).demanders =
      if u ∈ [r] then (s.computations u).demanders.filter (· ≠ runId)
      else (s.computations u).demanders := by
    intro u
    by_cases hu : u = r <;> simp [hu]
  rcases withdrawRecord_cases s runId r with ⟨-, heq⟩ | ⟨hopen, hempty, heq⟩ <;> rw [heq]
  · refine ⟨⟨rfl, rfl, rfl, rfl, rfl, rfl, rfl, rfl, rfl⟩, rfl, rfl, rfl, ?_, ?_, hdemanders, ?_,
      ?_⟩
    · intro u
      by_cases hu : u = r <;> simp [hu]
    · intro u
      by_cases hu : u = r <;> simp [hu]
    · intro u
      by_cases hu : u = r <;> simp [State.stateOf, hu]
    · intro u
      by_cases hu : u = r <;> simp [hu]
  · refine ⟨⟨rfl, rfl, rfl, rfl, rfl, rfl, rfl, rfl, rfl⟩, rfl, rfl, rfl, ?_, ?_, ?_, ?_, ?_⟩
    · intro u
      by_cases hu : u = r <;> simp [cancelRecord, hu]
    · intro u
      by_cases hu : u = r <;> simp [cancelRecord, hu]
    · intro u
      rw [← hdemanders u]
      by_cases hu : u = r <;> simp [cancelRecord, hu]
    · intro u
      by_cases hu : u = r
      · subst u
        exact Or.inr ⟨by simp [cancelRecord, State.stateOf], by simp, hopen, hempty⟩
      · exact Or.inl (by simp [cancelRecord, State.stateOf, hu])
    · intro u
      by_cases hu : u = r
      · subst u
        simp [cancelRecord, Function.comp_def]
      · simp [cancelRecord, hu]

private theorem Withdrawn.append {runId : RunId} {s : State} (h : Withdrawn runId refs s t)
    (h' : Withdrawn runId refs' t u) : Withdrawn runId (refs ++ refs') s u := by
  refine ⟨h.calls.trans h'.calls, h'.runObjects.trans h.runObjects, h'.records.trans h.records,
    h'.ready.trans h.ready, fun v => (h'.plan v).trans (h.plan v),
    fun v => (h'.dependencies v).trans (h.dependencies v), ?_, ?_,
    fun v => (h'.point v).trans (h.point v)⟩
  · intro v
    rw [h'.demanders v, h.demanders v]
    by_cases hv : v ∈ refs <;> by_cases hv' : v ∈ refs' <;> simp [hv, hv', List.filter_filter]
  · intro v
    rcases h.state v with hsame | ⟨hcancelled, hmem, hopen, hempty⟩
    · rcases h'.state v with hsame' | ⟨hcancelled', hmem', hopen', hempty'⟩
      · exact Or.inl (hsame'.trans hsame)
      · refine Or.inr ⟨hcancelled', List.mem_append_right _ hmem', hsame ▸ hopen', ?_⟩
        rw [h.demanders v] at hempty'
        split_ifs at hempty'
        · simpa [List.filter_filter] using hempty'
        · exact hempty'
    · refine Or.inr ⟨?_, List.mem_append_left _ hmem, hopen, hempty⟩
      rcases h'.state v with hsame' | ⟨hcancelled', -⟩
      · exact hsame'.trans hcancelled
      · exact hcancelled'

theorem withdrawRecords_withdrawn (runId : RunId) (refs : List Ref) (s : State) :
    Withdrawn runId refs s (withdrawRecords s runId refs).1 := by
  induction refs generalizing s with
  | nil =>
    exact ⟨SameCalls.refl s, rfl, rfl, rfl, fun _ => rfl, fun _ => rfl, by simp [withdrawRecords],
      fun _ => Or.inl rfl, fun _ => rfl⟩
  | cons r rest ih => exact (withdrawRecord_withdrawn s runId r).append (ih _)

theorem withdraw_runObjects (s : State) (runId : RunId) (run : RunRef) :
    (withdraw s runId run).1.runObjects =
      Function.update s.runObjects run { s.runObjects run with withdrawn := true } :=
  (withdrawRecords_withdrawn _ _ _).runObjects

theorem withdraw_withdrawn (s : State) (runId : RunId) (run : RunRef) :
    Withdrawn runId (s.runObjects run).joined
      (s.modifyRun run (fun x => { x with withdrawn := true })) (withdraw s runId run).1 := by
  have h := withdrawRecords_withdrawn runId (s.runObjects run).joined
    (s.modifyRun run (fun x => { x with withdrawn := true }))
  simpa [withdraw] using h

end Withdraw

variable {edges : Ref → Ref → Prop} {s' : State}

section Submit

section

variable (s : State) (runId : RunId) (c : ComputationPlan) (hasResult : Bool)
include s runId c hasResult

/-- `_join` answers with a private succeeded record, a fresh attempt that
takes the place in the table, or the attempt already in flight. -/
theorem join_cases :
    (hasResult = true ∧
      join s runId c hasResult =
        (s.nextComputation, allocate s { plan := c, state := .succeeded })) ∨
    (hasResult = false ∧
      (∀ r, s.records.get? c.fingerprint = some r → (s.stateOf r).Terminal) ∧
      join s runId c hasResult =
        (s.nextComputation, (allocate s { plan := c, demanders := [runId] }).setRecords
          (s.records.set c.fingerprint s.nextComputation))) ∨
    (hasResult = false ∧ ∃ r, s.records.get? c.fingerprint = some r ∧
      ¬ (s.stateOf r).Terminal ∧ join s runId c hasResult = (r, addDemander s runId r)) := by
  have hfresh : addDemander ((allocate s { plan := c }).setRecords
      (s.records.set c.fingerprint s.nextComputation)) runId s.nextComputation =
      (allocate s { plan := c, demanders := [runId] }).setRecords
        (s.records.set c.fingerprint s.nextComputation) := by
    simp [addDemander, State.modify, allocate, State.setRecords]
  cases hasResult with
  | true => exact Or.inl ⟨rfl, rfl⟩
  | false =>
    right
    simp only [join, Bool.false_eq_true, ↓reduceIte, hfresh, true_and]
    cases hget : s.records.get? c.fingerprint with
    | none => exact Or.inl ⟨by simp, rfl⟩
    | some r =>
      by_cases hterminal : (s.stateOf r).Terminal
      · exact Or.inl ⟨by simpa using hterminal, by simp [hterminal]⟩
      · exact Or.inr ⟨r, rfl, hterminal, by simp [hterminal]⟩

/-- A join allocates at most one record and leaves the plans of the others. -/
theorem join_keeps :
    s.nextComputation ≤ (join s runId c hasResult).2.nextComputation ∧
    ∀ u < s.nextComputation, (join s runId c hasResult).2.fingerprintOf u = s.fingerprintOf u := by
  rcases join_cases s runId c hasResult with ⟨-, heq⟩ | ⟨-, -, heq⟩ | ⟨-, r, -, -, heq⟩ <;>
    rw [heq]
  · refine ⟨Nat.le_succ _, fun u hu => ?_⟩
    simp [State.fingerprintOf, Nat.ne_of_lt hu]
  · refine ⟨Nat.le_succ _, fun u hu => ?_⟩
    simp [State.fingerprintOf, Nat.ne_of_lt hu]
  · refine ⟨le_rfl, fun u _ => ?_⟩
    by_cases hu : u = r <;> simp [State.fingerprintOf, addDemander, hu]

/-- A join touches only demand, except in the cell it may allocate. -/
theorem join_cell (u : Ref) :
    (∃ demanders, (join s runId c hasResult).2.computations u =
      { s.computations u with demanders := demanders }) ∨
    (u = s.nextComputation ∧ ∃ state demanders, (join s runId c hasResult).2.computations u =
      { plan := c, state := state, demanders := demanders } ∧
      (state = .pending ∨ state = .succeeded)) := by
  rcases join_cases s runId c hasResult with ⟨-, heq⟩ | ⟨-, -, heq⟩ | ⟨-, r, -, -, heq⟩ <;>
    rw [heq]
  · by_cases hu : u = s.nextComputation
    · subst u
      exact Or.inr ⟨rfl, .succeeded, [], by simp, Or.inr rfl⟩
    · exact Or.inl ⟨(s.computations u).demanders, by simp [hu]⟩
  · by_cases hu : u = s.nextComputation
    · subst u
      exact Or.inr ⟨rfl, .pending, [runId], by simp, Or.inl rfl⟩
    · exact Or.inl ⟨(s.computations u).demanders, by simp [hu]⟩
  · by_cases hu : u = r
    · subst u
      exact Or.inl ⟨((addDemander s runId r).computations r).demanders, by simp [addDemander]⟩
    · exact Or.inl ⟨(s.computations u).demanders, by simp [addDemander, hu]⟩

end

/-- Adding edges: only dependency lists change, they only grow, and a new edge
points from the joined record of a computation to that of a dependency. -/
structure Wired (edges : Ref → Ref → Prop) (s s' : State) : Prop where
  calls : SameCalls s s'
  runObjects : s'.runObjects = s.runObjects
  records : s'.records = s.records
  ready : s'.ready = s.ready
  running : s'.running = s.running
  illegal : s'.illegalTransitions = s.illegalTransitions
  computations : ∀ u, ∃ deps, s'.computations u = { s.computations u with dependencies := deps } ∧
    (∀ v ∈ (s.computations u).dependencies, v ∈ deps) ∧
    (∀ v ∈ deps, v ∈ (s.computations u).dependencies ∨ edges u v)

namespace Wired

theorem refl (s : State) : Wired edges s s :=
  ⟨SameCalls.refl s, rfl, rfl, rfl, rfl, rfl, fun _ => ⟨_, rfl, fun _ h => h, fun _ h => Or.inl h⟩⟩

theorem trans {s : State} (h : Wired edges s t) (h' : Wired edges t u) : Wired edges s u := by
  refine ⟨h.calls.trans h'.calls, h'.runObjects.trans h.runObjects,
    h'.records.trans h.records, h'.ready.trans h.ready, h'.running.trans h.running,
    h'.illegal.trans h.illegal, ?_⟩
  intro x
  obtain ⟨deps, heq, hold, hnew⟩ := h.computations x
  obtain ⟨deps', heq', hold', hnew'⟩ := h'.computations x
  rw [heq] at heq' hold' hnew'
  refine ⟨deps', heq', fun v hv => hold' v (hold v hv), ?_⟩
  intro v hv
  rcases hnew' v hv with hv | hv
  · exact hnew v hv
  · exact Or.inr hv

theorem stateOf {s : State} (h : Wired edges s s') (u : Ref) : s'.stateOf u = s.stateOf u := by
  obtain ⟨deps, heq, -, -⟩ := h.computations u
  simp [State.stateOf, heq]

theorem fingerprintOf {s : State} (h : Wired edges s s') (u : Ref) :
    s'.fingerprintOf u = s.fingerprintOf u := by
  obtain ⟨deps, heq, -, -⟩ := h.computations u
  simp [State.fingerprintOf, heq]

end Wired

/-- The edges `submit` wires for a plan whose computations it joined. -/
def PlanEdge (plan : RunPlan) (joined : Dict Fingerprint Ref) (u v : Ref) : Prop :=
  ∃ c ∈ plan.computations, joined.get? c.fingerprint = some u ∧
    ∃ d ∈ c.dependsOn, joined.get? d = some v

theorem wire_wired (s : State) (r : Ref) (joined : Dict Fingerprint Ref)
    (dependsOn : List Fingerprint)
    (hedge : ∀ d ∈ dependsOn, ∀ v, joined.get? d = some v → edges r v) :
    Wired edges s (wire s r joined dependsOn) := by
  have hloop : ∀ (l : List Fingerprint) (s : State),
      (∀ d ∈ l, ∀ v, joined.get? d = some v → edges r v) →
      Wired edges s (l.foldl (wireDependency joined r) s) := by
    intro l
    induction l with
    | nil => exact fun s _ => Wired.refl s
    | cons d rest ih =>
      intro s hl
      simp only [List.foldl_cons]
      refine Wired.trans ?_ (ih _ (fun e he => hl e (List.mem_cons_of_mem _ he)))
      unfold wireDependency
      split
      · exact Wired.refl s
      · rename_i v hv
        split_ifs
        · exact Wired.refl s
        · refine ⟨⟨rfl, rfl, rfl, rfl, rfl, rfl, rfl, rfl, rfl⟩, rfl, rfl, rfl, rfl, rfl, ?_⟩
          intro u
          rw [State.computations_modify_eq]
          split_ifs with hu
          · refine ⟨_, rfl, fun w hw => List.mem_append_left _ hw, ?_⟩
            intro w hw
            rcases mem_snoc.mp hw with hw | rfl
            · exact Or.inl hw
            · subst u
              exact Or.inr (hl d (List.mem_cons_self ..) w hv)
          · exact ⟨_, rfl, fun _ h => h, fun _ h => Or.inl h⟩
  apply hloop
  intro d hd
  exact hedge d ((List.mem_insertionSort _).mp hd)

theorem wirePlan_wired (s : State) (joined : Dict Fingerprint Ref) (plan : RunPlan) :
    Wired (PlanEdge plan joined) s (wirePlan s joined plan) := by
  have hloop : ∀ (f : State → ComputationPlan → State),
      (∀ s, ∀ c ∈ plan.computations, Wired (PlanEdge plan joined) s (f s c)) →
      ∀ (l : List ComputationPlan) (s : State), (∀ c ∈ l, c ∈ plan.computations) →
        Wired (PlanEdge plan joined) s (l.foldl f s) := by
    intro f hf l
    induction l with
    | nil => exact fun s _ => Wired.refl s
    | cons c rest ih =>
      intro s hl
      simp only [List.foldl_cons]
      exact (hf s c (hl c (List.mem_cons_self ..))).trans
        (ih _ (fun e he => hl e (List.mem_cons_of_mem _ he)))
  refine hloop _ ?_ plan.computations s (fun _ h => h)
  intro s c hc
  split
  · rename_i r hr
    refine wire_wired s r joined c.dependsOn ?_
    intro d hd v hv
    exact ⟨c, hc, hr, d, hd, hv⟩
  · exact Wired.refl s

/-- What one turn of a loop makes and no other turn undoes holds after it. -/
theorem foldl_makes {S A : Type*} {f : S → A → S} (Q : S → Prop) {a : A}
    (hmakes : ∀ s, Q (f s a)) (hkeeps : ∀ s b, Q s → Q (f s b)) {l : List A} (h : a ∈ l) (s : S) :
    Q (l.foldl f s) := by
  obtain ⟨before, after, rfl⟩ := List.append_of_mem h
  rw [List.foldl_append, List.foldl_cons]
  generalize f (before.foldl f s) a = t, hmakes (before.foldl f s) = ht
  clear hmakes h
  induction after generalizing t with
  | nil => exact ht
  | cons b rest ih => exact ih (f t b) (hkeeps t b ht)

theorem wireDependency_keeps (joined : Dict Fingerprint Ref) (r : Ref) (s : State)
    (d : Fingerprint) {u v : Ref} (hv : v ∈ (s.computations u).dependencies) :
    v ∈ ((wireDependency joined r s d).computations u).dependencies := by
  have hwired : Wired (fun _ _ => True) s (wireDependency joined r s d) := by
    have hone : Wired (fun _ _ => True) s (wire s r joined [d]) :=
      wire_wired s r joined [d] (fun _ _ _ _ => trivial)
    simpa [wire, sorted] using hone
  obtain ⟨deps, heq, hold, -⟩ := hwired.computations u
  rw [heq]
  exact hold v hv

theorem mem_wireDependency {joined : Dict Fingerprint Ref} {d : Fingerprint} {v : Ref}
    (hv : joined.get? d = some v) (r : Ref) (s : State) :
    v ∈ ((wireDependency joined r s d).computations r).dependencies := by
  simp only [wireDependency, hv]
  split_ifs with hmem
  · exact hmem
  · simp

theorem wire_complete (s : State) (r : Ref) {joined : Dict Fingerprint Ref}
    {dependsOn : List Fingerprint} {d : Fingerprint} {v : Ref} (hd : d ∈ dependsOn)
    (hv : joined.get? d = some v) :
    v ∈ ((wire s r joined dependsOn).computations r).dependencies :=
  foldl_makes (fun t => v ∈ (t.computations r).dependencies) (mem_wireDependency hv r)
    (fun t e ht => wireDependency_keeps joined r t e ht) ((List.mem_insertionSort _).mpr hd) s

/-- Every edge of the plan is wired. -/
theorem wirePlan_complete (s : State) {joined : Dict Fingerprint Ref} {plan : RunPlan} {u v : Ref}
    (h : PlanEdge plan joined u v) :
    v ∈ ((wirePlan s joined plan).computations u).dependencies := by
  obtain ⟨c, hc, hu, d, hd, hv⟩ := h
  refine foldl_makes (fun t => v ∈ (t.computations u).dependencies) ?_ ?_ hc s
  · intro t
    rw [hu]
    exact wire_complete t u hd hv
  · intro t e ht
    split
    · rename_i w hw
      have hwired : Wired (fun _ _ => True) t (wire t w joined e.dependsOn) :=
        wire_wired t w joined e.dependsOn (fun _ _ _ _ => trivial)
      obtain ⟨deps, heq, hold, -⟩ := hwired.computations u
      rw [heq]
      exact hold v ht
    · exact ht

end Submit

section Execute

theorem computations_setPoint (s : State) (r : Ref) (point : ExecutePoint) (u : Ref) :
    (setPoint s r point).computations u =
      if u = r then
        { s.computations u with
          task := (s.computations u).task.map (fun t => { t with point := point }) }
      else s.computations u :=
  State.computations_modify_eq s r
    (fun c => { c with task := c.task.map (fun t => { t with point := point }) }) u

@[simp] theorem stateOf_setPoint (s : State) (r : Ref) (point : ExecutePoint) (u : Ref) :
    (setPoint s r point).stateOf u = s.stateOf u := by
  simp only [State.stateOf, computations_setPoint]
  split_ifs <;> rfl

theorem finish_eq {s : State} (h : transition (s.stateOf r) event = some state) :
    finish s r event = ⟨((setPoint s r .done).setState r state).setRunning
      (s.running.filter (· ≠ r)), true⟩ := by
  have hterminal : ¬ (s.stateOf r).Terminal := by
    intro ht
    rw [transition_eq_none_of_terminal ht] at h
    simp at h
  simp only [finish, stateOf_setPoint, hterminal, ↓reduceIte]
  rw [State.apply_eq (by rw [stateOf_setPoint]; exact h)]
  rfl

theorem finish_terminal {s : State} (h : (s.stateOf r).Terminal) :
    finish s r event = ⟨setPoint s r .done, false⟩ := by
  simp [finish, h]

end Execute

end Grafy.Scheduler
