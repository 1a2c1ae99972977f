import Grafy.Lifecycle
import Grafy.Results

/-!
The ready-set scheduler: Runs are demand sets over single-flight computations.
Computation and Run objects live in heaps and are shared by reference, because
the source compares them by identity and keeps them past their dictionary
entries. `submit`, `cancel` and the execution of a computation run atomically
between their awaits; a suspended call is a value that says where it waits.
Each store call is answered in one step and its caller resumes in a later one.
-/
namespace Grafy.Scheduler

open Lifecycle Instances OrderedDict Results

abbrev RunId := String
abbrev Ref := ℕ
abbrev RunRef := ℕ

structure ComputationPlan where
  fingerprint : Fingerprint
  representative : ExpandedInstance
  instances : List InstanceKey
  dependsOn : List Fingerprint
  upstreamFingerprints : Dict InstanceKey Fingerprint
  deriving Inhabited

/-- The computations are a mapping by fingerprint, in insertion order. -/
structure RunPlan where
  targets : List InstanceKey
  computations : List ComputationPlan
  distinct : (computations.map ComputationPlan.fingerprint).Nodup

def RunPlan.fingerprints (plan : RunPlan) : List Fingerprint :=
  plan.computations.map ComputationPlan.fingerprint

inductive RunStatus
  | succeeded
  | failed
  | cancelled
  deriving DecidableEq, Repr

structure RunResult where
  runId : RunId
  status : RunStatus
  computations : Dict Fingerprint ComputationState
  failures : Dict Fingerprint String
  deriving DecidableEq

/-- Where `_execute` waits. A store call is first in flight and then answered;
the record calls walk the plan's instances, `key` being the current one. -/
inductive ExecutePoint
  | runner
  | putResult (outputs : Outputs) (answered : Bool)
  | recordSuccess (key : InstanceKey) (rest : List InstanceKey) (answered : Bool)
  | recordFailure (key : InstanceKey) (rest : List InstanceKey) (answered : Bool)
  | done

structure ExecuteTask where
  point : ExecutePoint
  cancelRequested : Bool

structure Computation where
  plan : ComputationPlan
  state : ComputationState := .pending
  demanders : List RunId := []
  task : Option ExecuteTask := none
  dependencies : List Ref := []
  failure : Option String := none

/-- The plan is not a field of the source's Run: it remembers, for statements
about a Run, which plan was submitted for it. -/
structure Run where
  runId : RunId
  plan : RunPlan
  joined : List Ref := []
  withdrawn : Bool := false
  result : Option RunResult := none

/-- Where `submit` waits: at the store query for a dependency outside the
plan, or at the store query `_join` makes for one computation. -/
inductive SubmitPoint
  | validating (fingerprint dependency : Fingerprint)
      (rest : List (Fingerprint × Fingerprint))
  | joining (run : RunRef) (joined : Dict Fingerprint Ref)
      (computation : ComputationPlan) (rest : List ComputationPlan)

def SubmitPoint.query : SubmitPoint → Fingerprint
  | .validating _ dependency _ => dependency
  | .joining _ _ computation _ => computation.fingerprint

structure SubmitTask where
  runId : RunId
  plan : RunPlan
  point : SubmitPoint
  answer : Option Bool

structure CancelTask where
  run : RunRef
  tasks : List Ref

/-- The two ValueErrors of `submit`. -/
inductive SubmitError
  | alreadySubmitted (runId : RunId)
  | notClosed (fingerprint dependency : Fingerprint)
  deriving DecidableEq

structure State where
  store : ResultStore
  computations : Ref → Computation
  nextComputation : Ref
  runObjects : RunRef → Run
  nextRun : RunRef
  records : Dict Fingerprint Ref
  runs : Dict RunId RunRef
  ready : List Ref
  running : List Ref
  submits : ℕ → Option SubmitTask
  nextSubmit : ℕ
  cancels : ℕ → Option CancelTask
  nextCancel : ℕ
  rejections : List SubmitError
  illegalTransitions : List (ComputationState × ComputationEvent)

/-- Unallocated cells hold a finished object, so that what is said of every
unfinished object needs no bound on the references. -/
def vacantComputation : Computation := { plan := default, state := .cancelled }

def vacantRun : Run :=
  { runId := "", plan := ⟨[], [], List.nodup_nil⟩, withdrawn := true,
    result := some ⟨"", .cancelled, [], []⟩ }

@[simps] def initial (store : ResultStore) : State where
  store := store
  computations := fun _ => vacantComputation
  nextComputation := 0
  runObjects := fun _ => vacantRun
  nextRun := 0
  records := []
  runs := []
  ready := []
  running := []
  submits := fun _ => none
  nextSubmit := 0
  cancels := fun _ => none
  nextCancel := 0
  rejections := []
  illegalTransitions := []

namespace State

def stateOf (s : State) (r : Ref) : ComputationState := (s.computations r).state

def fingerprintOf (s : State) (r : Ref) : Fingerprint := (s.computations r).plan.fingerprint

@[simps] def modify (s : State) (r : Ref) (f : Computation → Computation) : State :=
  { s with computations := Function.update s.computations r (f (s.computations r)) }

@[simps] def modifyRun (s : State) (run : RunRef) (f : Run → Run) : State :=
  { s with runObjects := Function.update s.runObjects run (f (s.runObjects run)) }

@[simps] def setStore (s : State) (store : ResultStore) : State := { s with store := store }

@[simps] def setRecords (s : State) (records : Dict Fingerprint Ref) : State :=
  { s with records := records }

@[simps] def setReady (s : State) (ready : List Ref) : State := { s with ready := ready }

@[simps] def setRunning (s : State) (running : List Ref) : State := { s with running := running }

@[simps] def reject (s : State) (error : SubmitError) : State :=
  { s with rejections := s.rejections ++ [error] }

@[simps] def setSubmit (s : State) (i : ℕ) (task : Option SubmitTask) : State :=
  { s with submits := Function.update s.submits i task }

@[simps] def setCancel (s : State) (i : ℕ) (task : Option CancelTask) : State :=
  { s with cancels := Function.update s.cancels i task }

@[simps] def illegal (s : State) (state : ComputationState) (event : ComputationEvent) : State :=
  { s with illegalTransitions := s.illegalTransitions ++ [(state, event)] }

/-- A pair outside the table raises in the source; here it is remembered and
changes nothing. No reachable state remembers one. -/
def apply (s : State) (r : Ref) (event : ComputationEvent) : State :=
  match transition (s.stateOf r) event with
  | some state => s.modify r (fun c => { c with state := state })
  | none => s.illegal (s.stateOf r) event

end State

def sorted (fingerprints : List Fingerprint) : List Fingerprint :=
  fingerprints.insertionSort (· ≤ ·)

def failedStates : List ComputationState := [.failed, .skipped]

def unhealthyStates : List ComputationState := failedStates ++ [.cancelled]

def runResult (s : State) (run : Run) : RunResult :=
  let states := run.joined.foldl
    (fun states r => Dict.set states (s.fingerprintOf r) (s.stateOf r)) []
  let failures := (run.joined.filter (fun r => s.stateOf r = .failed)).foldl
    (fun failures r =>
      Dict.set failures (s.fingerprintOf r) ((s.computations r).failure.getD "")) []
  let status :=
    if run.withdrawn then .cancelled
    else if states.values.any (· ∈ unhealthyStates) then .failed
    else .succeeded
  ⟨run.runId, status, states, failures⟩

section Dispatch

/-- `_finish_run` for one joined record: drop the demand, and forget the
attempt once nobody demands it. -/
def releaseRecord (s : State) (runId : RunId) (r : Ref) : State :=
  let s := s.modify r (fun c => { c with demanders := c.demanders.filter (· ≠ runId) })
  if (s.computations r).demanders = [] ∧ s.records.get? (s.fingerprintOf r) = some r then
    s.setRecords (s.records.erase (s.fingerprintOf r))
  else s

def finishRun (s : State) (run : RunRef) : State :=
  let object := s.runObjects run
  let s := s.modifyRun run (fun x => { x with result := some (runResult s object) })
  let s := object.joined.foldl (fun s r => releaseRecord s object.runId r) s
  s.modifyRun run (fun x => { x with joined := [] })

/-- One iteration of the sweep over the records, with whether it decided. -/
def resolveRecord (s : State) (r : Ref) : State × Bool :=
  if s.stateOf r ≠ .pending then (s, false)
  else
    let upstream := (s.computations r).dependencies.map s.stateOf
    if upstream.any (· ∈ failedStates) then (s.apply r .skip, true)
    else if upstream.any (· = .cancelled) then (s.apply r .cancel, true)
    else if upstream.all (· = .succeeded) then
      let s := s.apply r .dependenciesSatisfied
      (s.setReady (s.ready ++ [r]), true)
    else (s, false)

def resolveSweep (s : State) : List Ref → State × Bool
  | [] => (s, false)
  | r :: rest =>
    let first := resolveRecord s r
    let remaining := resolveSweep first.1 rest
    (remaining.1, first.2 || remaining.2)

/-- Sweeps until nothing changes. A sweep that changes something decides a
pending record, so one more sweep than there are records is always enough. -/
def resolveSweeps (s : State) : ℕ → State
  | 0 => s
  | fuel + 1 =>
    let swept := resolveSweep s s.records.values
    if swept.2 then resolveSweeps swept.1 fuel else swept.1

def resolvePending (s : State) : State := resolveSweeps s (s.records.length + 1)

variable (concurrency : ℕ)

def startRecord (s : State) (r : Ref) : State :=
  let s := s.apply r .start
  let s := s.setRunning (if r ∈ s.running then s.running else s.running ++ [r])
  s.modify r (fun c => { c with task := some ⟨.runner, false⟩ })

def startQueue (s : State) : List Ref → State
  | [] => s.setReady []
  | r :: rest =>
    if s.running.length < concurrency then
      if s.stateOf r ≠ .ready then startQueue s rest
      else startQueue (startRecord s r) rest
    else s.setReady (r :: rest)

def startReady (s : State) : State := startQueue concurrency s s.ready

def completeRun (s : State) (run : RunRef) : State :=
  if (s.runObjects run).result.isSome then s
  else if (s.runObjects run).joined.any (fun r => ¬ (s.stateOf r).Terminal) then s
  else finishRun s run

def completeRuns (s : State) : State := s.runs.values.foldl completeRun s

def dispatch (s : State) : State := completeRuns (startReady concurrency (resolvePending s))

end Dispatch

/-- What an atomic stretch did up to the `_dispatch` call that ends it, if it
has one. -/
structure Prepared where
  state : State
  dispatches : Bool

section Submit

/-- The dependencies `submit` has to look up in the store, with the
computation that names them. -/
def openDependencies (plan : RunPlan) : List (Fingerprint × Fingerprint) :=
  plan.computations.flatMap (fun c =>
    ((sorted c.dependsOn).filter (· ∉ plan.fingerprints)).map (fun d => (c.fingerprint, d)))

def wireDependency (joined : Dict Fingerprint Ref) (r : Ref) (s : State) (d : Fingerprint) :
    State :=
  match joined.get? d with
  | none => s
  | some upstream =>
    if upstream ∈ (s.computations r).dependencies then s
    else s.modify r (fun c => { c with dependencies := c.dependencies ++ [upstream] })

def wire (s : State) (r : Ref) (joined : Dict Fingerprint Ref)
    (dependsOn : List Fingerprint) : State :=
  (sorted dependsOn).foldl (wireDependency joined r) s

def wirePlan (s : State) (joined : Dict Fingerprint Ref) (plan : RunPlan) : State :=
  plan.computations.foldl (fun s c =>
    match joined.get? c.fingerprint with
    | some r => wire s r joined c.dependsOn
    | none => s) s

@[simps] def allocate (s : State) (c : Computation) : State :=
  { s with
    computations := Function.update s.computations s.nextComputation c
    nextComputation := s.nextComputation + 1 }

def addDemander (s : State) (runId : RunId) (r : Ref) : State :=
  s.modify r (fun c =>
    { c with demanders := if runId ∈ c.demanders then c.demanders else c.demanders ++ [runId] })

/-- `_join` after its store query: the record joined and the new state. -/
def join (s : State) (runId : RunId) (computation : ComputationPlan) (hasResult : Bool) :
    Ref × State :=
  if hasResult then
    (s.nextComputation, allocate s { plan := computation, state := .succeeded })
  else
    let fresh := (allocate s { plan := computation }).setRecords
      (s.records.set computation.fingerprint s.nextComputation)
    match s.records.get? computation.fingerprint with
    | none => (s.nextComputation, addDemander fresh runId s.nextComputation)
    | some r =>
      if (s.stateOf r).Terminal then
        (s.nextComputation, addDemander fresh runId s.nextComputation)
      else (r, addDemander s runId r)

@[simps] def allocateRun (s : State) (runId : RunId) (plan : RunPlan) : State :=
  { s with
    runObjects := Function.update s.runObjects s.nextRun { runId := runId, plan := plan }
    nextRun := s.nextRun + 1
    runs := s.runs.set runId s.nextRun }

/-- Registers the Run and suspends at the first join; an empty plan has none. -/
def register (s : State) (i : ℕ) (runId : RunId) (plan : RunPlan) : Prepared :=
  match plan.computations with
  | [] => ⟨(allocateRun s runId plan).setSubmit i none, true⟩
  | c :: rest =>
    ⟨(allocateRun s runId plan).setSubmit i
      (some ⟨runId, plan, .joining s.nextRun [] c rest, none⟩), false⟩

def validate (s : State) (i : ℕ) (runId : RunId) (plan : RunPlan) :
    List (Fingerprint × Fingerprint) → Prepared
  | [] => register s i runId plan
  | (f, d) :: rest => ⟨s.setSubmit i (some ⟨runId, plan, .validating f d rest, none⟩), false⟩

@[simps] def openSubmit (s : State) : State := { s with nextSubmit := s.nextSubmit + 1 }

def submit (s : State) (runId : RunId) (plan : RunPlan) : Prepared :=
  if (s.runs.get? runId).isSome then
    ⟨s.reject (.alreadySubmitted runId), false⟩
  else
    validate (openSubmit s) s.nextSubmit runId plan (openDependencies plan)

def joinNext (s : State) (i : ℕ) (task : SubmitTask) (run : RunRef)
    (joined : Dict Fingerprint Ref) (computation : ComputationPlan)
    (rest : List ComputationPlan) (hasResult : Bool) : Prepared :=
  let joining := join s task.runId computation hasResult
  let joined := joined.set computation.fingerprint joining.1
  let s := joining.2.modifyRun run (fun x => { x with joined := x.joined ++ [joining.1] })
  match rest with
  | [] => ⟨(wirePlan s joined task.plan).setSubmit i none, true⟩
  | c :: rest =>
    ⟨s.setSubmit i (some { task with point := .joining run joined c rest, answer := none }), false⟩

def submitResume (s : State) (i : ℕ) (task : SubmitTask) (hasResult : Bool) : Prepared :=
  match task.point with
  | .validating f d rest =>
    if hasResult then validate s i task.runId task.plan rest
    else ⟨(s.setSubmit i none).reject (.notClosed f d), false⟩
  | .joining run joined computation rest =>
    joinNext s i task run joined computation rest hasResult

end Submit

section Cancel

/-- `cancel` on one joined record: the demand goes, and with the last demand
the computation. The flag says whether its task has to be awaited. -/
def withdrawRecord (s : State) (runId : RunId) (r : Ref) : State × Bool :=
  let s := s.modify r (fun c => { c with demanders := c.demanders.filter (· ≠ runId) })
  if (s.stateOf r).Terminal ∨ (s.computations r).demanders ≠ [] then (s, false)
  else
    let s := s.apply r .cancel
    let s := s.setRunning (s.running.filter (· ≠ r))
    (s.modify r (fun c =>
      { c with task := c.task.map (fun t => { t with cancelRequested := true }) }),
      (s.computations r).task.isSome)

def withdrawRecords (s : State) (runId : RunId) : List Ref → State × List Ref
  | [] => (s, [])
  | r :: rest =>
    let first := withdrawRecord s runId r
    let remaining := withdrawRecords first.1 runId rest
    (remaining.1, if first.2 then r :: remaining.2 else remaining.2)

def withdraw (s : State) (runId : RunId) (run : RunRef) : State × List Ref :=
  let s := s.modifyRun run (fun x => { x with withdrawn := true })
  withdrawRecords s runId (s.runObjects run).joined

@[simps] def openCancel (s : State) : State := { s with nextCancel := s.nextCancel + 1 }

def cancel (s : State) (runId : RunId) : Prepared :=
  match s.runs.get? runId with
  | none => ⟨s, false⟩
  | some run =>
    if (s.runObjects run).result.isSome then ⟨s, false⟩
    else
      let withdrawn := withdraw s runId run
      match withdrawn.2 with
      | [] => ⟨finishRun withdrawn.1 run, true⟩
      | tasks =>
        ⟨(openCancel withdrawn.1).setCancel s.nextCancel (some ⟨run, tasks⟩), false⟩

def taskDone (s : State) (r : Ref) : Bool :=
  match (s.computations r).task with
  | some ⟨.done, _⟩ => true
  | _ => false

end Cancel

section Execute

/-- An exception as `_execute` sees it. -/
structure Raised where
  text : String
  className : String

def setPoint (s : State) (r : Ref) (point : ExecutePoint) : State :=
  s.modify r (fun c => { c with task := c.task.map (fun t => { t with point := point }) })

/-- `_finish` up to its dispatch, and the end of the task. -/
def finish (s : State) (r : Ref) (event : ComputationEvent) : Prepared :=
  let s := setPoint s r .done
  if (s.stateOf r).Terminal then ⟨s, false⟩
  else
    let s := s.apply r event
    ⟨s.setRunning (s.running.filter (· ≠ r)), true⟩

def recordSuccesses (s : State) (r : Ref) : List InstanceKey → Prepared
  | [] => finish s r .succeed
  | key :: rest => ⟨setPoint s r (.recordSuccess key rest false), false⟩

def recordFailures (s : State) (r : Ref) : List InstanceKey → Prepared
  | [] => finish s r .fail
  | key :: rest => ⟨setPoint s r (.recordFailure key rest false), false⟩

/-- The `except Exception` branch. -/
def executeFails (s : State) (r : Ref) (exc : Raised) : Prepared :=
  let failure := if exc.text = "" then exc.className else exc.text
  let s := s.modify r (fun c => { c with failure := some failure })
  recordFailures s r (s.computations r).plan.instances

end Execute

/-- One atomic stretch of one of the coroutines, or one answer of the store.
`submitRaises` and `taskRaises` are store calls that raise; `appended` is
another writer of the same append-only store. -/
inductive Action
  | submit (runId : RunId) (plan : RunPlan)
  | submitAnswered (i : ℕ)
  | submitResumes (i : ℕ)
  | submitRaises (i : ℕ)
  | cancel (runId : RunId)
  | cancelResumes (i : ℕ)
  | runnerReturns (r : Ref) (outputs : Outputs)
  | runnerRaises (r : Ref) (exc : Raised)
  | taskAnswered (r : Ref)
  | taskResumes (r : Ref)
  | taskRaises (r : Ref) (exc : Raised)
  | taskUnwinds (r : Ref)
  | appended (fingerprint : Fingerprint) (outputs : Outputs)

section Steps

/-- The store performs the call a computation waits for. -/
def taskAnswered (s : State) (r : Ref) : Option State :=
  let fingerprint := s.fingerprintOf r
  match (s.computations r).task.map ExecuteTask.point with
  | some (.putResult outputs false) =>
    some (setPoint (s.setStore (s.store.putResult fingerprint outputs)) r
      (.putResult outputs true))
  | some (.recordSuccess key rest false) =>
    (s.store.recordSuccess key fingerprint).map (fun store =>
      setPoint (s.setStore store) r (.recordSuccess key rest true))
  | some (.recordFailure key rest false) =>
    let failure := ⟨fingerprint, (s.computations r).failure.getD ""⟩
    some (setPoint (s.setStore (s.store.recordFailure key failure)) r
      (.recordFailure key rest true))
  | _ => none

def taskResumes (s : State) (r : Ref) : Option Prepared :=
  match (s.computations r).task.map ExecuteTask.point with
  | some (.putResult _ true) => some (recordSuccesses s r (s.computations r).plan.instances)
  | some (.recordSuccess _ rest true) => some (recordSuccesses s r rest)
  | some (.recordFailure _ rest true) => some (recordFailures s r rest)
  | _ => none

/-- A raising store call fails the computation, except while the failure is
being recorded, where it only cuts the recording short. -/
def taskRaises (s : State) (r : Ref) (exc : Raised) : Option Prepared :=
  match (s.computations r).task.map ExecuteTask.point with
  | some (.putResult _ _) => some (executeFails s r exc)
  | some (.recordSuccess _ _ _) => some (executeFails s r exc)
  | some (.recordFailure _ _ _) => some (finish s r .fail)
  | _ => none

def awaitsRunner (s : State) (r : Ref) : Bool :=
  match (s.computations r).task.map ExecuteTask.point with
  | some .runner => true
  | _ => false

def cancelRequested (s : State) (r : Ref) : Bool :=
  match (s.computations r).task with
  | some ⟨.done, _⟩ => false
  | some ⟨_, requested⟩ => requested
  | none => false

/-- The step up to its `_dispatch`; `none` where the action is not enabled. -/
def prepare (s : State) : Action → Option Prepared
  | .submit runId plan => some (submit s runId plan)
  | .submitAnswered i =>
    match s.submits i with
    | some ⟨runId, plan, point, none⟩ =>
      some ⟨s.setSubmit i (some ⟨runId, plan, point,
        some (s.store.getResult point.query).isSome⟩), false⟩
    | _ => none
  | .submitResumes i =>
    match s.submits i with
    | some ⟨runId, plan, point, some hasResult⟩ =>
      some (submitResume s i ⟨runId, plan, point, some hasResult⟩ hasResult)
    | _ => none
  | .submitRaises i =>
    match s.submits i with
    | some _ => some ⟨s.setSubmit i none, false⟩
    | none => none
  | .cancel runId => some (cancel s runId)
  | .cancelResumes i =>
    match s.cancels i with
    | some task =>
      if task.tasks.all (taskDone s) then
        some ⟨finishRun (s.setCancel i none) task.run, true⟩
      else none
    | none => none
  | .runnerReturns r outputs =>
    if awaitsRunner s r then some ⟨setPoint s r (.putResult outputs false), false⟩ else none
  | .runnerRaises r exc => if awaitsRunner s r then some (executeFails s r exc) else none
  | .taskAnswered r => (taskAnswered s r).map (fun s => ⟨s, false⟩)
  | .taskResumes r => taskResumes s r
  | .taskRaises r exc => taskRaises s r exc
  | .taskUnwinds r => if cancelRequested s r then some ⟨setPoint s r .done, false⟩ else none
  | .appended fingerprint outputs =>
    some ⟨s.setStore (s.store.putResult fingerprint outputs), false⟩

def step (concurrency : ℕ) (s : State) (action : Action) : Option State :=
  (prepare s action).map (fun p =>
    if p.dispatches then dispatch concurrency p.state else p.state)

end Steps

/-- What `wait` returns for a Run that has been answered. -/
def wait (s : State) (runId : RunId) : Option RunResult :=
  (s.runs.get? runId).bind (fun run => (s.runObjects run).result)

end Grafy.Scheduler
