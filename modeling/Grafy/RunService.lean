import Grafy.Reachability
import Grafy.Scheduler

/-!
One Run from its start to its finish. `start` records the Run, submits its plan
and leaves a watcher behind; the watcher waits for the scheduler and writes the
finish; a cancel withdraws the demand and waits for the watcher, or, when it
finds none, finishes its own copy of the row. The calls run atomically between
their awaits. A transaction commits in one step and its caller resumes in a
later one; every await may raise.
-/
namespace Grafy.RunService

open Scheduler

inductive RunStatus
  | running
  | succeeded
  | failed
  | cancelled
  | interrupted
  deriving DecidableEq

def RunStatus.isActive : RunStatus → Bool
  | .running => true
  | _ => false

/-- What the transitions of a Run write, of the object and of its row. -/
structure Run where
  status : RunStatus
  finishedAt : Option ℕ
  error : Option String
  deriving DecidableEq

def Run.isActive (run : Run) : Bool := run.status.isActive

structure FinishedRun extends Run where
  finished : toRun.isActive = false

def newRun : Run := ⟨.running, none, none⟩

inductive RunTransitionError
  | notFinished
  | alreadyFinished (status : RunStatus)
  deriving DecidableEq

def Run.finish (run : Run) (status : RunStatus) (error : Option String) (stamp : ℕ) :
    Except RunTransitionError FinishedRun :=
  if h : status.isActive then .error .notFinished
  else if run.isActive then .ok ⟨⟨status, some stamp, error⟩, by simpa [Run.isActive] using h⟩
  else .error (.alreadyFinished run.status)

/-- Where the writing of a finish waits: for its transaction to commit, to
resume after it, for `run_finished`, for the publish. -/
inductive Writing
  | saving (run : FinishedRun)
  | saved (run : FinishedRun)
  | announcing
  | publishing

inductive StartPoint
  | planning
  | recording (plan : RunPlan)
  | recorded (plan : RunPlan)
  | submitting (call : ℕ)
  | starting (nothingStale : Bool)
  | writing (point : Writing)
  | ended

inductive WatchPoint
  | absent
  | waiting
  | writing (point : Writing)
  | closing
  | ended

/-- `withdrawing` remembers whether a watcher was found. -/
inductive CancelPoint
  | reading
  | read (copy : Option Run)
  | withdrawing (call : ℕ) (copy : Run) (watched : Bool)
  | joining
  | rereading
  | writing (point : Writing)
  | ended

/-- The object `start` made is shared with the watcher; a cancel has a copy of
the row. `announced` lists what `run_finished` was called with. -/
structure State where
  scheduler : Option Scheduler.State
  row : Option Run
  announced : List Run
  run : Run
  start : StartPoint
  watch : WatchPoint
  watched : Bool
  cancels : List CancelPoint

def initial (scheduler : Option Scheduler.State) : State :=
  ⟨scheduler, none, [], newRun, .planning, .absent, false, []⟩

/-- Each call advances to its next await. `schedules` is anything else the
Project's scheduler does; `built` is another Run's first use of it. -/
inductive Action
  | planned (plan : RunPlan)
  | startAdvances (stamp : ℕ)
  | startRaises
  | watchAdvances (stamp : ℕ)
  | watchRaises
  | cancelCalled
  | cancelAdvances (i : ℕ) (stamp : ℕ)
  | cancelRaises (i : ℕ)
  | built
  | schedules (action : Scheduler.Action)

section Steps

/-- `save` updates the row there is. -/
def save (s : State) (run : FinishedRun) : State := { s with row := s.row.map (fun _ => run.toRun) }

def announce (s : State) (run : FinishedRun) : State :=
  { s with announced := run.toRun :: s.announced }

/-- The end of `_finish` and of `cancel`, up to the next await. -/
def Writing.advance (s : State) : Writing → State × Option Writing
  | .saving run => (save s run, some (.saved run))
  | .saved run => (announce s run, some .announcing)
  | .announcing => (s, some .publishing)
  | .publishing => (s, none)

def statusOf : Scheduler.RunStatus → RunStatus
  | .succeeded => .succeeded
  | .failed => .failed
  | .cancelled => .cancelled

/-- Why a Run did not succeed, in the computations' own words. -/
def runError (result : RunResult) : Option String :=
  if result.status ≠ .failed then none
  else
    let messages := (sorted result.failures.keys).map
      (fun key => (result.failures.get? key).getD "")
    if messages ≠ [] then some ("; ".intercalate messages)
    else
      let stalled := sorted ((result.computations.filter (fun entry =>
        entry.2 ≠ .succeeded)).map Prod.fst)
      some ("computations did not succeed: " ++ ", ".intercalate stalled)

variable (concurrency : ℕ) (store : Results.ResultStore) (runId : RunId)

/-- `submit` is awaited in place: an error it raises is an error of `start`. -/
def afterSubmit (before after : Scheduler.State) (call : ℕ) : StartPoint :=
  if before.rejections.length < after.rejections.length then .ended
  else if (after.submits call).isNone then .starting false
  else .submitting call

def startAdvances (s : State) (stamp : ℕ) : Option State :=
  match s.start with
  | .planning => none
  | .recording plan => some { s with row := some s.run, start := .recorded plan }
  | .recorded plan =>
    if plan.computations.isEmpty then some { s with start := .starting true }
    else
      let before := s.scheduler.getD (Scheduler.initial store)
      (Scheduler.step concurrency before (.submit runId plan)).map (fun after =>
        { s with scheduler := some after, start := afterSubmit before after before.nextSubmit })
  | .submitting call =>
    s.scheduler.bind (fun before =>
      (Scheduler.step concurrency before (.submitResumes call)).map (fun after =>
        { s with scheduler := some after, start := afterSubmit before after call }))
  | .starting true =>
    match s.run.finish .succeeded none stamp with
    | .ok run => some { s with run := run.toRun, start := .writing (.saving run) }
    | .error _ => some { s with start := .ended }
  | .starting false => some { s with start := .ended, watch := .waiting, watched := true }
  | .writing point =>
    let next := point.advance s
    some { next.1 with start := next.2.elim .ended .writing }
  | .ended => none

def startRaises (s : State) : Option State :=
  match s.start with
  | .ended => none
  | .submitting call =>
    s.scheduler.bind (fun before =>
      (Scheduler.step concurrency before (.submitRaises call)).map (fun after =>
        { s with scheduler := some after, start := .ended }))
  | _ => some { s with start := .ended }

def watchAdvances (s : State) (stamp : ℕ) : Option State :=
  match s.watch with
  | .absent => none
  | .waiting =>
    (s.scheduler.bind (fun scheduler => Scheduler.wait scheduler runId)).map (fun result =>
      match s.run.finish (statusOf result.status) (runError result) stamp with
      | .ok run => { s with run := run.toRun, watch := .writing (.saving run) }
      | .error _ => { s with watch := .closing })
  | .writing point =>
    let next := point.advance s
    some { next.1 with watch := next.2.elim .closing .writing }
  | .closing => some { s with watch := .ended, watched := false }
  | .ended => none

def watchRaises (s : State) : Option State :=
  match s.watch with
  | .absent => none
  | .ended => none
  | .closing => some { s with watch := .ended, watched := false }
  | _ => some { s with watch := .closing }

def setCancel (s : State) (i : ℕ) (point : CancelPoint) : State :=
  { s with cancels := s.cancels.set i point }

/-- `cancel` once the demand is withdrawn. -/
def afterWithdrawal (s : State) (i : ℕ) (copy : Run) (watched : Bool) (stamp : ℕ) : State :=
  if watched then setCancel s i .joining
  else
    match copy.finish .cancelled none stamp with
    | .ok run => setCancel s i (.writing (.saving run))
    | .error _ => setCancel s i .ended

def cancelAdvances (s : State) (i stamp : ℕ) : Option State :=
  match s.cancels[i]? with
  | none => none
  | some .reading => some (setCancel s i (.read s.row))
  | some (.read none) => some (setCancel s i .ended)
  | some (.read (some copy)) =>
    if copy.isActive then
      match s.scheduler with
      | none => some (afterWithdrawal s i copy s.watched stamp)
      | some before =>
        (Scheduler.step concurrency before (.cancel runId)).map (fun after =>
          let s := { s with scheduler := some after }
          if after.nextCancel = before.nextCancel then afterWithdrawal s i copy s.watched stamp
          else setCancel s i (.withdrawing before.nextCancel copy s.watched))
    else some (setCancel s i .ended)
  | some (.withdrawing call copy watched) =>
    s.scheduler.bind (fun before =>
      (Scheduler.step concurrency before (.cancelResumes call)).map (fun after =>
        afterWithdrawal { s with scheduler := some after } i copy watched stamp))
  | some .joining =>
    match s.watch with
    | .ended => some (setCancel s i .rereading)
    | _ => none
  | some .rereading => some (setCancel s i .ended)
  | some (.writing point) =>
    let next := point.advance s
    some (setCancel next.1 i (next.2.elim .ended .writing))
  | some .ended => none

/-- The withdrawal itself does not raise. -/
def cancelRaises (s : State) (i : ℕ) : Option State :=
  match s.cancels[i]? with
  | none => none
  | some .ended => none
  | some (.withdrawing _ _ _) => none
  | some _ => some (setCancel s i .ended)

/-- The scheduler's actions that are stretches of this Run's own calls. -/
def owns (s : State) : Scheduler.Action → Bool
  | .submit id _ => id = runId
  | .submitResumes i | .submitRaises i =>
    match s.start with
    | .submitting call => call = i
    | _ => false
  | .cancel id => id = runId
  | .cancelResumes i => s.cancels.any (fun point =>
    match point with
    | .withdrawing call _ _ => call = i
    | _ => false)
  | _ => false

def step (s : State) : Action → Option State
  | .planned plan =>
    match s.start with
    | .planning => some { s with start := .recording plan }
    | _ => none
  | .startAdvances stamp => startAdvances concurrency store runId s stamp
  | .startRaises => startRaises concurrency s
  | .watchAdvances stamp => watchAdvances runId s stamp
  | .watchRaises => watchRaises s
  | .cancelCalled => some { s with cancels := s.cancels ++ [.reading] }
  | .cancelAdvances i stamp => cancelAdvances concurrency runId s i stamp
  | .cancelRaises i => cancelRaises s i
  | .built =>
    match s.scheduler with
    | none => some { s with scheduler := some (Scheduler.initial store) }
    | some _ => none
  | .schedules action =>
    if owns runId s action then none
    else
      s.scheduler.bind (fun before =>
        (Scheduler.step concurrency before action).map (fun after =>
          { s with scheduler := some after }))

end Steps

end Grafy.RunService
