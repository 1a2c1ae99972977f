import Grafy.AgentTransactions

/-!
The Agent turn runtime: API processes that share one database. A send reads the
conversation, its receipt and `_active`, writes the receipt with the user
message, and only then starts a task for it; a cancel asks a live task to stop
or closes a receipt nobody is behind; recovery closes every receipt still
running; a shutdown stops the tasks and insists after its deadline. Between its
awaits any call, task or process may take the next step. The writes of a
transaction are one step, which commits or has no effect. The reads before a
send's first write are steps of their own: SQLite elides the row lock they are
made under, and there the conditional append decides. A process that crashes
takes its calls, its tasks and its memory with it.
-/
namespace Grafy.Agents

/-- What a caller asks of `AgentService`. -/
inductive Request
  | send (conversation : ℕ) (clientTurnId text : String) (scope : Option Scope)
  | cancel (conversation : ℕ) (turn : Option ℕ) (scope : Option Scope)
  | recover
  | close
deriving DecidableEq

/-- Where a call stands: at one of its awaits, or over. -/
inductive Phase
  | sendBegun
  | sendLocked (found : Conversation)
  | sendUnseen (found : Conversation)
  | sendFree (found : Conversation)
  | sendReplay
  | sendLost
  | sendLostBusy
  | sendAdmitted (turn : Receipt)
  | cancelBegun
  | cancelLatest
  | cancelWaiting (task : ℕ) (turn : Receipt)
  | cancelOrphan (turn : Receipt)
  | cancelRaced (turn : Receipt)
  | recoverBegun
  | recovering (rest : List Receipt)
  | closing (tasks : List ℕ)
  | returned (turn : Option Receipt)
  | raised (error : AgentError)
  | gone
deriving DecidableEq

/-- `permitted`: whether the caller's access has START_RUN, which a send and a cancel
require. -/
structure Call where
  process : ℕ
  permitted : Bool
  request : Request
  phase : Phase
deriving DecidableEq

inductive TaskPhase
  | streaming
  | ending (outcome : Outcome) (text : String) (detail : Option String)
  | finished
  | gone
deriving DecidableEq

/-- A live turn: the receipt it was admitted with, the ending a stop asked for, and
whether its done callback has run. -/
structure Task where
  process : ℕ
  turn : Receipt
  stop : Option Outcome
  phase : TaskPhase
  forgotten : Bool
deriving DecidableEq

/-- One process's memory: the task of each conversation in `_active`, whether it is
stopping, and the turns it has admitted. -/
structure Process where
  active : ℕ → Option ℕ
  stopping : Bool
  admitted : List ℕ

structure System where
  db : Database
  procs : ℕ → Process
  calls : List Call
  tasks : List Task

/-- How a stream ends, with the text it leaves. -/
inductive StreamEnd
  | completed (text : String)
  | stopped (text : String)
  | failed (text detail : String)

inductive Act
  | startConversation (id : ℕ) (scope : Scope)
  | fork (id fork atSequence : ℕ)
  | call (process : ℕ) (permitted : Bool) (request : Request)
  | lockConversation (call : ℕ)
  | readReceipt (call : ℕ)
  | checkActive (call : ℕ)
  | admitTurn (call turn : ℕ) (refused : Bool)
  | lookAfterLoss (call : ℕ)
  | nameRunning (call : ℕ)
  | replay (call : ℕ)
  | start (call : ℕ) (built : Bool)
  | cancelRead (call : ℕ)
  | cancelLatest (call : ℕ)
  | cancelDone (call : ℕ)
  | closeOrphan (call : ℕ)
  | cancelRaced (call : ℕ)
  | recoverRead (call : ℕ)
  | recoverNext (call : ℕ)
  | closeDone (call : ℕ)
  | streamEnds (task : ℕ) (how : StreamEnd)
  | record (task : ℕ)
  | kill (task : ℕ) (text : String)
  | forget (task : ℕ)
  | crash (process : ℕ)

def interruptedDetail : String := "the API owner restarted while this turn was running"

def orphanedCancelDetail : String := "cancelled with no turn running in this API owner"

def freshProcess : Process := ⟨fun _ => none, false, []⟩

def initialSystem : System := ⟨Database.empty, fun _ => freshProcess, [], []⟩

section Steps

variable (digest : String → String)

def Receipt.matchesRequest (r : Receipt) (text : String) : Prop := r.requestDigest = digest text

instance (r : Receipt) (text : String) : Decidable (r.matchesRequest digest text) :=
  inferInstanceAs (Decidable (_ = _))

def System.setCall (s : System) (i : ℕ) (phase : Phase) : System :=
  { s with calls := s.calls.modify i (fun call => { call with phase }) }

def System.setTask (s : System) (j : ℕ) (phase : TaskPhase) : System :=
  { s with tasks := s.tasks.modify j (fun task => { task with phase }) }

def System.setProc (s : System) (p : ℕ) (process : Process) : System :=
  { s with procs := fun q => if q = p then process else s.procs q }

def scopeCovers (scope : Option Scope) (found : Scope) : Bool := scope.all (fun sc => sc = found)

/-- The ending a stop or a failure gives a stream. -/
def endingOf (task : Task) : StreamEnd → TaskPhase
  | .completed text => .ending .completed text none
  | .stopped text =>
    let outcome := task.stop.getD .cancelled
    .ending outcome text (if outcome = .interrupted then some interruptedDetail else none)
  | .failed text detail =>
    .ending .failed text (some (String.ofList (detail.toList.take maxDetailChars)))

/-- `_request_stop` on a task: the first request names the ending. -/
def System.requestStop (s : System) (j : ℕ) (outcome : Outcome) : System :=
  { s with
    tasks := s.tasks.modify j (fun task => { task with stop := some (task.stop.getD outcome) }) }

/-- The tasks a process has in `_active`. -/
def System.owned (s : System) (p : ℕ) : List ℕ :=
  (List.range s.tasks.length).filter (fun j =>
    (s.tasks[j]?).any (fun task => (s.procs p).active task.turn.conversation = some j))

/-- A new call, up to its first await. -/
def beginCall (s : System) (p : ℕ) (permitted : Bool) (request : Request) : System :=
  match request with
  | .send _ _ text _ =>
    let phase : Phase :=
      if permitted = false then .raised .forbidden
      else if Texts.strip text = "" then .raised .blankMessage
      else if (s.procs p).stopping then .raised .stopping
      else .sendBegun
    { s with calls := s.calls ++ [⟨p, permitted, request, phase⟩] }
  | .cancel _ _ _ =>
    let phase : Phase := if permitted = false then .raised .forbidden else .cancelBegun
    { s with calls := s.calls ++ [⟨p, permitted, request, phase⟩] }
  | .recover => { s with calls := s.calls ++ [⟨p, permitted, request, .recoverBegun⟩] }
  | .close =>
    let stopped := (s.owned p).foldl (fun next j => next.requestStop j .interrupted) s
    { stopped.setProc p { s.procs p with active := fun _ => none, stopping := true } with
      calls := s.calls ++ [⟨p, permitted, request, .closing (s.owned p)⟩] }

/-- `_admit` up to the scope of the conversation it reads. -/
def lockConversation (s : System) (conversation : ℕ) (scope : Option Scope) : Phase :=
  match s.db.conversation? conversation with
  | none => .raised .notFound
  | some found =>
    if scopeCovers scope found.scope = false then .raised .notFound else .sendLocked found

def readReceipt (s : System) (found : Conversation) (clientTurnId : String) : Phase :=
  if (s.db.receiptByClient? found.id clientTurnId).isSome then .sendReplay else .sendUnseen found

def checkActive (s : System) (p : ℕ) (found : Conversation) : Phase :=
  match (s.procs p).active found.id with
  | some j => .raised (.busy ((s.tasks[j]?).map (fun task => task.turn.id)))
  | none => .sendFree found

/-- The rest of `_admit`: what it decides over the conversation it read, and the rows it
commits. `refused` stands for a missing head, a removed Agent or a model that does not
resolve. -/
def admission (s : System) (found : Conversation) (clientTurnId text : String) (turn : ℕ)
    (refused : Bool) : Database × Phase :=
  if refused then (s.db, .raised .refused)
  else
    match admitTurn digest s.db found turn clientTurnId text with
    | .ok (written, receipt) => (written, .sendAdmitted receipt)
    | .error .alreadyAdmitted => (s.db, .sendLost)
    | .error (.busy _) => (s.db, .sendLost)
    | .error e => (s.db, .raised e)

/-- The receipt `cancel` finds first: the one named, or what the conversation runs. -/
def System.cancelTarget (s : System) (p conversation : ℕ) : Option ℕ → Option Receipt
  | some id => s.db.receipt? id
  | none =>
    match (s.procs p).active conversation with
    | some j => (s.tasks[j]?).map Task.turn
    | none => s.db.running? conversation

/-- What `cancel` does with the receipt it found. -/
def cancelDecide (s : System) (i p conversation : ℕ) (scope : Option Scope) (turn : Receipt) :
    System :=
  if turn.conversation ≠ conversation then s.setCall i (.raised .notFound)
  else if scopeCovers scope turn.scope = false then s.setCall i (.raised .notFound)
  else if turn.status ≠ .running then s.setCall i (.returned (some turn))
  else
    match (s.procs p).active turn.conversation with
    | some j =>
      if (s.tasks[j]?).any (fun task => task.turn.id = turn.id) then
        (s.setCall i (.cancelWaiting j turn)).requestStop j .cancelled
      else s.setCall i (.cancelOrphan turn)
    | none => s.setCall i (.cancelOrphan turn)

/-- A receipt closed with nobody behind it, and where its call goes on. -/
def orphanClosed (s : System) (i : ℕ) (turn : Receipt) (outcome : Outcome) (detail : String)
    (claimed raced : Phase) : System :=
  match closeOrphan s.db turn outcome (some detail) with
  | .ok (some written) => { s.setCall i claimed with db := written }
  | .ok none => s.setCall i raced
  | .error e => s.setCall i (.raised e)

/-- A shutdown waits for the task. -/
def Phase.awaits : Phase → ℕ → Bool
  | .closing tasks, j => j ∈ tasks
  | _, _ => false

def Phase.isOver : Phase → Bool
  | .returned _ => true
  | .raised _ => true
  | .gone => true
  | _ => false

/-- A send whose receipt is committed. -/
def System.admitted (s : System) (i p : ℕ) (written : Database) (receipt : Receipt) : System :=
  { (s.setCall i (.sendAdmitted receipt)).setProc p
      { s.procs p with admitted := (s.procs p).admitted ++ [receipt.id] } with
    db := written }

/-- `_start`: the entry in `_active` and its task; the send returns. -/
def System.started (s : System) (i p : ℕ) (turn : Receipt) : System :=
  { (s.setCall i (.returned (some turn))).setProc p
      { s.procs p with
        active := fun c =>
          if c = turn.conversation then some s.tasks.length else (s.procs p).active c } with
    tasks := s.tasks ++ [⟨p, turn, none, .streaming, false⟩] }

/-- One step of a call that waits at one of its awaits. -/
def stepCall (s : System) (i : ℕ) (call : Call) : Act → Option System
  | .lockConversation _ =>
    match call.request, call.phase with
    | .send conversation _ _ scope, .sendBegun =>
      some (s.setCall i (lockConversation s conversation scope))
    | _, _ => none
  | .readReceipt _ =>
    match call.request, call.phase with
    | .send _ clientTurnId _ _, .sendLocked found =>
      some (s.setCall i (readReceipt s found clientTurnId))
    | _, _ => none
  | .checkActive _ =>
    match call.request, call.phase with
    | .send _ _ _ _, .sendUnseen found =>
      some (s.setCall i (checkActive s call.process found))
    | _, _ => none
  | .admitTurn _ turn refused =>
    match call.request, call.phase with
    | .send _ clientTurnId text _, .sendFree found =>
      match admission digest s found clientTurnId text turn refused with
      | (written, .sendAdmitted receipt) => some (s.admitted i call.process written receipt)
      | (_, phase) => some (s.setCall i phase)
    | _, _ => none
  | .lookAfterLoss _ =>
    match call.request, call.phase with
    | .send conversation clientTurnId text _, .sendLost =>
      match s.db.receiptByClient? conversation clientTurnId with
      | none => some (s.setCall i .sendLostBusy)
      | some raced =>
        if raced.matchesRequest digest text then some (s.setCall i .sendReplay)
        else some (s.setCall i (.raised (.conflict raced.id)))
    | _, _ => none
  | .nameRunning _ =>
    match call.request, call.phase with
    | .send conversation _ _ _, .sendLostBusy =>
      match (s.procs call.process).active conversation with
      | some j =>
        some (s.setCall i (.raised (.busy ((s.tasks[j]?).map (fun task => task.turn.id)))))
      | none =>
        some (s.setCall i (.raised (.busy ((s.db.running? conversation).map Receipt.id))))
    | _, _ => none
  | .replay _ =>
    match call.request, call.phase with
    | .send conversation clientTurnId text _, .sendReplay =>
      match s.db.receiptByClient? conversation clientTurnId with
      | none => some (s.setCall i (.raised .notFound))
      | some already =>
        if already.matchesRequest digest text then some (s.setCall i (.returned (some already)))
        else some (s.setCall i (.raised (.conflict already.id)))
    | _, _ => none
  | .start _ built =>
    match call.phase with
    | .sendAdmitted turn =>
      if built then some (s.started i call.process turn)
      else some (s.setCall i (.raised .modelFactory))
    | _ => none
  | .cancelRead _ =>
    match call.request, call.phase with
    | .cancel conversation turn scope, .cancelBegun =>
      match s.cancelTarget call.process conversation turn with
      | some turn => some (cancelDecide s i call.process conversation scope turn)
      | none => some (s.setCall i .cancelLatest)
    | _, _ => none
  | .cancelLatest _ =>
    match call.request, call.phase with
    | .cancel conversation _ scope, .cancelLatest =>
      match s.db.latest? conversation with
      | some turn => some (cancelDecide s i call.process conversation scope turn)
      | none => some (s.setCall i (.raised .notFound))
    | _, _ => none
  | .cancelDone _ =>
    match call.phase with
    | .cancelWaiting j turn =>
      if (s.tasks[j]?).any Task.forgotten then
        some (s.setCall i (.returned (some ((s.db.receipt? turn.id).getD turn))))
      else none
    | _ => none
  | .closeOrphan _ =>
    match call.phase with
    | .cancelOrphan turn =>
      some (orphanClosed s i turn .cancelled orphanedCancelDetail
        (.returned (some (turn.ended .cancelled (some orphanedCancelDetail)))) (.cancelRaced turn))
    | _ => none
  | .cancelRaced _ =>
    match call.phase with
    | .cancelRaced turn => some (s.setCall i (.returned (some ((s.db.receipt? turn.id).getD turn))))
    | _ => none
  | .recoverRead _ =>
    match call.phase with
    | .recoverBegun => some (s.setCall i (.recovering s.db.listRunning))
    | _ => none
  | .recoverNext _ =>
    match call.phase with
    | .recovering [] => some (s.setCall i (.returned none))
    | .recovering (turn :: rest) =>
      some (orphanClosed s i turn .interrupted interruptedDetail (.recovering rest)
        (.recovering rest))
    | _ => none
  | .closeDone _ =>
    match call.phase with
    | .closing tasks =>
      if tasks.all (fun j => (s.tasks[j]?).any (fun task => task.phase = .finished)) then
        some (s.setCall i (.returned none))
      else none
    | _ => none
  | _ => none

/-- `_forget`: the entry leaves `_active` if it is still the conversation's. -/
def System.forgotten (s : System) (j : ℕ) (task : Task) : System :=
  { s.setProc task.process
      { s.procs task.process with
        active := fun c =>
          if c = task.turn.conversation ∧ (s.procs task.process).active c = some j then none
          else (s.procs task.process).active c } with
    tasks := s.tasks.modify j (fun t => { t with forgotten := true }) }

/-- One step of a turn's task. A kill is the cancellation a shutdown sends after its
deadline: it ends a stream, and takes an ending that is being written with it. -/
def stepTask (s : System) (j : ℕ) (task : Task) : Act → Option System
  | .streamEnds _ how =>
    match task.phase with
    | .streaming => some (s.setTask j (endingOf task how))
    | _ => none
  | .record _ =>
    match task.phase with
    | .ending outcome text detail =>
      match recordOutcome s.db task.turn outcome text detail with
      | .ok (some written) => some { s.setTask j .finished with db := written }
      | .ok none => some (s.setTask j .finished)
      | .error _ => some (s.setTask j .finished)
    | _ => none
  | .kill _ text =>
    if s.calls.any (fun call => call.process = task.process ∧ call.phase.awaits j) then
      match task.phase with
      | .streaming =>
        some (s.setTask j
          (.ending (task.stop.getD .interrupted) text (some interruptedDetail)))
      | .ending _ _ _ => some (s.setTask j .finished)
      | _ => none
    else none
  | .forget _ =>
    if task.phase = .finished ∧ task.forgotten = false then some (s.forgotten j task) else none
  | _ => none

/-- A process lost with everything it held in memory. -/
def crashProcess (s : System) (p : ℕ) : System :=
  { s.setProc p freshProcess with
    calls := s.calls.map (fun call =>
      if call.process = p ∧ call.phase.isOver = false then { call with phase := .gone } else call)
    tasks := s.tasks.map (fun task =>
      if task.process = p ∧ task.phase ≠ .finished then { task with phase := .gone } else task) }

/-- The call or the task an act belongs to. -/
def Act.callIndex : Act → Option ℕ
  | .lockConversation i => some i
  | .readReceipt i => some i
  | .checkActive i => some i
  | .admitTurn i _ _ => some i
  | .lookAfterLoss i => some i
  | .nameRunning i => some i
  | .replay i => some i
  | .start i _ => some i
  | .cancelRead i => some i
  | .cancelLatest i => some i
  | .cancelDone i => some i
  | .closeOrphan i => some i
  | .cancelRaced i => some i
  | .recoverRead i => some i
  | .recoverNext i => some i
  | .closeDone i => some i
  | _ => none

def Act.taskIndex : Act → Option ℕ
  | .streamEnds j _ => some j
  | .record j => some j
  | .kill j _ => some j
  | .forget j => some j
  | _ => none

/-- One step of the system. -/
def step (s : System) (act : Act) : Option System :=
  match act with
  | .startConversation id scope =>
    match startConversation s.db id scope with
    | .ok written => some { s with db := written }
    | .error _ => some s
  | .fork id fork atSequence =>
    match forkConversation s.db id fork atSequence with
    | .ok written => some { s with db := written }
    | .error _ => some s
  | .call p permitted request => some (beginCall s p permitted request)
  | .crash p => some (crashProcess s p)
  | act =>
    match act.callIndex, act.taskIndex with
    | some i, _ => (s.calls[i]?).bind (fun call => stepCall digest s i call act)
    | none, some j => (s.tasks[j]?).bind (fun task => stepTask s j task act)
    | none, none => none

def run (s : System) : List Act → Option System
  | [] => some s
  | act :: acts => (step digest s act).bind (fun next => run next acts)

end Steps

end Grafy.Agents
