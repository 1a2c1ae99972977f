import Grafy.AgentLog
import Grafy.Memberships
import Grafy.Transactions

/-!
Who may see and touch an Agent turn. Rows belong to a Workspace and every query of the
store names the caller's; the live turns of a process are kept by conversation alone. An
operation is a program that looks at the service and the store at each of its awaits, and
anything may happen between two of them.
-/
namespace Grafy.TurnAccess

open Agents Identity Transactions

/-- `_RunningTurn`: the turn a task runs, in its Workspace, and what it has streamed. -/
structure RunningTurn where
  workspace : ℕ
  turn : Receipt
  receivedText : String
  publishedChars : ℕ
  messageId : ℕ
deriving DecidableEq

/-- The rows of the store, each with its Workspace, and what one process holds: the live
turns of its conversations, and whether it is stopping. -/
structure Service where
  conversations : List (ℕ × Conversation)
  events : List (ℕ × Event)
  receipts : List (ℕ × Receipt)
  active : ℕ → Option RunningTurn
  stopping : Bool

def rowsOf {A : Type} (workspace : ℕ) (rows : List (ℕ × A)) : List A :=
  (rows.filter (fun row => row.1 = workspace)).map Prod.snd

namespace Service

/-- What the repositories find when they are asked for a Workspace. -/
def within (s : Service) (workspace : ℕ) : Database where
  conversations := rowsOf workspace s.conversations
  events := rowsOf workspace s.events
  receipts := rowsOf workspace s.receipts

end Service

structure WorkspaceAccess where
  workspace : ℕ
  membership : WorkspaceMembership
deriving DecidableEq

/-- What an operation raises, with the kind and the id a `NotFoundError` names. -/
inductive Problem
  | capabilityDenied (capability : WorkspaceCapability) (workspace : ℕ)
  | emptyMessage
  | stopping
  | notFound (kind : String) (id : ℕ)
  | sendNotFound (clientTurnId : String) (conversation : ℕ)
  | busy (conversation : ℕ) (turn : Option ℕ)
  | conflict (turn : ℕ)
  | refused
  | modelFactory
  | store (error : AgentError)
deriving DecidableEq

structure TurnSnapshot where
  turn : Receipt
  partialText : String
  partialOffset : ℕ
  partialMessageId : Option ℕ
deriving DecidableEq

def RunningTurn.snapshot (entry : RunningTurn) : TurnSnapshot :=
  ⟨entry.turn, entry.receivedText, entry.publishedChars, some entry.messageId⟩

inductive Answer
  | turn (turn : Receipt)
  | turns (turns : List Receipt)
  | snapshot (snapshot : Option TurnSnapshot)
deriving DecidableEq

/-- What an operation does besides looking: it asks a live turn to stop, waits for one,
starts one, or commits the rows of a Workspace. -/
inductive Effect
  | requestStop (turn : ℕ)
  | waitFor (turn : ℕ)
  | start (turn : Receipt)
  | commit (workspace : ℕ) (written : Database)

abbrev Talk := Program Service Unit Effect (Except Problem Answer)

def raise (problem : Problem) : Talk := .finished (some (.error problem))

def answer (answer : Answer) : Talk := .finished (some (.ok answer))

/-- `access.require`, before anything is looked at. -/
def require (access : WorkspaceAccess) (capability : WorkspaceCapability) (next : Talk) : Talk :=
  if access.membership.grants capability then next
  else raise (.capabilityDenied capability access.workspace)

/-- `_receipt`. -/
def receipt (workspace turn : ℕ) (next : Option Receipt → Talk) : Talk :=
  .query fun s => next ((s.within workspace).receipt? turn)

/-- `_running`: what the process runs for the conversation, whatever its Workspace, else what
the store says is running. -/
def running (s : Service) (workspace conversation : ℕ)
    (next : Service → Option Receipt → Talk) : Talk :=
  match s.active conversation with
  | some entry => next s (some entry.turn)
  | none => .query fun s' => next s' ((s'.within workspace).running? conversation)

/-- `_latest`. -/
def latest (workspace conversation : ℕ) (next : Service → Option Receipt → Talk) : Talk :=
  .query fun s => next s ((s.within workspace).latest? conversation)

variable (digest : String → String)

/-- `_replay`. -/
def replay (workspace conversation : ℕ) (clientTurnId text : String) : Talk :=
  .query fun s =>
    match (s.within workspace).receiptByClient? conversation clientTurnId with
    | none => raise (.sendNotFound clientTurnId conversation)
    | some already =>
      if already.requestDigest = digest text then answer (.turn already)
      else raise (.conflict already.id)

/-- `_lose_admission_race`. -/
def loseAdmissionRace (workspace conversation : ℕ) (clientTurnId text : String) : Talk :=
  .query fun s =>
    match (s.within workspace).receiptByClient? conversation clientTurnId with
    | none => running s workspace conversation fun _ found =>
        raise (.busy conversation (found.map Receipt.id))
    | some raced =>
      if raced.requestDigest = digest text then
        replay digest workspace conversation clientTurnId text
      else raise (.conflict raced.id)

/-- `send`. The head, the Agent on it and its model are looked up in the admission's
transaction as well: `refused` says that one of them is missing, `built` that the model's
client is made. -/
def send (access : WorkspaceAccess) (conversation : ℕ) (clientTurnId text : String)
    (scope : Option Scope) (turn : ℕ) (refused built : Bool) : Talk :=
  require access .startRun <|
  if Texts.strip text = "" then raise .emptyMessage
  else .query fun s =>
    if s.stopping then raise .stopping
    else .query fun s =>
      let db := s.within access.workspace
      match db.conversation? conversation with
      | none => raise (.notFound "Agent conversation" conversation)
      | some found =>
        if scope.any (fun wanted => wanted ≠ found.scope) then
          raise (.notFound "Agent conversation" conversation)
        else if (db.receiptByClient? conversation clientTurnId).isSome then
          replay digest access.workspace conversation clientTurnId text
        else
          match s.active conversation with
          | some entry => raise (.busy conversation (some entry.turn.id))
          | none =>
            if refused then raise .refused
            else
              match admitTurn digest db found turn clientTurnId text with
              | .ok (written, admitted) =>
                .commit (.commit access.workspace written) fun _ =>
                  if built then .commit (.start admitted) fun _ => answer (.turn admitted)
                  else raise .modelFactory
              | .error .alreadyAdmitted =>
                loseAdmissionRace digest access.workspace conversation clientTurnId text
              | .error (.busy _) =>
                loseAdmissionRace digest access.workspace conversation clientTurnId text
              | .error e => raise (.store e)

/-- `cancel`, once it has found a turn. -/
def cancelFound (workspace : ℕ) (scope : Option Scope) (s : Service) (turn : Receipt) : Talk :=
  if scope.any (fun wanted => wanted ≠ turn.scope) then raise (.notFound "Agent turn" turn.id)
  else if turn.status ≠ .running then answer (.turn turn)
  else
    let orphan : Talk := .query fun s =>
      match closeOrphan (s.within workspace) turn .cancelled (some orphanedCancelDetail) with
      | .ok (some written) => .commit (.commit workspace written) fun _ =>
          answer (.turn (turn.ended .cancelled (some orphanedCancelDetail)))
      | .ok none => receipt workspace turn.id fun raced => answer (.turn (raced.getD turn))
      | .error e => raise (.store e)
    match s.active turn.conversation with
    | some entry =>
      if entry.turn.id = turn.id then
        .commit (.requestStop turn.id) fun _ => .commit (.waitFor turn.id) fun _ =>
          receipt workspace turn.id fun finished =>
            answer (.turn (finished.getD (turn.ended .cancelled none)))
      else orphan
    | none => orphan
where
  orphanedCancelDetail : String := "cancelled with no turn running in this API owner"

/-- `cancel`. -/
def cancel (access : WorkspaceAccess) (conversation : ℕ) (turn : Option ℕ)
    (scope : Option Scope) : Talk :=
  require access .startRun <|
  let found (s : Service) : Option Receipt → Talk
    | none => latest access.workspace conversation fun s last =>
        match last with
        | none => raise (.notFound "Agent turn for conversation" conversation)
        | some turn => cancelFound access.workspace scope s turn
    | some turn =>
      if turn.conversation ≠ conversation then raise (.notFound "Agent turn" turn.id)
      else cancelFound access.workspace scope s turn
  match turn with
  | some id => .query fun s => found s ((s.within access.workspace).receipt? id)
  | none => .query fun s => running s access.workspace conversation found

/-- `get_turn`. -/
def getTurn (access : WorkspaceAccess) (turn : ℕ) : Talk :=
  require access .viewProject <|
  receipt access.workspace turn fun found =>
    match found with
    | none => raise (.notFound "Agent turn" turn)
    | some turn => answer (.turn turn)

/-- A conversation's receipts, newest first. -/
def listForConversation (db : Database) (conversation : ℕ) (limit : Option ℕ) : List Receipt :=
  let turns := (db.receipts.filter (fun r => r.conversation = conversation)).reverse
  limit.elim turns turns.take

/-- `list_turns`. -/
def listTurns (access : WorkspaceAccess) (conversation : ℕ) (limit : Option ℕ) : Talk :=
  require access .viewProject <|
  .query fun s =>
    let db := s.within access.workspace
    match db.conversation? conversation with
    | none => raise (.notFound "Agent conversation" conversation)
    | some _ => answer (.turns (listForConversation db conversation limit))

/-- `wait_for_turn`. -/
def waitForTurn (access : WorkspaceAccess) (conversation : ℕ) : Talk :=
  require access .viewProject <|
  let ended (s : Service) : Talk :=
    running s access.workspace conversation fun _ stillRunning =>
      match stillRunning with
      | some turn => answer (.turn turn)
      | none => .query fun s =>
        let db := s.within access.workspace
        match db.conversation? conversation with
        | none => raise (.notFound "Agent conversation" conversation)
        | some _ =>
          match listForConversation db conversation (some 1) with
          | [] => raise (.notFound "Agent turn of conversation" conversation)
          | turn :: _ => answer (.turn turn)
  .query fun s =>
    match s.active conversation with
    | some entry => .commit (.waitFor entry.turn.id) fun _ => .query ended
    | none => ended s

/-- `active_turn_snapshot`. -/
def activeTurnSnapshot (access : WorkspaceAccess) (conversation : ℕ) : Talk :=
  require access .viewProject <|
  .query fun s =>
    match s.active conversation with
    | some entry => answer (.snapshot (some entry.snapshot))
    | none => .query fun s =>
      let db := s.within access.workspace
      match db.conversation? conversation with
      | none => raise (.notFound "Agent conversation" conversation)
      | some _ =>
        answer (.snapshot ((db.running? conversation).map (fun turn => ⟨turn, "", 0, none⟩)))

end Grafy.TurnAccess
