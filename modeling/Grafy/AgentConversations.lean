import Grafy.Texts
import Mathlib.Data.List.Sort

/-!
Agent conversations and turn receipts as rows, and the transactions that write
them. A conversation holds the sequence its next event takes; appending moves it
on by a conditional update and inserts the event at the sequence just claimed. A
receipt is inserted under two uniqueness rules, one client turn id and one
running turn for each conversation, and leaves `running` by a conditional update
that only one writer wins. A transaction is a function that yields the rows it
commits, or an error and then nothing is written.
-/
namespace Grafy.Agents

/-- The Project, Graph and Agent a conversation sits next to. -/
structure Scope where
  project : ℕ
  graph : String
  agent : String
deriving DecidableEq

/-- `AgentConversation`, with the conversation and sequence a fork was cut from. -/
structure Conversation where
  id : ℕ
  scope : Scope
  source : Option (ℕ × ℕ)
  nextSequence : ℕ
deriving DecidableEq

/-- `AgentConversationTurnOutcome`. -/
inductive Outcome
  | completed
  | cancelled
  | failed
  | interrupted
deriving DecidableEq

/-- `AgentTurnStatus`. -/
inductive Status
  | running
  | completed
  | cancelled
  | failed
  | interrupted
deriving DecidableEq

/-- The terminal status an outcome event stands for. -/
def Outcome.status : Outcome → Status
  | .completed => .completed
  | .cancelled => .cancelled
  | .failed => .failed
  | .interrupted => .interrupted

inductive Payload
  | userMessage (text : String)
  | assistantMessage (text : String)
  | turnOutcome (outcome : Outcome) (detail : Option String)
deriving DecidableEq

structure Event where
  conversation : ℕ
  sequence : ℕ
  turnId : ℕ
  payload : Payload
deriving DecidableEq

/-- `AgentTurn`: the receipt of one send. -/
structure Receipt where
  id : ℕ
  conversation : ℕ
  scope : Scope
  clientTurnId : String
  status : Status
  requestDigest : String
  userMessageSequence : ℕ
  outcomeDetail : Option String
deriving DecidableEq

/-- The rows of the three tables, in the order they were inserted. -/
structure Database where
  conversations : List Conversation
  events : List Event
  receipts : List Receipt

/-- What a call raises. -/
inductive AgentError
  | forbidden
  | blankMessage
  | stopping
  | notFound
  | busy (turn : Option ℕ)
  | conflict (turn : ℕ)
  | refused
  | invalid
  | staleAppend
  | concurrentWrite
  | alreadyAdmitted
  | forkRange
  | modelFactory
deriving DecidableEq

def maxMessageChars : ℕ := 1000000

def maxDetailChars : ℕ := 2000

namespace Database

variable (db : Database)

def conversation? (id : ℕ) : Option Conversation := db.conversations.find? (fun c => c.id = id)

def receipt? (id : ℕ) : Option Receipt := db.receipts.find? (fun r => r.id = id)

/-- `get_by_client_turn_id`. -/
def receiptByClient? (conversation : ℕ) (clientTurnId : String) : Option Receipt :=
  db.receipts.find? (fun r => r.conversation = conversation ∧ r.clientTurnId = clientTurnId)

/-- `running_for_conversation`. -/
def running? (conversation : ℕ) : Option Receipt :=
  db.receipts.find? (fun r => r.conversation = conversation ∧ r.status = .running)

/-- The newest receipt of a conversation (`list_for_conversation` with limit one). -/
def latest? (conversation : ℕ) : Option Receipt :=
  (db.receipts.filter (fun r => r.conversation = conversation)).getLast?

def listRunning : List Receipt := db.receipts.filter (fun r => r.status = .running)

/-- `list_events` of a conversation, ordered by sequence. -/
def listEvents (conversation : ℕ) : List Event :=
  (db.events.filter (fun e => e.conversation = conversation)).mergeSort
    (fun a b => a.sequence ≤ b.sequence)

/-- `SqlAgentConversationRepository.add`. -/
def addConversation (conversation : Conversation) : Except AgentError Database :=
  if (db.conversation? conversation.id).isSome then .error .concurrentWrite
  else .ok { db with conversations := db.conversations ++ [conversation] }

/-- `SqlAgentConversationRepository.append`: the conditional update of the counter, then
the insert at the sequence it claimed. -/
def append (event : Event) : Except AgentError Database :=
  if db.conversations.any (fun c => c.id = event.conversation ∧
    c.nextSequence = event.sequence) then
    if db.events.any
        (fun e => e.conversation = event.conversation ∧ e.sequence = event.sequence) then
      .error .concurrentWrite
    else
      .ok
        { db with
          conversations := db.conversations.map (fun c =>
            if c.id = event.conversation ∧ c.nextSequence = event.sequence then
              { c with nextSequence := event.sequence + 1 }
            else c)
          events := db.events ++ [event] }
  else if (db.conversation? event.conversation).isSome then .error .staleAppend
  else .error .notFound

/-- `SqlAgentTurnRepository.add`, with the primary key and the two admission rules. -/
def addTurn (receipt : Receipt) : Except AgentError Database :=
  if (db.receipt? receipt.id).isSome then .error .concurrentWrite
  else if (db.receiptByClient? receipt.conversation receipt.clientTurnId).isSome then
    .error .alreadyAdmitted
  else if receipt.status = .running ∧ (db.running? receipt.conversation).isSome then
    .error (.busy none)
  else .ok { db with receipts := db.receipts ++ [receipt] }

/-- `SqlAgentTurnRepository.finish`: a running receipt moved to a terminal status, or
nothing when it is not running. -/
def finish (turn : ℕ) (outcome : Outcome) (detail : Option String) : Option Database :=
  if db.receipts.any (fun r => r.id = turn ∧ r.status = .running) then
    some
      { db with
        receipts := db.receipts.map (fun r =>
          if r.id = turn ∧ r.status = .running then
            { r with status := outcome.status, outcomeDetail := detail }
          else r) }
  else none

end Database

/-- The event a conversation takes next (`AgentConversation.event`). -/
def Conversation.event (conversation : Conversation) (turn : ℕ) (payload : Payload) : Event :=
  ⟨conversation.id, conversation.nextSequence, turn, payload⟩

def Conversation.appended (conversation : Conversation) : Conversation :=
  { conversation with nextSequence := conversation.nextSequence + 1 }

section Transactions

variable (digest : String → String) (db : Database)

/-- The writes of `_admit`: the user message, then the receipt that points at it. -/
def admitTurn (conversation : Conversation) (turn : ℕ) (clientTurnId text : String) :
    Except AgentError (Database × Receipt) := do
  if text.length = 0 ∨ maxMessageChars < text.length then .error .invalid
  else
    let event := conversation.event turn (.userMessage text)
    let written ← db.append event
    if clientTurnId.length = 0 ∨ 200 < clientTurnId.length then .error .invalid
    else
      let receipt : Receipt :=
        { id := turn
          conversation := conversation.id
          scope := conversation.scope
          clientTurnId
          status := .running
          requestDigest := digest text
          userMessageSequence := event.sequence
          outcomeDetail := none }
      let admitted ← written.addTurn receipt
      .ok (admitted, receipt)

/-- One more event on a conversation. -/
def extend (conversation : Conversation) (turn : ℕ) (payload : Payload) :
    Except AgentError (Database × Conversation) := do
  let written ← db.append (conversation.event turn payload)
  .ok (written, conversation.appended)

/-- The events of an ending: the text that arrived, if any, and the outcome. -/
def writeEnding (conversation : Conversation) (turn : ℕ) (outcome : Outcome) (text : String)
    (detail : Option String) : Except AgentError Database := do
  let (answered, conversation) ←
    if text = "" then Except.ok (db, conversation)
    else if maxMessageChars < text.length then .error .invalid
    else extend db conversation turn (.assistantMessage text)
  if detail.any (fun d => maxDetailChars < d.length) then .error .invalid
  else
    let (ended, _) ← extend answered conversation turn (.turnOutcome outcome detail)
    .ok ended

/-- `_record_outcome`: claim the receipt, then write its ending; nothing when another
writer has ended the turn. -/
def recordOutcome (turn : Receipt) (outcome : Outcome) (text : String) (detail : Option String) :
    Except AgentError (Option Database) :=
  match db.finish turn.id outcome detail with
  | none => .ok none
  | some claimed =>
    match claimed.conversation? turn.conversation with
    | none => .ok (some claimed)
    | some conversation =>
      (writeEnding claimed conversation turn.id outcome text detail).map some

/-- `_close_orphan`: the ending of a receipt no task is behind. -/
def closeOrphan (turn : Receipt) (outcome : Outcome) (detail : Option String) :
    Except AgentError (Option Database) :=
  recordOutcome db turn outcome "" detail

/-- `AgentConversationService.start`, the Agent being on the canvas. -/
def startConversation (id : ℕ) (scope : Scope) : Except AgentError Database :=
  db.addConversation ⟨id, scope, none, 1⟩

/-- The copies of a fork, at the sequences from one on. -/
def copyEvents (fork : ℕ) (events : List Event) : Except AgentError Database :=
  (events.zipIdx 1).foldlM
    (fun written e => written.append ⟨fork, e.2, e.1.turnId, e.1.payload⟩) db

/-- `AgentConversationService.fork`. -/
def forkConversation (id fork atSequence : ℕ) : Except AgentError Database := do
  match db.conversation? id with
  | none => .error .notFound
  | some source =>
    if atSequence < 1 ∨ source.nextSequence - 1 < atSequence ∨ fork = id then .error .forkRange
    else
      let added ← db.addConversation ⟨fork, source.scope, some (id, atSequence), 1⟩
      copyEvents added fork ((added.listEvents id).take atSequence)

end Transactions

end Grafy.Agents
