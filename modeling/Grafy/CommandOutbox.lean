import Grafy.Commands

/-!
The outbox of a Project room: the queue of command batches, the one batch in
flight and the gate that pauses sending until a full head snapshot lands. A
call reads the confirmed head and whether sending is possible, and returns the
frames to write, the promises it settles and the callbacks it makes. A batch is
known by its place in the order of submissions.
-/
namespace Grafy.CommandOutbox

open Commands

def roomCommandQueueCap : ℕ := 32

structure CommandError where
  commandId : String
  errorCode : String
  detail : String
  deriving DecidableEq

/-- What decides whether a command may be sent and a receipt is reflected. -/
structure HeadPointer where
  roomEpoch : String
  collaborationSequence : ℕ
  deriving DecidableEq

structure AcceptedMessage where
  commandId : String
  roomEpoch : String
  sequence : ℕ
  commands : List ProjectCommand

structure ReceiptMessage where
  commandId : String
  currentRoomEpoch : String
  currentSequence : ℕ
  requiresHeadRehydration : Bool

structure RejectedMessage where
  commandId : String
  errorCode : String
  detail : String
  currentRoomEpoch : Option String
  currentSequence : Option ℕ

/-- A submit frame. -/
structure SubmitMessage where
  commandId : String
  roomEpoch : String
  observedSequence : ℕ
  commands : List ProjectCommand

structure QueuedCommand where
  batch : ℕ
  commandId : String
  commands : List ProjectCommand
  sent : Bool
  roomEpoch : Option String
  observedSequence : Option ℕ
  accepted : Option AcceptedMessage
  receipt : Option ReceiptMessage

inductive Settlement
  | resolved (receipt : ReceiptMessage) (accepted : Option AcceptedMessage)
  | rejected (error : CommandError)

inductive Effect
  | send (batch : ℕ) (message : SubmitMessage)
  | settle (batch : ℕ) (settlement : Settlement)
  | headRefreshRequired
  | commandRejected (message : RejectedMessage)

/-- `submitted` counts the batches that were handed in. -/
structure Outbox where
  submitted : ℕ
  queue : List QueuedCommand
  inFlight : Option QueuedCommand
  localCommandIds : List String
  awaitingHeadRehydration : Bool

def Outbox.empty : Outbox := ⟨0, [], none, [], false⟩

/-- What a call leaves behind and what it has done on the way. -/
abbrev Reply := Outbox × List Effect

inductive SnapshotKind
  | document
  | presentation
  deriving DecidableEq

/-- An unsent snapshot is worthless once a newer one of its kind is queued. -/
def snapshotCommandKind : List ProjectCommand → Option SnapshotKind
  | [.inGraph _ (.replaceDocument _)] => some .document
  | [.inGraph _ (.replacePresentation _)] => some .presentation
  | _ => none

section Calls

variable (head : Option HeadPointer) (canSend : Bool)

def headCoversReceipt (message : ReceiptMessage) : Bool :=
  match head with
  | none => false
  | some head => head.roomEpoch = message.currentRoomEpoch &&
    decide (message.currentSequence ≤ head.collaborationSequence)

/-- A batch keeps the epoch and sequence of its first send. -/
def QueuedCommand.stamped (item : QueuedCommand) (head : HeadPointer) : QueuedCommand :=
  { item with
    sent := true
    roomEpoch := some (item.roomEpoch.getD head.roomEpoch)
    observedSequence := some (item.observedSequence.getD head.collaborationSequence) }

def QueuedCommand.message (item : QueuedCommand) (head : HeadPointer) : SubmitMessage :=
  ⟨item.commandId, item.roomEpoch.getD head.roomEpoch,
    item.observedSequence.getD head.collaborationSequence, item.commands⟩

def drainQueue (outbox : Outbox) : Reply :=
  if outbox.inFlight.isSome || outbox.awaitingHeadRehydration || !canSend then (outbox, [])
  else
    match head, outbox.queue with
    | some head, next :: rest =>
      ({ outbox with queue := rest, inFlight := some (next.stamped head) },
        [.send next.batch (next.message head)])
    | _, _ => (outbox, [])

def superseded (item : QueuedCommand) : Effect :=
  .settle item.batch (.rejected ⟨item.commandId, "superseded",
    "A newer snapshot command replaced this queued command."⟩)

/-- The queue is read from its end. -/
def supersedeQueuedSnapshotCommand (outbox : Outbox) (commands : List ProjectCommand) : Reply :=
  match snapshotCommandKind commands with
  | none => (outbox, [])
  | some kind =>
    let stale (item : QueuedCommand) : Bool :=
      !item.sent && decide (snapshotCommandKind item.commands = some kind)
    let dropped := (outbox.queue.filter stale).reverse
    ({ outbox with
        queue := outbox.queue.filter (fun item => !stale item)
        localCommandIds := outbox.localCommandIds.filter
          (· ∉ dropped.map QueuedCommand.commandId) },
      dropped.map superseded)

def queueFull : CommandError :=
  ⟨"", "queue_full", "Waiting to synchronize. Durable authoring is paused until the queue drains."⟩

/-- `commandId` is what `createCommandId` returns. -/
def submit (commandId : String) (commands : List ProjectCommand) (outbox : Outbox) : Reply :=
  let cleared := supersedeQueuedSnapshotCommand outbox commands
  let batch := cleared.1.submitted
  if roomCommandQueueCap ≤ cleared.1.queue.length + cleared.1.inFlight.toList.length then
    ({ cleared.1 with submitted := batch + 1 }, cleared.2 ++ [.settle batch (.rejected queueFull)])
  else
    let item := ⟨batch, commandId, commands, false, none, none, none, none⟩
    let drained := drainQueue head canSend { cleared.1 with
      submitted := batch + 1
      queue := cleared.1.queue ++ [item]
      localCommandIds := commandId :: cleared.1.localCommandIds }
    (drained.1, cleared.2 ++ drained.2)

def forget (outbox : Outbox) (commandId : String) : Outbox :=
  { outbox with localCommandIds := outbox.localCommandIds.filter (· ≠ commandId) }

/-- The batch in flight, when it is the one the message is about. -/
def pendingFor (outbox : Outbox) (commandId : String) : Option QueuedCommand :=
  outbox.inFlight.filter (fun pending => pending.commandId = commandId)

/-- Whether the command was submitted here is returned beside the outbox. -/
def recordAccepted (message : AcceptedMessage) (outbox : Outbox) : Outbox × Bool :=
  let kept := forget outbox message.commandId
  (match pendingFor outbox message.commandId with
    | none => kept
    | some pending => { kept with inFlight := some { pending with accepted := some message } },
    decide (message.commandId ∈ outbox.localCommandIds))

def requestHeadRefresh (outbox : Outbox) : Reply :=
  ({ outbox with awaitingHeadRehydration := true }, [.headRefreshRequired])

def resolveInFlightReceipt (outbox : Outbox) (pending : QueuedCommand) (receipt : ReceiptMessage) :
    Reply :=
  ({ outbox with inFlight := none }, [.settle pending.batch (.resolved receipt pending.accepted)])

def applyReceipt (message : ReceiptMessage) (outbox : Outbox) : Reply :=
  match pendingFor outbox message.commandId with
  | none => (outbox, [])
  | some pending =>
    let pending := { pending with receipt := some message }
    let held := { forget outbox message.commandId with inFlight := some pending }
    if message.requiresHeadRehydration || !headCoversReceipt head message then
      requestHeadRefresh held
    else
      let resolved := resolveInFlightReceipt held pending message
      let drained := drainQueue head canSend resolved.1
      (drained.1, resolved.2 ++ drained.2)

/-- The receipt held by the batch in flight. -/
def heldReceipt (outbox : Outbox) : Option (QueuedCommand × ReceiptMessage) :=
  outbox.inFlight.bind (fun pending => pending.receipt.map (fun receipt => (pending, receipt)))

def resume (outbox : Outbox) : Reply :=
  drainQueue head canSend { outbox with awaitingHeadRehydration := false }

def finishHeadRehydration (outbox : Outbox) : Reply :=
  match heldReceipt outbox with
  | none => resume head canSend outbox
  | some (pending, receipt) =>
    if headCoversReceipt head receipt then
      let resolved := resolveInFlightReceipt outbox pending receipt
      let resumed := resume head canSend resolved.1
      (resumed.1, resolved.2 ++ resumed.2)
    else requestHeadRefresh outbox

/-- True when the held receipt is already reflected in the current head. -/
def pendingReceiptIsCovered (outbox : Outbox) : Bool :=
  (heldReceipt outbox).any (fun held => headCoversReceipt head held.2)

def afterHeadApplied (outbox : Outbox) : Reply :=
  if outbox.awaitingHeadRehydration && pendingReceiptIsCovered head outbox then
    finishHeadRehydration head canSend outbox
  else (outbox, [])

/-- The rejection alone does not advance the head: the drain is paused until a
full snapshot lands. -/
def applyRejected (message : RejectedMessage) (outbox : Outbox) : Reply :=
  let kept := forget outbox message.commandId
  match pendingFor outbox message.commandId with
  | none => (kept, [.commandRejected message])
  | some pending =>
    ({ kept with awaitingHeadRehydration := true, inFlight := none },
      [.commandRejected message,
        .settle pending.batch (.rejected ⟨message.commandId, message.errorCode, message.detail⟩)])

def interruptInFlight (outbox : Outbox) : Reply :=
  match outbox.inFlight with
  | none => (outbox, [])
  | some interrupted => ({ outbox with inFlight := none, queue := interrupted :: outbox.queue }, [])

/-- What is thrown need not be an error. -/
def sendFailed (commandId : String) (error : Option CommandError) (outbox : Outbox) : Reply :=
  match pendingFor outbox commandId with
  | none => (outbox, [])
  | some pending =>
    ({ outbox with inFlight := none }, [.settle pending.batch (.rejected
      (error.getD ⟨commandId, "send_failed", "Failed to send the command batch."⟩))])

def rejectAll (error : CommandError) (outbox : Outbox) : Reply :=
  ({ outbox with inFlight := none, queue := [] },
    (outbox.inFlight.toList ++ outbox.queue).map (fun item => .settle item.batch (.rejected error)))

def clearLocalCommands (outbox : Outbox) : Outbox := { outbox with localCommandIds := [] }

end Calls

end Grafy.CommandOutbox
