import Grafy.CommandOutbox

/-!
The session of one participant in a Project room. It owns the confirmed head,
which room messages, snapshots and accepted commands may replace, and drives
the outbox with it. What a head carries beside its place is of no concern here:
the document is a parameter, and so is the replay of commands on a head.
-/
namespace Grafy.RoomSession

open CommandOutbox Commands

/-- The confirmed head of a Project, as far as the session reads or merges it. -/
structure Head (D : Type) where
  roomEpoch : String
  collaborationSequence : ℕ
  name : String
  document : D
  checkpointSequence : ℕ
  checkpointRevision : ℕ
  deriving DecidableEq

variable {D : Type}

def Head.pointer (head : Head D) : HeadPointer := ⟨head.roomEpoch, head.collaborationSequence⟩

/-- Whether `incoming` should replace the session's confirmed head. -/
def shouldReplaceCollaborativeHead (current : Option (Head D)) (incoming : Head D) : Bool :=
  match current with
  | none => true
  | some current =>
    if current.roomEpoch ≠ incoming.roomEpoch then true
    else decide (current.collaborationSequence ≤ incoming.collaborationSequence)

inductive Status
  | idle
  | connecting
  | reconnecting
  | ready
  | unsynchronized
  | stopped
  deriving DecidableEq

inductive SocketState
  | connecting
  | opened
  | closing
  deriving DecidableEq

structure Session (D : Type) where
  head : Option (Head D)
  outbox : Outbox
  status : Status
  socket : Option SocketState
  mayEdit : Bool
  terminal : Bool

def Session.initial : Session D := ⟨none, .empty, .idle, none, false, false⟩

/-- What a handler leaves behind and what was done on the way. -/
abbrev Outcome (D : Type) := Session D × List Effect

section Sending

def Session.pointer (session : Session D) : Option HeadPointer := session.head.map Head.pointer

def canSubmitCommands (session : Session D) : Bool :=
  decide (session.status = .ready) && session.head.isSome && session.mayEdit && !session.terminal

def canSendCommand (session : Session D) : Bool :=
  canSubmitCommands session && decide (session.socket = some .opened)

/-- What the transport throws at the frames of one event. -/
abbrev Throws := SubmitMessage → Option (Option CommandError)

variable (throws : Throws)

/-- A transport that vanished leaves the command in flight. -/
def writeSend (outcome : Outcome D) : Effect → Outcome D
  | .send _ message =>
    match outcome.1.socket, throws message with
    | some _, some error =>
      let failed := sendFailed message.commandId error outcome.1.outbox
      ({ outcome.1 with outbox := failed.1 }, outcome.2 ++ failed.2)
    | _, _ => outcome
  | _ => outcome

/-- The frames a reply of the outbox holds are written once it has returned. -/
def writeSends (session : Session D) (reply : Reply) : Outcome D :=
  reply.2.foldl (writeSend throws) ({ session with outbox := reply.1 }, reply.2)

def finishRehydration (session : Session D) : Outcome D :=
  writeSends throws session
    (finishHeadRehydration session.pointer (canSendCommand session) session.outbox)

end Sending

section Heads

variable (throws : Throws)

/-- A stale snapshot of the same epoch is ignored, unless the held receipt is
already reflected. -/
def replaceHead (head : Head D) (session : Session D) : Outcome D :=
  if shouldReplaceCollaborativeHead session.head head then
    finishRehydration throws { session with head := some head }
  else if pendingReceiptIsCovered session.pointer session.outbox then
    finishRehydration throws session
  else (session, [])

inductive ReconcileError
  | headUnavailable (epoch : String)
  | epochMismatch (epoch expected : String)

/-- A later epoch reset is authoritative: the current head is kept. -/
def reconcileCheckpointHead (checkpoint : Head D) (expectedRoomEpoch : String)
    (session : Session D) :
    Except ReconcileError (Outcome D) :=
  match session.head with
  | none => .error (.headUnavailable expectedRoomEpoch)
  | some current =>
    if current.roomEpoch ≠ expectedRoomEpoch then .ok (session, [])
    else if checkpoint.roomEpoch ≠ expectedRoomEpoch then
      .error (.epochMismatch checkpoint.roomEpoch expectedRoomEpoch)
    else
      let replaced := replaceHead throws checkpoint session
      match replaced.1.head with
      | none => .error (.headUnavailable expectedRoomEpoch)
      | some effective =>
        if checkpoint.collaborationSequence < effective.collaborationSequence ∧
            effective.checkpointSequence < checkpoint.checkpointSequence then
          let merged := replaceHead throws { effective with
            checkpointSequence := checkpoint.checkpointSequence
            checkpointRevision := checkpoint.checkpointRevision } replaced.1
          .ok (merged.1, replaced.2 ++ merged.2)
        else .ok replaced

end Heads

inductive ServerMessage (D : Type)
  | ready (head : Head D) (mayEdit : Bool)
  | rehydrate (head : Head D)
  | accepted (message : AcceptedMessage)
  | receipt (message : ReceiptMessage)
  | rejected (message : RejectedMessage)

section Messages

variable (throws : Throws) (applyRoomCommandsToHead : Head D → List ProjectCommand → ℕ →
    Option (Head D))

def applyReady (head : Head D) (mayEdit : Bool) (session : Session D) : Outcome D :=
  let kept := match session.head with
    | some current => if shouldReplaceCollaborativeHead (some current) head then head else current
    | none => head
  finishRehydration throws { session with head := some kept, mayEdit := mayEdit, status := .ready }

def applyRehydrate (head : Head D) (session : Session D) : Outcome D :=
  if session.head.isSome && !shouldReplaceCollaborativeHead session.head head then (session, [])
  else finishRehydration throws { session with head := some head }

/-- Pauses the drain and asks for a full snapshot. -/
def refreshHead (session : Session D) : Outcome D :=
  let reply := requestHeadRefresh session.outbox
  ({ session with outbox := reply.1 }, reply.2)

/-- Only the batch that follows the head is replayed; a gap, another epoch or a
replay that throws asks for a snapshot. -/
def applyAccepted (message : AcceptedMessage) (session : Session D) : Outcome D :=
  let session := { session with outbox := (recordAccepted message session.outbox).1 }
  match session.head with
  | none => refreshHead session
  | some head =>
    if message.roomEpoch ≠ head.roomEpoch then refreshHead session
    else if message.sequence ≤ head.collaborationSequence then (session, [])
    else if message.sequence ≠ head.collaborationSequence + 1 then refreshHead session
    else
      match applyRoomCommandsToHead head message.commands message.sequence with
      | none => refreshHead session
      | some next =>
        let session := { session with head := some next }
        writeSends throws session
          (afterHeadApplied session.pointer (canSendCommand session) session.outbox)

def handleMessage (session : Session D) : ServerMessage D → Outcome D
  | .ready head mayEdit => applyReady throws head mayEdit session
  | .rehydrate head => applyRehydrate throws head session
  | .accepted message => applyAccepted throws applyRoomCommandsToHead message session
  | .receipt message =>
    writeSends throws session
      (applyReceipt session.pointer (canSendCommand session) message session.outbox)
  | .rejected message =>
    let reply := applyRejected message session.outbox
    ({ session with outbox := reply.1 }, reply.2)

end Messages

section Connection

def disconnected : CommandError :=
  ⟨"", "disconnected", "The Project room disconnected before the command completed."⟩

/-- A new socket, while the session is neither closed nor terminal. -/
def openSocket (session : Session D) : Outcome D :=
  if session.terminal then (session, [])
  else ({ session with
      status := if session.head.isSome then .reconnecting else .connecting
      socket := some .connecting }, [])

def recoverTraffic (session : Session D) : Outcome D :=
  ({ session with
      mayEdit := false
      outbox := (interruptInFlight session.outbox).1
      socket := none
      status := .unsynchronized }, [])

def stopTraffic (reason : CommandError) (session : Session D) : Outcome D :=
  let reply := rejectAll reason session.outbox
  ({ session with
      terminal := true, mayEdit := false, socket := none, outbox := reply.1, status := .stopped },
        reply.2)

/-- `retry` lifts the end that exhausted reconnects put to the session. -/
def retry (session : Session D) : Outcome D := openSocket { session with terminal := false }

def disconnect (session : Session D) : Outcome D :=
  let reply := rejectAll disconnected session.outbox
  ({ session with socket := none, outbox := clearLocalCommands reply.1, status := .idle }, reply.2)

/-- An error comes before the close. -/
def socketError (session : Session D) : Outcome D :=
  ({ session with status := if session.status = .ready then .unsynchronized else session.status },
    [])

def setSocket (state : SocketState) (session : Session D) : Outcome D :=
  ({ session with socket := session.socket.map (fun _ => state) }, [])

end Connection

/-- What happens to a session. A message is taken from the current socket only. -/
inductive Event (D : Type)
  | submitCommands (commandId : String) (commands : List ProjectCommand)
  | message (message : ServerMessage D)
  | replaceHead (head : Head D)
  | reconcileCheckpointHead (checkpoint : Head D) (expectedRoomEpoch : String)
  | openSocket
  | setSocket (state : SocketState)
  | socketError
  | recoverTraffic
  | stopTraffic (reason : CommandError)
  | retry
  | disconnect

section Events

variable (applyRoomCommandsToHead : Head D → List ProjectCommand → ℕ → Option (Head D))
variable (throws : Throws)

/-- A submission the session is not ready for changes nothing. -/
def submitCommands (commandId : String) (commands : List ProjectCommand) (session : Session D) :
    Outcome D :=
  if canSubmitCommands session then
    writeSends throws session
      (submit session.pointer (canSendCommand session) commandId commands session.outbox)
  else (session, [])

def Session.handle (session : Session D) : Event D → Outcome D
  | .submitCommands commandId commands =>
    RoomSession.submitCommands throws commandId commands session
  | .message message =>
    match session.socket with
    | none => (session, [])
    | some _ => handleMessage throws applyRoomCommandsToHead session message
  | .replaceHead head => RoomSession.replaceHead throws head session
  | .reconcileCheckpointHead checkpoint expectedRoomEpoch =>
    match RoomSession.reconcileCheckpointHead throws checkpoint expectedRoomEpoch session with
    | .error _ => (session, [])
    | .ok outcome => outcome
  | .openSocket => RoomSession.openSocket session
  | .setSocket state => RoomSession.setSocket state session
  | .socketError => RoomSession.socketError session
  | .recoverTraffic => RoomSession.recoverTraffic session
  | .stopTraffic reason => RoomSession.stopTraffic reason session
  | .retry => RoomSession.retry session
  | .disconnect => RoomSession.disconnect session

end Events

end Grafy.RoomSession
