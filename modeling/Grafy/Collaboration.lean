import Grafy.CommandEnvelopes
import Grafy.Validation

/-!
Command acceptance, checkpointing and restore for one Project. The rows kept
for a Project are its own row, its head, its checkpoints, the receipts of its
commands and the mapping from sequences to checkpoints. A transaction reads
some rows, then holds the head until it ends; it either ends with an error,
and then nothing is written, or its writes are made together.
-/
namespace Grafy.Collaboration

open CommandEnvelopes Commands Loops OrderedDict Project Texts

inductive WorkspaceCapability
  | viewProject
  | createProject
  | editProject
  | checkpointProject
  | deleteProject
  deriving DecidableEq

inductive AccessError
  | userDisabled
  | workspaceNotFound
  | capabilityDenied (capability : WorkspaceCapability)
  deriving DecidableEq

/-- What the Workspaces grant the calling actor while the call runs. -/
abbrev Access := Uuid → WorkspaceCapability → Except AccessError Unit

inductive CollaborationError
  | access (error : AccessError)
  | projectNotFound
  | checkpointNotFound (revision : ℕ)
  | missingProjectHead
  | headMoved (expectedSequence : ℤ) (actualSequence : ℕ) (roomEpoch : Uuid)
  | uncheckpointed (headSequence checkpointSequence : ℕ)
  | idempotencyMismatch (commandId : Uuid)
  | emptyBatch
  | batch (error : BatchError)
  | checkpointConflict (expectedRevision : ℕ)
  | concurrentWrite
  | objectAlreadyExists
  | blankName
  | longName
  | revisionTooLow
  | checkpointSequence
  | idPair
  | field (error : Validation.ValidationError)
  | unreadable (error : Validation.ValidationError)
  | document (error : Rejection)

abbrev Answered := Except CollaborationError

section Entities

structure ProjectHead where
  roomEpoch : Uuid
  collaborationSequence : ℕ
  checkpointSequence : ℕ
  checkpointRevision : ℕ
  name : String
  document : ProjectDocument

inductive CommandReceiptOutcome
  | accepted
  | idempotentReplay
  deriving DecidableEq

structure ProjectCommandReceipt where
  commandHmac : String
  hmacKeyVersion : ℕ
  actorUserId : Uuid
  roomEpoch : Uuid
  acceptedSequence : ℕ
  outcome : CommandReceiptOutcome

structure ProjectCheckpoint where
  name : String
  document : ProjectDocument

structure Project where
  workspaceId : Uuid
  name : String
  createdByUserId : Uuid

def projectNameMaxLength : ℕ := 160

/-- The one rule every Project name follows. -/
def validatedProjectName (value : String) : Answered String := do
  require (strip value ≠ "") .blankName
  require ((strip value).length ≤ projectNameMaxLength) .longName
  return strip value

def Project.build (workspaceId : Uuid) (name : String) (createdByUserId : Uuid) :
    Answered Project := do
  let name ← validatedProjectName name
  return ⟨workspaceId, name, createdByUserId⟩

def ProjectCheckpoint.build (revision : ℕ) (name : String) (document : ProjectDocument) :
    Answered ProjectCheckpoint := do
  let name ← validatedProjectName name
  require (1 ≤ revision) .revisionTooLow
  return ⟨name, document⟩

/-- A head opens at sequence zero, level with a checkpoint. -/
def ProjectHead.forExistingProject (name : String) (document : ProjectDocument)
    (checkpointRevision : ℕ) (roomEpoch : Uuid) : Answered ProjectHead := do
  require (1 ≤ checkpointRevision) .revisionTooLow
  let name ← validatedProjectName name
  return ⟨roomEpoch, 0, 0, checkpointRevision, name, document⟩

def ProjectHead.isFullyCheckpointed (head : ProjectHead) : Prop :=
  head.checkpointSequence = head.collaborationSequence

instance (head : ProjectHead) : Decidable head.isFullyCheckpointed :=
  inferInstanceAs (Decidable (head.checkpointSequence = head.collaborationSequence))

/-- One accepted batch: the sequence advances exactly once. -/
def ProjectHead.applyAcceptedBatch (head : ProjectHead) (name : String)
    (document : ProjectDocument) : Answered ProjectHead := do
  let name ← validatedProjectName name
  return { head with
    name := name
    document := document
    collaborationSequence := head.collaborationSequence + 1 }

def ProjectHead.recordCheckpoint (head : ProjectHead) (sequence revision : ℕ) :
    Answered ProjectHead := do
  require (sequence = head.collaborationSequence) .checkpointSequence
  require (1 ≤ revision) .revisionTooLow
  return { head with checkpointSequence := sequence, checkpointRevision := revision }

/-- The copy of a stored receipt that answers a repeated command. -/
def ProjectCommandReceipt.replayed (receipt : ProjectCommandReceipt) : ProjectCommandReceipt :=
  { receipt with outcome := .idempotentReplay }

end Entities

section Rows

/-- The rows of one Project. Checkpoints, receipts and mappings are appended
and never touched again. -/
structure Room where
  project : Option Project
  head : Option ProjectHead
  checkpoints : Dict ℕ ProjectCheckpoint
  receipts : Dict Uuid ProjectCommandReceipt
  mappings : Dict (Uuid × ℕ) ℕ

def Room.empty : Room := ⟨none, none, [], [], []⟩

/-- What a Workspace sees: the rows of another one's Project are not there. -/
def Room.rows (room : Room) (workspaceId : Uuid) : Room :=
  if room.project.map Project.workspaceId = some workspaceId then room else .empty

/-- The primary key refuses a second row. -/
def insertRow {K V : Type} [DecidableEq K] (table : Dict K V) (key : K) (row : V) :
    Answered (Dict K V) := do
  require (key ∉ table.keys) .concurrentWrite
  return table ++ [(key, row)]

/-- The head is saved together with the checkpoint it is level with and the
mapping that leads from its sequence to that checkpoint. -/
def Room.writeCheckpoint (room : Room) (head : ProjectHead) (checkpoint : ProjectCheckpoint) :
    Answered Room := do
  let checkpoints ← insertRow room.checkpoints head.checkpointRevision checkpoint
  let mappings ← insertRow room.mappings (head.roomEpoch, head.collaborationSequence)
    head.checkpointRevision
  return { room with head := some head, checkpoints := checkpoints, mappings := mappings }

def initialCheckpointRevision : ℕ := 1

/-- `stage_project`: Project, checkpoint 1, head and mapping. -/
def Room.stageProject (room : Room) (project : Project) (document : ProjectDocument)
    (roomEpoch : Uuid) : Answered (ProjectHead × Room) := do
  let checkpoint ← ProjectCheckpoint.build initialCheckpointRevision project.name document
  let head ← ProjectHead.forExistingProject project.name document initialCheckpointRevision
    roomEpoch
  require (room.project.isNone ∧ room.head.isNone) .objectAlreadyExists
  let room ← Room.writeCheckpoint { room with project := some project } head checkpoint
  return (head, room)

/-- The rows as the statements a transaction makes before it holds the head
have found them. Each may have seen an older state than the next. -/
structure Glimpse where
  project : Room
  receipt : Room
  head : Room
  checkpoint : Room

/-- Nothing happened between the first statement and the lock. -/
def Room.glimpse (room : Room) : Glimpse := ⟨room, room, room, room⟩

def Room.projectOrRaise (room : Room) : Answered Project :=
  match room.project with
  | none => .error .projectNotFound
  | some project => .ok project

variable (casefold : String → String) (destination : String → Option String)

/-- A stored document is validated on its way back in; one that passes is the
one that was stored. -/
def load (document : ProjectDocument) : Answered Unit := do
  let _ ← (Validation.readProject destination casefold
    (Dumps.dumpProject document)).mapError .unreadable
  return ()

def Room.lockHead (room : Room) : Answered ProjectHead :=
  match room.head with
  | none => .error .missingProjectHead
  | some head => do
    load casefold destination head.document
    return head

def Room.checkpointOrRaise (room : Room) (revision : ℕ) : Answered ProjectCheckpoint :=
  match room.checkpoints.get? revision with
  | none => .error (.checkpointNotFound revision)
  | some checkpoint => do
    load casefold destination checkpoint.document
    return checkpoint

def headMoved (head : ProjectHead) (expectedSequence : ℤ) : CollaborationError :=
  .headMoved expectedSequence head.collaborationSequence head.roomEpoch

end Rows

structure CommandSubmission where
  head : ProjectHead
  receipt : ProjectCommandReceipt

structure CheckpointOutcome where
  head : ProjectHead
  revision : ℕ

structure ProjectCreation where
  project : Project
  head : ProjectHead
  receipt : Option ProjectCommandReceipt

/-- The arguments of `submit_commands`. -/
structure Submission where
  actor : Uuid
  workspaceId : Uuid
  projectId : Uuid
  commandId : Uuid
  observedSequence : ℤ
  observedRoomEpoch : Uuid
  commands : List ProjectCommand

/-- What the caller has read of the head it wants checkpointed or restored. -/
structure Expected where
  workspaceId : Uuid
  sequence : ℤ
  roomEpoch : Uuid

/-- A Project about to be opened, with the batch that would have made its
document. -/
structure Opening where
  actor : Uuid
  projectId : Uuid
  project : Project
  document : ProjectDocument
  commands : List ProjectCommand
  commandId : Option Uuid

section Service

variable (casefold : String → String) (destination : String → Option String)
variable (hmac : String → String) (keyVersion : ℕ)

def Submission.digest (submission : Submission) : String :=
  commandHmacDigest hmac submission.workspaceId submission.projectId submission.actor
    submission.observedRoomEpoch submission.observedSequence submission.commands

/-- An opening is signed with the epoch its receipt has, at sequence zero. -/
def Opening.digest (opening : Opening) (roomEpoch : Uuid) : String :=
  commandHmacDigest hmac opening.project.workspaceId opening.projectId opening.actor roomEpoch 0
    opening.commands

def authorize (access : Access) (workspaceId : Uuid) (capability : WorkspaceCapability) :
    Answered Unit :=
  (access workspaceId capability).mapError .access

/-- The check made before anything is locked: an id reused for another payload
is refused whatever the head says. -/
def checkSeen (commandId : Uuid) (digest : String) : Option ProjectCommandReceipt → Answered Unit
  | none => .ok ()
  | some existing => require (existing.commandHmac = digest) (.idempotencyMismatch commandId)

/-- The part of `submit_commands` that accepts the batch. -/
def acceptBatch (submission : Submission) (head : ProjectHead) (room : Room) :
    Answered (CommandSubmission × Room) := do
  require (head.roomEpoch = submission.observedRoomEpoch ∧
    ¬ (head.collaborationSequence : ℤ) < submission.observedSequence)
    (headMoved head submission.observedSequence)
  require (¬ ((head.collaborationSequence : ℤ) > submission.observedSequence ∧
    requiresExactSequence submission.commands)) (headMoved head submission.observedSequence)
  let next ← (applyProjectCommands casefold destination head.name head.document
    submission.commands).mapError .batch
  let head ← head.applyAcceptedBatch next.1 next.2
  let receipt : ProjectCommandReceipt := ⟨submission.digest hmac, keyVersion, submission.actor,
    head.roomEpoch, head.collaborationSequence, .accepted⟩
  let receipts ← insertRow room.receipts submission.commandId receipt
  return (⟨head, receipt⟩, { room with head := some head, receipts := receipts })

def submitCommands (access : Access) (seen : Glimpse) (submission : Submission) (room : Room) :
    Answered (CommandSubmission × Room) := do
  require (submission.commands ≠ []) .emptyBatch
  authorize access submission.workspaceId .editProject
  let _ ← (seen.project.rows submission.workspaceId).projectOrRaise
  checkSeen submission.commandId (submission.digest hmac)
    ((seen.receipt.rows submission.workspaceId).receipts.get? submission.commandId)
  let head ← (room.rows submission.workspaceId).lockHead casefold destination
  -- read again with the head held: a concurrent retry replays instead of failing
  match (room.rows submission.workspaceId).receipts.get? submission.commandId with
  | some acceptedAlready => do
    require (acceptedAlready.commandHmac = submission.digest hmac)
      (.idempotencyMismatch submission.commandId)
    return (⟨head, acceptedAlready.replayed⟩, room)
  | none => acceptBatch casefold destination hmac keyVersion submission head room

/-- Checkpoint and restore are refused once the head has moved. -/
def requireUnmoved (head : ProjectHead) (roomEpoch : Uuid) (sequence : ℤ) : Answered Unit :=
  require (head.roomEpoch = roomEpoch ∧ (head.collaborationSequence : ℤ) = sequence)
    (headMoved head sequence)

def checkpoint (access : Access) (seen : Glimpse) (expected : Expected) (room : Room) :
    Answered (CheckpointOutcome × Room) := do
  authorize access expected.workspaceId .checkpointProject
  let _ ← (seen.project.rows expected.workspaceId).projectOrRaise
  let head ← (room.rows expected.workspaceId).lockHead casefold destination
  requireUnmoved head expected.roomEpoch expected.sequence
  if head.isFullyCheckpointed then
    let mapping := (room.rows expected.workspaceId).mappings.get?
      (head.roomEpoch, head.checkpointSequence)
    return (⟨head, mapping.getD head.checkpointRevision⟩, room)
  else
    let revision := head.checkpointRevision + 1
    let checkpoint ← ProjectCheckpoint.build revision head.name head.document
    let head ← head.recordCheckpoint head.collaborationSequence revision
    let room ← (room.writeCheckpoint head checkpoint).mapError
      (fun _ => .checkpointConflict revision)
    return (⟨head, revision⟩, room)

def requireCheckpointed (head : ProjectHead) : Answered Unit :=
  require head.isFullyCheckpointed
    (.uncheckpointed head.collaborationSequence head.checkpointSequence)

/-- The restored document is written forward as a new revision, and the room
reopens under the given epoch. -/
def restoreCheckpoint (access : Access) (seen : Glimpse) (expected : Expected) (revision : ℕ)
    (roomEpoch : Uuid) (room : Room) : Answered (CheckpointOutcome × Room) := do
  authorize access expected.workspaceId .checkpointProject
  let _ ← (seen.project.rows expected.workspaceId).projectOrRaise
  let checkpoint ←
    (seen.checkpoint.rows expected.workspaceId).checkpointOrRaise casefold destination revision
  let head ← (room.rows expected.workspaceId).lockHead casefold destination
  requireUnmoved head expected.roomEpoch expected.sequence
  requireCheckpointed head
  let restoredRevision := head.checkpointRevision + 1
  let restored ← ProjectCheckpoint.build restoredRevision checkpoint.name checkpoint.document
  let reopened ← ProjectHead.forExistingProject restored.name restored.document restoredRevision
    roomEpoch
  let room ← (room.writeCheckpoint reopened restored).mapError
    (fun _ => .checkpointConflict restoredRevision)
  return (⟨reopened, restoredRevision⟩, room)

/-- With both the epoch and the sequence the caller deletes what it has read;
without, uncheckpointed work is refused. The rows go with the Project. -/
def deleteProject (access : Access) (seen : Glimpse) (workspaceId : Uuid)
    (expectedRoomEpoch : Option Uuid) (expectedSequence : Option ℤ) (room : Room) :
    Answered Room := do
  authorize access workspaceId .deleteProject
  let _ ← (seen.project.rows workspaceId).projectOrRaise
  let head ← (room.rows workspaceId).lockHead casefold destination
  match expectedRoomEpoch, expectedSequence with
  | some roomEpoch, some sequence => requireUnmoved head roomEpoch sequence
  | _, _ => requireCheckpointed head
  return .empty

/-- `_opening_replay`: the Project an already accepted opening has created. -/
def openingReplay (seen : Glimpse) (opening : Opening) : Answered (Option ProjectCreation) :=
  match opening.commandId with
  | none => .ok none
  | some commandId =>
    match (seen.receipt.rows opening.project.workspaceId).receipts.get? commandId with
    | none => .ok none
    | some existing => do
      let head ← (seen.head.rows opening.project.workspaceId).lockHead casefold destination
      match (seen.project.rows opening.project.workspaceId).project with
      | none => .error .missingProjectHead
      | some project => do
        require (existing.commandHmac = opening.digest hmac existing.roomEpoch ∧
          head.name = opening.project.name) (.idempotencyMismatch commandId)
        return some ⟨project, head, some existing.replayed⟩

/-- `_stage_opening_receipt` -/
def stageOpeningReceipt (opening : Opening) (head : ProjectHead) (room : Room) :
    Answered (Option ProjectCommandReceipt × Room) :=
  match opening.commandId with
  | none => .ok (none, room)
  | some commandId => do
    let receipt : ProjectCommandReceipt := ⟨opening.digest hmac head.roomEpoch, keyVersion,
      opening.actor, head.roomEpoch, head.collaborationSequence, .accepted⟩
    let receipts ← insertRow room.receipts commandId receipt
    return (some receipt, { room with receipts := receipts })

/-- What creation and copy have in common once they know what to open. -/
def openProject (seen : Glimpse) (opening : Opening) (roomEpoch : Uuid) (room : Room) :
    Answered (ProjectCreation × Room) := do
  match ← openingReplay casefold destination hmac seen opening with
  | some creation => return (creation, room)
  | none => do
    let staged ← room.stageProject opening.project opening.document roomEpoch
    let recorded ← stageOpeningReceipt hmac keyVersion opening staged.1 staged.2
    return (⟨opening.project, staged.1, recorded.1⟩, recorded.2)

/-- The calls that can write the rows of one Project, with the epoch the call
draws when it opens a room. -/
inductive Call
  | openProject (opening : Opening) (roomEpoch : Uuid)
  | submitCommands (submission : Submission)
  | checkpoint (expected : Expected)
  | restoreCheckpoint (expected : Expected) (revision : ℕ) (roomEpoch : Uuid)

inductive Answer
  | created (creation : ProjectCreation)
  | submitted (submission : CommandSubmission)
  | checkpointed (outcome : CheckpointOutcome)

def Room.answer (access : Access) (seen : Glimpse) (room : Room) : Call → Answered (Answer × Room)
  | .openProject opening roomEpoch => do
    let result ← Collaboration.openProject casefold destination hmac keyVersion seen opening
      roomEpoch
      room
    return (.created result.1, result.2)
  | .submitCommands submission => do
    let result ← Collaboration.submitCommands casefold destination hmac keyVersion access seen
      submission room
    return (.submitted result.1, result.2)
  | .checkpoint expected => do
    let result ← Collaboration.checkpoint casefold destination access seen expected room
    return (.checkpointed result.1, result.2)
  | .restoreCheckpoint expected revision roomEpoch => do
    let result ← Collaboration.restoreCheckpoint casefold destination access seen expected revision
      roomEpoch room
    return (.checkpointed result.1, result.2)

end Service

/-- An error throws the transaction's writes away. -/
def commit {A : Type} (room : Room) : Answered (A × Room) → Answered A × Room
  | .error error => (.error error, room)
  | .ok (answer, written) => (.ok answer, written)

end Grafy.Collaboration
