import Grafy.UploadInspection
import Mathlib.Data.List.Infix

/-!
The life of one upload. A client reserves it, sends its bytes, and completes it; a sweep
expires what is abandoned and deletes what was stored for it. Every call reads the row, the
object and the clock in statements of their own, between which other calls run, and any call
may be lost. Only the updates that ask for a pending row, and the saving that never
overwrites, stand between them.
-/
namespace Grafy.Uploads

open GraphDocuments Inspection

structure UploadServiceConfig where
  maxUploadBytes : ℕ
  uploadLifetime : ℤ
  uploadTargetTtl : ℤ
  uploadReceiveTimeout : ℤ
  lifetime_exceeds : uploadTargetTtl < uploadLifetime
  receive_positive : 0 < uploadReceiveTimeout

inductive UploadStatus
  | pending
  | ready
  | failed
  | expired
deriving DecidableEq

def UploadStatus.text : UploadStatus → String
  | pending => "pending"
  | ready => "ready"
  | failed => "failed"
  | expired => "expired"

structure Upload where
  workspaceId : String
  uploadId : String
  originalFilename : String
  bucket : String
  objectKey : String
  expectedSize : ℕ
  contentType : Option String
  status : UploadStatus
  actualSize : Option ℕ
  sha256 : Option String
  artifactType : Option String
  artifactSchemaVersion : Option ℤ
  artifactId : Option String
  createdAt : ℤ
  completedAt : Option ℤ
deriving DecidableEq

structure ArtifactObject where
  workspaceId : String
  artifactType : String
  schemaVersion : ℤ
  contentType : String
  id : String
  storageBackend : String
  bucket : String
  objectKey : String
  byteSize : ℕ
  sha256 : String
  originalFilename : String
deriving DecidableEq

inductive ErrorKind
  | tooLarge
  | notFound
  | state
  | expired
  | transportUnsupported
  | formatMismatch
  | objectAlreadyExists
  | fileNotFound
  | other
deriving DecidableEq

structure UploadError where
  kind : ErrorKind
  message : String
deriving DecidableEq

structure UploadResult where
  upload : Upload
  artifactType : ArtifactTypeKey
deriving DecidableEq

/-- The service, as a deployment configures it. -/
structure Service where
  config : UploadServiceConfig
  inspector : Inspector
  storageBackend : String
  acceptsDirectUpload : Bool

section Repository

/-- `finalize_if_pending`. -/
def finalizeIfPending (row : Option Upload) (inspection : UploadInspection) (artifactId : String)
    (completedAt notOlderThan : ℤ) : Option Upload :=
  (row.filter (fun u => u.status = .pending ∧ notOlderThan ≤ u.createdAt)).map (fun u =>
    { u with
      status := .ready
      actualSize := some inspection.byteSize
      sha256 := some inspection.sha256
      artifactType := some inspection.artifactType.id
      artifactSchemaVersion := some inspection.artifactType.schemaVersion
      artifactId := some artifactId
      completedAt := some completedAt })

/-- `mark_terminal_if_pending`. -/
def markTerminalIfPending (row : Option Upload) (status : UploadStatus) : Option Upload :=
  (row.filter (fun u => u.status = .pending)).map (fun u => { u with status })

def UploadStatus.isTerminal (status : UploadStatus) : Bool := status = failed || status = expired

/-- `list_cleanup_candidates`, as far as it is about one upload. -/
def listCleanupCandidates (row : Option Upload) (pendingBefore terminalBefore : ℤ) (limit : ℕ) :
    List Upload :=
  (row.toList.filter (fun u => (u.status = .pending ∧ u.createdAt < pendingBefore) ∨
    (u.status.isTerminal ∧ u.createdAt < terminalBefore))).take limit

/-- `delete_terminal`: the row that is left, and whether one was deleted. -/
def deleteTerminal (row : Option Upload) : Option Upload × Bool :=
  if row.any (fun u => u.status.isTerminal) then (none, true) else (row, false)

end Repository

inductive ReceivePhase
  | begun
  | expiring (record : Upload)
  | admitted (record : Upload)
  | finished (error : Option UploadError)
  | lost

inductive CompletePhase
  | begun
  | pending (record : Upload)
  | inspecting (record : Upload) (declaredByteSize : ℕ)
  | inspected (record : Upload) (inspection : UploadInspection)
  | failing (record : Upload) (status : UploadStatus) (error : UploadError)
  | finalized (result : UploadResult)
  | finished (result : Except UploadError UploadResult)
  | lost

inductive CleanupPhase
  | begun
  | candidate (record : Upload) (terminalBefore : ℤ)
  | deleting (terminal : Upload)
  | removing (terminal : Upload)
  | finished (discarded : Option ℕ)
  | lost

inductive Call
  | receive (stream : Bytes) (phase : ReceivePhase)
  | complete (phase : CompletePhase)
  | cleanup (olderThan : Option ℤ) (limit : ℕ) (phase : CleanupPhase)

/-- The row and the object of the upload that every call is about, the artifacts committed
for it, and the calls. -/
structure State where
  workspaceId : String
  uploadId : String
  row : Option Upload
  object : Option Bytes
  artifacts : List ArtifactObject
  calls : List Call

/-- What a statement finds outside the tables: the clock, which it may read twice, a fresh
identity, the chunks that reading the object yields, and whether it fails. -/
structure Given where
  now : ℤ
  later : ℤ
  artifactId : String
  chunks : List Bytes
  fault : Bool

def faultError : UploadError := ⟨.other, "storage or database failure"⟩

namespace Service

variable (service : Service)

def stateError (record : Upload) : UploadError :=
  ⟨.state, "Upload " ++ record.uploadId ++ " is " ++ record.status.text ++ " and cannot be used"⟩

def notFoundError (s : State) : UploadError :=
  ⟨.notFound, "Upload " ++ s.uploadId ++ " was not found in workspace " ++ s.workspaceId⟩

def expiredError (record : Upload) : UploadError :=
  ⟨.expired, "Upload " ++ service.inspector.repr record.originalFilename ++
    " expired before it was used"⟩

def tooLargeError (record : Upload) : UploadError :=
  ⟨.tooLarge, "Upload " ++ service.inspector.repr record.originalFilename ++
    " exceeds the upload limit of " ++ toString service.config.maxUploadBytes ++ " bytes"⟩

/-- The error that an error of the inspection is raised as. -/
def inspectionError (error : InspectionError) : UploadError :=
  let message := error.message service.inspector.repr
  match error with
  | .formatMismatch _ _ => ⟨.formatMismatch, message⟩
  | _ => if "exceeds the upload limit".toList <:+: message.toList then ⟨.tooLarge, message⟩
    else ⟨.state, message⟩

/-- `_is_past_lifetime`. -/
def isPastLifetime (record : Upload) (now : ℤ) : Bool :=
  now - record.createdAt > service.config.uploadLifetime

/-- `_result_from_ready`. -/
def resultFromReady (record : Upload) : Except UploadError UploadResult :=
  match record.artifactType, record.artifactSchemaVersion, record.artifactId with
  | some artifactType, some version, some _ => .ok ⟨record, ⟨artifactType, version⟩⟩
  | _, _, _ => .error ⟨.state, "Upload " ++ record.uploadId ++
      " is ready without an artifact association"⟩

/-- `_require_pending`, up to the marking of an upload past its lifetime. -/
def requirePending (s : State) (given : Given) : ReceivePhase :=
  match s.row with
  | none => .finished (some (notFoundError s))
  | some record =>
    if record.status = .ready then
      .finished (some ⟨.state, "Upload " ++ record.uploadId ++ " is already complete"⟩)
    else if record.status ≠ .pending then .finished (some (stateError record))
    else if service.isPastLifetime record given.now then .expiring record
    else if given.later > record.createdAt + service.config.uploadTargetTtl then
      .finished (some (service.expiredError record))
    else .admitted record

/-- The next statement of `receive_content`. -/
def receiveNext (s : State) (given : Given) (stream : Bytes) :
    ReceivePhase → Option (State × ReceivePhase)
  | .begun =>
    if service.acceptsDirectUpload then some (s, service.requirePending s given)
    else some (s, .finished (some ⟨.transportUnsupported,
      "This deployment accepts upload bytes only through signed URLs"⟩))
  | .expiring record => some
    ({ s with row := (markTerminalIfPending s.row .expired).or s.row },
      .finished (some (service.expiredError record)))
  | .admitted record =>
    if stream.length > service.config.maxUploadBytes then
      some (s, .finished (some (service.tooLargeError record)))
    else match s.object with
      | some _ => some (s, .finished (some ⟨.objectAlreadyExists,
          "File already exists: " ++ record.bucket ++ "/" ++ record.objectKey⟩))
      | none => some ({ s with object := some stream }, .finished none)
  | .finished _ | .lost => none

/-- What `complete_upload` does with the row it loads. -/
def loadPending (s : State) (given : Given) : CompletePhase :=
  match s.row with
  | none => .finished (.error (notFoundError s))
  | some record =>
    if record.status = .ready then .finished (resultFromReady record)
    else if record.status ≠ .pending then .finished (.error (stateError record))
    else if service.isPastLifetime record given.now then
      .failing record .expired (service.expiredError record)
    else .pending record

def newArtifact (record : Upload) (inspection : UploadInspection) (artifactId : String) :
    ArtifactObject where
  workspaceId := record.workspaceId
  artifactType := inspection.artifactType.id
  schemaVersion := inspection.artifactType.schemaVersion
  contentType := record.contentType.getD "application/octet-stream"
  id := artifactId
  storageBackend := service.storageBackend
  bucket := record.bucket
  objectKey := record.objectKey
  byteSize := inspection.byteSize
  sha256 := inspection.sha256
  originalFilename := record.originalFilename

/-- What `complete_upload` answers when its own update found no pending row. -/
def lostFinalize (record : Upload) (current : Option Upload) : Except UploadError UploadResult :=
  match current with
  | some u =>
    if u.status = .ready then resultFromReady u
    else if u.status = .expired then .error (service.expiredError record)
    else .error ⟨.state, "Upload " ++ service.inspector.repr record.originalFilename ++
      " is no longer pending"⟩
  | none => .error ⟨.state, "Upload " ++ service.inspector.repr record.originalFilename ++
      " is no longer pending"⟩

/-- The next statement of `complete_upload`. -/
def completeNext (s : State) (given : Given) : CompletePhase → Option (State × CompletePhase)
  | .begun => some (s, service.loadPending s given)
  | .pending record =>
    match s.object with
    | none => some (s, .failing record .failed ⟨.state, "Upload " ++
        service.inspector.repr record.originalFilename ++ " has no stored bytes"⟩)
    | some content =>
      if content.length > service.config.maxUploadBytes then
        some (s, .failing record .failed (service.tooLargeError record))
      else some (s, .inspecting record content.length)
  | .inspecting record declared =>
    match s.object with
    | none => some (s, .finished (.error ⟨.fileNotFound, "No such file: " ++ record.objectKey⟩))
    | some content =>
      if given.chunks.flatten = content ∧ [] ∉ given.chunks then
        match service.inspector.inspectChunks record.originalFilename record.expectedSize
          service.config.maxUploadBytes (some declared) given.chunks with
        | .error error => some (s, .failing record .failed (service.inspectionError error))
        | .ok inspection => some (s, .inspected record inspection)
      else none
  | .inspected record inspection =>
    match finalizeIfPending s.row inspection given.artifactId given.now
      (given.later - service.config.uploadLifetime) with
    | some finalized => some
      ({ s with
          row := some finalized
          artifacts := s.artifacts ++ [service.newArtifact record inspection given.artifactId] },
        .finalized ⟨finalized, inspection.artifactType⟩)
    | none => some (s, .finished (service.lostFinalize record s.row))
  | .failing _ status error => some
    ({ s with row := (markTerminalIfPending s.row status).or s.row }, .finished (.error error))
  | .finalized result => some (s, .finished (.ok result))
  | .finished _ | .lost => none

/-- What the sweep does with a row that is not pending. -/
def sweepTerminal (terminal : Upload) (terminalBefore : ℤ) : CleanupPhase :=
  if terminal.status = .ready then .finished (some 0)
  else if terminal.createdAt ≥ terminalBefore then .finished (some 0)
  else .deleting terminal

/-- The next statement of `cleanup_abandoned`. -/
def cleanupNext (s : State) (given : Given) (olderThan : Option ℤ) (limit : ℕ) :
    CleanupPhase → Option (State × CleanupPhase)
  | .begun =>
    let pendingBefore := given.now - olderThan.getD service.config.uploadLifetime
    let grace := service.config.uploadTargetTtl + service.config.uploadReceiveTimeout
    let deletionGrace := match olderThan with
      | some older => if older < grace then older else grace
      | none => grace
    let terminalBefore := given.now - deletionGrace
    match listCleanupCandidates s.row pendingBefore terminalBefore limit with
    | [] => some (s, .finished (some 0))
    | record :: _ => some (s, .candidate record terminalBefore)
  | .candidate record terminalBefore =>
    if record.status = .pending then
      match markTerminalIfPending s.row .expired with
      | none => some (s, .finished (some 0))
      | some marked => some ({ s with row := some marked }, sweepTerminal marked terminalBefore)
    else some (s, sweepTerminal record terminalBefore)
  | .deleting terminal => some ({ s with object := none }, .removing terminal)
  | .removing _ =>
    let (row, removed) := deleteTerminal s.row
    some ({ s with row }, .finished (some (if removed then 1 else 0)))
  | .finished _ | .lost => none

/-- What becomes of a call whose statement fails. -/
def failed : Call → Option Call
  | .receive stream phase =>
    match phase with
    | .begun | .expiring _ | .admitted _ => some (.receive stream (.finished (some faultError)))
    | .finished _ | .lost => none
  | .complete phase =>
    match phase with
    | .begun | .pending _ | .inspecting _ _ | .inspected _ _ | .failing _ _ _ =>
      some (.complete (.finished (.error faultError)))
    | .finalized _ | .finished _ | .lost => none
  | .cleanup olderThan limit phase =>
    match phase with
    | .begun => some (.cleanup olderThan limit (.finished none))
    | .candidate _ _ | .deleting _ | .removing _ =>
      some (.cleanup olderThan limit (.finished (some 0)))
    | .finished _ | .lost => none

def lostCall : Call → Call
  | .receive stream _ => .receive stream .lost
  | .complete _ => .complete .lost
  | .cleanup olderThan limit _ => .cleanup olderThan limit .lost

/-- The next statement of a call. -/
def callNext (s : State) (given : Given) : Call → Option (State × Call)
  | .receive stream phase =>
    (service.receiveNext s given stream phase).map (fun next => (next.1, .receive stream next.2))
  | .complete phase =>
    (service.completeNext s given phase).map (fun next => (next.1, .complete next.2))
  | .cleanup olderThan limit phase =>
    (service.cleanupNext s given olderThan limit phase).map
      (fun next => (next.1, .cleanup olderThan limit next.2))

end Service

inductive Act
  | receive (stream : Bytes)
  | complete
  | cleanup (olderThan : Option ℤ) (limit : ℕ)
  | next (call : ℕ) (given : Given)
  | lose (call : ℕ)

def Service.step (service : Service) (s : State) : Act → Option State
  | .receive stream => some { s with calls := s.calls ++ [.receive stream .begun] }
  | .complete => some { s with calls := s.calls ++ [.complete .begun] }
  | .cleanup olderThan limit =>
    some { s with calls := s.calls ++ [.cleanup olderThan limit .begun] }
  | .next i given => do
    let call ← s.calls[i]?
    if given.fault then
      let call ← failed call
      return { s with calls := s.calls.set i call }
    else
      let (s', call) ← service.callNext s given call
      return { s' with calls := s.calls.set i call }
  | .lose i => do
    let call ← s.calls[i]?
    return { s with calls := s.calls.set i (lostCall call) }

/-- The states that a run from one state leads to. -/
def Service.Runs (service : Service) : State → State → Prop :=
  Relation.ReflTransGen (fun s s' => ∃ act, service.step s act = some s')

/-- An upload as `create_upload` reserves it. -/
structure Reservation where
  workspaceId : String
  uploadId : String
  originalFilename : String
  bucket : String
  expectedSize : ℕ
  contentType : Option String
  createdAt : ℤ

def Reservation.upload (r : Reservation) : Upload where
  workspaceId := r.workspaceId
  uploadId := r.uploadId
  originalFilename := r.originalFilename
  bucket := r.bucket
  objectKey := "objects/" ++ r.uploadId
  expectedSize := r.expectedSize
  contentType := r.contentType
  status := .pending
  actualSize := none
  sha256 := none
  artifactType := none
  artifactSchemaVersion := none
  artifactId := none
  createdAt := r.createdAt
  completedAt := none

def Reservation.state (r : Reservation) : State :=
  ⟨r.workspaceId, r.uploadId, some r.upload, none, [], []⟩

end Grafy.Uploads
