import Grafy.Collaboration
import Grafy.CommandSteps

/-!
What a call can do to the rows of a Project. Every call that is answered
either leaves the rows as they were, or accepts one batch, or appends one
checkpoint, for the head as it stands, for a restored document or for a Project
that is being opened.
-/
namespace Grafy.Collaboration

open CommandEnvelopes Commands Grafy.Project Loops OrderedDict Texts

variable {revision : ℕ} {roomEpoch : Uuid} {room : Room}

section Parts

/-- A name its own check leaves alone. -/
def ProperName (name : String) : Prop := validatedProjectName name = .ok name

variable {name : String} {value : String}

theorem validatedProjectName_ok : validatedProjectName value = .ok name ↔
    strip value ≠ "" ∧ (strip value).length ≤ projectNameMaxLength ∧ strip value = name := by
  simp [validatedProjectName, bind_ok, require_ok, pure, Except.pure]

theorem properName_of_validated (h : validatedProjectName value = .ok name) : ProperName name := by
  obtain ⟨hblank, hlong, rfl⟩ := validatedProjectName_ok.mp h
  exact validatedProjectName_ok.mpr ⟨by simpa using hblank, by simpa using hlong, by simp⟩

theorem ProperName.validated {other : String} (h : ProperName name) :
    validatedProjectName name = .ok other ↔ name = other := by
  unfold ProperName at h
  rw [h, Except.ok.injEq]

theorem insertRow_ok {K V : Type} [DecidableEq K] {table result : Dict K V} {key : K} {row : V} :
    insertRow table key row = .ok result ↔ key ∉ table.keys ∧ result = table ++ [(key, row)] := by
  simp only [insertRow, bind_ok, require_ok, pure, Except.pure, Except.ok.injEq]
  constructor
  · rintro ⟨-, hkey, rfl⟩
    exact ⟨hkey, rfl⟩
  · rintro ⟨hkey, rfl⟩
    exact ⟨(), hkey, rfl⟩

variable {document : ProjectDocument} {checkpoint : ProjectCheckpoint}

theorem build_checkpoint_ok :
    ProjectCheckpoint.build revision name document = .ok checkpoint ↔
      1 ≤ revision ∧ validatedProjectName name = .ok checkpoint.name ∧
        checkpoint.document = document := by
  obtain ⟨checkedName, checkedDocument⟩ := checkpoint
  simp only [ProjectCheckpoint.build, bind_ok, require_ok, pure, Except.pure, Except.ok.injEq,
    ProjectCheckpoint.mk.injEq]
  constructor
  · rintro ⟨checked, hname, -, hrevision, rfl, rfl⟩
    exact ⟨hrevision, hname, rfl⟩
  · rintro ⟨hrevision, hname, rfl⟩
    exact ⟨checkedName, hname, (), hrevision, rfl, rfl⟩

variable {head : ProjectHead} {next : ProjectHead}

theorem forExistingProject_ok :
    ProjectHead.forExistingProject name document revision roomEpoch = .ok head ↔
      1 ≤ revision ∧ ∃ checked, validatedProjectName name = .ok checked ∧
        head = ⟨roomEpoch, 0, 0, revision, checked, document⟩ := by
  simp only [ProjectHead.forExistingProject, bind_ok, require_ok, pure, Except.pure,
    Except.ok.injEq]
  constructor
  · rintro ⟨-, hrevision, checked, hname, rfl⟩
    exact ⟨hrevision, checked, hname, rfl⟩
  · rintro ⟨hrevision, checked, hname, rfl⟩
    exact ⟨(), hrevision, checked, hname, rfl⟩

theorem applyAcceptedBatch_ok :
    head.applyAcceptedBatch name document = .ok next ↔
      ∃ checked, validatedProjectName name = .ok checked ∧
        next = { head with
          name := checked
          document := document
          collaborationSequence := head.collaborationSequence + 1 } := by
  simp only [ProjectHead.applyAcceptedBatch, bind_ok, pure, Except.pure, Except.ok.injEq]
  constructor
  · rintro ⟨checked, hname, rfl⟩
    exact ⟨checked, hname, rfl⟩
  · rintro ⟨checked, hname, rfl⟩
    exact ⟨checked, hname, rfl⟩

theorem recordCheckpoint_ok {sequence : ℕ} :
    head.recordCheckpoint sequence revision = .ok next ↔
      sequence = head.collaborationSequence ∧ 1 ≤ revision ∧
        next = { head with checkpointSequence := sequence, checkpointRevision := revision } := by
  simp only [ProjectHead.recordCheckpoint, bind_ok, require_ok, pure, Except.pure, Except.ok.injEq]
  constructor
  · rintro ⟨-, hsequence, -, hrevision, rfl⟩
    exact ⟨hsequence, hrevision, rfl⟩
  · rintro ⟨hsequence, hrevision, rfl⟩
    exact ⟨(), hsequence, (), hrevision, rfl⟩

/-- The rows after a checkpoint and its mapping have been appended. -/
def Room.checkpointed (room : Room) (head : ProjectHead) (checkpoint : ProjectCheckpoint) : Room :=
  { room with
    head := some head
    checkpoints := room.checkpoints ++ [(head.checkpointRevision, checkpoint)]
    mappings := room.mappings ++
      [((head.roomEpoch, head.collaborationSequence), head.checkpointRevision)] }

theorem writeCheckpoint_ok {result : Room} :
    room.writeCheckpoint head checkpoint = .ok result ↔
      head.checkpointRevision ∉ room.checkpoints.keys ∧
        (head.roomEpoch, head.collaborationSequence) ∉ room.mappings.keys ∧
        result = room.checkpointed head checkpoint := by
  simp only [Room.writeCheckpoint, bind_ok, insertRow_ok, pure, Except.pure, Except.ok.injEq]
  constructor
  · rintro ⟨_, ⟨hrevision, rfl⟩, _, ⟨hmapping, rfl⟩, rfl⟩
    exact ⟨hrevision, hmapping, rfl⟩
  · rintro ⟨hrevision, hmapping, rfl⟩
    exact ⟨_, ⟨hrevision, rfl⟩, _, ⟨hmapping, rfl⟩, rfl⟩

variable {workspaceId : Uuid}

variable {casefold : String → String} {destination : String → Option String}

theorem lockHead_ok : room.lockHead casefold destination = .ok head ↔
    room.head = some head ∧ load casefold destination head.document = .ok () := by
  unfold Room.lockHead
  cases room.head with
  | none => simp
  | some found =>
    simp only [bind_ok, pure, Except.pure, Except.ok.injEq, Option.some.injEq]
    constructor
    · rintro ⟨_, hload, rfl⟩
      exact ⟨rfl, hload⟩
    · rintro ⟨rfl, hload⟩
      exact ⟨(), hload, rfl⟩

/-- A Workspace sees all rows or none. -/
theorem head_rows (h : (room.rows workspaceId).head = some head) :
    room.rows workspaceId = room ∧ room.head = some head := by
  unfold Room.rows at h ⊢
  split_ifs at h ⊢ with hws
  · exact ⟨rfl, h⟩
  · cases h

theorem lockHead_rows_ok (h : (room.rows workspaceId).lockHead casefold destination = .ok head) :
    room.rows workspaceId = room ∧ room.head = some head := head_rows (lockHead_ok.mp h).1

theorem checkpointOrRaise_ok
    (h : room.checkpointOrRaise casefold destination revision = .ok checkpoint) :
    room.checkpoints.get? revision = some checkpoint := by
  unfold Room.checkpointOrRaise at h
  cases hfound : room.checkpoints.get? revision with
  | none => simp [hfound] at h
  | some found =>
    rw [hfound] at h
    obtain ⟨_, -, h⟩ := bind_ok.mp h
    cases h
    rfl

theorem checkpoints_rows (h : (room.rows workspaceId).checkpoints.get? revision = some checkpoint) :
    room.checkpoints.get? revision = some checkpoint := by
  unfold Room.rows at h
  split_ifs at h
  · exact h
  · simp [Room.empty] at h

theorem receipts_rows {commandId : Uuid} {receipt : ProjectCommandReceipt}
    (h : (room.rows workspaceId).receipts.get? commandId = some receipt) :
    room.receipts.get? commandId = some receipt := by
  unfold Room.rows at h
  split_ifs at h
  · exact h
  · simp [Room.empty] at h

end Parts

section Transitions

def ProjectHead.advanced (head : ProjectHead) (name : String) (document : ProjectDocument) :
    ProjectHead :=
  { head with
    name := name
    document := document
    collaborationSequence := head.collaborationSequence + 1 }

/-- The head once it has been made durable as the next revision. -/
def ProjectHead.recorded (head : ProjectHead) : ProjectHead :=
  { head with
    checkpointSequence := head.collaborationSequence
    checkpointRevision := head.checkpointRevision + 1 }

variable (casefold : String → String) (destination : String → Option String)
variable (hmac : String → String) (keyVersion : ℕ)

/-- The receipt of a batch that has brought the head where it is. -/
def Submission.receipt (submission : Submission) (head : ProjectHead) : ProjectCommandReceipt :=
  ⟨submission.digest hmac, keyVersion, submission.actor, head.roomEpoch,
    head.collaborationSequence, .accepted⟩

def Room.accepted (room : Room) (submission : Submission) (head : ProjectHead) : Room :=
  { room with
    head := some head
    receipts := room.receipts ++ [(submission.commandId, submission.receipt hmac keyVersion head)] }

/-- The row an opening with a command id leaves, signed with the head's epoch. -/
def Opening.receipt? (opening : Opening) (head : ProjectHead) :
    Option (Uuid × ProjectCommandReceipt) :=
  opening.commandId.map (fun commandId => (commandId, ⟨opening.digest hmac head.roomEpoch,
    keyVersion, opening.actor, head.roomEpoch, head.collaborationSequence, .accepted⟩))

def Room.opened (room : Room) (opening : Opening) (head : ProjectHead) : Room :=
  { Room.checkpointed { room with project := some opening.project } head ⟨head.name, head.document⟩
    with receipts := room.receipts ++ (opening.receipt? hmac keyVersion head).toList }

/-- What a call that is answered has found and done. -/
inductive Transition (seen : Glimpse) (room : Room) : Call → Answer → Room → Prop
  | replayed {submission : Submission} {head : ProjectHead} {existing : ProjectCommandReceipt}
      (hhead : room.head = some head)
      (hreceipt : room.receipts.get? submission.commandId = some existing) :
      Transition seen room (.submitCommands submission) (.submitted ⟨head, existing.replayed⟩) room
  | accepted {submission : Submission} {head : ProjectHead} {next : String × ProjectDocument}
      {name : String}
      (hhead : room.head = some head)
      (hunused : submission.commandId ∉ room.receipts.keys)
      (happlied : applyProjectCommands casefold destination head.name head.document
        submission.commands = .ok next)
      (hname : validatedProjectName next.1 = .ok name) :
      Transition seen room (.submitCommands submission)
        (.submitted ⟨head.advanced name next.2,
          submission.receipt hmac keyVersion (head.advanced name next.2)⟩)
        (room.accepted hmac keyVersion submission (head.advanced name next.2))
  | level {expected : Expected} {head : ProjectHead}
      (hhead : room.head = some head)
      (hlevel : head.isFullyCheckpointed) :
      Transition seen room (.checkpoint expected)
        (.checkpointed ⟨head, (room.mappings.get?
          (head.roomEpoch, head.checkpointSequence)).getD head.checkpointRevision⟩) room
  | checkpointed {expected : Expected} {head : ProjectHead} {name : String}
      (hhead : room.head = some head)
      (hbehind : ¬ head.isFullyCheckpointed)
      (hname : validatedProjectName head.name = .ok name)
      (hrevision : head.checkpointRevision + 1 ∉ room.checkpoints.keys)
      (hmapping : (head.roomEpoch, head.collaborationSequence) ∉ room.mappings.keys) :
      Transition seen room (.checkpoint expected)
        (.checkpointed ⟨head.recorded, head.checkpointRevision + 1⟩)
        (room.checkpointed head.recorded ⟨name, head.document⟩)
  | restored {expected : Expected} {revision : ℕ} {roomEpoch : Uuid} {head : ProjectHead}
      {checkpoint : ProjectCheckpoint} {name : String}
      (hhead : room.head = some head)
      (hlevel : head.isFullyCheckpointed)
      (hseen : seen.checkpoint.checkpoints.get? revision = some checkpoint)
      (hname : validatedProjectName checkpoint.name = .ok name)
      (hrevision : head.checkpointRevision + 1 ∉ room.checkpoints.keys)
      (hmapping : (roomEpoch, 0) ∉ room.mappings.keys) :
      Transition seen room (.restoreCheckpoint expected revision roomEpoch)
        (.checkpointed
          ⟨⟨roomEpoch, 0, 0, head.checkpointRevision + 1, name, checkpoint.document⟩,
            head.checkpointRevision + 1⟩)
        (room.checkpointed
          ⟨roomEpoch, 0, 0, head.checkpointRevision + 1, name, checkpoint.document⟩
          ⟨name, checkpoint.document⟩)
  | reopened {opening : Opening} {roomEpoch : Uuid} {project : Project} {head : ProjectHead}
      {existing : ProjectCommandReceipt} :
      Transition seen room (.openProject opening roomEpoch)
        (.created ⟨project, head, some existing.replayed⟩) room
  | opened {opening : Opening} {roomEpoch : Uuid} {name : String}
      (hproject : room.project = none)
      (hhead : room.head = none)
      (hname : validatedProjectName opening.project.name = .ok name)
      (hrevision : 1 ∉ room.checkpoints.keys)
      (hmapping : (roomEpoch, 0) ∉ room.mappings.keys)
      (hunused : ∀ row ∈ opening.receipt? hmac keyVersion
        ⟨roomEpoch, 0, 0, 1, name, opening.document⟩,
        row.1 ∉ room.receipts.keys) :
      Transition seen room (.openProject opening roomEpoch)
        (.created ⟨opening.project, ⟨roomEpoch, 0, 0, 1, name, opening.document⟩,
          (opening.receipt? hmac keyVersion
            ⟨roomEpoch, 0, 0, 1, name, opening.document⟩).map Prod.snd⟩)
        (room.opened hmac keyVersion opening ⟨roomEpoch, 0, 0, 1, name, opening.document⟩)

variable {casefold destination hmac keyVersion}
variable {access : Access} {seen : Glimpse} {opening : Opening} {submission : Submission}
  {result : CommandSubmission × Room} {expected : Expected}

theorem acceptBatch_ok {head : ProjectHead}
    (h : acceptBatch casefold destination hmac keyVersion submission head room = .ok result) :
    submission.commandId ∉ room.receipts.keys ∧ ∃ next name,
      applyProjectCommands casefold destination head.name head.document submission.commands =
        .ok next ∧ validatedProjectName next.1 = .ok name ∧
      result = (⟨head.advanced name next.2,
        submission.receipt hmac keyVersion (head.advanced name next.2)⟩,
        room.accepted hmac keyVersion submission (head.advanced name next.2)) := by
  unfold acceptBatch at h
  obtain ⟨-, -, h⟩ := bind_ok.mp h
  obtain ⟨-, -, h⟩ := bind_ok.mp h
  obtain ⟨next, happlied, h⟩ := bind_ok.mp h
  obtain ⟨after, hafter, h⟩ := bind_ok.mp h
  obtain ⟨receipts, hreceipts, h⟩ := bind_ok.mp h
  obtain ⟨name, hname, rfl⟩ := applyAcceptedBatch_ok.mp hafter
  obtain ⟨hunused, rfl⟩ := insertRow_ok.mp hreceipts
  refine ⟨hunused, next, name, mapError_ok.mp happlied, hname, ?_⟩
  exact (Except.ok.inj h).symm

theorem submitCommands_transition
    (h : submitCommands casefold destination hmac keyVersion access seen submission room = .ok
      result) :
    Transition casefold destination hmac keyVersion seen room (.submitCommands submission)
      (.submitted result.1) result.2 := by
  unfold submitCommands at h
  obtain ⟨-, -, h⟩ := bind_ok.mp h
  obtain ⟨-, -, h⟩ := bind_ok.mp h
  obtain ⟨-, -, h⟩ := bind_ok.mp h
  obtain ⟨-, -, h⟩ := bind_ok.mp h
  obtain ⟨head, hlock, h⟩ := bind_ok.mp h
  obtain ⟨hrows, hhead⟩ := lockHead_rows_ok hlock
  rw [hrows] at h
  cases hreceipt : room.receipts.get? submission.commandId with
  | some existing =>
    simp only [hreceipt] at h
    obtain ⟨-, -, h⟩ := bind_ok.mp h
    cases h
    exact .replayed hhead hreceipt
  | none =>
    simp only [hreceipt] at h
    obtain ⟨hunused, next, name, happlied, hname, rfl⟩ := acceptBatch_ok h
    exact .accepted hhead hunused happlied hname

theorem checkpoint_transition {result : CheckpointOutcome × Room}
    (h : checkpoint casefold destination access seen expected room = .ok result) :
    Transition casefold destination hmac keyVersion seen room (.checkpoint expected)
      (.checkpointed result.1) result.2 := by
  unfold checkpoint at h
  obtain ⟨-, -, h⟩ := bind_ok.mp h
  obtain ⟨-, -, h⟩ := bind_ok.mp h
  obtain ⟨head, hlock, h⟩ := bind_ok.mp h
  obtain ⟨-, -, h⟩ := bind_ok.mp h
  obtain ⟨hrows, hhead⟩ := lockHead_rows_ok hlock
  rw [hrows] at h
  split_ifs at h with hlevel
  · cases h
    exact .level hhead hlevel
  · obtain ⟨⟨name, document⟩, hbuild, h⟩ := bind_ok.mp h
    obtain ⟨recorded, hrecorded, h⟩ := bind_ok.mp h
    obtain ⟨written, hwrite, h⟩ := bind_ok.mp h
    obtain ⟨-, hname, rfl⟩ := build_checkpoint_ok.mp hbuild
    obtain ⟨-, -, rfl⟩ := recordCheckpoint_ok.mp hrecorded
    obtain ⟨hrevision, hmapping, rfl⟩ := writeCheckpoint_ok.mp (mapError_ok.mp hwrite)
    cases h
    exact .checkpointed hhead hlevel hname hrevision hmapping

theorem restoreCheckpoint_transition {result : CheckpointOutcome × Room}
    (h : restoreCheckpoint casefold destination access seen expected revision roomEpoch room =
      .ok result) :
    Transition casefold destination hmac keyVersion seen room
      (.restoreCheckpoint expected revision roomEpoch) (.checkpointed result.1) result.2 := by
  unfold restoreCheckpoint at h
  obtain ⟨-, -, h⟩ := bind_ok.mp h
  obtain ⟨-, -, h⟩ := bind_ok.mp h
  obtain ⟨checkpoint, hcheckpoint, h⟩ := bind_ok.mp h
  obtain ⟨head, hlock, h⟩ := bind_ok.mp h
  obtain ⟨-, -, h⟩ := bind_ok.mp h
  obtain ⟨_, hlevel, h⟩ := bind_ok.mp h
  obtain ⟨⟨name, document⟩, hbuild, h⟩ := bind_ok.mp h
  obtain ⟨reopened, hreopened, h⟩ := bind_ok.mp h
  obtain ⟨written, hwrite, h⟩ := bind_ok.mp h
  obtain ⟨-, hhead⟩ := lockHead_rows_ok hlock
  obtain ⟨-, hname, rfl⟩ := build_checkpoint_ok.mp hbuild
  obtain ⟨-, again, hagain, rfl⟩ := forExistingProject_ok.mp hreopened
  -- the restored name has met its check already
  obtain rfl := (properName_of_validated hname).validated.mp hagain
  obtain ⟨hrevision, hmapping, rfl⟩ := writeCheckpoint_ok.mp (mapError_ok.mp hwrite)
  cases h
  have hseen := checkpoints_rows (checkpointOrRaise_ok hcheckpoint)
  have hdone : Transition casefold destination hmac keyVersion seen room
      (.restoreCheckpoint expected revision roomEpoch) _ _ :=
    .restored hhead (require_ok.mp hlevel) hseen hname hrevision hmapping
  exact hdone

theorem openingReplay_some {creation : ProjectCreation}
    (h : openingReplay casefold destination hmac seen opening = .ok (some creation)) :
    ∃ (project : Project) (head : ProjectHead) (existing : ProjectCommandReceipt),
      creation = ⟨project, head, some existing.replayed⟩ := by
  unfold openingReplay at h
  split at h
  · simp at h
  · split at h
    · simp at h
    · obtain ⟨head, -, h⟩ := bind_ok.mp h
      split at h
      · simp at h
      · obtain ⟨-, -, h⟩ := bind_ok.mp h
        cases Except.ok.inj h
        exact ⟨_, _, _, rfl⟩

theorem stageProject_ok {project : Project} {document : ProjectDocument}
    {result : ProjectHead × Room} (h : room.stageProject project document roomEpoch = .ok result) :
    room.project = none ∧ room.head = none ∧ 1 ∉ room.checkpoints.keys ∧
      (roomEpoch, 0) ∉ room.mappings.keys ∧ ∃ name, validatedProjectName project.name = .ok name ∧
      result = (⟨roomEpoch, 0, 0, 1, name, document⟩,
        Room.checkpointed { room with project := some project }
          ⟨roomEpoch, 0, 0, 1, name, document⟩ ⟨name, document⟩) := by
  unfold Room.stageProject at h
  obtain ⟨⟨name, kept⟩, hbuild, h⟩ := bind_ok.mp h
  obtain ⟨head, hopen, h⟩ := bind_ok.mp h
  obtain ⟨_, habsent, h⟩ := bind_ok.mp h
  obtain ⟨written, hwrite, h⟩ := bind_ok.mp h
  obtain ⟨-, hname, rfl⟩ := build_checkpoint_ok.mp hbuild
  obtain ⟨-, again, hagain, rfl⟩ := forExistingProject_ok.mp hopen
  obtain rfl : name = again := Except.ok.inj (hname.symm.trans hagain)
  obtain ⟨hrevision, hmapping, rfl⟩ := writeCheckpoint_ok.mp hwrite
  obtain ⟨hproject, hhead⟩ := require_ok.mp habsent
  cases h
  exact ⟨by simpa using hproject, by simpa using hhead, hrevision, hmapping, name, hname, rfl⟩

theorem stageOpeningReceipt_ok {head : ProjectHead} {result : Option ProjectCommandReceipt × Room}
    (h : stageOpeningReceipt hmac keyVersion opening head room = .ok result) :
    (∀ row ∈ opening.receipt? hmac keyVersion head, row.1 ∉ room.receipts.keys) ∧
      result = ((opening.receipt? hmac keyVersion head).map Prod.snd,
        { room with
          receipts := room.receipts ++ (opening.receipt? hmac keyVersion head).toList }) := by
  unfold stageOpeningReceipt at h
  cases hcommand : opening.commandId with
  | none =>
    simp only [hcommand] at h
    cases h
    simp [Opening.receipt?, hcommand]
  | some commandId =>
    simp only [hcommand] at h
    obtain ⟨receipts, hreceipts, h⟩ := bind_ok.mp h
    obtain ⟨hunused, rfl⟩ := insertRow_ok.mp hreceipts
    cases h
    simpa [Opening.receipt?, hcommand] using hunused

theorem openProject_transition {result : ProjectCreation × Room}
    (h : openProject casefold destination hmac keyVersion seen opening roomEpoch room =
      .ok result) :
    Transition casefold destination hmac keyVersion seen room (.openProject opening roomEpoch)
      (.created result.1) result.2 := by
  unfold openProject at h
  obtain ⟨replay, hreplay, h⟩ := bind_ok.mp h
  cases replay with
  | some creation =>
    cases h
    obtain ⟨project, head, existing, rfl⟩ := openingReplay_some hreplay
    exact .reopened
  | none =>
    obtain ⟨staged, hstaged, h⟩ := bind_ok.mp h
    obtain ⟨recorded, hrecorded, h⟩ := bind_ok.mp h
    obtain ⟨hproject, hhead, hrevision, hmapping, name, hname, rfl⟩ := stageProject_ok hstaged
    obtain ⟨hunused, rfl⟩ := stageOpeningReceipt_ok hrecorded
    cases h
    exact .opened hproject hhead hname hrevision hmapping hunused

theorem answer_transition {call : Call} {answer : Answer} {after : Room}
    (h : room.answer casefold destination hmac keyVersion access seen call = .ok (answer, after)) :
    Transition casefold destination hmac keyVersion seen room call answer after := by
  cases call with
  | openProject _ _ | submitCommands _ | checkpoint _ | restoreCheckpoint _ _ _ =>
    obtain ⟨result, hresult, h⟩ := bind_ok.mp h
    cases h
    first
    | exact openProject_transition hresult
    | exact submitCommands_transition hresult
    | exact checkpoint_transition hresult
    | exact restoreCheckpoint_transition hresult

end Transitions

end Grafy.Collaboration
