import Grafy.CommandHistory
import Grafy.CrossWorkspaceCopies

/-!
Opening a Project more than once. Creation and copy are meant to be repeated
with the same ids: the second call finds the receipt of the first and answers
with the Project there is, as far as its head still loads. It compares the
requested name with the name the Project has now, and a copy first asks that
its source is where it was and derives the batch it signs from it anew.
-/
namespace Grafy.Openings

open Collaboration CommandEnvelopes CommandHistory Commands CrossWorkspaceCopies GraphDocuments
  Grafy.Project Loops OrderedDict Validation

/-- The rows of every Project, by its id. -/
abbrev Store := Uuid → Room

/-- The ids a call draws. -/
structure Drawn where
  projectId : Uuid
  roomEpoch : Uuid

/-- The arguments of `create_project`. -/
structure Creation where
  actor : Uuid
  workspaceId : Uuid
  name : String
  graphId : String
  graphName : String
  projectId : Option Uuid
  commandId : Option Uuid

/-- The arguments of `copy_project`. -/
structure Copying where
  actor : Uuid
  sourceWorkspaceId : Uuid
  sourceProjectId : Uuid
  targetWorkspaceId : Uuid
  expectedRoomEpoch : Uuid
  expectedSequence : ℤ
  commandId : Option Uuid
  projectId : Option Uuid
  name : Option String

section Service

variable (casefold : String → String) (destination : String → Option String)
variable (hmac : String → String) (keyVersion : ℕ)

/-- A replayable opening needs an id the retry can find the receipt under. -/
def requireIdPair (projectId commandId : Option Uuid) : Answered Unit :=
  require (¬ (commandId.isSome ∧ projectId.isNone)) .idPair

def emptyGraphDocument : GraphDocument := ⟨[], [], [], [], ⟨[], [], [], []⟩⟩

/-- The Graph a new Project opens on. -/
def openingGraph (graphId graphName : String) : Answered GraphDefinition := do
  let id ← (readIdentifier (.str graphId)).mapError .field
  let name ← (readGraphName (.str graphName)).mapError .field
  (buildGraph ⟨id, name, emptyGraphDocument, []⟩).mapError .document

def addGraphCommand (graph : GraphDefinition) : ProjectCommand :=
  .addGraph graph.id graph.name graph.document

/-- What `create_project` opens. -/
def Creation.opening (creation : Creation) (access : Access) (drawn : Drawn) :
    Answered Opening := do
  requireIdPair creation.projectId creation.commandId
  let project ← Project.build creation.workspaceId creation.name creation.actor
  let graph ← openingGraph creation.graphId creation.graphName
  let document ← (rebuild casefold [graph]).mapError .document
  authorize access creation.workspaceId .createProject
  authorize access creation.workspaceId .checkpointProject
  return ⟨creation.actor, creation.projectId.getD drawn.projectId, project, document,
    [addGraphCommand graph], creation.commandId⟩

/-- Both ends of a copy are authorised in the order of their ids. -/
def authorizePair (access : Access) (copying : Copying) : Answered Unit :=
  if copying.sourceWorkspaceId ≤ copying.targetWorkspaceId then do
    authorize access copying.sourceWorkspaceId .viewProject
    authorize access copying.targetWorkspaceId .createProject
  else do
    authorize access copying.targetWorkspaceId .createProject
    authorize access copying.sourceWorkspaceId .viewProject

/-- The name is that of the source unless another is asked for. -/
def Copying.copiedName (copying : Copying) (source : ProjectHead) : Answered String :=
  match copying.name with
  | none => .ok source.name
  | some name => validatedProjectName name

/-- What `copy_project` opens, once it holds the source's head. -/
def Copying.opening (copying : Copying) (access : Access) (drawn : Drawn) (store : Store) :
    Answered Opening := do
  requireIdPair copying.projectId copying.commandId
  authorizePair access copying
  let source := (store copying.sourceProjectId).rows copying.sourceWorkspaceId
  let _ ← source.projectOrRaise
  let head ← source.lockHead casefold destination
  requireUnmoved head copying.expectedRoomEpoch copying.expectedSequence
  let document ← (sanitizeProject casefold head.document).mapError .document
  let name ← copying.copiedName head
  -- the name is a head's or has been checked: the Project takes it as it is
  let project ← Project.build copying.targetWorkspaceId name copying.actor
  return ⟨copying.actor, copying.projectId.getD drawn.projectId, project, document,
    document.graphs.map addGraphCommand, copying.commandId⟩

/-- The opening is looked up or staged among the rows of its id. -/
def openIn (opening : Opening) (roomEpoch : Uuid) (store : Store) :
    Answered (ProjectCreation × Store) := do
  let room := store opening.projectId
  let result ← openProject casefold destination hmac keyVersion room.glimpse opening roomEpoch room
  return (result.1, Function.update store opening.projectId result.2)

def createProject (access : Access) (creation : Creation) (drawn : Drawn) (store : Store) :
    Answered (ProjectCreation × Store) := do
  let opening ← creation.opening casefold access drawn
  openIn casefold destination hmac keyVersion opening drawn.roomEpoch store

def copyProject (access : Access) (copying : Copying) (drawn : Drawn) (store : Store) :
    Answered (ProjectCreation × Store) := do
  let opening ← copying.opening casefold destination access drawn store
  openIn casefold destination hmac keyVersion opening drawn.roomEpoch store

/-- A call that opens a Project. -/
inductive Request
  | create (creation : Creation)
  | copy (copying : Copying)

def Request.answer (access : Access) (drawn : Drawn) (store : Store) :
    Request → Answered (ProjectCreation × Store)
  | .create creation =>
    createProject casefold destination hmac keyVersion access creation drawn store
  | .copy copying => copyProject casefold destination hmac keyVersion access copying drawn store

def Request.commandId : Request → Option Uuid
  | .create creation => creation.commandId
  | .copy copying => copying.commandId

def Request.projectId : Request → Option Uuid
  | .create creation => creation.projectId
  | .copy copying => copying.projectId

/-- What happens to the Projects between two openings, newest state first. Any
Project may be called upon and any but the kept one deleted; the statements
before a lock may have seen anything. An epoch that is drawn has not been met. -/
inductive Run (kept : Uuid) (start : Store) : List Store → Store → Prop
  | start : Run kept start [] start
  | call {past : List Store} {store : Store} (h : Run kept start past store) (projectId : Uuid)
      (access : Access) (seen : Glimpse) (call : Call)
      (hfresh : ∀ epoch ∈ epoch? call, ∀ old ∈ store :: past, ∀ id, ∀ head ∈ (old id).head,
        head.roomEpoch ≠ epoch) :
      Run kept start (store :: past) (Function.update store projectId
        (commit (store projectId) ((store projectId).answer casefold destination hmac keyVersion
          access seen call)).2)
  | delete {past : List Store} {store : Store} {after : Room} (h : Run kept start past store)
      (projectId : Uuid) (access : Access) (seen : Glimpse) (workspaceId : Uuid)
      (expectedRoomEpoch : Option Uuid) (expectedSequence : Option ℤ) (hother : projectId ≠ kept)
      (hdeleted : deleteProject casefold destination access seen workspaceId expectedRoomEpoch
        expectedSequence
        (store projectId) = .ok after) :
      Run kept start (store :: past) (Function.update store projectId after)

end Service

variable {project : Project} {receipt : ProjectCommandReceipt} {room : Room}
  {workspaceId roomEpoch : Uuid} {store : Store}

variable {access : Access} {first : ProjectHead}

section Keeping

variable {casefold : String → String} {destination : String → Option String}
variable {hmac : String → String} {keyVersion : ℕ}

/-- A Project that is there, with a receipt that answers to the opening. -/
structure Opened (hmac : String → String) (opening : Opening) (commandId : Uuid)
    (project : Project) (receipt : ProjectCommandReceipt) (room : Room) : Prop where
  stands : room.project = some project
  owned : project.workspaceId = opening.project.workspaceId
  stored : room.receipts.get? commandId = some receipt
  signed : receipt.commandHmac = opening.digest hmac receipt.roomEpoch
  headed : room.head ≠ none

variable {opening : Opening} {commandId : Uuid}
variable {after : Room} {seen : Glimpse} {call : Call} {answer : Answer}

theorem rows_of_receipt (h : (room.rows workspaceId).receipts.get? commandId = some receipt) :
    room.rows workspaceId = room := by
  unfold Room.rows at h ⊢
  split_ifs at h ⊢
  · rfl
  · simp [Room.empty] at h

theorem workspace_of_rows (h : room.rows workspaceId = room)
    (hproject : room.project = some project) : project.workspaceId = workspaceId := by
  by_contra hother
  have hempty : room.rows workspaceId = .empty := by simp [Room.rows, hproject, hother]
  rw [h] at hempty
  rw [hempty] at hproject
  cases hproject

/-- A first opening that succeeds leaves a receipt to be found again. -/
theorem opened_of_openProject {creation : ProjectCreation}
    (hcommand : opening.commandId = some commandId)
    (h : openProject casefold destination hmac keyVersion room.glimpse opening roomEpoch room = .ok
      (creation, after)) :
    ∃ receipt, Opened hmac opening commandId creation.project receipt after := by
  unfold openProject at h
  obtain ⟨replay, hreplay, h⟩ := bind_ok.mp h
  cases replay with
  | some replayed =>
    cases h
    simp only [openingReplay, hcommand] at hreplay
    cases hget : (room.rows opening.project.workspaceId).receipts.get? commandId with
    | none => simp [Room.glimpse, hget] at hreplay
    | some existing =>
      have hrows := rows_of_receipt hget
      simp only [Room.glimpse, hget] at hreplay
      obtain ⟨head, hlock, hreplay⟩ := bind_ok.mp hreplay
      rw [hrows] at hreplay
      cases hproject : room.project with
      | none => simp [hproject] at hreplay
      | some found =>
        simp only [hproject] at hreplay
        obtain ⟨_, hsame, hreplay⟩ := bind_ok.mp hreplay
        cases Except.ok.inj hreplay
        refine ⟨existing, hproject, workspace_of_rows hrows hproject, receipts_rows hget,
          (require_ok.mp hsame).1, ?_⟩
        simp [(lockHead_rows_ok hlock).2]
  | none =>
    obtain ⟨staged, hstaged, h⟩ := bind_ok.mp h
    obtain ⟨recorded, hrecorded, h⟩ := bind_ok.mp h
    obtain ⟨-, -, -, -, name, -, rfl⟩ := stageProject_ok hstaged
    obtain ⟨hunused, rfl⟩ := stageOpeningReceipt_ok hrecorded
    cases h
    have hrow : ∃ left, opening.receipt? hmac keyVersion
        ⟨roomEpoch, 0, 0, 1, name, opening.document⟩ = some (commandId, left) ∧
          left.commandHmac = opening.digest hmac left.roomEpoch := by
      refine ⟨_, by rw [Opening.receipt?, hcommand]; rfl, rfl⟩
    obtain ⟨left, hleft, hsigned⟩ := hrow
    rw [hleft] at hunused ⊢
    have hnew : commandId ∉ room.receipts.keys := hunused _ rfl
    refine ⟨left, rfl, rfl, ?_, hsigned, by simp [Room.checkpointed]⟩
    exact Dict.get?_append_new hnew

/-- A call leaves the Project, its receipts and its having a head. -/
theorem Opened.transition (h : Opened hmac opening commandId project receipt room)
    (hstep : Transition casefold destination hmac keyVersion seen room call answer after) :
    Opened hmac opening commandId project receipt after := by
  obtain ⟨hstands, howned, hstored, hsigned, hheaded⟩ := h
  cases hstep with
  | replayed _ _ | level _ _ | reopened => exact ⟨hstands, howned, hstored, hsigned, hheaded⟩
  | accepted _ _ _ _ =>
    exact ⟨hstands, howned, Dict.get?_append_of_some hstored, hsigned, by simp [Room.accepted]⟩
  | checkpointed _ _ _ _ _ | restored _ _ _ _ _ _ =>
    exact ⟨hstands, howned, hstored, hsigned, by simp [Room.checkpointed]⟩
  | opened hproject _ _ _ _ _ =>
    rw [hproject] at hstands
    cases hstands

/-- Whatever is answered, the rows are those of a transition or unchanged. -/
theorem commit_cases (room : Room) (call : Call) :
    (commit room (room.answer casefold destination hmac keyVersion access seen call)).2 = room ∨
      ∃ answer, Transition casefold destination hmac keyVersion seen room call answer
        (commit room (room.answer casefold destination hmac keyVersion access seen call)).2 := by
  cases hresult : room.answer casefold destination hmac keyVersion access seen call with
  | error error => exact .inl rfl
  | ok written => exact .inr ⟨written.1, answer_transition hresult⟩

theorem deleteProject_empty {roomEpoch : Option Uuid} {sequence : Option ℤ}
    (h : deleteProject casefold destination access seen workspaceId roomEpoch sequence room =
      .ok after) :
    after = .empty := by
  unfold deleteProject at h
  obtain ⟨-, -, h⟩ := bind_ok.mp h
  obtain ⟨-, -, h⟩ := bind_ok.mp h
  obtain ⟨head, -, h⟩ := bind_ok.mp h
  have hchecked : ∃ check : Answered Unit, check >>= (fun _ => pure Room.empty) = .ok after := by
    cases roomEpoch <;> cases sequence <;> exact ⟨_, h⟩
  obtain ⟨check, hchecked⟩ := hchecked
  obtain ⟨_, -, hempty⟩ := bind_ok.mp hchecked
  exact (Except.ok.inj hempty).symm

variable {kept : Uuid} {start : Store} {past : List Store}

section

variable (h : Run casefold destination hmac keyVersion kept start past store)
include h

theorem Opened.run (hopened : Opened hmac opening commandId project receipt (start kept)) :
    Opened hmac opening commandId project receipt (store kept) := by
  induction h with
  | start => exact hopened
  | @call past store h projectId access seen call hfresh ih =>
    by_cases hid : projectId = kept
    · subst hid
      rw [Function.update_self]
      rcases commit_cases (store projectId) call with hsame | ⟨answer, hstep⟩
      · rw [hsame]
        exact ih
      · exact ih.transition hstep
    · rwa [Function.update_of_ne (Ne.symm hid)]
  | delete h projectId access seen workspaceId expectedRoomEpoch expectedSequence hother hdeleted
    ih =>
    rwa [Function.update_of_ne (Ne.symm hother)]

theorem start_mem : start ∈ store :: past := by
  induction h with
  | start => exact List.mem_singleton_self _
  | call _ _ _ _ _ _ ih | delete _ _ _ _ _ _ _ _ _ ih => exact List.mem_cons_of_mem _ ih

end

/-- A head of the epoch is no earlier, and where it is not later it is the same. -/
def NotBefore (first head : ProjectHead) : Prop :=
  head.roomEpoch = first.roomEpoch → first.collaborationSequence ≤ head.collaborationSequence ∧
    (head.collaborationSequence = first.collaborationSequence →
      head.name = first.name ∧ head.document = first.document)

theorem notBefore_transition {next : ProjectHead}
    (hfresh : ∀ epoch ∈ epoch? call, first.roomEpoch ≠ epoch)
    (hstep : Transition casefold destination hmac keyVersion seen room call answer after)
    (hnext : after.head = some next) (h : ∀ head, room.head = some head → NotBefore first head) :
    NotBefore first next := by
  cases hstep with
  | accepted hhead _ _ _ =>
    cases hnext
    intro hepoch
    obtain ⟨hle, -⟩ := h _ hhead hepoch
    simp only [ProjectHead.advanced]
    omega
  | checkpointed hhead _ _ _ _ =>
    cases hnext
    have hbefore := h _ hhead
    exact hbefore
  | restored _ _ _ _ _ _ | opened _ _ _ _ _ _ =>
    cases hnext
    intro hepoch
    exact absurd hepoch.symm (hfresh _ rfl)
  | _ => exact h next hnext

/-- Where a head stands in its epoch says what it is, over any run. -/
theorem notBefore_run (h : Run casefold destination hmac keyVersion kept start past store)
    {id : Uuid} (hfirst : (start id).head = some first) :
    ∀ head, (store id).head = some head → NotBefore first head := by
  induction h with
  | start =>
    intro head hhead
    cases hfirst.symm.trans hhead
    exact fun _ => ⟨le_rfl, fun _ => ⟨rfl, rfl⟩⟩
  | @call past store h projectId access seen call hfresh ih =>
    intro head hhead
    by_cases hid : id = projectId
    · subst hid
      rw [Function.update_self] at hhead
      rcases commit_cases (store id) call with hsame | ⟨answer, hstep⟩
      · rw [hsame] at hhead
        exact ih head hhead
      · refine notBefore_transition ?_ hstep hhead ih
        intro epoch hepoch
        exact hfresh epoch hepoch start (start_mem h) id first hfirst
    · rw [Function.update_of_ne hid] at hhead
      exact ih head hhead
  | @delete past store after h projectId access seen workspaceId _ _ hother hdeleted ih =>
    intro head hhead
    by_cases hid : id = projectId
    · subst hid
      rw [Function.update_self, deleteProject_empty hdeleted] at hhead
      cases hhead
    · rw [Function.update_of_ne hid] at hhead
      exact ih head hhead

end Keeping

variable {after : Store}

section Replaying

variable {casefold : String → String} {destination : String → Option String}
variable {hmac : String → String} {keyVersion : ℕ}

/-- The capabilities the call asks for. -/
def Granted (access : Access) : Request → Prop
  | .create creation => access creation.workspaceId .createProject = .ok () ∧
      access creation.workspaceId .checkpointProject = .ok ()
  | .copy copying => access copying.sourceWorkspaceId .viewProject = .ok () ∧
      access copying.targetWorkspaceId .createProject = .ok ()

/-- The stored head of the new Project still validates and has the name it was
asked to have; the source of a copy is still there, with its head where the
caller read it. -/
def Unmoved (casefold : String → String) (destination : String → Option String) (store : Store) :
    Request → Prop
  | .create creation => ∃ id head, creation.projectId = some id ∧ (store id).head = some head ∧
      load casefold destination head.document = .ok () ∧
      validatedProjectName creation.name = .ok head.name
  | .copy copying => ∃ id head source, copying.projectId = some id ∧
      (store id).head = some head ∧ load casefold destination head.document = .ok () ∧
      ((store copying.sourceProjectId).rows copying.sourceWorkspaceId).head = some source ∧
      source.roomEpoch = copying.expectedRoomEpoch ∧
      (source.collaborationSequence : ℤ) = copying.expectedSequence ∧
      validatedProjectName (copying.name.getD source.name) = .ok head.name

/-- The call returns the Project there is with a replayed receipt, and changes
nothing. -/
def Replays (project : Project) (store : Store) (result : Answered (ProjectCreation × Store)) :
    Prop :=
  ∃ head receipt, result = .ok (⟨project, head, some receipt⟩, store) ∧
    receipt.outcome = .idempotentReplay

variable {opening : Opening} {commandId : Uuid} {project : Project}
theorem rows_of_owned (h : Opened hmac opening commandId project receipt room) :
    room.rows opening.project.workspaceId = room := by
  simp [Room.rows, h.stands, h.owned]

section

variable (h : Opened hmac opening commandId project receipt room)
  (hcommand : opening.commandId = some commandId) {head : ProjectHead}
    (hhead : room.head = some head)
  (roomEpoch : Uuid)
include h hcommand hhead

theorem openProject_opened (hload : load casefold destination head.document = .ok ()) :
    openProject casefold destination hmac keyVersion room.glimpse opening roomEpoch room =
      if head.name = opening.project.name then .ok (⟨project, head, some receipt.replayed⟩, room)
      else .error (.idempotencyMismatch commandId) := by
  have hlock : room.lockHead casefold destination = .ok head := lockHead_ok.mpr ⟨hhead, hload⟩
  unfold openProject openingReplay
  simp only [hcommand, Room.glimpse, rows_of_owned h, h.stored, hlock, h.stands]
  by_cases hname : head.name = opening.project.name
  · simp [require, hname, h.signed, bind, Except.bind, pure, Except.pure]
  · simp [require, hname, bind, Except.bind]

/-- A head that does not load ends the call. -/
theorem openProject_unread {error : CollaborationError}
    (hload : load casefold destination head.document = .error error) :
    openProject casefold destination hmac keyVersion room.glimpse opening roomEpoch room =
      .error error := by
  unfold openProject openingReplay
  simp [hcommand, Room.glimpse, rows_of_owned h, h.stored, Room.lockHead, hhead, hload, bind,
    Except.bind]

end

theorem replays_openIn_iff {id : Uuid} (hid : opening.projectId = id)
    (h : Opened hmac opening commandId project receipt (store id))
    (hcommand : opening.commandId = some commandId) (roomEpoch : Uuid) :
    Replays project store (openIn casefold destination hmac keyVersion opening roomEpoch store) ↔
      ∃ head, (store id).head = some head ∧ load casefold destination head.document = .ok () ∧
        head.name = opening.project.name := by
  subst hid
  obtain ⟨head, hhead⟩ := Option.ne_none_iff_exists'.mp h.headed
  unfold openIn Replays
  cases hload : load casefold destination head.document with
  | error error =>
    simp only [openProject_unread h hcommand hhead roomEpoch hload, bind, Except.bind]
    constructor
    · rintro ⟨_, _, herror, -⟩
      cases herror
    · rintro ⟨other, hother, hread, -⟩
      cases hhead.symm.trans hother
      cases hload.symm.trans hread
  | ok =>
    simp only [openProject_opened h hcommand hhead roomEpoch hload]
    by_cases hname : head.name = opening.project.name
    · simp only [hname, if_true, bind, Except.bind, pure, Except.pure, Function.update_eq_self]
      constructor
      · intro _
        exact ⟨head, hhead, hload, hname⟩
      · intro _
        exact ⟨head, receipt.replayed, rfl, rfl⟩
    · simp only [hname, if_false, bind, Except.bind]
      constructor
      · rintro ⟨_, _, herror, -⟩
        cases herror
      · rintro ⟨other, hother, -, hsame⟩
        cases hhead.symm.trans hother
        exact absurd hsame hname

theorem authorize_ok {capability : WorkspaceCapability} :
    authorize access workspaceId capability = .ok () ↔ access workspaceId capability = .ok () :=
  mapError_ok

theorem authorizePair_ok {copying : Copying} :
    authorizePair access copying = .ok () ↔ Granted access (.copy copying) := by
  unfold authorizePair Granted
  split_ifs
  · rw [bind_ok]
    constructor
    · rintro ⟨_, hview, hcreate⟩
      exact ⟨authorize_ok.mp hview, authorize_ok.mp hcreate⟩
    · rintro ⟨hview, hcreate⟩
      exact ⟨(), authorize_ok.mpr hview, authorize_ok.mpr hcreate⟩
  · rw [bind_ok]
    constructor
    · rintro ⟨_, hcreate, hview⟩
      exact ⟨authorize_ok.mp hview, authorize_ok.mp hcreate⟩
    · rintro ⟨hview, hcreate⟩
      exact ⟨(), authorize_ok.mpr hcreate, authorize_ok.mpr hview⟩

theorem build_project_ok {name : String} {createdBy : Uuid} :
    Project.build workspaceId name createdBy = .ok project ↔
      ∃ checked, validatedProjectName name = .ok checked ∧
        project = ⟨workspaceId, checked, createdBy⟩ := by
  simp only [Project.build, bind_ok, pure, Except.pure, Except.ok.injEq]
  constructor
  · rintro ⟨checked, hname, rfl⟩
    exact ⟨checked, hname, rfl⟩
  · rintro ⟨checked, hname, rfl⟩
    exact ⟨checked, hname, rfl⟩

variable {creation : Creation} {copying : Copying} {access access' : Access}
variable {drawn drawn' : Drawn} {source : ProjectHead}

theorem creation_opening_ok (h : creation.opening casefold access drawn = .ok opening) :
    opening.projectId = creation.projectId.getD drawn.projectId ∧
      opening.commandId = creation.commandId ∧
      validatedProjectName creation.name = .ok opening.project.name := by
  unfold Creation.opening at h
  obtain ⟨-, -, h⟩ := bind_ok.mp h
  obtain ⟨project, hproject, h⟩ := bind_ok.mp h
  obtain ⟨graph, -, h⟩ := bind_ok.mp h
  obtain ⟨document, -, h⟩ := bind_ok.mp h
  obtain ⟨-, -, h⟩ := bind_ok.mp h
  obtain ⟨-, -, h⟩ := bind_ok.mp h
  cases h
  obtain ⟨checked, hname, rfl⟩ := build_project_ok.mp hproject
  exact ⟨rfl, rfl, hname⟩

/-- With its id fixed a creation opens the same Project every time. -/
theorem creation_opening_again (h : creation.opening casefold access drawn = .ok opening)
    (hid : creation.projectId.isSome) (hgranted : Granted access' (.create creation)) :
    creation.opening casefold access' drawn' = .ok opening := by
  obtain ⟨id, hid⟩ := Option.isSome_iff_exists.mp hid
  unfold Creation.opening at h ⊢
  obtain ⟨u, hpair, h⟩ := bind_ok.mp h
  obtain ⟨project, hproject, h⟩ := bind_ok.mp h
  obtain ⟨graph, hgraph, h⟩ := bind_ok.mp h
  obtain ⟨document, hdocument, h⟩ := bind_ok.mp h
  obtain ⟨-, -, h⟩ := bind_ok.mp h
  obtain ⟨-, -, h⟩ := bind_ok.mp h
  refine bind_ok.mpr ⟨u, hpair, bind_ok.mpr ⟨project, hproject, bind_ok.mpr ⟨graph, hgraph,
    bind_ok.mpr ⟨document, hdocument, bind_ok.mpr ⟨(), authorize_ok.mpr hgranted.1,
      bind_ok.mpr ⟨(), authorize_ok.mpr hgranted.2, ?_⟩⟩⟩⟩⟩⟩
  rw [hid, Option.getD_some] at h ⊢
  exact h

/-- What a copy opens, from the source's head as the caller has read it. -/
def copyOf (casefold : String → String) (copying : Copying) (drawn : Drawn) (source : ProjectHead) :
    Answered Opening := do
  let document ← (sanitizeProject casefold source.document).mapError .document
  let name ← copying.copiedName source
  let project ← Project.build copying.targetWorkspaceId name copying.actor
  return ⟨copying.actor, copying.projectId.getD drawn.projectId, project, document,
    document.graphs.map addGraphCommand, copying.commandId⟩

theorem copying_opening_ok :
    copying.opening casefold destination access drawn store = .ok opening ↔
      requireIdPair copying.projectId copying.commandId = .ok () ∧
        Granted access (.copy copying) ∧ ∃ source,
        ((store copying.sourceProjectId).rows copying.sourceWorkspaceId).lockHead casefold
          destination =
          .ok source ∧
        source.roomEpoch = copying.expectedRoomEpoch ∧
        (source.collaborationSequence : ℤ) = copying.expectedSequence ∧
        copyOf casefold copying drawn source = .ok opening := by
  unfold Copying.opening
  constructor
  · intro h
    obtain ⟨_, hpair, h⟩ := bind_ok.mp h
    obtain ⟨_, hgranted, h⟩ := bind_ok.mp h
    obtain ⟨project, -, h⟩ := bind_ok.mp h
    obtain ⟨source, hlock, h⟩ := bind_ok.mp h
    obtain ⟨_, hunmoved, h⟩ := bind_ok.mp h
    obtain ⟨hepoch, hsequence⟩ := require_ok.mp hunmoved
    exact ⟨hpair, authorizePair_ok.mp hgranted, source, hlock, hepoch, hsequence, h⟩
  · rintro ⟨hpair, hgranted, source, hsource, hepoch, hsequence, h⟩
    have hproject : ∃ project, ((store copying.sourceProjectId).rows
        copying.sourceWorkspaceId).projectOrRaise = .ok project := by
      have hhead := (lockHead_ok.mp hsource).1
      unfold Room.rows at hhead ⊢
      split_ifs at hhead ⊢ with howned
      · obtain ⟨project, hproject, -⟩ := Option.map_eq_some_iff.mp howned
        exact ⟨project, by simp [Room.projectOrRaise, hproject]⟩
      · cases hhead
    obtain ⟨project, hproject⟩ := hproject
    exact bind_ok.mpr ⟨(), hpair, bind_ok.mpr ⟨(), authorizePair_ok.mpr hgranted, bind_ok.mpr
      ⟨project, hproject, bind_ok.mpr ⟨source, hsource, bind_ok.mpr
        ⟨(), require_ok.mpr ⟨hepoch, hsequence⟩, h⟩⟩⟩⟩⟩

theorem copyOf_ok (h : copyOf casefold copying drawn source = .ok opening) :
    opening.projectId = copying.projectId.getD drawn.projectId ∧
      opening.commandId = copying.commandId ∧
      validatedProjectName (copying.name.getD source.name) = .ok opening.project.name := by
  unfold copyOf at h
  obtain ⟨document, -, h⟩ := bind_ok.mp h
  obtain ⟨name, hcopied, h⟩ := bind_ok.mp h
  obtain ⟨project, hproject, h⟩ := bind_ok.mp h
  cases h
  obtain ⟨checked, hname, rfl⟩ := build_project_ok.mp hproject
  refine ⟨rfl, rfl, ?_⟩
  unfold Copying.copiedName at hcopied
  cases hgiven : copying.name with
  | none =>
    simp only [hgiven] at hcopied
    cases hcopied
    exact hname
  | some given =>
    simp only [hgiven] at hcopied
    obtain rfl := (properName_of_validated hcopied).validated.mp hname
    exact hcopied

/-- The copied value depends on the source's name and document only. -/
theorem copyOf_congr {other : ProjectHead} (hid : copying.projectId.isSome)
    (hname : other.name = source.name) (hdocument : other.document = source.document) :
    copyOf casefold copying drawn' other = copyOf casefold copying drawn source := by
  obtain ⟨id, hid⟩ := Option.isSome_iff_exists.mp hid
  simp only [copyOf, Copying.copiedName, hid, hname, hdocument, Option.getD_some]

/-- The Project an opening was asked for is the one its rows are kept for. -/
theorem opened_of_openIn {id : Uuid} {creation : ProjectCreation} (hid : opening.projectId = id)
    (hcommand : opening.commandId = some commandId)
    (h : openIn casefold destination hmac keyVersion opening roomEpoch store = .ok
      (creation, after)) :
    ∃ receipt, Opened hmac opening commandId creation.project receipt (after id) := by
  subst hid
  obtain ⟨result, hresult, h⟩ := bind_ok.mp h
  cases h
  rw [Function.update_self]
  exact opened_of_openProject hcommand hresult

/-- An opening leaves the rows of a Project that is there as they were. -/
theorem openIn_present {id : Uuid} {creation : ProjectCreation} (hpresent : (store id).head ≠ none)
    (h : openIn casefold destination hmac keyVersion opening roomEpoch store = .ok
      (creation, after)) :
    after id = store id := by
  obtain ⟨⟨created, rows⟩, hresult, h⟩ := bind_ok.mp h
  cases h
  by_cases hid : id = opening.projectId
  · subst hid
    rw [Function.update_self]
    have hstep : Transition casefold destination hmac keyVersion
      (store opening.projectId).glimpse (store opening.projectId) _ _ rows :=
      openProject_transition hresult
    cases hstep with
    | reopened => rfl
    | opened _ hhead _ _ _ _ => exact absurd hhead hpresent
  · rw [Function.update_of_ne hid]

variable {id : Uuid} {first : ProjectCreation} {before start store : Store} {past : List Store}

theorem recreating_replays_iff (hid : creation.projectId = some id)
    (hcommand : creation.commandId = some commandId)
    (hfirst : createProject casefold destination hmac keyVersion access creation drawn before =
      .ok (first, start))
    (hrun : Run casefold destination hmac keyVersion id start past store)
    (hgranted : Granted access' (.create creation)) :
    Replays first.project store
        (createProject casefold destination hmac keyVersion access' creation drawn' store) ↔
      Unmoved casefold destination store (.create creation) := by
  have hsome : creation.projectId.isSome := by simp [hid]
  obtain ⟨opening, hopening, hopened⟩ := bind_ok.mp hfirst
  obtain ⟨hprojectId, hcommandId, hname⟩ := creation_opening_ok hopening
  rw [hid, Option.getD_some] at hprojectId
  rw [hcommand] at hcommandId
  obtain ⟨receipt, hstart⟩ := opened_of_openIn hprojectId hcommandId hopened
  have hanswer : createProject casefold destination hmac keyVersion access' creation drawn' store =
      openIn casefold destination hmac keyVersion opening drawn'.roomEpoch store := by
    unfold createProject
    rw [creation_opening_again hopening hsome hgranted]
    rfl
  rw [hanswer, replays_openIn_iff hprojectId (hstart.run hrun) hcommandId]
  constructor
  · rintro ⟨head, hhead, hload, hsame⟩
    exact ⟨id, head, hid, hhead, hload, hsame ▸ hname⟩
  · rintro ⟨other, head, hother, hhead, hload, hsame⟩
    cases hid.symm.trans hother
    exact ⟨head, hhead, hload, Except.ok.inj (hsame.symm.trans hname)⟩

theorem source_unchanged {later : ProjectHead}
    (hrun : Run casefold destination hmac keyVersion id start past store) {sourceId : Uuid}
    (hstart : start sourceId = before sourceId)
    (hsource : ((before sourceId).rows workspaceId).head = some source)
    (hlater : ((store sourceId).rows workspaceId).head = some later)
    (hepoch : later.roomEpoch = source.roomEpoch)
    (hsequence : (later.collaborationSequence : ℤ) = source.collaborationSequence) :
    later.name = source.name ∧ later.document = source.document := by
  obtain ⟨-, hfirst⟩ := head_rows hsource
  obtain ⟨-, hnow⟩ := head_rows hlater
  rw [← hstart] at hfirst
  exact (notBefore_run hrun hfirst later hnow hepoch).2 (by exact_mod_cast hsequence)

theorem recopying_replays_iff (hid : copying.projectId = some id)
    (hcommand : copying.commandId = some commandId)
    (hfirst : copyProject casefold destination hmac keyVersion access copying drawn before = .ok
      (first, start))
    (hrun : Run casefold destination hmac keyVersion id start past store)
    (hgranted : Granted access' (.copy copying)) :
    Replays first.project store
        (copyProject casefold destination hmac keyVersion access' copying drawn' store) ↔
      Unmoved casefold destination store (.copy copying) := by
  have hsome : copying.projectId.isSome := by simp [hid]
  obtain ⟨opening, hopening, hopened⟩ := bind_ok.mp hfirst
  obtain ⟨hpair, -, source, hsource, hepoch, hsequence, hcopied⟩ := copying_opening_ok.mp hopening
  obtain ⟨hprojectId, hcommandId, hname⟩ := copyOf_ok hcopied
  rw [hid, Option.getD_some] at hprojectId
  rw [hcommand] at hcommandId
  obtain ⟨receipt, hstart⟩ := opened_of_openIn hprojectId hcommandId hopened
  have hpresent : (before copying.sourceProjectId).head ≠ none := by
    simp [(lockHead_rows_ok hsource).2]
  have hsame := openIn_present hpresent hopened
  -- once the source is found where it was, the opening is the first one again
  have hagain : ∀ later, ((store copying.sourceProjectId).rows
      copying.sourceWorkspaceId).head = some later → later.roomEpoch = copying.expectedRoomEpoch →
      (later.collaborationSequence : ℤ) = copying.expectedSequence →
      copyOf casefold copying drawn' later = .ok opening ∧ later.name = source.name ∧
        ((store copying.sourceProjectId).rows copying.sourceWorkspaceId).lockHead casefold
          destination =
          .ok later := by
    intro later hlater hlaterEpoch hlaterSequence
    obtain ⟨hfound, hload⟩ := lockHead_ok.mp hsource
    obtain ⟨hlaterName, hlaterDocument⟩ := source_unchanged hrun hsame hfound hlater
      (hlaterEpoch.trans hepoch.symm) (hlaterSequence.trans hsequence.symm)
    refine ⟨(copyOf_congr hsome hlaterName hlaterDocument).trans hcopied, hlaterName, ?_⟩
    exact lockHead_ok.mpr ⟨hlater, hlaterDocument ▸ hload⟩
  have hopened' := hstart.run hrun
  constructor
  · rintro ⟨head, receipt', hresult, houtcome⟩
    obtain ⟨opening', hopening', hresult'⟩ := bind_ok.mp hresult
    obtain ⟨-, -, later, hlater, hlaterEpoch, hlaterSequence, hcopied'⟩ :=
      copying_opening_ok.mp hopening'
    have hlaterHead := (lockHead_ok.mp hlater).1
    obtain ⟨hfound, hlaterName, -⟩ := hagain later hlaterHead hlaterEpoch hlaterSequence
    cases hfound.symm.trans hcopied'
    obtain ⟨present, hpresent', hload, hnamed⟩ :=
      (replays_openIn_iff hprojectId hopened' hcommandId _).mp ⟨head, receipt', hresult', houtcome⟩
    refine ⟨id, present, later, hid, hpresent', hload, hlaterHead, hlaterEpoch, hlaterSequence, ?_⟩
    rw [hlaterName, hnamed]
    exact hname
  · rintro ⟨other, present, later, hother, hpresent', hload, hlater, hlaterEpoch, hlaterSequence,
      hnamed⟩
    cases hid.symm.trans hother
    obtain ⟨hfound, hlaterName, hlocked⟩ := hagain later hlater hlaterEpoch hlaterSequence
    have hopening' : copying.opening casefold destination access' drawn' store = .ok opening :=
      copying_opening_ok.mpr ⟨hpair, hgranted, later, hlocked, hlaterEpoch, hlaterSequence, hfound⟩
    unfold copyProject
    rw [hopening']
    apply (replays_openIn_iff hprojectId hopened' hcommandId _).mpr
    rw [hlaterName] at hnamed
    exact ⟨present, hpresent', hload, Except.ok.inj (hnamed.symm.trans hname)⟩

end Replaying

section Samples

def sampleCreation : Creation :=
  ⟨"user", "workspace", "draft", "main", "Main", some "project", some "opening"⟩

def emptyStore : Store := fun _ => .empty

def createdAt (store : Store) : Answered (ProjectCreation × Store) :=
  Request.answer id (fun _ => none) (fun _ => "") 1 granted ⟨"drawn", "epoch"⟩ store
    (.create sampleCreation)

def createdDocument : ProjectDocument := ⟨[⟨"main", "Main", emptyGraphDocument, []⟩]⟩

def createdOpening : Opening :=
  ⟨"user", "project", ⟨"workspace", "draft", "user"⟩, createdDocument,
    createdDocument.graphs.map addGraphCommand, some "opening"⟩

def createdHead : ProjectHead := ⟨"epoch", 0, 0, 1, "draft", createdDocument⟩

def createdStore : Store :=
  Function.update emptyStore "project"
    (Room.opened (fun _ => "") 1 .empty createdOpening createdHead)

def firstCreation : ProjectCreation :=
  ⟨⟨"workspace", "draft", "user"⟩, createdHead, some ⟨"", 1, "user", "epoch", 0, .accepted⟩⟩

theorem createdAt_empty : createdAt emptyStore = .ok (firstCreation, createdStore) := rfl

/-- The new Project is renamed between the two calls. -/
def renamedStore : Store :=
  Function.update createdStore "project" (commit (createdStore "project")
    ((createdStore "project").answer id (fun _ => none) (fun _ => "") 1 granted
      (createdStore "project").glimpse renamedCall)).2

theorem renamedStore_run :
    Run id (fun _ => none) (fun _ => "") 1 "project" createdStore [createdStore] renamedStore := by
  refine .call .start "project" granted (createdStore "project").glimpse renamedCall ?_
  intro epoch hepoch
  cases hepoch

end Samples

end Grafy.Openings
