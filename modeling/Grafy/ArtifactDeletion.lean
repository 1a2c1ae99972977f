import Grafy.Validation
import Mathlib.Data.List.Infix

/-!
Deleting an artifact of the Library while other clients save work. A deletion looks for the
artifact in the Projects of its Workspace, as text, and in the stored results, counts the
artifacts that share its stored object, removes the row and then deletes the object. Each
query is a statement of its own and no lock is taken; everything that others write commits
between any two of them.
-/
namespace Grafy.ArtifactDeletion

open CanonicalJson Dumps Fingerprints GraphDocuments OrderedDict Project Results Validation

/-- The identity of an artifact, as the text of its UUID. -/
abbrev ArtifactId := { id : String // isUuid id = true }

/-- The tables' rows of one Project: its name, its head's document and its checkpoints'. -/
structure ProjectRow where
  name : String
  head : ProjectDocument
  checkpoints : List ProjectDocument

def ProjectRow.documents (p : ProjectRow) : List ProjectDocument := p.head :: p.checkpoints

structure ArtifactObject where
  workspace : String
  bucket : Option String
  objectKey : Option String
  inLibrary : Bool
deriving DecidableEq

/-- What is committed, keyed by Workspace where it is the Workspace's own, and the objects in
the storage. -/
structure Rows where
  projects : Dict (String × String) ProjectRow
  results : Dict (String × Fingerprint) Outputs
  artifacts : Dict ArtifactId ArtifactObject
  placements : Dict (String × ArtifactId) String
  objects : List (String × String)

/-- `LIKE '%…%'`, for an identity that holds no wildcard. -/
def like (id : ArtifactId) (text : List Char) : Bool := id.1.toList <:+: text

/-- The JSON text of a document. Its spacing and the order of members are no matter here. -/
def documentText (document : ProjectDocument) : List Char := encode (dumpProject document)

def dumpEnvelope (output : String × ArtifactOutputValue) : Json :=
  .obj [("port", .str output.1),
    ("kind", .str (match output.2 with | .sequence _ => "sequence" | .ref _ => "single")),
    ("value", modelDump output.2)]

/-- `artifact_outputs_to_storage`. -/
def outputsText (outputs : Outputs) : List Char :=
  encode (.arr ((outputs.insertionSort (fun a b => a.1 ≤ b.1)).map dumpEnvelope))

/-- `_outputs_reference`. -/
def outputsReference (outputs : Outputs) (id : ArtifactId) : Bool :=
  outputs.values.any fun
    | .sequence refs => refs.itemRefs.any (fun ref => ref.artifactId = id.1)
    | .ref ref => ref.artifactId = id.1

namespace Rows

/-- `artifacts.get`. -/
def artifact (s : Rows) (workspace : String) (id : ArtifactId) : Option ArtifactObject :=
  (s.artifacts.get? id).filter (fun row => row.workspace = workspace)

/-- `titles_referencing_artifact`: the Projects, each with its name. -/
def titlesReferencingArtifact (s : Rows) (workspace : String) (id : ArtifactId) :
    Dict String String :=
  (s.projects.filter (fun entry => entry.1.1 = workspace ∧
    entry.2.documents.any (fun document => like id (documentText document)))).map
      (fun entry => (entry.1.2, entry.2.name))

/-- `artifact_is_referenced`. -/
def artifactIsReferenced (s : Rows) (workspace : String) (id : ArtifactId) : Bool :=
  (s.results.filter (fun entry => entry.1.1 = workspace ∧ like id (outputsText entry.2))).any
    (fun entry => outputsReference entry.2 id)

/-- `count_artifacts_sharing_object`. -/
def countArtifactsSharingObject (s : Rows) (workspace bucket objectKey : String)
    (exceptArtifact : ArtifactId) : ℕ :=
  s.artifacts.countP (fun entry => entry.2.workspace = workspace ∧
    entry.2.bucket = some bucket ∧ entry.2.objectKey = some objectKey ∧ entry.1 ≠ exceptArtifact)

/-- The placement and the row of an artifact removed. -/
def removeArtifact (s : Rows) (workspace : String) (id : ArtifactId) : Rows :=
  { s with
    placements := s.placements.erase (workspace, id)
    artifacts := if (s.artifact workspace id).isSome then s.artifacts.erase id else s.artifacts }

/-- `storage.delete`. An object that is not there is passed over. -/
def deleteObject (s : Rows) : Option String → Option String → Rows
  | some bucket, some objectKey =>
    { s with objects := s.objects.filter (fun object => object ≠ (bucket, objectKey)) }
  | _, _ => s

end Rows

inductive DeletionError
  | notFound (kind : String) (id : ArtifactId)
  | inUse (artifact : ArtifactId) (projects titles : List String) (retainedResult : Bool)
deriving DecidableEq

/-- Where a deletion stands: what it has read so far. -/
inductive Phase
  | begun
  | found (artifact : ArtifactObject)
  | titled (artifact : ArtifactObject) (titles : Dict String String)
  | unused (artifact : ArtifactObject)
  | counted (artifact : ArtifactObject) (shared : ℕ)
  | committed (artifact : ArtifactObject)
  | finished (result : Option DeletionError)
  | lost
deriving DecidableEq

structure Deletion where
  workspace : String
  artifact : ArtifactId
  phase : Phase
deriving DecidableEq

structure State where
  rows : Rows
  deletions : List Deletion

/-- The next statement of `delete_artifact`: the rows it leaves, and where it stands then. -/
def Deletion.next (d : Deletion) (s : Rows) : Option (Rows × Phase) :=
  match d.phase with
  | .begun =>
    match s.artifact d.workspace d.artifact with
    | none => some (s, .finished (some (.notFound "Library artifact" d.artifact)))
    | some row =>
      if row.inLibrary then some (s, .found row)
      else some (s, .finished (some (.notFound "Library artifact" d.artifact)))
  | .found row => some (s, .titled row (s.titlesReferencingArtifact d.workspace d.artifact))
  | .titled row titles =>
    let retained := s.artifactIsReferenced d.workspace d.artifact
    if titles ≠ [] ∨ retained then
      some (s, .finished (some (.inUse d.artifact titles.keys titles.values retained)))
    else some (s, .unused row)
  | .unused row => some (s, .counted row (s.countArtifactsSharingObject d.workspace
      (row.bucket.getD "") (row.objectKey.getD "") d.artifact))
  | .counted row shared => some (s.removeArtifact d.workspace d.artifact,
      if shared = 0 then .committed row else .finished none)
  | .committed row => some (s.deleteObject row.bucket row.objectKey, .finished none)
  | .finished _ | .lost => none

/-- What other clients commit: a Project opened, its head after a command, a checkpoint of the
head, a stored result, an artifact, or that an artifact is kept in the Library. -/
inductive Act
  | openProject (workspace project name : String) (document : ProjectDocument)
  | acceptCommand (workspace project : String) (document : ProjectDocument)
  | checkpoint (workspace project : String)
  | putResult (workspace : String) (fingerprint : Fingerprint) (outputs : Outputs)
  | addArtifact (id : ArtifactId) (artifact : ArtifactObject)
  | saveToLibrary (workspace : String) (id : ArtifactId)
  | deleteArtifact (workspace : String) (id : ArtifactId)
  | next (deletion : ℕ)
  | lose (deletion : ℕ)

/-- What the other clients' acts do to the rows. -/
def Rows.write (s : Rows) : Act → Option Rows
  | .openProject workspace project name document =>
    if (s.projects.get? (workspace, project)).isSome then none
    else some
      { s with
        projects := s.projects ++ [((workspace, project), ⟨name, document, [document]⟩)] }
  | .acceptCommand workspace project document => (s.projects.get? (workspace, project)).map
      (fun p =>
        { s with projects := s.projects.set (workspace, project) { p with head := document } })
  | .checkpoint workspace project => (s.projects.get? (workspace, project)).map
      (fun p =>
        { s with
          projects := s.projects.set (workspace, project)
            { p with checkpoints := p.checkpoints ++ [p.head] } })
  | .putResult workspace fingerprint outputs =>
    if (s.results.get? (workspace, fingerprint)).isSome then some s
    else some { s with results := s.results ++ [((workspace, fingerprint), outputs)] }
  | .addArtifact id artifact =>
    if (s.artifacts.get? id).isSome then none
    else some { s with artifacts := s.artifacts ++ [(id, artifact)] }
  | .saveToLibrary workspace id => (s.artifact workspace id).map
      (fun row => { s with artifacts := s.artifacts.set id { row with inLibrary := true } })
  | .deleteArtifact _ _ | .next _ | .lose _ => none

def step (s : State) : Act → Option State
  | .deleteArtifact workspace id =>
    some { s with deletions := s.deletions ++ [⟨workspace, id, .begun⟩] }
  | .next i => do
    let d ← s.deletions[i]?
    let (rows, phase) ← d.next s.rows
    return ⟨rows, s.deletions.set i { d with phase }⟩
  | .lose i => do
    let d ← s.deletions[i]?
    return { s with deletions := s.deletions.set i { d with phase := .lost } }
  | act => do
    let rows ← s.rows.write act
    return { s with rows }

/-- The states that a run reaches whose steps all meet a condition. -/
inductive Reached (meets : State → Act → Prop) (start : State) : State → Prop
  | refl : Reached meets start start
  | step {s s' act} : Reached meets start s → step s act = some s' → meets s act →
      Reached meets start s'

def start : State := ⟨⟨[], [], [], [], []⟩, []⟩

end Grafy.ArtifactDeletion
