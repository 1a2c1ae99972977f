import Grafy.Forests
import Grafy.OrderedDict
import Grafy.Texts
import Grafy.Transactions

/-!
The folders of a Workspace's Library and where its artifacts are filed. Each operation is the
program of its transaction: it reads with single statements, takes no lock, and writes at its
end, where the keys, the unique indexes and the foreign keys of the schema may refuse it.
-/
namespace Grafy.LibraryFolders

open OrderedDict Transactions Forests

/-- What an operation raises. A statement that a constraint refuses raises `refused`: a name
conflict where the constraint is a unique index. -/
inductive FolderError
  | blankName
  | longName
  | ownParent
  | notFound (kind : String) (id : ℕ)
  | nameConflict (workspace : ℕ) (parent : Option ℕ) (name : String)
  | notEmpty (folder artifactCount childCount : ℕ)
  | cycle (folder parent : ℕ)
  | refused
deriving DecidableEq

def maxFolderNameLength : ℕ := 160

/-- `_validated_folder_name`. -/
def validatedFolderName (value : String) : Except FolderError String :=
  let name := Texts.strip value
  if name = "" then .error .blankName
  else if maxFolderNameLength < name.length then .error .longName
  else .ok name

structure LibraryFolder where
  workspace : ℕ
  id : ℕ
  name : String
  parent : Option ℕ
deriving DecidableEq

namespace LibraryFolder

/-- `__post_init__`. -/
def new (workspace id : ℕ) (name : String) (parent : Option ℕ) :
    Except FolderError LibraryFolder := do
  let name ← validatedFolderName name
  if parent = some id then throw .ownParent
  return ⟨workspace, id, name, parent⟩

def rename (folder : LibraryFolder) (name : String) : Except FolderError LibraryFolder := do
  let name ← validatedFolderName name
  return { folder with name }

def moveTo (folder : LibraryFolder) (parent : Option ℕ) : Except FolderError LibraryFolder :=
  if parent = some folder.id then .error .ownParent else .ok { folder with parent }

end LibraryFolder

/-- `is_descendant_folder`: whether the candidate is the ancestor or sits beneath it. -/
def isDescendantFolder (folders : List LibraryFolder) (candidate ancestor : ℕ) : Bool :=
  let parent (id : ℕ) : Option ℕ :=
    (folders.find? (fun folder => folder.id = id)).bind LibraryFolder.parent
  climb parent ancestor (folders.length + 1) [] (some candidate)

structure FolderRow where
  workspace : ℕ
  parent : Option ℕ
  name : String
  nameKey : String
deriving DecidableEq

/-- The two tables, and the artifacts of each Workspace with whether they are in the Library. -/
structure Rows where
  folders : Dict ℕ FolderRow
  placements : Dict (ℕ × ℕ) ℕ
  artifacts : Dict (ℕ × ℕ) Bool
deriving DecidableEq

inductive Statement
  | insertFolder (folder : LibraryFolder)
  | saveFolder (folder : LibraryFolder)
  | removeFolder (folder : LibraryFolder)
  | removePlacements (workspace : ℕ) (artifacts : List ℕ)
  | insertPlacements (workspace : ℕ) (artifacts : List ℕ) (folder : ℕ)
deriving DecidableEq

/-- `_folder_from_row`. What is stored was validated when it was written. -/
def folderFromRow (id : ℕ) (row : FolderRow) : LibraryFolder :=
  ⟨row.workspace, id, row.name, row.parent⟩

namespace Rows

def parentOf (s : Rows) (id : ℕ) : Option ℕ := (s.folders.get? id).bind FolderRow.parent

/-- A folder of a Workspace. -/
def folder (s : Rows) (workspace id : ℕ) : Option FolderRow :=
  (s.folders.get? id).filter (fun row => row.workspace = workspace)

/-- The folders of a Workspace. Their order is for the panel alone. -/
def listFolders (s : Rows) (workspace : ℕ) : List LibraryFolder :=
  (s.folders.filter (fun entry => entry.2.workspace = workspace)).map
    (fun entry => folderFromRow entry.1 entry.2)

def byName (s : Rows) (workspace : ℕ) (parent : Option ℕ) (nameKey : String) :
    Option LibraryFolder :=
  (s.folders.find? (fun entry => entry.2.workspace = workspace ∧ entry.2.parent = parent ∧
    entry.2.nameKey = nameKey)).map (fun entry => folderFromRow entry.1 entry.2)

def countChildren (s : Rows) (workspace id : ℕ) : ℕ :=
  s.folders.countP (fun entry => entry.2.workspace = workspace ∧ entry.2.parent = some id)

def countPlacements (s : Rows) (workspace id : ℕ) : ℕ :=
  s.placements.countP (fun entry => entry.1.1 = workspace ∧ entry.2 = id)

/-- Whether a folder may be stored: its parent is a folder of its Workspace, not itself, and
no sibling has its name key. -/
def allows (s : Rows) (folder : LibraryFolder) (nameKey : String) : Bool :=
  folder.parent ≠ some folder.id &&
    folder.parent.all (fun parent => (s.folder folder.workspace parent).isSome) &&
    s.folders.all (fun entry => entry.1 = folder.id ∨ entry.2.workspace ≠ folder.workspace ∨
      entry.2.parent ≠ folder.parent ∨ entry.2.nameKey ≠ nameKey)

/-- Placements one after the other: the artifact and the folder are the Workspace's, and the
artifact has none. -/
def place (workspace folder : ℕ) : List ℕ → Rows → Option Rows
  | [], s => some s
  | artifact :: artifacts, s =>
    if (s.artifacts.get? (workspace, artifact)).isSome ∧ (s.folder workspace folder).isSome ∧
        (s.placements.get? (workspace, artifact)).isNone then
      place workspace folder artifacts
        { s with placements := s.placements ++ [((workspace, artifact), folder)] }
    else none

/-- One statement, if the constraints allow it. An update or a deletion of a row that is not
there does nothing. -/
def write (casefold : String → String) (s : Rows) : Statement → Option Rows
  | .insertFolder folder =>
    if (s.folders.get? folder.id).isNone ∧ s.allows folder (casefold folder.name) then
      some
        { s with
          folders := s.folders ++ [(folder.id,
            ⟨folder.workspace, folder.parent, folder.name, casefold folder.name⟩)] }
    else none
  | .saveFolder folder =>
    if (s.folder folder.workspace folder.id).isNone then some s
    else if s.allows folder (casefold folder.name) then
      some
        { s with
          folders := s.folders.set folder.id
            ⟨folder.workspace, folder.parent, folder.name, casefold folder.name⟩ }
    else none
  | .removeFolder folder =>
    if (s.folder folder.workspace folder.id).isNone then some s
    else if s.countChildren folder.workspace folder.id = 0 ∧
        s.countPlacements folder.workspace folder.id = 0 then
      some { s with folders := s.folders.erase folder.id }
    else none
  | .removePlacements workspace artifacts => some
      { s with
        placements := s.placements.filter (fun entry =>
          ¬ (entry.1.1 = workspace ∧ entry.1.2 ∈ artifacts)) }
  | .insertPlacements workspace artifacts folder => s.place workspace folder artifacts

def writeAll (casefold : String → String) : List Statement → Rows → Option Rows
  | [], s => some s
  | statement :: writes, s => (s.write casefold statement).bind (writeAll casefold writes)

end Rows

/-- What an operation returns. -/
inductive Outcome
  | folder (folder : LibraryFolder)
  | done
deriving DecidableEq

abbrev Call := Program Rows Empty (List Statement) (Except FolderError Outcome)

def raise (error : FolderError) : Call := .finished (some (.error error))

def finish (writes : List Statement) (outcome : Outcome) : Call :=
  .commit writes fun ok => .finished (some (if ok then .ok outcome else .error .refused))

/-- `_require_folder`. -/
def requireFolder (workspace id : ℕ) (next : LibraryFolder → Call) : Call :=
  .query fun s =>
    match s.folder workspace id with
    | none => raise (.notFound "Library folder" id)
    | some row => next (folderFromRow id row)

/-- `_require_folder_when_set`. -/
def requireFolderWhenSet (workspace : ℕ) (parent : Option ℕ) (next : Call) : Call :=
  match parent with
  | none => next
  | some id => requireFolder workspace id fun _ => next

/-- `_require_name_free`. -/
def requireNameFree (workspace : ℕ) (parent : Option ℕ) (nameKey : String)
    (exceptFolder : Option ℕ) (next : Call) : Call :=
  .query fun s =>
    match s.byName workspace parent nameKey with
    | none => next
    | some taken =>
      if some taken.id ≠ exceptFolder then raise (.nameConflict workspace parent taken.name)
      else next

section
variable (casefold : String → String)

def createFolder (workspace id : ℕ) (name : String) (parent : Option ℕ) : Call :=
  match LibraryFolder.new workspace id name parent with
  | .error e => raise e
  | .ok folder =>
    requireFolderWhenSet workspace parent <|
      requireNameFree workspace parent (casefold folder.name) none <|
        finish [.insertFolder folder] (.folder folder)

/-- `rename_folder`. The candidate it builds first has an id of its own. -/
def renameFolder (workspace id : ℕ) (name : String) : Call :=
  requireFolder workspace id fun folder =>
    match validatedFolderName name with
    | .error e => raise e
    | .ok candidate =>
      requireNameFree workspace folder.parent (casefold candidate) (some id) <|
        match folder.rename candidate with
        | .error e => raise e
        | .ok folder => finish [.saveFolder folder] (.folder folder)

def deleteFolder (workspace id : ℕ) : Call :=
  requireFolder workspace id fun folder => .query fun s =>
    let artifactCount := s.countPlacements workspace id
    .query fun s =>
      let childCount := s.countChildren workspace id
      if artifactCount ≠ 0 ∨ childCount ≠ 0 then raise (.notEmpty id artifactCount childCount)
      else finish [.removeFolder folder] .done

def moveFolder (workspace id : ℕ) (parent : Option ℕ) : Call :=
  requireFolder workspace id fun folder =>
    let move : Call :=
      requireNameFree workspace parent (casefold folder.name) (some id) <|
        match folder.moveTo parent with
        | .error e => raise e
        | .ok folder => finish [.saveFolder folder] (.folder folder)
    requireFolderWhenSet workspace parent <|
      match parent with
      | none => move
      | some target => .query fun s =>
        if isDescendantFolder (s.listFolders workspace) target id then raise (.cycle id target)
        else move

end

/-- What `place_artifacts` raises for the first artifact it may not file. -/
def unplaceable (s : Rows) (workspace : ℕ) (artifacts : List ℕ) : Option FolderError :=
  artifacts.findSome? fun artifact =>
    match s.artifacts.get? (workspace, artifact) with
    | none => some (.notFound "Artifact" artifact)
    | some false => some (.notFound "Library artifact" artifact)
    | some true => none

def placeArtifacts (workspace : ℕ) (artifacts : List ℕ) (folder : Option ℕ) : Call :=
  let unique := artifacts.eraseDups
  requireFolderWhenSet workspace folder <| .query fun s =>
    match unplaceable s workspace unique with
    | some e => raise e
    | none =>
      if unique = [] then finish [] .done
      else
        match folder with
        | none => finish [.removePlacements workspace unique] .done
        | some folder =>
          finish [.removePlacements workspace unique, .insertPlacements workspace unique folder]
            .done

inductive Op
  | create (workspace id : ℕ) (name : String) (parent : Option ℕ)
  | rename (workspace id : ℕ) (name : String)
  | delete (workspace id : ℕ)
  | move (workspace id : ℕ) (parent : Option ℕ)
  | place (workspace : ℕ) (artifacts : List ℕ) (folder : Option ℕ)
deriving DecidableEq

def Op.program (casefold : String → String) : Op → Call
  | .create workspace id name parent => createFolder casefold workspace id name parent
  | .rename workspace id name => renameFolder casefold workspace id name
  | .delete workspace id => deleteFolder workspace id
  | .move workspace id parent => moveFolder casefold workspace id parent
  | .place workspace artifacts folder => placeArtifacts workspace artifacts folder

/-- Any number of these transactions over the two tables. -/
def library (casefold : String → String) :
    Machine Rows Empty (List Statement) (Except FolderError Outcome) Op where
  program := Op.program casefold
  write := Rows.writeAll casefold
  shares _ := []

end Grafy.LibraryFolders
