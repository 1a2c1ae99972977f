import Grafy.OrderedDict
import Grafy.Worklist

/-!
The static import closure of a family module. A family is a tree of source
files; the closure starts at a module and takes in the ancestors of each module
and the modules its import statements name, as far as they have a file. The
digest is taken over the bytes of the files in it. A name inside the family is
held by its parts below the top-level package, so the package itself is the
empty one.
-/
namespace Grafy.ImplementationIdentity

open OrderedDict

/-- A part of a dotted name. -/
structure Part where
  text : String
  plain : text.toList.all (fun c => c ≠ '.' && c ≠ Char.ofNat 0) = true
deriving DecidableEq

abbrev Bytes := ByteArray

instance : DecidableEq Bytes := ByteArray.instDecidableEq

/-- The files of a family by their path below its root. -/
abbrev Tree := Dict (List String) Bytes

/-- An import statement: `import a.b, c` by its dotted names, `from ..m import n` by its level,
its module and the names it takes from it. -/
inductive ImportStatement
  | modules (names : List (List Part))
  | from_ (level : ℕ) (module : Option (List Part)) (names : List Part)
deriving DecidableEq

inductive ClosureError
  | moduleNotFound
  | syntaxError
deriving DecidableEq

def initFile : String := "__init__.py"

def Part.file (leaf : Part) : String := leaf.text ++ ".py"

def texts (parts : List Part) : List String := parts.map Part.text

section Closure

variable (parse : Bytes → Option (List ImportStatement)) (tree : Tree) (topLevel : Part)

/-- `_module_source`: the file of a name of the family, and whether it is a package. -/
def moduleSource : List Part → Option (Bytes × Bool)
  | [] => (tree.get? [initFile]).map (fun source => (source, true))
  | first :: rest =>
    let leaf := (first :: rest).getLast (List.cons_ne_nil _ _)
    match tree.get? (texts (first :: rest).dropLast ++ [leaf.file]) with
    | some source => some (source, false)
    | none =>
      (tree.get? (texts (first :: rest) ++ [initFile])).map (fun source => (source, true))

/-- A dotted name inside the family, below the top-level package. -/
def inFamily : List Part → Option (List Part)
  | [] => none
  | first :: rest => if first = topLevel then some rest else none

/-- The package a relative import starts from. -/
def anchorOf (parts : List Part) (isPackage : Bool) : List Part :=
  if isPackage then parts else parts.dropLast

/-- The base of a `from` statement and the names under it. -/
def fromBase (base : List Part) (names : List Part) : List (List Part) :=
  base :: names.map (fun name => base ++ [name])

/-- The names `_static_imports` takes from one statement. -/
def statementNames (parts : List Part) (isPackage : Bool) : ImportStatement → List (List Part)
  | .modules names => names.filterMap (inFamily topLevel)
  | .from_ 0 none _ => []
  | .from_ 0 (some base) names =>
    match inFamily topLevel base with
    | none => []
    | some base => fromBase base names
  | .from_ (ascend + 1) module names =>
    let anchor := anchorOf parts isPackage
    if anchor.length < ascend then []
    else fromBase (anchor ++ module.getD []) names

/-- `_static_imports` over the statements of a file. -/
def staticImports (statements : List ImportStatement) (parts : List Part) (isPackage : Bool) :
    List (List Part) :=
  statements.flatMap (statementNames topLevel parts isPackage)

/-- The packages a name lies in, the top-level one first. -/
def ancestors (parts : List Part) : List (List Part) :=
  (List.range parts.length).map (fun depth => parts.take depth)

/-- What one turn of the loop makes of a name: its file, and the names it pushes, the one
pushed last in front. -/
def expand : Worklist.Expand (List Part) Bytes ClosureError := fun current =>
  match moduleSource tree current with
  | none => .ok none
  | some (source, isPackage) =>
    match parse source with
    | none => .error .syntaxError
    | some statements =>
      .ok (some (source,
        (ancestors current ++ staticImports topLevel statements current isPackage).reverse))

def toPart (text : String) : Option Part :=
  if h : text.toList.all (fun c => c ≠ '.' && c ≠ Char.ofNat 0) = true then some ⟨text, h⟩ else none

def stem (file : String) : String := String.ofList (file.toList.take (file.toList.length - 3))

/-- The names that a file can be looked up under. -/
def namesOfPath (path : List String) : List (List Part) :=
  [path.dropLast, path.dropLast ++ path.getLast?.toList.map stem].filterMap (fun l => l.mapM toPart)

def names : List (List Part) := tree.keys.flatMap namesOfPath

end Closure

section Names

variable {tree : Tree} {parts : List Part}

theorem mapM_toPart (parts : List Part) : (texts parts).mapM toPart = some parts := by
  induction parts with
  | nil => rfl
  | cons part rest ih =>
    have hpart : toPart part.text = some part := by
      unfold toPart
      rw [dif_pos part.plain]
    unfold texts at ih ⊢
    rw [List.map_cons, List.mapM_cons, hpart, ih]
    rfl

theorem stem_file (leaf : Part) : stem leaf.file = leaf.text := by
  unfold stem Part.file
  rw [String.toList_append, List.length_append]
  have hpy : (".py" : String).toList.length = 3 := rfl
  rw [hpy, Nat.add_sub_cancel, List.take_left, String.ofList_toList]

theorem mem_names_of_package {source : Bytes}
    (h : tree.get? (texts parts ++ [initFile]) = some source) : parts ∈ names tree := by
  refine List.mem_flatMap.mpr ⟨_, Dict.mem_keys_of_get? h, ?_⟩
  refine List.mem_filterMap.mpr ⟨texts parts, ?_, mapM_toPart parts⟩
  rw [List.dropLast_concat]
  exact List.mem_cons_self

theorem mem_names_of_module {leaf : Part} {source : Bytes}
    (h : tree.get? (texts parts ++ [leaf.file]) = some source) : parts ++ [leaf] ∈ names tree := by
  refine List.mem_flatMap.mpr ⟨_, Dict.mem_keys_of_get? h, ?_⟩
  refine List.mem_filterMap.mpr ⟨texts (parts ++ [leaf]), ?_, mapM_toPart _⟩
  rw [List.dropLast_concat, List.getLast?_concat]
  simp [texts, stem_file]

/-- A name with a file is among the finitely many names of the tree. -/
theorem mem_names {found : Bytes × Bool} (h : moduleSource tree parts = some found) :
    parts ∈ names tree := by
  cases parts with
  | nil =>
    obtain ⟨source, hsource, -⟩ := Option.map_eq_some_iff.mp h
    exact mem_names_of_package hsource
  | cons first rest =>
    simp only [moduleSource] at h
    split at h
    · rename_i source hsource
      have hmem := mem_names_of_module hsource
      rwa [List.dropLast_append_getLast] at hmem
    · obtain ⟨source, hsource, -⟩ := Option.map_eq_some_iff.mp h
      exact mem_names_of_package hsource

theorem expand_names {parse : Bytes → Option (List ImportStatement)} {topLevel : Part}
    (parts : List Part) (found : Bytes × List (List Part))
    (h : expand parse tree topLevel parts = .ok (some found)) : parts ∈ names tree := by
  unfold expand at h
  split at h
  · cases h
  · rename_i hsource
    exact mem_names hsource

end Names

section Digest

variable (parse : Bytes → Option (List ImportStatement)) (tree : Tree) (topLevel : Part)

/-- `_closure_files`. -/
def closureFiles (parts : List Part) : Except ClosureError (List (List Part × Bytes)) :=
  match moduleSource tree parts with
  | none => .error .moduleNotFound
  | some _ => Worklist.search (expand parse tree topLevel) expand_names [] [] [parts]

/-- `import_closure`. -/
def importClosure (parts : List Part) : Except ClosureError (List (List Part)) :=
  (closureFiles parse tree topLevel parts).map (fun files => files.map Prod.fst)

/-- The dotted name, with the top-level package in front. -/
def dotted (parts : List Part) : String := ".".intercalate (texts (topLevel :: parts))

variable (sha256 : Bytes → String)

/-- One line of the digest's input. -/
def digestLine (entry : String × Bytes) : String :=
  entry.1 ++ String.singleton (Char.ofNat 0) ++ sha256 entry.2 ++ "\n"

/-- The names and bytes of the files, sorted by name. -/
def sortedFiles (files : List (List Part × Bytes)) : List (String × Bytes) :=
  (files.map (fun file => (dotted topLevel file.1, file.2))).mergeSort (fun a b => a.1 ≤ b.1)

/-- `import_closure_digest`. -/
def importClosureDigest (parts : List Part) : Except ClosureError String :=
  (closureFiles parse tree topLevel parts).map (fun files =>
    sha256 (String.join ((sortedFiles topLevel files).map (digestLine sha256))).toByteArray)

end Digest

/-! Python's reading -/

section Python

variable (parse : Bytes → Option (List ImportStatement)) (tree : Tree) (topLevel : Part)

/-- The file Python loads for a name under a directory: a package before a module of the same
name, and nothing below a plain module. -/
def pythonLocate (directory : List String) : List Part → Option (Bytes × Bool)
  | [] => none
  | [leaf] =>
    match tree.get? (directory ++ [leaf.text, initFile]) with
    | some source => some (source, true)
    | none => (tree.get? (directory ++ [leaf.file])).map (fun source => (source, false))
  | part :: rest =>
    match tree.get? (directory ++ [part.text, initFile]), tree.get? (directory ++ [part.file]) with
    | none, some _ => none
    | _, _ => pythonLocate (directory ++ [part.text]) rest

def pythonSource : List Part → Option (Bytes × Bool)
  | [] => (tree.get? [initFile]).map (fun source => (source, true))
  | first :: rest => pythonLocate tree [] (first :: rest)

/-- The names of one statement, a relative one from the package its level ascends to. -/
def pythonNames (parts : List Part) (isPackage : Bool) : ImportStatement → List (List Part)
  | .modules names => names.filterMap (inFamily topLevel)
  | .from_ 0 none _ => []
  | .from_ 0 (some base) names =>
    match inFamily topLevel base with
    | none => []
    | some base => fromBase base names
  | .from_ (ascend + 1) module names =>
    let package := anchorOf parts isPackage
    if package.length < ascend then []
    else fromBase (package.take (package.length - ascend) ++ module.getD []) names

/-- What the file of a module imports, as Python reads it. -/
def pythonImports (parts : List Part) : List (List Part) :=
  match pythonSource tree parts with
  | none => []
  | some (source, isPackage) =>
    ((parse source).getD []).flatMap (pythonNames topLevel parts isPackage)

/-- The least set of modules of the family with the module, the ancestor packages of each
module in it, and the modules each of them names in an import statement. -/
inductive Imported (start : List Part) : List Part → Prop
  | start : (pythonSource tree start).isSome → Imported start start
  | ancestor {parts : List Part} {depth : ℕ} : Imported start parts → depth < parts.length →
      (pythonSource tree (parts.take depth)).isSome → Imported start (parts.take depth)
  | named {parts target : List Part} : Imported start parts →
      target ∈ pythonImports parse tree topLevel parts → (pythonSource tree target).isSome →
      Imported start target

end Python

end Grafy.ImplementationIdentity
