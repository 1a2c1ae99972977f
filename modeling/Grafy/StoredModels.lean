import Grafy.TableBundles

/-!
Objects in a storage. Writers put JSON under paths that end with its digest, so
two saves under one path are saves of one content, and what has been saved stays
whatever is saved later. Readers check the size and the digest of what they load
before they make a model of it.
-/
namespace Grafy.StoredModels

open CanonicalJson JsonTexts OrderedDict Tables

/-! JSON objects -/

/-- A dict from strings to JSON values, as are the objects in it. -/
abbrev JsonObject := { members : Dict String Json // everywhere distinctKeys (.obj members) = true }

namespace JsonObject

def json (object : JsonObject) : Json := .obj object.1

/-- The object with null for every infinity and NaN in it. -/
def plain (object : JsonObject) : JsonObject :=
  ⟨mapFloatsMembers plainFloat object.1, keyed_plain object.2⟩

theorem plain_eq_iff (object : JsonObject) :
    plain object = object ↔ everywhere finiteFloat (json object) := by
  rw [Subtype.ext_iff, json, ← JsonTexts.plain_eq_iff, mapFloats, Json.obj.injEq, plain]

theorem json_plain (object : JsonObject) :
    json (plain object) = mapFloats plainFloat (json object) := rfl

theorem json_injective : Function.Injective json := fun _ _ h => Subtype.ext (Json.obj.inj h)

/-- The objects as an array. -/
def array (objects : List JsonObject) : Json := .arr (objects.map json)

theorem mapFloats_array (objects : List JsonObject) :
    mapFloats plainFloat (array objects) = array (objects.map plain) := by
  unfold array
  rw [mapFloats, Json.arr.injEq]
  induction objects with
  | nil => rfl
  | cons object objects ih =>
    rw [List.map_cons, mapFloatsItems, ih]
    rfl

theorem array_injective : Function.Injective array := fun _ _ h =>
  List.map_injective_iff.mpr json_injective (Json.arr.inj h)

theorem map_plain_eq_iff (objects : List JsonObject) :
    objects.map plain = objects ↔ ∀ object ∈ objects, everywhere finiteFloat (json object) := by
  induction objects with
  | nil => simp
  | cons object objects ih =>
    rw [List.map_cons, List.cons.injEq, ih, plain_eq_iff, List.forall_mem_cons]

/-- The JSON reader takes the object so deep in a document: its integers are short enough, and
nothing in it lies deeper than the limit on nesting. -/
def Readable (maxDigits nestingLimit depth : ℕ) (object : JsonObject) : Prop :=
  everywhere (readableInt maxDigits) (json object) = true ∧
    nesting (json object) + depth ≤ nestingLimit

theorem readable_plain {maxDigits nestingLimit depth : ℕ} (object : JsonObject) :
    Readable maxDigits nestingLimit depth (plain object) ↔
      Readable maxDigits nestingLimit depth object := by
  have hints : everywhere (readableInt maxDigits) (json (plain object)) =
      everywhere (readableInt maxDigits) (json object) := by
    refine everywhere_mapFloats ?_ (fun _ => rfl) (fun _ => rfl) (json object)
    intro f
    unfold plainFloat
    split <;> rfl
  have hnesting : nesting (json (plain object)) = nesting (json object) :=
    nesting_plain (json object)
  unfold Readable
  rw [hints, hnesting]

end JsonObject

/-! The storage -/

structure SaveFileCommand where
  bucket : String
  path : String
  content : Bytes
  contentType : String
  metadata : Dict String String
  allowOverwrite : Bool

structure StoredFile where
  bucket : String
  path : String
  etag : Option String
  versionId : Option String
  byteSize : ℕ
  sha256 : String

/-- What is used of a storage, over its states; `none` where it raises. -/
structure FileStoragePort (S : Type*) where
  save : S → SaveFileCommand → Option (StoredFile × S)
  load : S → String → String → Option Bytes

namespace FileStoragePort

variable {S : Type*} (port : FileStoragePort S) (sha256 : Bytes → String)

/-- The storage returns the bytes saved under a path. -/
structure Keeps : Prop where
  saves : ∀ s (command : SaveFileCommand), command.allowOverwrite = true →
    ∃ file s', port.save s command = some (file, s') ∧ file.bucket = command.bucket ∧
      file.path = command.path ∧ file.byteSize = command.content.size ∧
      file.sha256 = sha256 command.content
  saved : ∀ {s command file s'}, port.save s command = some (file, s') →
    port.load s' command.bucket command.path = some command.content
  others : ∀ {s command file s'}, port.save s command = some (file, s') → ∀ {bucket path},
    (bucket, path) ≠ (command.bucket, command.path) →
      port.load s' bucket path = port.load s bucket path

/-- The state after the saves, one after the other; one that raises changes nothing. -/
def run (s : S) : List SaveFileCommand → S
  | [] => s
  | command :: rest =>
    match port.save s command with
    | none => run s rest
    | some (_, s') => run s' rest

theorem run_append (s : S) (commands more : List SaveFileCommand) :
    port.run s (commands ++ more) = port.run (port.run s commands) more := by
  induction commands generalizing s with
  | nil => rfl
  | cons command commands ih =>
    rw [List.cons_append, run, run]
    split
    · exact ih s
    · exact ih _

end FileStoragePort

/-- The path of the command ends with the digest of its content. -/
def Addressed (sha256 : Bytes → String) (command : SaveFileCommand) : Prop :=
  ∃ folder, command.path = folder ++ sha256 command.content ++ ".json"

/-- No two of the contents have one digest. -/
def NoCollision (sha256 : Bytes → String) (commands : List SaveFileCommand) : Prop :=
  ∀ c ∈ commands, ∀ c' ∈ commands, sha256 c.content = sha256 c'.content → c.content = c'.content

variable {sha256 : Bytes → String} {c' : SaveFileCommand} {commands : List SaveFileCommand}

section Addressing

variable (hdigest : ∀ content, isHexDigest (sha256 content) = true)

include hdigest

theorem length_digest (content : Bytes) : (sha256 content).toList.length = 64 := by
  have h := hdigest content
  unfold isHexDigest at h
  rw [Bool.and_eq_true, decide_eq_true_eq] at h
  rw [String.length_toList, h.1]

variable {c : SaveFileCommand}

/-- One path is one digest. -/
theorem digest_eq_of_path (h : Addressed sha256 c) (h' : Addressed sha256 c')
    (hpath : c.path = c'.path) : sha256 c.content = sha256 c'.content := by
  obtain ⟨folder, hfolder⟩ := h
  obtain ⟨folder', hfolder'⟩ := h'
  have hchars := congrArg String.toList (hfolder.symm.trans (hpath.trans hfolder'))
  simp only [String.toList_append] at hchars
  have hstems := List.append_inj_left' hchars rfl
  have hlength : (sha256 c.content).toList.length = (sha256 c'.content).toList.length := by
    rw [length_digest hdigest, length_digest hdigest]
  exact String.toList_inj.mp (List.append_inj_right' hstems hlength)

variable {S : Type*} {port : FileStoragePort S} (hport : port.Keeps sha256)

include hport

variable {s : S}

section

variable (hload : port.load s c.bucket c.path = some c.content) (hc : Addressed sha256 c)
include hload hc

/-- A save under a digest leaves what was saved under one. -/
theorem load_save {s' : S} {file : StoredFile} (hc' : Addressed sha256 c')
    (hcollision : sha256 c.content = sha256 c'.content → c.content = c'.content)
    (h : port.save s c' = some (file, s')) :
    port.load s' c.bucket c.path = some c.content := by
  by_cases hsame : (c.bucket, c.path) = (c'.bucket, c'.path)
  · obtain ⟨hbucket, hpath⟩ := Prod.mk.inj hsame
    rw [hbucket, hpath, hport.saved h, hcollision (digest_eq_of_path hdigest hc hc' hpath)]
  · rw [hport.others h hsame, hload]

theorem load_run_of_load (haddressed : ∀ c' ∈ commands, Addressed sha256 c')
    (hcollision : ∀ c' ∈ commands, sha256 c.content = sha256 c'.content → c.content = c'.content) :
    port.load (port.run s commands) c.bucket c.path = some c.content := by
  induction commands generalizing s with
  | nil => exact hload
  | cons command commands ih =>
    rw [List.forall_mem_cons] at haddressed hcollision
    rw [FileStoragePort.run]
    split
    · exact ih hload haddressed.2 hcollision.2
    · rename_i file s' hsave
      exact ih (load_save hdigest hport hload hc haddressed.1 hcollision.1 hsave) haddressed.2
        hcollision.2

end

/-- Everything saved under its digest is found, whatever else is saved before or after it. -/
theorem load_run (hmem : c ∈ commands) (hwrites : c.allowOverwrite = true)
    (haddressed : ∀ c' ∈ commands, Addressed sha256 c') (hcollision : NoCollision sha256 commands) :
    port.load (port.run s commands) c.bucket c.path = some c.content := by
  obtain ⟨before, after, rfl⟩ := List.append_of_mem hmem
  obtain ⟨file, s', hsave, -⟩ := hport.saves (port.run s before) c hwrites
  rw [port.run_append, FileStoragePort.run, hsave]
  refine load_run_of_load hdigest hport (hport.saved hsave) (haddressed c hmem) ?_ ?_
  · exact fun c' hc' => haddressed c' (List.mem_append_right _ (List.mem_cons_of_mem _ hc'))
  · exact fun c' hc' => hcollision c hmem c'
      (List.mem_append_right _ (List.mem_cons_of_mem _ hc'))

end Addressing

/-! Models -/

/-- What `load_stored_model` raises. -/
inductive StoredModelError
  | missing
  | byteSize (objectKey : String) (found expected : ℕ)
  | sha256 (objectKey observed expected : String)
  | validation

variable {S M : Type*} {bucket objectKey : String} {model : Bytes → Option M} {content : Bytes}

/-- `load_stored_model`; the model is what `model_validate_json` makes of the content. -/
def loadStoredModel (port : FileStoragePort S) (sha256 : Bytes → String) (s : S)
    (bucket objectKey : String) (model : Bytes → Option M) (expectedByteSize : Option ℕ)
    (expectedSha256 : Option String) : Except StoredModelError M :=
  match port.load s bucket objectKey with
  | none => .error .missing
  | some content =>
    match expectedByteSize.filter (fun size => content.size ≠ size) with
    | some size => .error (.byteSize objectKey content.size size)
    | none =>
      match expectedSha256.filter (fun digest => sha256 content ≠ digest) with
      | some digest => .error (.sha256 objectKey (sha256 content) digest)
      | none =>
        match model content with
        | none => .error .validation
        | some value => .ok value

/-- The identity that is expected, where one is, is that of the content. -/
structure Identifies (sha256 : Bytes → String) (byteSize : Option ℕ) (digest : Option String)
    (content : Bytes) : Prop where
  byteSize : ∀ size ∈ byteSize, size = content.size
  digest : ∀ found ∈ digest, found = sha256 content

theorem loadStoredModel_eq {port : FileStoragePort S} {s : S} {byteSize : Option ℕ}
    {digest : Option String} (hload : port.load s bucket objectKey = some content)
    (hidentity : Identifies sha256 byteSize digest content) :
    loadStoredModel port sha256 s bucket objectKey model byteSize digest =
      (model content).elim (.error .validation) .ok := by
  have hsize : byteSize.filter (fun size => content.size ≠ size) = none := by
    rw [Option.filter_eq_none_iff]
    intro size hsize
    simp [hidentity.byteSize size hsize]
  have hdigest : digest.filter (fun found => sha256 content ≠ found) = none := by
    rw [Option.filter_eq_none_iff]
    intro found hfound
    simp [hidentity.digest found hfound]
  unfold loadStoredModel
  simp only [hload, hsize, hdigest]
  cases model content <;> rfl

/-! Manifests of artifacts -/

structure ArtifactObject where
  id : String
  bucket : Option String
  objectKey : Option String
  inlinePayload : Option JsonObject
  byteSize : Option ℕ
  sha256 : Option String
  metadata : Dict String Json

/-- The expected size of a manifest in the metadata of its artifact. -/
def manifestByteSize : Option Json → Option (Option ℕ)
  | none => some none
  | some .null => some none
  | some (.int size) => if size < 0 then none else some (some size.toNat)
  | some _ => none

/-- The expected digest of a manifest in the metadata of its artifact. -/
def manifestSha256 : Option Json → Option (Option String)
  | none => some none
  | some .null => some none
  | some (.str digest) => if isHexDigest digest then some (some digest) else none
  | some _ => none

inductive ManifestError
  | noManifest (artifactId : String)
  | byteSize (artifactId : String)
  | sha256 (artifactId : String)
  | resolution (artifactId bucket objectKey : String) (cause : StoredModelError)

/-- The manifest that an artifact refers to, with the identity its metadata expects. -/
def loadManifest (port : FileStoragePort S) (sha256 : Bytes → String) (s : S)
    (artifact : ArtifactObject) (model : Bytes → Option M) : Except ManifestError M :=
  match artifact.bucket, artifact.objectKey with
  | some bucket, some objectKey =>
    match manifestByteSize (artifact.metadata.get? "manifest_byte_size") with
    | none => .error (.byteSize artifact.id)
    | some byteSize =>
      match manifestSha256 (artifact.metadata.get? "manifest_sha256") with
      | none => .error (.sha256 artifact.id)
      | some digest =>
        match loadStoredModel port sha256 s bucket objectKey model byteSize digest with
        | .error e => .error (.resolution artifact.id bucket objectKey e)
        | .ok manifest => .ok manifest
  | _, _ => .error (.noManifest artifact.id)

/-- The artifact refers to an object with the content; its metadata may or may not record the
identity of it. -/
structure RefersTo (sha256 : Bytes → String) (artifact : ArtifactObject) (bucket objectKey : String)
    (content : Bytes) : Prop where
  bucket : artifact.bucket = some bucket
  objectKey : artifact.objectKey = some objectKey
  byteSize : ∀ value, artifact.metadata.get? "manifest_byte_size" = some value →
    value = .int content.size
  sha256 : ∀ value, artifact.metadata.get? "manifest_sha256" = some value →
    value = .str (sha256 content)

theorem loadManifest_eq {port : FileStoragePort S}
    (hdigest : ∀ content, isHexDigest (sha256 content) = true) {s : S} {artifact : ArtifactObject}
    (hrefers : RefersTo sha256 artifact bucket objectKey content)
    (hload : port.load s bucket objectKey = some content) :
    loadManifest port sha256 s artifact model =
      (model content).elim (.error (.resolution artifact.id bucket objectKey .validation)) .ok := by
  obtain ⟨byteSize, hbyteSize, hsize⟩ : ∃ byteSize,
      manifestByteSize (artifact.metadata.get? "manifest_byte_size") = some byteSize ∧
        ∀ size ∈ byteSize, size = content.size := by
    cases hvalue : artifact.metadata.get? "manifest_byte_size" with
    | none => exact ⟨none, rfl, nofun⟩
    | some value =>
      refine ⟨some content.size, ?_, ?_⟩
      · rw [hrefers.byteSize value hvalue, manifestByteSize, if_neg (by simp)]
        rfl
      · exact fun size hmem => (Option.mem_some.mp hmem).symm
  obtain ⟨digest, hfound, hsha⟩ : ∃ digest,
      manifestSha256 (artifact.metadata.get? "manifest_sha256") = some digest ∧
        ∀ found ∈ digest, found = sha256 content := by
    cases hvalue : artifact.metadata.get? "manifest_sha256" with
    | none => exact ⟨none, rfl, nofun⟩
    | some value =>
      refine ⟨some (sha256 content), ?_, ?_⟩
      · rw [hrefers.sha256 value hvalue, manifestSha256, if_pos (hdigest _)]
      · exact fun found hmem => (Option.mem_some.mp hmem).symm
  unfold loadManifest
  simp only [hrefers.bucket, hrefers.objectKey, hbyteSize, hfound]
  rw [loadStoredModel_eq hload ⟨hsize, hsha⟩]
  cases model content <;> rfl

end Grafy.StoredModels
