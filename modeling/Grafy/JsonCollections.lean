import Grafy.GraphDocuments
import Grafy.Paging
import Grafy.StoredModels

/-!
JSON collections. The items of each collection are cut into chunks, each saved
as one JSON object under its digest; a manifest describes the chunks and is
saved last. A page is read from the manifest and the chunks its window meets.
-/
namespace Grafy.JsonCollections

open CanonicalJson JsonTexts Tables StoredModels Paging GraphDocuments

def jsonCollectionsStorageFormat : String := "grafy.json-collections.chunked.v1"

def jsonCollectionChunkItemCount : ℕ := 50

def jsonCollectionChunkTargetByteSize : ℕ := 512 * 1024

structure JsonCollection where
  id : String
  items : List JsonObject
  metadata : JsonObject
  id_length : 1 ≤ id.length

@[ext]
structure JsonCollectionChunk where
  collectionId : String
  offset : ℕ
  items : List JsonObject
  id_length : 1 ≤ collectionId.length

namespace JsonCollectionChunk

structure Fields where
  collectionId : String
  offset : ℤ
  items : List JsonObject

def ofFields (fields : Fields) : Option JsonCollectionChunk :=
  if h : 1 ≤ fields.collectionId.length ∧ 0 ≤ fields.offset then
    some ⟨fields.collectionId, fields.offset.toNat, fields.items, h.1⟩
  else none

def fields (chunk : JsonCollectionChunk) : Fields := ⟨chunk.collectionId, chunk.offset, chunk.items⟩

theorem ofFields_fields (chunk : JsonCollectionChunk) : ofFields chunk.fields = some chunk :=
  dif_pos ⟨chunk.id_length, Int.natCast_nonneg _⟩

def plain (chunk : JsonCollectionChunk) : JsonCollectionChunk :=
  ⟨chunk.collectionId, chunk.offset, chunk.items.map JsonObject.plain, chunk.id_length⟩

def json (chunk : JsonCollectionChunk) : Json :=
  .obj [("collection_id", .str chunk.collectionId), ("offset", .int chunk.offset),
    ("items", JsonObject.array chunk.items)]

end JsonCollectionChunk

@[ext]
structure JsonCollectionChunkDescriptor where
  offset : ℕ
  itemCount : ℕ
  objectKey : String
  byteSize : ℕ
  sha256 : String
  itemCount_pos : 1 ≤ itemCount
  objectKey_length : 1 ≤ objectKey.length
  digest : isHexDigest sha256 = true

namespace JsonCollectionChunkDescriptor

structure Fields where
  offset : ℤ
  itemCount : ℤ
  objectKey : String
  byteSize : ℤ
  sha256 : String

def ofFields (fields : Fields) : Option JsonCollectionChunkDescriptor :=
  if h : 0 ≤ fields.offset ∧ 1 ≤ fields.itemCount.toNat ∧ 1 ≤ fields.objectKey.length ∧
      0 ≤ fields.byteSize ∧ isHexDigest fields.sha256 = true then
    some ⟨fields.offset.toNat, fields.itemCount.toNat, fields.objectKey, fields.byteSize.toNat,
      fields.sha256, h.2.1, h.2.2.1, h.2.2.2.2⟩
  else none

def fields (descriptor : JsonCollectionChunkDescriptor) : Fields :=
  ⟨descriptor.offset, descriptor.itemCount, descriptor.objectKey, descriptor.byteSize,
    descriptor.sha256⟩

theorem ofFields_fields (descriptor : JsonCollectionChunkDescriptor) :
    ofFields descriptor.fields = some descriptor :=
  dif_pos ⟨Int.natCast_nonneg _, descriptor.itemCount_pos, descriptor.objectKey_length,
    Int.natCast_nonneg _, descriptor.digest⟩

def json (descriptor : JsonCollectionChunkDescriptor) : Json :=
  .obj [("offset", .int descriptor.offset), ("item_count", .int descriptor.itemCount),
    ("object_key", .str descriptor.objectKey), ("byte_size", .int descriptor.byteSize),
    ("sha256", .str descriptor.sha256)]

end JsonCollectionChunkDescriptor

/-- `validate_chunks_cover_items`: the items that the chunks cover. -/
def coveredItems (chunks : List JsonCollectionChunkDescriptor) : Option ℕ :=
  covered JsonCollectionChunkDescriptor.offset JsonCollectionChunkDescriptor.itemCount 0 chunks

@[ext]
structure JsonCollectionDescriptor where
  id : String
  itemCount : ℕ
  chunks : List JsonCollectionChunkDescriptor
  metadata : JsonObject
  id_length : 1 ≤ id.length
  covers : coveredItems chunks = some itemCount

namespace JsonCollectionDescriptor

structure Fields where
  id : String
  itemCount : ℤ
  chunks : List JsonCollectionChunkDescriptor.Fields
  metadata : JsonObject

def make (id : String) (itemCount : ℕ) (chunks : List JsonCollectionChunkDescriptor)
    (metadata : JsonObject) : Option JsonCollectionDescriptor :=
  if h : 1 ≤ id.length ∧ coveredItems chunks = some itemCount then
    some ⟨id, itemCount, chunks, metadata, h.1, h.2⟩
  else none

def ofFields (fields : Fields) : Option JsonCollectionDescriptor :=
  if fields.itemCount < 0 then none
  else
    match fields.chunks.mapM JsonCollectionChunkDescriptor.ofFields with
    | none => none
    | some chunks => make fields.id fields.itemCount.toNat chunks fields.metadata

def fields (descriptor : JsonCollectionDescriptor) : Fields :=
  ⟨descriptor.id, descriptor.itemCount,
    descriptor.chunks.map JsonCollectionChunkDescriptor.fields, descriptor.metadata⟩

theorem mapM_ofFields (chunks : List JsonCollectionChunkDescriptor) :
    (chunks.map JsonCollectionChunkDescriptor.fields).mapM JsonCollectionChunkDescriptor.ofFields =
      some chunks := by
  induction chunks with
  | nil => rfl
  | cons chunk chunks ih =>
    simp [JsonCollectionChunkDescriptor.ofFields_fields, ih]

theorem ofFields_fields (descriptor : JsonCollectionDescriptor) :
    ofFields descriptor.fields = some descriptor := by
  unfold ofFields fields
  rw [if_neg (by simp), mapM_ofFields]
  exact dif_pos ⟨descriptor.id_length, descriptor.covers⟩

def plain (descriptor : JsonCollectionDescriptor) : JsonCollectionDescriptor :=
  { descriptor with metadata := descriptor.metadata.plain }

def json (descriptor : JsonCollectionDescriptor) : Json :=
  .obj [("id", .str descriptor.id), ("item_count", .int descriptor.itemCount),
    ("chunks", .arr (descriptor.chunks.map JsonCollectionChunkDescriptor.json)),
    ("metadata", descriptor.metadata.json)]

end JsonCollectionDescriptor

@[ext]
structure JsonCollectionsManifest where
  totalItems : ℕ
  collections : List JsonCollectionDescriptor
  metadata : JsonObject
  distinct : (collections.map JsonCollectionDescriptor.id).Nodup
  totals : (collections.map JsonCollectionDescriptor.itemCount).sum = totalItems

namespace JsonCollectionsManifest

structure Fields where
  format : String
  totalItems : ℤ
  collections : List JsonCollectionDescriptor.Fields
  metadata : JsonObject

/-- `validate_collections` -/
def make (totalItems : ℕ) (collections : List JsonCollectionDescriptor) (metadata : JsonObject) :
    Option JsonCollectionsManifest :=
  if h : (collections.map JsonCollectionDescriptor.id).Nodup ∧
      (collections.map JsonCollectionDescriptor.itemCount).sum = totalItems then
    some ⟨totalItems, collections, metadata, h.1, h.2⟩
  else none

def ofFields (fields : Fields) : Option JsonCollectionsManifest :=
  if fields.format ≠ jsonCollectionsStorageFormat ∨ fields.totalItems < 0 then none
  else
    match fields.collections.mapM JsonCollectionDescriptor.ofFields with
    | none => none
    | some collections => make fields.totalItems.toNat collections fields.metadata

def fields (manifest : JsonCollectionsManifest) : Fields :=
  ⟨jsonCollectionsStorageFormat, manifest.totalItems,
    manifest.collections.map JsonCollectionDescriptor.fields, manifest.metadata⟩

theorem mapM_ofFields (collections : List JsonCollectionDescriptor) :
    (collections.map JsonCollectionDescriptor.fields).mapM JsonCollectionDescriptor.ofFields =
      some collections := by
  induction collections with
  | nil => rfl
  | cons collection collections ih =>
    simp [JsonCollectionDescriptor.ofFields_fields, ih]

theorem ofFields_fields (manifest : JsonCollectionsManifest) :
    ofFields manifest.fields = some manifest := by
  unfold ofFields fields
  rw [if_neg (by simp), mapM_ofFields]
  exact dif_pos ⟨manifest.distinct, manifest.totals⟩

def plain (manifest : JsonCollectionsManifest) : JsonCollectionsManifest :=
  ⟨manifest.totalItems, manifest.collections.map JsonCollectionDescriptor.plain,
    manifest.metadata.plain, by rw [List.map_map]; exact manifest.distinct,
    by rw [List.map_map]; exact manifest.totals⟩

def json (manifest : JsonCollectionsManifest) : Json :=
  .obj [("format", .str jsonCollectionsStorageFormat), ("total_items", .int manifest.totalItems),
    ("collections", .arr (manifest.collections.map JsonCollectionDescriptor.json)),
    ("metadata", manifest.metadata.json)]

end JsonCollectionsManifest

/-- What is not the repository's: the hash, the text of a finite float in JSON, and the reading of
JSON into the fields of a chunk and of a manifest, with the limits of that reader. -/
structure CollectionsPlatform where
  sha256 : Bytes → String
  floatText : FloatLiteral → FloatLiteral
  maxDigits : ℕ
  nestingLimit : ℕ
  readChunk : Bytes → Option JsonCollectionChunk.Fields
  readManifest : Bytes → Option JsonCollectionsManifest.Fields

variable (p : CollectionsPlatform)

def wireFloat (f : FloatLiteral) : Json := if f.isFinite then .float (p.floatText f) else .null

/-- `dump_json` and `model_dump_json`: an infinity or NaN is written as null. -/
def dumpJson (value : Json) : Bytes := utf8 (encodeText (mapFloats (wireFloat p) value))

/-! Saving -/

/-- The arguments of `save_json_collections`. -/
structure SaveArguments where
  bucket : String
  artifactType : ArtifactTypeKey
  collections : List JsonCollection
  metadata : JsonObject
  nodeId : Option String
  workspaceId : String

def itemByteSize (item : JsonObject) : ℕ := (dumpJson p item.json).size

theorem jsonCollectionChunkItemCount_pos : 0 < jsonCollectionChunkItemCount := by decide

/-- The two inner loops: the chunks of a collection, each with its offset. -/
def cutItems (items : List JsonObject) : List (ℕ × List JsonObject) :=
  cutFitting (itemByteSize p) jsonCollectionChunkTargetByteSize jsonCollectionChunkItemCount_pos
    64 0 items

def collectionChunks (collection : JsonCollection) : List JsonCollectionChunk :=
  (cutItems p collection.items).map
    (fun piece => ⟨collection.id, piece.1, piece.2, collection.id_length⟩)

def storagePath (arguments : SaveArguments) (folder contentHash : String) : String :=
  "workspaces/" ++ arguments.workspaceId ++ "/" ++ arguments.artifactType.id ++ "/v" ++
    toString arguments.artifactType.schemaVersion ++ "/" ++ folder ++ "/" ++ contentHash ++ ".json"

def chunkCommand (arguments : SaveArguments) (chunk : JsonCollectionChunk) : SaveFileCommand :=
  let content := dumpJson p chunk.json
  let contentHash := p.sha256 content
  { bucket := arguments.bucket
    path := storagePath arguments "chunks" contentHash
    content := content
    contentType := "application/json"
    metadata := [("artifact_kind", arguments.artifactType.id), ("sha256", contentHash)] ++
      arguments.nodeId.toList.map (fun nodeId => ("job_id", nodeId))
    allowOverwrite := true }

def manifestCommand (arguments : SaveArguments) (manifest : JsonCollectionsManifest) :
    SaveFileCommand :=
  let content := dumpJson p manifest.json
  let contentHash := p.sha256 content
  { bucket := arguments.bucket
    path := storagePath arguments "manifests" contentHash
    content := content
    contentType := "application/json"
    metadata := [("artifact_kind", arguments.artifactType.id), ("sha256", contentHash)]
    allowOverwrite := true }

/-- What is raised: the `ValueError` of repeated ids, a `ValidationError`, and the `RuntimeError`
of a save that failed. -/
inductive SaveError
  | duplicateIds
  | validation
  | chunk (collectionId : String) (first last : ℕ) (bucket path : String)
  | manifest (bucket path : String)

structure StoredJsonCollections where
  bucket : String
  manifestPath : String
  manifestByteSize : ℕ
  manifestSha256 : String
  storageByteSize : ℕ
  totalItems : ℕ

variable {S : Type*} (port : FileStoragePort S)

/-- The loop over the chunks of a collection: their descriptors and the bytes stored. -/
def saveChunks (arguments : SaveArguments) (s : S) (storedByteSize : ℕ) :
    List JsonCollectionChunk → Except SaveError (List JsonCollectionChunkDescriptor × ℕ × S)
  | [] => .ok ([], storedByteSize, s)
  | chunk :: rest =>
    let command := chunkCommand p arguments chunk
    match port.save s command with
    | none => .error (.chunk chunk.collectionId chunk.offset (chunk.offset + chunk.items.length - 1)
        command.bucket command.path)
    | some (stored, s') =>
      match JsonCollectionChunkDescriptor.ofFields ⟨chunk.offset, chunk.items.length, stored.path,
          stored.byteSize, stored.sha256⟩ with
      | none => .error .validation
      | some descriptor =>
        match saveChunks arguments s' (storedByteSize + stored.byteSize) rest with
        | .error e => .error e
        | .ok (descriptors, stored, s'') => .ok (descriptor :: descriptors, stored, s'')

/-- The loop over the collections. -/
def saveCollections (arguments : SaveArguments) (s : S) (storedByteSize : ℕ) :
    List JsonCollection → Except SaveError (List JsonCollectionDescriptor × ℕ × S)
  | [] => .ok ([], storedByteSize, s)
  | collection :: rest =>
    match saveChunks p port arguments s storedByteSize (collectionChunks p collection) with
    | .error e => .error e
    | .ok (chunks, stored, s') =>
      match JsonCollectionDescriptor.make collection.id collection.items.length chunks
          collection.metadata with
      | none => .error .validation
      | some descriptor =>
        match saveCollections arguments s' stored rest with
        | .error e => .error e
        | .ok (descriptors, stored, s'') => .ok (descriptor :: descriptors, stored, s'')

def saveJsonCollections (s : S) (arguments : SaveArguments) :
    Except SaveError (StoredJsonCollections × S) :=
  if ¬ (arguments.collections.map JsonCollection.id).Nodup then .error .duplicateIds
  else
    match saveCollections p port arguments s 0 arguments.collections with
    | .error e => .error e
    | .ok (descriptors, storedByteSize, s') =>
      match JsonCollectionsManifest.make
          (arguments.collections.map (fun collection => collection.items.length)).sum descriptors
          arguments.metadata with
      | none => .error .validation
      | some manifest =>
        let command := manifestCommand p arguments manifest
        match port.save s' command with
        | none => .error (.manifest command.bucket command.path)
        | some (stored, s'') =>
          .ok (⟨stored.bucket, stored.path, stored.byteSize, stored.sha256,
            storedByteSize + stored.byteSize, manifest.totalItems⟩, s'')

/-! Loading -/

inductive LoadError
  | offset
  | limit
  | noBucket (artifactId : String)
  | manifest (cause : ManifestError)
  | chunk (collectionId : String) (offset : ℕ) (artifactId bucket objectKey : String)
      (cause : StoredModelError)
  | mismatch (objectKey artifactId : String)
  | validation

def manifestModel (content : Bytes) : Option JsonCollectionsManifest :=
  (p.readManifest content).bind JsonCollectionsManifest.ofFields

def chunkModel (content : Bytes) : Option JsonCollectionChunk :=
  (p.readChunk content).bind JsonCollectionChunk.ofFields

def loadJsonCollectionsManifest (s : S) (artifact : ArtifactObject) :
    Except LoadError JsonCollectionsManifest :=
  match loadManifest port p.sha256 s artifact (manifestModel p) with
  | .error e => .error (.manifest e)
  | .ok manifest => .ok manifest

structure JsonCollectionPage where
  id : String
  itemOffset : ℕ
  totalItems : ℕ
  items : List JsonObject
  metadata : JsonObject
  id_length : 1 ≤ id.length
  offset_le : itemOffset ≤ totalItems
  items_le : itemOffset + items.length ≤ totalItems

/-- `validate_page_bounds` -/
def JsonCollectionPage.make (id : String) (itemOffset totalItems : ℕ) (items : List JsonObject)
    (metadata : JsonObject) : Option JsonCollectionPage :=
  if h : 1 ≤ id.length ∧ itemOffset ≤ totalItems ∧ itemOffset + items.length ≤ totalItems then
    some ⟨id, itemOffset, totalItems, items, metadata, h.1, h.2.1, h.2.2⟩
  else none

structure JsonCollectionsPage where
  collections : List JsonCollectionPage
  offset : ℕ
  totalItems : ℕ
  metadata : JsonObject

/-- The items of the chunk that a descriptor stands for. -/
def loadChunk (s : S) (artifactId bucket collectionId : String)
    (descriptor : JsonCollectionChunkDescriptor) : Except LoadError (List JsonObject) :=
  match loadStoredModel port p.sha256 s bucket descriptor.objectKey (chunkModel p)
      (some descriptor.byteSize) (some descriptor.sha256) with
  | .error e => .error (.chunk collectionId descriptor.offset artifactId bucket
      descriptor.objectKey e)
  | .ok chunk =>
    if chunk.collectionId ≠ collectionId ∨ chunk.offset ≠ descriptor.offset ∨
        chunk.items.length ≠ descriptor.itemCount then
      .error (.mismatch descriptor.objectKey artifactId)
    else .ok chunk.items

/-- The loop over the collections of the manifest. -/
def loadPages (s : S) (artifactId bucket : String) (effectiveOffset pageEnd collectionStart : ℕ) :
    List JsonCollectionDescriptor → Except LoadError (List JsonCollectionPage)
  | [] => .ok []
  | collection :: rest =>
    let localStart := min collection.itemCount (effectiveOffset - collectionStart)
    let localEnd := min collection.itemCount (pageEnd - collectionStart)
    let items := if localStart < localEnd then
      readWindow JsonCollectionChunkDescriptor.offset JsonCollectionChunkDescriptor.itemCount
        (loadChunk p port s artifactId bucket collection.id) localStart localEnd collection.chunks
      else .ok []
    match items with
    | .error e => .error e
    | .ok items =>
      match JsonCollectionPage.make collection.id localStart collection.itemCount items
          collection.metadata with
      | none => .error .validation
      | some page =>
        match loadPages s artifactId bucket effectiveOffset pageEnd
            (collectionStart + collection.itemCount) rest with
        | .error e => .error e
        | .ok pages => .ok (page :: pages)

def loadJsonCollectionsPage (s : S) (artifact : ArtifactObject) (offset limit : ℤ) :
    Except LoadError JsonCollectionsPage :=
  if offset < 0 then .error .offset
  else if limit < 1 then .error .limit
  else
    match artifact.bucket with
    | none => .error (.noBucket artifact.id)
    | some bucket =>
      match loadJsonCollectionsManifest p port s artifact with
      | .error e => .error e
      | .ok manifest =>
        let effectiveOffset := min offset.toNat manifest.totalItems
        let pageEnd := min (offset + limit).toNat manifest.totalItems
        match loadPages p port s artifact.id bucket effectiveOffset pageEnd 0
            manifest.collections with
        | .error e => .error e
        | .ok pages => .ok ⟨pages, effectiveOffset, manifest.totalItems, manifest.metadata⟩

end Grafy.JsonCollections
