import Grafy.TableContracts

/-!
Table bundles: a tar archive with a manifest and one JSON file for each chunk.
The writer cuts the table, describes each chunk by its place, size and digest,
and streams the whole table through a logical digest. The reader recomputes all
of it from the archive. Writing out and reading JSON, the hash and the bytes of
a tar archive are the platform's.
-/
namespace Grafy.Tables

open CanonicalJson JsonTexts

abbrev Bytes := ByteArray

instance : DecidableEq Bytes := ByteArray.instDecidableEq

/-! Manifests -/

def tableBundleFormat : String := "grafy.plugin.table-bundle.v1"

def manifestPath : String := "manifest.json"

def manifestMaxBytes : ℕ := 2 * 1024 * 1024

/-- The path of a chunk, with its index in at least six digits. -/
def chunkPath (index : ℕ) : String :=
  String.ofList ("chunks/".toList ++ (Nat.toDigits 10 index).leftpad 6 '0' ++ ".json".toList)

/-- `[0-9a-f]{64}` -/
def isHexDigest (text : String) : Bool :=
  text.length = 64 && text.toList.all (fun c => c.isDigit || ('a' ≤ c && c ≤ 'f'))

/-- `chunks/[0-9]{6}\.json`, as a full match -/
def isChunkName (path : List Char) : Bool :=
  path.length = 18 && path.take 7 = "chunks/".toList &&
    ((path.drop 7).take 6).all Char.isDigit && path.drop 13 = ".json".toList

/-- The parts of a path; empty ones and single dots are dropped. -/
def pathParts (path : List Char) : List (List Char) :=
  (path.splitOn '/').filter (fun part => part ≠ [] && part ≠ ['.'])

/-- `validate_path`, and the bounds on the length. -/
def chunkPathOk (path : String) : Bool :=
  decide (1 ≤ path.length) && decide (path.length ≤ 1024) && path.toList.head? ≠ some '/' &&
    (pathParts path.toList).all (fun part => part ∉ [[], ['.'], ['.', '.']]) &&
    isChunkName path.toList

structure DescriptorFields where
  offset : ℤ
  rowCount : ℤ
  relativePath : String
  byteSize : ℤ
  sha256 : String

structure TableBundleChunkDescriptor where
  offset : ℕ
  rowCount : ℕ
  relativePath : String
  byteSize : ℕ
  sha256 : String
  rowCount_pos : 1 ≤ rowCount
  path_ok : chunkPathOk relativePath = true
  byteSize_pos : 1 ≤ byteSize
  digest : isHexDigest sha256 = true
deriving DecidableEq

namespace TableBundleChunkDescriptor

def ofFields (fields : DescriptorFields) : Option TableBundleChunkDescriptor :=
  if h : 0 ≤ fields.offset ∧ 1 ≤ fields.rowCount.toNat ∧ chunkPathOk fields.relativePath = true ∧
      1 ≤ fields.byteSize.toNat ∧ isHexDigest fields.sha256 = true then
    some ⟨fields.offset.toNat, fields.rowCount.toNat, fields.relativePath, fields.byteSize.toNat,
      fields.sha256, h.2.1, h.2.2.1, h.2.2.2.1, h.2.2.2.2⟩
  else none

def fields (descriptor : TableBundleChunkDescriptor) : DescriptorFields :=
  ⟨descriptor.offset, descriptor.rowCount, descriptor.relativePath, descriptor.byteSize,
    descriptor.sha256⟩

theorem ofFields_fields (descriptor : TableBundleChunkDescriptor) :
    ofFields descriptor.fields = some descriptor := by
  unfold ofFields fields
  rw [dif_pos ⟨Int.natCast_nonneg _, descriptor.rowCount_pos, descriptor.path_ok,
    descriptor.byteSize_pos, descriptor.digest⟩]
  rfl

end TableBundleChunkDescriptor

/-- `validate_chunks`: the chunks stand under their paths and follow each other; the rows they
cover. -/
def coveredRows (index expectedOffset : ℕ) : List TableBundleChunkDescriptor → Option ℕ
  | [] => some expectedOffset
  | chunk :: rest =>
    if chunk.relativePath ≠ chunkPath index then none
    else if chunk.offset ≠ expectedOffset then none
    else coveredRows (index + 1) (expectedOffset + chunk.rowCount) rest

structure ColumnFields where
  id : String
  title : String
  valueType : TableValueType

def TableColumn.ofFields (fields : ColumnFields) : Option TableColumn :=
  if h : (1 ≤ fields.id.length ∧ fields.id.length ≤ 255) ∧ fields.title.length ≤ 1024 ∧
      Texts.strip fields.id = fields.id then
    some ⟨fields.id, fields.title, fields.valueType, h.1, h.2.1, h.2.2⟩
  else none

def TableColumn.fields (column : TableColumn) : ColumnFields :=
  ⟨column.id, column.title, column.valueType⟩

theorem TableColumn.ofFields_fields (column : TableColumn) :
    TableColumn.ofFields column.fields = some column := by
  unfold TableColumn.ofFields TableColumn.fields
  rw [dif_pos ⟨column.id_length, column.title_length, column.id_stripped⟩]

structure ManifestFields where
  format : String
  columns : List ColumnFields
  rowCount : ℤ
  logicalByteSize : ℤ
  logicalSha256 : String
  chunks : List DescriptorFields

@[ext]
structure TableBundleManifest where
  columns : List TableColumn
  rowCount : ℕ
  logicalByteSize : ℕ
  logicalSha256 : String
  chunks : List TableBundleChunkDescriptor
  columns_length : columns.length ≤ 10000
  digest : isHexDigest logicalSha256 = true
  covered : coveredRows 0 0 chunks = some rowCount

namespace TableBundleManifest

def make (columns : List TableColumn) (rowCount logicalByteSize : ℕ) (logicalSha256 : String)
    (chunks : List TableBundleChunkDescriptor) : Option TableBundleManifest :=
  if h : columns.length ≤ 10000 ∧ isHexDigest logicalSha256 = true ∧
      coveredRows 0 0 chunks = some rowCount then
    some ⟨columns, rowCount, logicalByteSize, logicalSha256, chunks, h.1, h.2.1, h.2.2⟩
  else none

def ofFields (fields : ManifestFields) : Option TableBundleManifest :=
  if fields.format ≠ tableBundleFormat ∨ fields.rowCount < 0 ∨ fields.logicalByteSize < 0 then none
  else
    match fields.columns.mapM TableColumn.ofFields,
        fields.chunks.mapM TableBundleChunkDescriptor.ofFields with
    | some columns, some chunks =>
      make columns fields.rowCount.toNat fields.logicalByteSize.toNat fields.logicalSha256 chunks
    | _, _ => none

def fields (manifest : TableBundleManifest) : ManifestFields :=
  ⟨tableBundleFormat, manifest.columns.map TableColumn.fields, manifest.rowCount,
    manifest.logicalByteSize, manifest.logicalSha256,
    manifest.chunks.map TableBundleChunkDescriptor.fields⟩

theorem make_self (manifest : TableBundleManifest) :
    make manifest.columns manifest.rowCount manifest.logicalByteSize manifest.logicalSha256
      manifest.chunks = some manifest :=
  dif_pos ⟨manifest.columns_length, manifest.digest, manifest.covered⟩

end TableBundleManifest

/-! The platform -/

/-- What is not the repository's: the formats of texts, the limit on the digits of an integer, the
hash, the text of a finite float in JSON, the reading of JSON into the fields of a manifest and
into a chunk, and the size of a tar archive with files of given names and sizes. -/
structure Platform where
  formats : TextFormats
  maxDigits : ℕ
  sha256 : Bytes → String
  floatText : FloatLiteral → FloatLiteral
  readManifest : Bytes → Option ManifestFields
  readChunk : Bytes → Option TableChunk
  tarSize : List (String × ℕ) → ℕ

section Writing

variable (p : Platform)

def wireFloat (f : FloatLiteral) : Json := if f.isFinite then .float (p.floatText f) else .null

/-- `dump_json`: an infinity or NaN is written as null. -/
def dumpJson (value : Json) : Bytes := utf8 (encodeText (mapFloats (wireFloat p) value))

def columnJson (column : TableColumn) : Json :=
  .obj [("id", .str column.id), ("title", .str column.title),
    ("value_type", .str column.valueType.value)]

def columnsJson (columns : List TableColumn) : Json := .arr (columns.map columnJson)

def rowsJson (rows : List Row) : Json := .arr (rows.map Json.obj)

def chunkJson (chunk : TableChunk) : Json :=
  .obj [("offset", .int chunk.offset), ("rows", rowsJson chunk.rows)]

def descriptorJson (descriptor : TableBundleChunkDescriptor) : Json :=
  .obj [("offset", .int descriptor.offset), ("row_count", .int descriptor.rowCount),
    ("relative_path", .str descriptor.relativePath), ("byte_size", .int descriptor.byteSize),
    ("sha256", .str descriptor.sha256)]

def manifestJson (manifest : TableBundleManifest) : Json :=
  .obj [("format", .str tableBundleFormat), ("columns", columnsJson manifest.columns),
    ("row_count", .int manifest.rowCount), ("logical_byte_size", .int manifest.logicalByteSize),
    ("logical_sha256", .str manifest.logicalSha256),
    ("chunks", .arr (manifest.chunks.map descriptorJson))]

def chunkContent (chunk : TableChunk) : Bytes := dumpJson p (chunkJson chunk)

def manifestContent (manifest : TableBundleManifest) : Bytes := dumpJson p (manifestJson manifest)

structure TableBundleIdentity where
  byteSize : ℕ
  sha256 : String
deriving DecidableEq

/-- The bytes hashed so far, their number, and the rows among them. -/
structure LogicalTableDigest where
  content : Bytes
  byteSize : ℕ
  rowCount : ℕ

namespace LogicalTableDigest

def write (logical : LogicalTableDigest) (content : Bytes) : LogicalTableDigest :=
  ⟨logical.content ++ content, logical.byteSize + content.size, logical.rowCount⟩

def start (columns : List TableColumn) : LogicalTableDigest :=
  let opened := LogicalTableDigest.write ⟨ByteArray.empty, 0, 0⟩
    (utf8 ('{' :: (textString "columns" ++ [':'])))
  (opened.write (dumpJson p (columnsJson columns))).write
    (utf8 (',' :: (textString "rows" ++ [':', '['])))

def addRow (logical : LogicalTableDigest) (row : Row) : LogicalTableDigest :=
  let separated := if logical.rowCount ≠ 0 then logical.write (utf8 [',']) else logical
  let written := separated.write (dumpJson p (.obj row))
  ⟨written.content, written.byteSize, written.rowCount + 1⟩

def addRows (logical : LogicalTableDigest) (rows : List Row) : LogicalTableDigest :=
  rows.foldl (addRow p) logical

def finish (logical : LogicalTableDigest) : TableBundleIdentity :=
  let ended := logical.write (utf8 [']', '}'])
  ⟨ended.byteSize, p.sha256 ended.content⟩

end LogicalTableDigest

inductive BundleMessage
  | outOfOrder
  | chunkCount
  | missingContent
  | notRegular
  | byteLimit
  | duplicatePaths
  | fileLimit
  | nonRegular
  | noManifest
  | columnLimit
  | rowLimit
  | chunkLimit
  | undeclaredFiles
  | rowCount
  | logicalContent
  | schema
  | notArchive
  | failedValidation (path : String)
  | wrongCoverage (path : String)
  | notCanonical (path : String)
  | oversized (name : String)
  | unreadable (name : String)
  | truncated (name : String)

/-- What is raised: a `ValueError` of `json.dumps`, a `ValidationError`, a `TableBundleError`. -/
inductive BundleError
  | value
  | validation
  | bundle (message : BundleMessage)

/-- The loop of `table_bundle_manifest`. -/
def describeChunks (index : ℕ) (logical : LogicalTableDigest)
    (descriptors : List TableBundleChunkDescriptor) : List (Option TableChunk) →
    Except BundleError (List TableBundleChunkDescriptor × LogicalTableDigest)
  | [] => .ok (descriptors, logical)
  | none :: _ => .error .value
  | some chunk :: rest =>
    let content := chunkContent p chunk
    match TableBundleChunkDescriptor.ofFields ⟨chunk.offset, chunk.rows.length, chunkPath index,
        content.size, p.sha256 content⟩ with
    | none => .error .validation
    | some descriptor =>
      describeChunks (index + 1) (logical.addRows p chunk.rows) (descriptors ++ [descriptor]) rest

/-- `iter_table_chunks` -/
def tableChunks (table : Table p.formats) : List (Option TableChunk) :=
  iterTableChunks p.maxDigits 0 table.rows table.keyed

def tableBundleManifest (table : Table p.formats) : Except BundleError TableBundleManifest :=
  match describeChunks p 0 (LogicalTableDigest.start p table.columns) [] (tableChunks p table) with
  | .error e => .error e
  | .ok (descriptors, logical) =>
    let identity := logical.finish p
    match TableBundleManifest.make table.columns table.rows.length identity.byteSize identity.sha256
        descriptors with
    | none => .error .validation
    | some manifest => .ok manifest

/-- `_validate_chunk_content` -/
def validateChunkContent (descriptor : TableBundleChunkDescriptor) (content : Bytes)
    (columns : List TableColumn) : Except BundleError TableChunk :=
  if content.size ≠ descriptor.byteSize ∨ p.sha256 content ≠ descriptor.sha256 then
    .error (.bundle (.failedValidation descriptor.relativePath))
  else
    match p.readChunk content with
    | none => .error .validation
    | some chunk =>
      if chunk.offset ≠ descriptor.offset ∨ chunk.rows.length ≠ descriptor.rowCount then
        .error (.bundle (.wrongCoverage descriptor.relativePath))
      else if tableOk p.formats columns chunk.rows = false then .error .validation
      else if chunkContent p chunk ≠ content then
        .error (.bundle (.notCanonical descriptor.relativePath))
      else .ok chunk

/-- A member of a tar archive: its name, whether it is a regular file, the size in its header, and
what can be read of it. -/
structure TarMember where
  name : String
  isFile : Bool
  size : ℕ
  stream : Option Bytes

/-- A path: whether a regular file stands there, its size, and its members when it is a tar
archive. -/
structure BundleFile where
  regular : Bool
  byteSize : ℕ
  members : Option (List TarMember)

/-- The loop of `write_table_bundle_archive` over the descriptors and the contents that come in;
what comes in can raise. -/
def archiveChunks (columns : List TableColumn) : List TableBundleChunkDescriptor →
    List (Option (TableBundleChunkDescriptor × Bytes)) → Except BundleError (List (String × Bytes))
  | [], [] => .ok []
  | expected :: more, some (descriptor, content) :: rest =>
    if descriptor ≠ expected then .error (.bundle .outOfOrder)
    else
      match validateChunkContent p descriptor content columns with
      | .error (.bundle message) => .error (.bundle message)
      | .error _ => .error (.bundle .chunkCount)
      | .ok _ =>
        match archiveChunks columns more rest with
        | .error e => .error e
        | .ok files => .ok ((descriptor.relativePath, content) :: files)
  | _, _ => .error (.bundle .chunkCount)

/-- The archive with the files. -/
def tarFile (files : List (String × Bytes)) : BundleFile :=
  ⟨true, p.tarSize (files.map (fun file => (file.1, file.2.size))),
    some (files.map (fun file => ⟨file.1, true, file.2.size, some file.2⟩))⟩

def writeTableBundleArchive (manifest : TableBundleManifest)
    (chunks : List (Option (TableBundleChunkDescriptor × Bytes))) : Except BundleError BundleFile :=
  match archiveChunks p manifest.columns manifest.chunks chunks with
  | .error e => .error e
  | .ok files =>
    if files.length ≠ manifest.chunks.length then .error (.bundle .missingContent)
    else .ok (tarFile p ((manifestPath, manifestContent p manifest) :: files))

/-- The descriptors and the chunks cut a second time, one by one. -/
def zipChunks : List TableBundleChunkDescriptor → List (Option TableChunk) →
    List (Option (TableBundleChunkDescriptor × Bytes))
  | [], [] => []
  | descriptor :: more, some chunk :: rest =>
    some (descriptor, chunkContent p chunk) :: zipChunks more rest
  | _, _ => [none]

def writeTableBundle (table : Table p.formats) :
    Except BundleError (TableBundleManifest × BundleFile) :=
  match tableBundleManifest p table with
  | .error e => .error e
  | .ok manifest =>
    match writeTableBundleArchive p manifest
      (zipChunks p manifest.chunks (tableChunks p table)) with
    | .error e => .error e
    | .ok file => .ok (manifest, file)

end Writing

section Reading

variable (p : Platform)

structure BundleLimits where
  maxBytes : ℕ
  maxFiles : ℕ
  maxRows : ℕ
  maxColumns : ℕ
  maxChunks : ℕ

/-- `_read_member` -/
def readMember (member : TarMember) (maxBytes : ℕ) : Except BundleError Bytes :=
  if maxBytes < member.size then .error (.bundle (.oversized member.name))
  else
    match member.stream with
    | none => .error (.bundle (.unreadable member.name))
    | some stream =>
      let content := stream.extract 0 (maxBytes + 1)
      if content.size ≠ member.size then .error (.bundle (.truncated member.name))
      else .ok content

def getMember (members : List TarMember) (name : String) : Except BundleError TarMember :=
  match members.find? (fun member => member.name = name) with
  | none => .error (.bundle .notArchive)
  | some member => .ok member

/-- A `ValidationError` while the archive is read is a bundle error. -/
def BundleError.read : BundleError → BundleError
  | .validation => .bundle .schema
  | e => e

abbrev KeyedRows := { rows : List Row // Keyed rows }

def KeyedRows.extend (rows : KeyedRows) (chunk : TableChunk) : KeyedRows :=
  ⟨rows.1 ++ chunk.rows, fun row hrow =>
    (List.mem_append.mp hrow).elim (rows.2 row) (chunk.keyed row)⟩

/-- The loop over the chunks: the logical digest and the rows. -/
def inspectChunks (members : List TarMember) (columns : List TableColumn)
    (logical : LogicalTableDigest) (rows : KeyedRows) : List TableBundleChunkDescriptor →
    Except BundleError (LogicalTableDigest × KeyedRows)
  | [] => .ok (logical, rows)
  | descriptor :: rest =>
    match getMember members descriptor.relativePath with
    | .error e => .error e
    | .ok member =>
      match readMember member descriptor.byteSize with
      | .error e => .error e
      | .ok content =>
        match validateChunkContent p descriptor content columns with
        | .error e => .error e.read
        | .ok chunk =>
          inspectChunks members columns (logical.addRows p chunk.rows) (rows.extend chunk) rest

/-- What is checked once the manifest has been read. -/
def inspectContent (limits : BundleLimits) (members : List TarMember)
    (manifest : TableBundleManifest) : Except BundleError (TableBundleManifest × KeyedRows) :=
  let names := members.map TarMember.name
  let expectedNames := manifestPath :: manifest.chunks.map
    TableBundleChunkDescriptor.relativePath
  if limits.maxColumns < manifest.columns.length then .error (.bundle .columnLimit)
  else if limits.maxRows < manifest.rowCount then .error (.bundle .rowLimit)
  else if limits.maxChunks < manifest.chunks.length then .error (.bundle .chunkLimit)
  else if ¬ (names ⊆ expectedNames ∧ expectedNames ⊆ names) then
    .error (.bundle .undeclaredFiles)
  else
    match inspectChunks p members manifest.columns (LogicalTableDigest.start p manifest.columns)
        ⟨[], nofun⟩ manifest.chunks with
    | .error e => .error e
    | .ok (logical, rows) =>
      let identity := logical.finish p
      if logical.rowCount ≠ manifest.rowCount then .error (.bundle .rowCount)
      else if identity.byteSize ≠ manifest.logicalByteSize ∨
          identity.sha256 ≠ manifest.logicalSha256 then .error (.bundle .logicalContent)
      else .ok (manifest, rows)

/-- `_inspect_table_bundle`; the rows are collected whether they are wanted or not. -/
def inspectTableBundle (limits : BundleLimits) (file : BundleFile) :
    Except BundleError (TableBundleManifest × KeyedRows) :=
  if file.regular = false then .error (.bundle .notRegular)
  else if limits.maxBytes < file.byteSize then .error (.bundle .byteLimit)
  else
    match file.members with
    | none => .error (.bundle .notArchive)
    | some members =>
      if ¬ (members.map TarMember.name).Nodup then .error (.bundle .duplicatePaths)
      else if limits.maxFiles < members.length then .error (.bundle .fileLimit)
      else if members.any (fun member => !member.isFile) then .error (.bundle .nonRegular)
      else
        match getMember members manifestPath with
        | .error _ => .error (.bundle .noManifest)
        | .ok member =>
          match readMember member manifestMaxBytes with
          | .error e => .error e
          | .ok content =>
            match (p.readManifest content).bind TableBundleManifest.ofFields with
            | none => .error (.bundle .schema)
            | some manifest => inspectContent p limits members manifest

def validateTableBundle (limits : BundleLimits) (file : BundleFile) :
    Except BundleError TableBundleManifest :=
  match inspectTableBundle p limits file with
  | .error e => .error e
  | .ok (manifest, _) => .ok manifest

/-- `Table(columns=.., rows=..)`, once the archive has been read -/
def loadTableBundle (limits : BundleLimits) (file : BundleFile) :
    Except BundleError (Table p.formats) :=
  match inspectTableBundle p limits file with
  | .error e => .error e
  | .ok (manifest, rows) =>
    if h : tableOk p.formats manifest.columns rows.1 = true then
      .ok ⟨manifest.columns, rows.1, rows.2, h⟩
    else .error .validation

end Reading

end Grafy.Tables
