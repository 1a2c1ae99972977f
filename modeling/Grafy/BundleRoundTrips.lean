import Grafy.BundleParts

/-!
Table bundles read back. What the writer makes of a table is described exactly;
the reader takes it in again when the manifest is within its bound, with null
for every infinity and NaN. Whatever archive the reader accepts agrees with its
manifest in every part.
-/
namespace Grafy.Tables

open CanonicalJson JsonTexts

/-- A row whose JSON text is read back: its integers are short enough, and in the array of a chunk
its cells lie within the limit on nesting. -/
def Readable (p : Platform) (nestingLimit : ℕ) (row : Row) : Prop :=
  everywhere (readableInt p.maxDigits) (.obj row) = true ∧ nesting (.obj row) + 2 ≤ nestingLimit

/-- Every integer in the rows is one that Python writes. -/
def Written (p : Platform) (rows : List Row) : Prop :=
  ∀ row ∈ rows, everywhere (writableInt p.maxDigits) (.obj row) = true

/-- The documented behaviour of the platform: a digest is 64 hexadecimal digits, finite floats
have texts of their own, the text of a manifest or of a chunk within the limits is read back,
with null where an infinity or NaN was, the text of another chunk that can be written is
refused, and no integer that is read is longer than the limit. -/
structure Documented (p : Platform) (nestingLimit : ℕ) : Prop where
  digest : ∀ content, isHexDigest (p.sha256 content) = true
  floats : Set.InjOn p.floatText {f | f.isFinite = true}
  manifest : ∀ manifest, p.readManifest (manifestContent p manifest) = some manifest.fields
  chunk : ∀ chunk : TableChunk, (∀ row ∈ chunk.rows, Readable p nestingLimit row) →
    p.readChunk (chunkContent p chunk) = some chunk.plain
  unreadable : ∀ chunk : TableChunk, Written p chunk.rows →
    ¬ (∀ row ∈ chunk.rows, Readable p nestingLimit row) →
      p.readChunk (chunkContent p chunk) = none
  integers : ∀ content chunk, p.readChunk content = some chunk →
    ∀ row ∈ chunk.rows, everywhere (readableInt p.maxDigits) (.obj row) = true

variable {p : Platform} {nestingLimit : ℕ} {descriptor : TableBundleChunkDescriptor} {index : ℕ}
  {logical : LogicalTableDigest} {descriptors : List TableBundleChunkDescriptor}
  {chunks : List TableChunk} {columns : List TableColumn} {chunk : TableChunk}
  {files : List (String × Bytes)} {manifest : TableBundleManifest} {file : BundleFile}
  {members : List TarMember} {rows : KeyedRows} {limits : BundleLimits} {offset : ℕ}
  {logical' : LogicalTableDigest} {content : Bytes}

/-! The writer -/

/-- The descriptors stand for the chunks, one by one. -/
def Described (p : Platform) : ℕ → List TableBundleChunkDescriptor → List TableChunk → Prop
  | _, [], [] => True
  | index, descriptor :: more, chunk :: rest =>
    (descriptor.relativePath = chunkPath index ∧ descriptor.offset = chunk.offset ∧
      descriptor.rowCount = chunk.rows.length ∧
      descriptor.byteSize = (chunkContent p chunk).size ∧
      descriptor.sha256 = p.sha256 (chunkContent p chunk)) ∧ Described p (index + 1) more rest
  | _, _, _ => False

theorem ofFields_eq_some {fields : DescriptorFields}
    (h : TableBundleChunkDescriptor.ofFields fields = some descriptor) :
    descriptor.offset = fields.offset.toNat ∧ descriptor.rowCount = fields.rowCount.toNat ∧
      descriptor.relativePath = fields.relativePath ∧
      descriptor.byteSize = fields.byteSize.toNat ∧ descriptor.sha256 = fields.sha256 := by
  unfold TableBundleChunkDescriptor.ofFields at h
  split at h
  · cases h
    exact ⟨rfl, rfl, rfl, rfl, rfl⟩
  · cases h

theorem chunkContent_size_pos (chunk : TableChunk) : 1 ≤ (chunkContent p chunk).size := by
  have hopen : ∃ rest, encodeText (mapFloats (wireFloat p) (chunkJson chunk)) = '{' :: rest :=
    ⟨_, by rw [chunkJson, mapFloats, mapFloatsMembers, encodeText]⟩
  obtain ⟨rest, hrest⟩ := hopen
  unfold chunkContent dumpJson
  rw [hrest, ← List.singleton_append, ← utf8_append, ByteArray.size_append]
  have hbrace : (utf8 ['{']).size = 1 := by decide
  omega

/-- The loop over chunks that are not empty, as long as six digits are enough. -/
theorem describeChunks_ok (hdoc : Documented p nestingLimit)
    (hconsecutive : Consecutive offset chunks) (hcount : index + chunks.length ≤ 1000000) :
    ∃ described, describeChunks p index logical descriptors (chunks.map some) =
        .ok (descriptors ++ described, logical.addRows p (chunks.flatMap TableChunk.rows)) ∧
      Described p index described chunks := by
  induction chunks generalizing index offset logical descriptors with
  | nil => exact ⟨[], by rw [List.append_nil]; rfl, trivial⟩
  | cons chunk chunks ih =>
    obtain ⟨-, hne, hrest⟩ := hconsecutive
    rw [List.length_cons] at hcount
    have hpath := (chunkPathOk_iff index).mpr (by omega)
    have hrows := List.length_pos_iff.mpr hne
    have hsize := chunkContent_size_pos (p := p) chunk
    let descriptor : TableBundleChunkDescriptor := ⟨chunk.offset, chunk.rows.length,
      chunkPath index, (chunkContent p chunk).size, p.sha256 (chunkContent p chunk), hrows, hpath,
      hsize, hdoc.digest _⟩
    have hdescriptor : TableBundleChunkDescriptor.ofFields ⟨chunk.offset, chunk.rows.length,
        chunkPath index, (chunkContent p chunk).size, p.sha256 (chunkContent p chunk)⟩ =
          some descriptor := TableBundleChunkDescriptor.ofFields_fields descriptor
    obtain ⟨described, hdescribed, hall⟩ : ∃ described,
        describeChunks p (index + 1) (logical.addRows p chunk.rows) (descriptors ++ [descriptor])
          (chunks.map some) = .ok (descriptors ++ [descriptor] ++ described,
            (logical.addRows p chunk.rows).addRows p (chunks.flatMap TableChunk.rows)) ∧
        Described p (index + 1) described chunks := ih hrest (by omega)
    refine ⟨descriptor :: described, ?_, ⟨rfl, rfl, rfl, rfl, rfl⟩, hall⟩
    simp only [List.map_cons, describeChunks, hdescriptor, hdescribed, List.flatMap_cons,
      addRows_append, List.append_assoc, List.cons_append, List.nil_append]

theorem described_of_describeChunks {all : List TableBundleChunkDescriptor}
    {items : List (Option TableChunk)}
    (h : describeChunks p index logical descriptors items = .ok (all, logical')) :
    none ∉ items ∧ (items = [] ∨ index + items.length ≤ 1000000) := by
  induction items generalizing index logical descriptors with
  | nil => exact ⟨nofun, .inl rfl⟩
  | cons item items ih =>
    cases item with
    | none => cases h
    | some chunk =>
      simp only [describeChunks] at h
      split at h
      · cases h
      rename_i descriptor hdescriptor
      obtain ⟨hnone, hcount⟩ := ih h
      have hpath := descriptor.path_ok
      rw [(ofFields_eq_some hdescriptor).2.2.1, chunkPathOk_iff] at hpath
      refine ⟨?_, .inr ?_⟩
      · intro hmem
        rcases List.mem_cons.mp hmem with heq | hmem
        · cases heq
        · exact hnone hmem
      · rw [List.length_cons]
        rcases hcount with rfl | hcount
        · rw [List.length_nil]
          omega
        · omega

theorem coveredRows_of_described (h : Described p index descriptors chunks)
    (hconsecutive : Consecutive offset chunks) :
    coveredRows index offset descriptors =
      some (offset + (chunks.flatMap TableChunk.rows).length) := by
  fun_induction Described p index descriptors chunks generalizing offset with
  | case1 => rfl
  | case2 index descriptor more chunk rest ih =>
    obtain ⟨⟨hpath, hoffset, hcount, -, -⟩, hmore⟩ := h
    obtain ⟨hchunk, -, hrest⟩ := hconsecutive
    rw [coveredRows, if_neg (by simp [hpath]), if_neg (by simp [hoffset, hchunk]), hcount,
      ih hmore hrest, List.flatMap_cons, List.length_append, Nat.add_assoc]
  | case3 => exact h.elim

/-- What is checked of a chunk's content. -/
structure ValidContent (p : Platform) (descriptor : TableBundleChunkDescriptor) (content : Bytes)
    (columns : List TableColumn) (chunk : TableChunk) : Prop where
  size : content.size = descriptor.byteSize
  sha256 : p.sha256 content = descriptor.sha256
  read : p.readChunk content = some chunk
  offset : chunk.offset = descriptor.offset
  rowCount : chunk.rows.length = descriptor.rowCount
  table : tableOk p.formats columns chunk.rows = true
  canonical : chunkContent p chunk = content

theorem validateChunkContent_ok_iff :
    validateChunkContent p descriptor content columns = .ok chunk ↔
      ValidContent p descriptor content columns chunk := by
  unfold validateChunkContent
  constructor
  · intro h
    split at h
    · cases h
    rename_i hidentity
    split at h
    · cases h
    rename_i found hread
    split at h
    · cases h
    rename_i hcoverage
    split at h
    · cases h
    rename_i htable
    split at h
    · cases h
    rename_i hcanonical
    cases h
    simp only [ne_eq, not_or, not_not] at hidentity hcoverage hcanonical
    exact ⟨hidentity.1, hidentity.2, hread, hcoverage.1, hcoverage.2, by simpa using htable,
      hcanonical⟩
  · intro h
    simp [h.size, h.sha256, h.read, h.offset, h.rowCount, h.table, h.canonical]

/-- The content written for a chunk within the limits is valid, and read as the plain chunk. -/
theorem validContent_written (hdoc : Documented p nestingLimit)
    (hoffset : descriptor.offset = chunk.offset) (hcount : descriptor.rowCount = chunk.rows.length)
    (hsize : descriptor.byteSize = (chunkContent p chunk).size)
    (hsha : descriptor.sha256 = p.sha256 (chunkContent p chunk))
    (hread : ∀ row ∈ chunk.rows, Readable p nestingLimit row)
    (hok : tableOk p.formats columns chunk.rows) :
    ValidContent p descriptor (chunkContent p chunk) columns chunk.plain :=
  ⟨hsize.symm, hsha.symm, hdoc.chunk chunk hread, hoffset.symm, by
    rw [hcount]
    exact List.length_map _, tableOk_plain hok, chunkContent_plain chunk⟩

/-- The chunk files of an archive. -/
def bundleFiles (p : Platform) : ℕ → List TableChunk → List (String × Bytes)
  | _, [] => []
  | index, chunk :: rest =>
    (chunkPath index, chunkContent p chunk) :: bundleFiles p (index + 1) rest

section

variable (hdoc : Documented p nestingLimit) (h : Described p index descriptors chunks)
include hdoc h

theorem archiveChunks_ok (hread : ∀ chunk ∈ chunks, ∀ row ∈ chunk.rows, Readable p nestingLimit row)
    (hok : ∀ chunk ∈ chunks, tableOk p.formats columns chunk.rows) :
    archiveChunks p columns descriptors (zipChunks p descriptors (chunks.map some)) =
      .ok (bundleFiles p index chunks) := by
  fun_induction Described p index descriptors chunks with
  | case1 => rfl
  | case2 index descriptor more chunk rest ih =>
    obtain ⟨⟨hpath, hoffset, hcount, hsize, hsha⟩, hmore⟩ := h
    have hvalid := validateChunkContent_ok_iff.mpr (validContent_written hdoc hoffset hcount hsize
      hsha (hread chunk List.mem_cons_self) (hok chunk List.mem_cons_self))
    have hrest := ih hmore (fun c hc => hread c (List.mem_cons_of_mem _ hc))
      (fun c hc => hok c (List.mem_cons_of_mem _ hc))
    simp [zipChunks, archiveChunks, hvalid, hrest, hpath, bundleFiles]
  | case3 => exact h.elim

/-- An archive is only written when every chunk can be read back. -/
theorem readable_of_archiveChunks (hwritten : ∀ chunk ∈ chunks, Written p chunk.rows)
    (hfiles : archiveChunks p columns descriptors (zipChunks p descriptors (chunks.map some)) = .ok
      files) : ∀ chunk ∈ chunks, ∀ row ∈ chunk.rows, Readable p nestingLimit row := by
  fun_induction Described p index descriptors chunks generalizing files with
  | case1 => nofun
  | case2 index descriptor more chunk rest ih =>
    simp only [List.map_cons, zipChunks, archiveChunks, ne_eq, not_true_eq_false, if_false]
      at hfiles
    split at hfiles
    · cases hfiles
    · cases hfiles
    rename_i read hvalid
    split at hfiles
    · cases hfiles
    rename_i more' hmore
    have hread := (validateChunkContent_ok_iff.mp hvalid).read
    intro c hc
    rcases List.mem_cons.mp hc with rfl | hc
    · by_contra hnot
      rw [hdoc.unreadable c (hwritten c List.mem_cons_self) hnot] at hread
      cases hread
    · exact ih h.2 (fun c hc => hwritten c (List.mem_cons_of_mem _ hc)) hmore c hc
  | case3 => exact h.elim

end

/-- What the manifest of a table cut into chunks says. -/
structure Manifested (p : Platform) (table : Table p.formats) (chunks : List TableChunk)
    (manifest : TableBundleManifest) : Prop where
  cut : tableChunks p table = chunks.map some
  rows : chunks.flatMap TableChunk.rows = table.rows
  consecutive : Consecutive 0 chunks
  made : tableBundleManifest p table = .ok manifest
  described : Described p 0 manifest.chunks chunks
  columns : manifest.columns = table.columns
  rowCount : manifest.rowCount = table.rows.length
  byteSize : manifest.logicalByteSize = (logicalContent p table.columns table.rows).size
  sha256 : manifest.logicalSha256 = p.sha256 (logicalContent p table.columns table.rows)

theorem exists_manifested (hdoc : Documented p nestingLimit) (table : Table p.formats)
    (hwritable : Written p table.rows) (hcount : (tableChunks p table).length ≤ 1000000) :
    ∃ chunks manifest, Manifested p table chunks manifest := by
  obtain ⟨chunks, htable, hrows, hconsecutive⟩ : ∃ chunks : List TableChunk,
      tableChunks p table = chunks.map some ∧
        chunks.flatMap TableChunk.rows = table.rows ∧ Consecutive 0 chunks :=
    iterTableChunks_ok hwritable
  rw [htable, List.length_map] at hcount
  obtain ⟨described, hdescribe, hdescribed⟩ : ∃ described,
      describeChunks p 0 (LogicalTableDigest.start p table.columns) [] (chunks.map some) =
        .ok ([] ++ described, (LogicalTableDigest.start p table.columns).addRows p
          (chunks.flatMap TableChunk.rows)) ∧ Described p 0 described chunks :=
    describeChunks_ok hdoc hconsecutive (by omega)
  rw [hrows, List.nil_append] at hdescribe
  have hcovered := coveredRows_of_described hdescribed hconsecutive
  rw [hrows, Nat.zero_add] at hcovered
  have hcolumns := (tableOk_iff.mp table.ok).1
  let manifest : TableBundleManifest := ⟨table.columns, table.rows.length,
    (logicalContent p table.columns table.rows).size,
    p.sha256 (logicalContent p table.columns table.rows), described, hcolumns, hdoc.digest _,
    hcovered⟩
  refine ⟨chunks, manifest, htable, hrows, hconsecutive, ?_, hdescribed, rfl, rfl, rfl, rfl⟩
  have hmake := manifest.make_self
  simp only [tableBundleManifest, htable, hdescribe, finish_start, manifest] at hmake ⊢
  rw [hmake]

theorem length_bundleFiles (index : ℕ) (chunks : List TableChunk) :
    (bundleFiles p index chunks).length = chunks.length := by
  induction chunks generalizing index with
  | nil => rfl
  | cons chunk chunks ih => rw [bundleFiles, List.length_cons, List.length_cons, ih]

theorem Described.length (h : Described p index descriptors chunks) :
    descriptors.length = chunks.length := by
  fun_induction Described p index descriptors chunks with
  | case1 => rfl
  | case2 index descriptor more chunk rest ih => rw [List.length_cons, List.length_cons, ih h.2]
  | case3 => exact h.elim

variable {table : Table p.formats}

theorem Manifested.mem_rows (h : Manifested p table chunks manifest) (hchunk : chunk ∈ chunks)
    {row : Row} (hrow : row ∈ chunk.rows) : row ∈ table.rows := by
  rw [← h.rows]
  exact List.mem_flatMap.mpr ⟨chunk, hchunk, hrow⟩

theorem tableOk_of_subset {formats : TextFormats} {rows rows' : List Row}
    (h : tableOk formats columns rows) (hsub : ∀ row ∈ rows', row ∈ rows) :
    tableOk formats columns rows' := by
  rw [tableOk_iff] at h ⊢
  exact ⟨h.1, h.2.1, fun row hrow => h.2.2 row (hsub row hrow)⟩

/-- The writer succeeds where every row can be read back and six digits are enough. -/
theorem exists_written (hdoc : Documented p nestingLimit) (table : Table p.formats)
    (hread : ∀ row ∈ table.rows, Readable p nestingLimit row)
    (hcount : (tableChunks p table).length ≤ 1000000) :
    ∃ chunks manifest, Manifested p table chunks manifest ∧
      writeTableBundle p table = .ok (manifest,
        tarFile p ((manifestPath, manifestContent p manifest) :: bundleFiles p 0 chunks)) := by
  obtain ⟨chunks, manifest, hmanifested⟩ :=
    exists_manifested hdoc table (fun row hrow => writable_of_readable (hread row hrow).1) hcount
  have harchive : archiveChunks p manifest.columns manifest.chunks
      (zipChunks p manifest.chunks (tableChunks p table)) = .ok (bundleFiles p 0 chunks) := by
    rw [hmanifested.cut]
    refine archiveChunks_ok hdoc hmanifested.described ?_ ?_
    · intro chunk hchunk row hrow
      exact hread row (hmanifested.mem_rows hchunk hrow)
    · intro chunk hchunk
      rw [hmanifested.columns]
      exact tableOk_of_subset table.ok (fun row hrow => hmanifested.mem_rows hchunk hrow)
  refine ⟨chunks, manifest, hmanifested, ?_⟩
  have hlength : (bundleFiles p 0 chunks).length = manifest.chunks.length := by
    rw [length_bundleFiles, hmanifested.described.length]
  simp [writeTableBundle, hmanifested.made, writeTableBundleArchive, harchive, hlength]

theorem written_of_ok (hdoc : Documented p nestingLimit)
    (h : writeTableBundle p table = .ok (manifest, file)) :
    (∀ row ∈ table.rows, Readable p nestingLimit row) ∧ (tableChunks p table).length ≤ 1000000 := by
  unfold writeTableBundle at h
  split at h
  · cases h
  rename_i made hmade
  split at h
  · cases h
  rename_i archive harchive
  have hmanifest := hmade
  unfold tableBundleManifest at hmanifest
  split at hmanifest
  · cases hmanifest
  rename_i descriptors logical hdescribe
  obtain ⟨hnone, hcount⟩ := described_of_describeChunks hdescribe
  have hmillion : (tableChunks p table).length ≤ 1000000 := by
    rcases hcount with hnil | hcount
    · rw [hnil]
      exact Nat.zero_le _
    · omega
  refine ⟨?_, hmillion⟩
  have hwritable : Written p table.rows := writable_of_iterTableChunks hnone
  obtain ⟨chunks, manifest', hmanifested⟩ := exists_manifested hdoc table hwritable hmillion
  have heq := hmade.symm.trans hmanifested.made
  cases heq
  unfold writeTableBundleArchive at harchive
  split at harchive
  · cases harchive
  rename_i files hfiles
  rw [hmanifested.cut] at hfiles
  have hread := readable_of_archiveChunks hdoc hmanifested.described
    (fun chunk hchunk row hrow => hwritable row (hmanifested.mem_rows hchunk hrow)) hfiles
  intro row hrow
  rw [← hmanifested.rows] at hrow
  obtain ⟨chunk, hchunk, hmem⟩ := List.mem_flatMap.mp hrow
  exact hread chunk hchunk row hmem

/-! The reader -/

theorem mapM_ofFields_columns (columns : List TableColumn) :
    (columns.map TableColumn.fields).mapM TableColumn.ofFields = some columns := by
  induction columns with
  | nil => rfl
  | cons column columns ih =>
    rw [List.map_cons, List.mapM_cons, TableColumn.ofFields_fields, ih]
    rfl

theorem mapM_ofFields_chunks (chunks : List TableBundleChunkDescriptor) :
    (chunks.map TableBundleChunkDescriptor.fields).mapM TableBundleChunkDescriptor.ofFields =
      some chunks := by
  induction chunks with
  | nil => rfl
  | cons chunk chunks ih =>
    rw [List.map_cons, List.mapM_cons, TableBundleChunkDescriptor.ofFields_fields, ih]
    rfl

theorem TableBundleManifest.ofFields_fields (manifest : TableBundleManifest) :
    TableBundleManifest.ofFields manifest.fields = some manifest := by
  unfold TableBundleManifest.ofFields TableBundleManifest.fields
  rw [if_neg (by simp), mapM_ofFields_columns, mapM_ofFields_chunks]
  exact manifest.make_self

theorem logicalContent_plain (columns : List TableColumn) (rows : List Row) :
    logicalContent p columns (rows.map plainRow) = logicalContent p columns rows := by
  have hjson : Json.obj [("columns", columnsJson columns), ("rows", rowsJson (rows.map plainRow))] =
      mapFloats plainFloat (.obj [("columns", columnsJson columns), ("rows", rowsJson rows)]) := by
    simp only [mapFloats, mapFloatsMembers, mapFloats_rowsJson, mapFloats_columnsJson]
  unfold logicalContent dumpJson
  rw [hjson, mapFloats_wire_plain]

/-- A chunk that the archive has for a descriptor. -/
def ReadFrom (p : Platform) (members : List TarMember) (columns : List TableColumn)
    (descriptor : TableBundleChunkDescriptor) (chunk : TableChunk) : Prop :=
  ∃ member content, getMember members descriptor.relativePath = .ok member ∧
    readMember member descriptor.byteSize = .ok content ∧
    ValidContent p descriptor content columns chunk

/-- The loop over the chunks ends where the archive has a chunk for each descriptor. -/
theorem inspectChunks_ok_iff {rows' : KeyedRows} :
    inspectChunks p members columns logical rows descriptors = .ok (logical', rows') ↔
      ∃ chunks, List.Forall₂ (ReadFrom p members columns) descriptors chunks ∧
        logical' = logical.addRows p (chunks.flatMap TableChunk.rows) ∧
        rows'.1 = rows.1 ++ chunks.flatMap TableChunk.rows := by
  induction descriptors generalizing logical rows with
  | nil =>
    constructor
    · intro h
      cases h
      exact ⟨[], .nil, rfl, (List.append_nil _).symm⟩
    · rintro ⟨chunks, hread, rfl, hrows⟩
      cases hread
      rw [List.flatMap_nil, List.append_nil] at hrows
      rw [Subtype.ext hrows]
      rfl
  | cons descriptor more ih =>
    constructor
    · intro h
      unfold inspectChunks at h
      split at h
      · cases h
      rename_i member hmember
      split at h
      · cases h
      rename_i content hcontent
      split at h
      · cases h
      rename_i chunk hchunk
      obtain ⟨chunks, hread, hlogical, hrows⟩ := ih.mp h
      refine ⟨chunk :: chunks, .cons ⟨member, content, hmember, hcontent,
        validateChunkContent_ok_iff.mp hchunk⟩ hread, ?_, ?_⟩
      · rw [hlogical, addRows_append, List.flatMap_cons]
      · rw [hrows, List.flatMap_cons, ← List.append_assoc]
        rfl
    · rintro ⟨chunks, hread, rfl, hrows⟩
      cases hread with
      | @cons _ chunk _ chunks hfirst hread =>
        obtain ⟨member, content, hmember, hcontent, hvalid⟩ := hfirst
        unfold inspectChunks
        simp only [hmember, hcontent, validateChunkContent_ok_iff.mpr hvalid]
        refine ih.mpr ⟨chunks, hread, ?_, ?_⟩
        · rw [addRows_append, List.flatMap_cons]
        · rw [hrows, List.flatMap_cons, ← List.append_assoc]
          rfl

def fileMember (file : String × Bytes) : TarMember := ⟨file.1, true, file.2.size, some file.2⟩

variable {maxBytes : ℕ}

theorem readMember_file (file : String × Bytes) (h : file.2.size ≤ maxBytes) :
    readMember (fileMember file) maxBytes = .ok file.2 := by
  have hwhole : file.2.extract 0 (maxBytes + 1) = file.2 := by
    have hmax : max (maxBytes + 1) file.2.size = maxBytes + 1 := by omega
    rw [← hmax]
    exact ByteArray.extract_zero_max_size
  unfold readMember fileMember
  rw [if_neg (Nat.not_lt.mpr h)]
  simp only [hwhole, ne_eq, not_true_eq_false, if_false]

theorem readMember_oversized (file : String × Bytes) (h : maxBytes < file.2.size) :
    readMember (fileMember file) maxBytes = .error (.bundle (.oversized file.1)) := by
  unfold readMember fileMember
  exact if_pos h

theorem getMember_file (hnames : (files.map Prod.fst).Nodup) (file : String × Bytes)
    (h : file ∈ files) : getMember (files.map fileMember) file.1 = .ok (fileMember file) := by
  have hfind : (files.map fileMember).find? (fun member => member.name = file.1) =
      some (fileMember file) := by
    induction files with
    | nil => cases h
    | cons first rest ih =>
      rw [List.map_cons, List.nodup_cons] at hnames
      rw [List.map_cons, List.find?_cons]
      rcases List.mem_cons.mp h with rfl | h
      · simp [fileMember]
      · have hne : first.1 ≠ file.1 := by
          intro heq
          rw [heq] at hnames
          exact hnames.1 (List.mem_map_of_mem h)
        have hother : decide ((fileMember first).name = file.1) = false := decide_eq_false hne
        rw [hother]
        exact ih hnames.2 h
  unfold getMember
  rw [hfind]

theorem keys_bundleFiles (index : ℕ) (chunks : List TableChunk) :
    (bundleFiles p index chunks).map Prod.fst =
      (List.range' index chunks.length).map chunkPath := by
  induction chunks generalizing index with
  | nil => rfl
  | cons chunk chunks ih =>
    rw [bundleFiles, List.map_cons, ih, List.length_cons, List.range'_succ, List.map_cons]

theorem nodup_bundleFiles (manifest : Bytes) (chunks : List TableChunk) :
    (((manifestPath, manifest) :: bundleFiles p 0 chunks).map Prod.fst).Nodup := by
  rw [List.map_cons, List.nodup_cons, keys_bundleFiles]
  constructor
  · intro hmem
    obtain ⟨index, -, heq⟩ := List.mem_map.mp hmem
    exact chunkPath_ne_manifestPath index heq
  · exact List.Nodup.map chunkPath_injective List.nodup_range'

theorem Described.paths (h : Described p index descriptors chunks) :
    descriptors.map TableBundleChunkDescriptor.relativePath =
      (bundleFiles p index chunks).map Prod.fst := by
  fun_induction Described p index descriptors chunks with
  | case1 => rfl
  | case2 index descriptor more chunk rest ih =>
    rw [bundleFiles, List.map_cons, List.map_cons, h.1.1, ih h.2]
  | case3 => exact h.elim

/-- The archive as it is written has every chunk, read as the plain one. -/
theorem readFrom_written (hdoc : Documented p nestingLimit) (hnames : (files.map Prod.fst).Nodup)
    (h : Described p index descriptors chunks)
    (hfiles : ∀ file ∈ bundleFiles p index chunks, file ∈ files)
    (hread : ∀ chunk ∈ chunks, ∀ row ∈ chunk.rows, Readable p nestingLimit row)
    (hok : ∀ chunk ∈ chunks, tableOk p.formats columns chunk.rows) :
    List.Forall₂ (ReadFrom p (files.map fileMember) columns) descriptors
      (chunks.map TableChunk.plain) := by
  fun_induction Described p index descriptors chunks with
  | case1 => exact .nil
  | case2 index descriptor more chunk rest ih =>
    obtain ⟨⟨hpath, hoffset, hcount, hsize, hsha⟩, hmore⟩ := h
    have hfile := hfiles (chunkPath index, chunkContent p chunk) List.mem_cons_self
    have hmember : getMember (files.map fileMember) descriptor.relativePath =
        .ok (fileMember (chunkPath index, chunkContent p chunk)) := by
      rw [hpath]
      exact getMember_file hnames (chunkPath index, chunkContent p chunk) hfile
    have hcontent := readMember_file (chunkPath index, chunkContent p chunk) hsize.ge
    have hvalid := validContent_written hdoc hoffset hcount hsize hsha
      (hread chunk List.mem_cons_self) (hok chunk List.mem_cons_self)
    refine .cons ⟨fileMember (chunkPath index, chunkContent p chunk), chunkContent p chunk, hmember,
      hcontent, hvalid⟩ ?_
    · exact ih hmore (fun file hmem => hfiles file (List.mem_cons_of_mem _ hmem))
        (fun c hc => hread c (List.mem_cons_of_mem _ hc))
        (fun c hc => hok c (List.mem_cons_of_mem _ hc))
  | case3 => exact h.elim

/-- Limits that are at least a bundle's own counts. -/
structure BundleLimits.Cover (limits : BundleLimits) (manifest : TableBundleManifest)
    (file : BundleFile) : Prop where
  bytes : file.byteSize ≤ limits.maxBytes
  files : manifest.chunks.length + 1 ≤ limits.maxFiles
  rows : manifest.rowCount ≤ limits.maxRows
  columns : manifest.columns.length ≤ limits.maxColumns
  chunks : manifest.chunks.length ≤ limits.maxChunks

/-- The archive that is written for a manifest and its chunks. -/
def bundleFile (p : Platform) (manifest : TableBundleManifest) (chunks : List TableChunk) :
    BundleFile :=
  tarFile p ((manifestPath, manifestContent p manifest) :: bundleFiles p 0 chunks)

/-- Reading a written archive is reading its manifest and then its content. -/
theorem inspect_written (h : Manifested p table chunks manifest)
    (hcover : limits.Cover manifest (bundleFile p manifest chunks)) :
    inspectTableBundle p limits (bundleFile p manifest chunks) =
      match readMember (fileMember (manifestPath, manifestContent p manifest)) manifestMaxBytes with
      | .error e => .error e
      | .ok content =>
        match (p.readManifest content).bind TableBundleManifest.ofFields with
        | none => .error (.bundle .schema)
        | some found => inspectContent p limits
            (((manifestPath, manifestContent p manifest) :: bundleFiles p 0 chunks).map fileMember)
            found := by
  have hnodup := nodup_bundleFiles (p := p) (manifestContent p manifest) chunks
  have hfile := getMember_file hnodup (manifestPath, manifestContent p manifest) List.mem_cons_self
  have hnames : ∀ files : List (String × Bytes),
      (files.map fileMember).map TarMember.name = files.map Prod.fst := by
    intro files
    rw [List.map_map]
    rfl
  have hregular : ∀ files : List (String × Bytes),
      (files.map fileMember).any (fun member => !member.isFile) = false := by
    intro files
    rw [List.any_map, List.any_eq_false]
    intro file _
    simp [fileMember]
  have hmembers : (bundleFile p manifest chunks).members =
      some (((manifestPath, manifestContent p manifest) ::
        bundleFiles p 0 chunks).map fileMember) :=
    rfl
  have hlength : (((manifestPath, manifestContent p manifest) ::
      bundleFiles p 0 chunks).map fileMember).length = manifest.chunks.length + 1 := by
    rw [List.length_map, List.length_cons, length_bundleFiles, h.described.length]
  unfold inspectTableBundle
  rw [if_neg (by simp [bundleFile, tarFile]), if_neg (Nat.not_lt.mpr hcover.bytes), hmembers]
  simp only [hnames, hregular, Bool.false_eq_true, if_false, hlength]
  rw [if_neg (not_not.mpr hnodup), if_neg (Nat.not_lt.mpr hcover.files)]
  split
  · rename_i e he
    cases hfile.symm.trans he
  · rename_i member hmember
    cases hfile.symm.trans hmember
    rfl

theorem flatMap_plain (chunks : List TableChunk) :
    (chunks.map TableChunk.plain).flatMap TableChunk.rows =
      (chunks.flatMap TableChunk.rows).map plainRow := by
  induction chunks with
  | nil => rfl
  | cons chunk chunks ih =>
    rw [List.map_cons, List.flatMap_cons, ih, List.flatMap_cons, List.map_append]
    rfl

section

variable (hdoc : Documented p nestingLimit) (h : Manifested p table chunks manifest)
  (hread : ∀ row ∈ table.rows, Readable p nestingLimit row)
include hdoc h hread

theorem inspectContent_written (hcover : limits.Cover manifest (bundleFile p manifest chunks)) :
    ∃ rows : KeyedRows, rows.1 = table.rows.map plainRow ∧
      inspectContent p limits
        (((manifestPath, manifestContent p manifest) :: bundleFiles p 0 chunks).map fileMember)
        manifest = .ok (manifest, rows) := by
  have hnodup := nodup_bundleFiles (p := p) (manifestContent p manifest) chunks
  have hok : ∀ chunk ∈ chunks, tableOk p.formats manifest.columns chunk.rows := by
    intro chunk hchunk
    rw [h.columns]
    exact tableOk_of_subset table.ok (fun row hrow => h.mem_rows hchunk hrow)
  have hfrom := readFrom_written hdoc hnodup h.described
    (fun file hmem => List.mem_cons_of_mem _ hmem)
    (fun chunk hchunk row hrow => hread row (h.mem_rows hchunk hrow)) hok
  have hrows := flatMap_plain chunks
  rw [h.rows] at hrows
  let rows : KeyedRows := ⟨table.rows.map plainRow, keyed_plainRows table.keyed⟩
  have hinspect : inspectChunks p
      (((manifestPath, manifestContent p manifest) :: bundleFiles p 0 chunks).map fileMember)
      manifest.columns (LogicalTableDigest.start p manifest.columns)
      ⟨[], fun _ h => by cases h⟩ manifest.chunks =
        .ok ((LogicalTableDigest.start p manifest.columns).addRows p (table.rows.map plainRow),
          rows) :=
    inspectChunks_ok_iff.mpr ⟨chunks.map TableChunk.plain, hfrom, by rw [hrows], hrows.symm⟩
  have hpaths : (((manifestPath, manifestContent p manifest) ::
      bundleFiles p 0 chunks).map fileMember).map TarMember.name =
      manifestPath :: manifest.chunks.map TableBundleChunkDescriptor.relativePath := by
    rw [List.map_map, h.described.paths]
    rfl
  refine ⟨rows, rfl, ?_⟩
  unfold inspectContent
  rw [if_neg (Nat.not_lt.mpr hcover.columns), if_neg (Nat.not_lt.mpr hcover.rows),
    if_neg (Nat.not_lt.mpr hcover.chunks), hpaths,
    if_neg (not_not.mpr ⟨List.Subset.refl _, List.Subset.refl _⟩), hinspect]
  simp only [finish_start, rowCount_addRows, logicalContent_plain, List.length_map]
  rw [if_neg (not_not.mpr h.rowCount.symm), h.columns, h.byteSize, h.sha256, if_neg (by simp)]

/-- The archive is read as the plain table. -/
theorem load_written (hbound : (manifestContent p manifest).size ≤ manifestMaxBytes)
    (hcover : limits.Cover manifest (bundleFile p manifest chunks)) :
    ∃ loaded, loadTableBundle p limits (bundleFile p manifest chunks) = .ok loaded ∧
      loaded.columns = table.columns ∧ loaded.rows = table.rows.map plainRow := by
  obtain ⟨rows, hrows, hinspect⟩ := inspectContent_written hdoc h hread hcover
  have hok : tableOk p.formats manifest.columns rows.1 = true := by
    rw [h.columns, hrows]
    exact tableOk_plain table.ok
  refine ⟨⟨manifest.columns, rows.1, rows.2, hok⟩, ?_, h.columns, hrows⟩
  unfold loadTableBundle
  rw [inspect_written h hcover, readMember_file (manifestPath, manifestContent p manifest) hbound]
  simp only [hdoc.manifest, Option.bind_some, TableBundleManifest.ofFields_fields, hinspect]
  rw [dif_pos hok]

end

/-- An archive whose manifest is over its bound is not read. -/
theorem load_oversized (h : Manifested p table chunks manifest)
    (hbound : manifestMaxBytes < (manifestContent p manifest).size)
    (hcover : limits.Cover manifest (bundleFile p manifest chunks)) :
    loadTableBundle p limits (bundleFile p manifest chunks) =
      .error (.bundle (.oversized manifestPath)) := by
  unfold loadTableBundle
  rw [inspect_written h hcover, readMember_oversized (manifestPath,
    manifestContent p manifest) hbound]

/-- The table is written, and read as itself under limits that cover it. -/
def RoundTrips (p : Platform) (table : Table p.formats) : Prop :=
  ∃ manifest file, writeTableBundle p table = .ok (manifest, file) ∧
    ∀ limits : BundleLimits, limits.Cover manifest file → loadTableBundle p limits file = .ok table

/-- Every row can be read back and has no infinity or NaN in it, there are at most a million
chunks, and the text of the manifest is within its bound. -/
structure Portable (p : Platform) (nestingLimit : ℕ) (table : Table p.formats) : Prop where
  rows : ∀ row ∈ table.rows, Readable p nestingLimit row ∧ everywhere finiteFloat (.obj row) = true
  chunks : (tableChunks p table).length ≤ 1000000
  manifest : ∀ manifest, tableBundleManifest p table = .ok manifest →
    (manifestContent p manifest).size ≤ manifestMaxBytes

/-- Limits that are just large enough. -/
def ownLimits (manifest : TableBundleManifest) (file : BundleFile) : BundleLimits :=
  ⟨file.byteSize, manifest.chunks.length + 1, manifest.rowCount, manifest.columns.length,
    manifest.chunks.length⟩

theorem ownLimits_cover (manifest : TableBundleManifest) (file : BundleFile) :
    (ownLimits manifest file).Cover manifest file :=
  ⟨Nat.le_refl _, Nat.le_refl _, Nat.le_refl _, Nat.le_refl _, Nat.le_refl _⟩

theorem roundTrips_iff (hdoc : Documented p nestingLimit) (table : Table p.formats) :
    RoundTrips p table ↔ Portable p nestingLimit table := by
  constructor
  · rintro ⟨manifest, file, hwrite, hload⟩
    obtain ⟨hread, hcount⟩ := written_of_ok hdoc hwrite
    obtain ⟨chunks, manifest', hmanifested, hwritten⟩ := exists_written hdoc table hread hcount
    cases hwrite.symm.trans hwritten
    have hcover := ownLimits_cover manifest (bundleFile p manifest chunks)
    have hself := hload _ hcover
    have hbound : (manifestContent p manifest).size ≤ manifestMaxBytes := by
      by_contra hlarge
      have herror := load_oversized hmanifested (Nat.lt_of_not_le hlarge) hcover
      cases herror.symm.trans hself
    obtain ⟨loaded, hloaded, -, hrows⟩ := load_written hdoc hmanifested hread hbound hcover
    cases hloaded.symm.trans hself
    have hfinite := (map_plainRow_eq_iff table.rows).mp hrows.symm
    refine ⟨fun row hrow => ⟨hread row hrow, hfinite row hrow⟩, hcount, ?_⟩
    intro made hmade
    cases hmade.symm.trans hmanifested.made
    exact hbound
  · intro h
    have hread : ∀ row ∈ table.rows, Readable p nestingLimit row := fun row hrow =>
      (h.rows row hrow).1
    obtain ⟨chunks, manifest, hmanifested, hwritten⟩ := exists_written hdoc table hread h.chunks
    refine ⟨manifest, bundleFile p manifest chunks, hwritten, ?_⟩
    intro limits hcover
    obtain ⟨loaded, hloaded, hcolumns, hrows⟩ := load_written hdoc hmanifested hread
      (h.manifest manifest hmanifested.made) hcover
    rw [(map_plainRow_eq_iff table.rows).mpr (fun row hrow => (h.rows row hrow).2)] at hrows
    rw [hloaded, Table.ext hcolumns hrows]

/-! What is accepted -/

/-- An archive agrees with its manifest: it has the manifest and one file under each chunk's path
and no other, the chunks have the sizes, digests, places and rows that the manifest gives, and
the rows of all have its number and its logical digest. -/
structure Agrees (p : Platform) (file : BundleFile) (members : List TarMember)
    (manifest : TableBundleManifest) (chunks : List TableChunk) : Prop where
  regular : file.regular = true
  archive : file.members = some members
  files : ∀ member ∈ members, member.isFile = true
  distinct : (members.map TarMember.name).Nodup
  paths : ∀ name, name ∈ members.map TarMember.name ↔
    name = manifestPath ∨ name ∈ manifest.chunks.map TableBundleChunkDescriptor.relativePath
  read : ∃ member content, getMember members manifestPath = .ok member ∧
    readMember member manifestMaxBytes = .ok content ∧
    (p.readManifest content).bind TableBundleManifest.ofFields = some manifest
  content : List.Forall₂ (ReadFrom p members manifest.columns) manifest.chunks chunks
  rowCount : manifest.rowCount = (chunks.flatMap TableChunk.rows).length
  byteSize : manifest.logicalByteSize =
    (logicalContent p manifest.columns (chunks.flatMap TableChunk.rows)).size
  sha256 : manifest.logicalSha256 =
    p.sha256 (logicalContent p manifest.columns (chunks.flatMap TableChunk.rows))

theorem agrees_of_inspect (h : inspectTableBundle p limits file = .ok (manifest, rows)) :
    ∃ members chunks, Agrees p file members manifest chunks ∧
      rows.1 = chunks.flatMap TableChunk.rows := by
  unfold inspectTableBundle at h
  split at h
  · cases h
  rename_i hregular
  split at h
  · cases h
  split at h
  · cases h
  rename_i members hmembers
  split at h
  · cases h
  rename_i hdistinct
  split at h
  · cases h
  split at h
  · cases h
  rename_i hfiles
  split at h
  · cases h
  rename_i member hmember
  split at h
  · cases h
  rename_i content hcontent
  split at h
  · cases h
  rename_i found hfound
  unfold inspectContent at h
  simp only at h
  split at h
  · cases h
  split at h
  · cases h
  split at h
  · cases h
  split at h
  · cases h
  rename_i hpaths
  split at h
  · cases h
  rename_i logical all hchunks
  split at h
  · cases h
  rename_i hcount
  split at h
  · cases h
  rename_i hidentity
  cases h
  obtain ⟨chunks, hread, rfl, hrows⟩ := inspectChunks_ok_iff.mp hchunks
  rw [not_not] at hpaths hcount hdistinct
  rw [rowCount_addRows] at hcount
  rw [finish_start] at hidentity
  simp only [ne_eq, not_or, not_not] at hidentity
  refine ⟨members, chunks, ⟨by simpa using hregular, hmembers, ?_, hdistinct, ?_,
    ⟨member, content, hmember, hcontent, hfound⟩, hread, hcount.symm, hidentity.1.symm,
    hidentity.2.symm⟩, hrows⟩
  · intro member hmem
    have hnot := List.any_eq_false.mp (Bool.eq_false_iff.mpr hfiles) member hmem
    simpa using hnot
  · intro name
    rw [← List.mem_cons]
    exact ⟨fun hmem => hpaths.1 hmem, fun hmem => hpaths.2 hmem⟩

/-- A chunk that was accepted has no infinity or NaN: its text is canonical. -/
theorem plain_of_validContent (hdoc : Documented p nestingLimit)
    (h : ValidContent p descriptor content columns chunk) :
    chunk.rows.map plainRow = chunk.rows := by
  have hread := h.read
  rw [← h.canonical] at hread
  by_cases hreadable : ∀ row ∈ chunk.rows, Readable p nestingLimit row
  · rw [hdoc.chunk chunk hreadable] at hread
    exact congrArg TableChunk.rows (Option.some.inj hread)
  · have hintegers := hdoc.integers _ _ hread
    rw [hdoc.unreadable chunk (fun row hrow => writable_of_readable (hintegers row hrow)) hreadable]
      at hread
    cases hread

theorem Agrees.valid (h : Agrees p file members manifest chunks) (hchunk : chunk ∈ chunks) :
    ∃ descriptor content, ValidContent p descriptor content manifest.columns chunk := by
  have hcontent := h.content
  generalize manifest.chunks = descriptors at hcontent
  clear h
  induction hcontent with
  | nil => cases hchunk
  | @cons descriptor first _ _ hfirst _ ih =>
    rcases List.mem_cons.mp hchunk with rfl | hchunk
    · obtain ⟨member, content, -, -, hvalid⟩ := hfirst
      exact ⟨descriptor, content, hvalid⟩
    · exact ih hchunk

theorem Agrees.plain (hdoc : Documented p nestingLimit) {file : BundleFile}
    {members : List TarMember} {manifest : TableBundleManifest} {chunks : List TableChunk}
    (h : Agrees p file members manifest chunks) :
    (chunks.flatMap TableChunk.rows).map plainRow = chunks.flatMap TableChunk.rows := by
  rw [map_plainRow_eq_iff]
  intro row hrow
  obtain ⟨chunk, hchunk, hmem⟩ := List.mem_flatMap.mp hrow
  obtain ⟨descriptor, content, hvalid⟩ := h.valid hchunk
  exact (map_plainRow_eq_iff chunk.rows).mp (plain_of_validContent hdoc hvalid) row hmem

/-- The rows of all chunks make a table, unless there are none and two columns share an id. -/
theorem Agrees.tableOk_iff (h : Agrees p file members manifest chunks) :
    tableOk p.formats manifest.columns (chunks.flatMap TableChunk.rows) = true ↔
      manifest.chunks ≠ [] ∨ (columnIds manifest.columns).Nodup := by
  rw [Grafy.Tables.tableOk_iff]
  constructor
  · intro hok
    exact .inr hok.2.1
  · intro hcase
    have hnodup : (columnIds manifest.columns).Nodup := by
      rcases hcase with hne | hnodup
      · cases hchunks : chunks with
        | nil =>
          have hnil := h.content
          rw [hchunks] at hnil
          exact absurd (List.forall₂_nil_right_iff.mp hnil) hne
        | cons chunk rest =>
          have hmem : chunk ∈ chunks := hchunks ▸ List.mem_cons_self
          obtain ⟨descriptor, content, hvalid⟩ := h.valid hmem
          exact (Grafy.Tables.tableOk_iff.mp hvalid.table).2.1
      · exact hnodup
    refine ⟨manifest.columns_length, hnodup, ?_⟩
    intro row hrow
    obtain ⟨chunk, hchunk, hmem⟩ := List.mem_flatMap.mp hrow
    obtain ⟨descriptor, content, hvalid⟩ := h.valid hchunk
    exact (Grafy.Tables.tableOk_iff.mp hvalid.table).2.2 row hmem

/-- The table has the logical digest of the manifest, and no other table has, but for infinities
and NaN and for collisions. -/
structure Identified (p : Platform) (manifest : TableBundleManifest) (table : Table p.formats) :
    Prop where
  byteSize : manifest.logicalByteSize = (logicalContent p table.columns table.rows).size
  sha256 : manifest.logicalSha256 = p.sha256 (logicalContent p table.columns table.rows)
  unique : ∀ other : Table p.formats,
    Set.InjOn p.sha256 {logicalContent p table.columns table.rows,
      logicalContent p other.columns other.rows} →
    p.sha256 (logicalContent p other.columns other.rows) = manifest.logicalSha256 →
    other.columns = table.columns ∧ other.rows.map plainRow = table.rows

theorem load_identified_iff (hdoc : Documented p nestingLimit)
    (h : inspectTableBundle p limits file = .ok (manifest, rows)) :
    (∃ table, loadTableBundle p limits file = .ok table ∧ Identified p manifest table) ↔
      manifest.chunks ≠ [] ∨ (columnIds manifest.columns).Nodup := by
  obtain ⟨members, chunks, hagrees, hrows⟩ := agrees_of_inspect h
  have hsize := hagrees.byteSize
  have hsha := hagrees.sha256
  have hplain := hagrees.plain hdoc
  rw [← hagrees.tableOk_iff]
  rw [← hrows] at hsize hsha hplain ⊢
  constructor
  · rintro ⟨table, hload, -⟩
    unfold loadTableBundle at hload
    rw [h] at hload
    simp only at hload
    split at hload
    · rename_i hok
      exact hok
    · cases hload
  · intro hok
    refine ⟨⟨manifest.columns, rows.1, rows.2, hok⟩, ?_, hsize, hsha, ?_⟩
    · unfold loadTableBundle
      rw [h]
      exact dif_pos hok
    · intro other hfree hdigest
      rw [hsha] at hdigest
      have hcontent := hfree (.inr rfl) (.inl rfl) hdigest
      obtain ⟨hcolumns, hother⟩ := logicalContent_inj hdoc.floats hcontent
      exact ⟨hcolumns, hother.trans hplain⟩

theorem inspect_of_validate (h : validateTableBundle p limits file = .ok manifest) :
    ∃ rows, inspectTableBundle p limits file = .ok (manifest, rows) := by
  unfold validateTableBundle at h
  split at h
  · cases h
  · rename_i found rows hinspect
    cases h
    exact ⟨rows, hinspect⟩

/-- A table goes through a bundle unchanged exactly where it is portable. An archive that is
accepted agrees with its manifest, and is read as the table that the manifest's digest names
exactly where it has a chunk or its columns have ids of their own. -/
theorem table_bundle_iff (hdoc : Documented p nestingLimit) :
    (∀ table : Table p.formats, RoundTrips p table ↔ Portable p nestingLimit table) ∧
    ∀ (limits : BundleLimits) (file : BundleFile) (manifest : TableBundleManifest),
      validateTableBundle p limits file = .ok manifest →
      (∃ members chunks, Agrees p file members manifest chunks) ∧
      ((∃ table, loadTableBundle p limits file = .ok table ∧ Identified p manifest table) ↔
        manifest.chunks ≠ [] ∨ (columnIds manifest.columns).Nodup) := by
  refine ⟨roundTrips_iff hdoc, ?_⟩
  intro limits file manifest hvalidate
  obtain ⟨rows, hinspect⟩ := inspect_of_validate hvalidate
  obtain ⟨members, chunks, hagrees, -⟩ := agrees_of_inspect hinspect
  exact ⟨⟨members, chunks, hagrees⟩, load_identified_iff hdoc hinspect⟩

section Example

/-- The first bytes of a content, in hexadecimal digits. -/
def hexDigest (content : Bytes) : String :=
  String.ofList ((content.data.toList.flatMap (fun byte =>
    [Nat.digitChar (byte.toNat / 16 % 16), Nat.digitChar (byte.toNat % 16)]) ++
      List.replicate 64 '0').take 64)

theorem isHexDigest_hexDigest (content : Bytes) : isHexDigest (hexDigest content) = true := by
  have hdigit : ∀ k < 16, (Nat.digitChar k).isDigit ||
    ('a' ≤ Nat.digitChar k && Nat.digitChar k ≤ 'f') := by
    decide
  unfold isHexDigest hexDigest
  rw [Bool.and_eq_true, ← String.length_toList, String.toList_ofList]
  constructor
  · rw [decide_eq_true_eq, List.length_take, List.length_append, List.length_replicate]
    omega
  · rw [List.all_eq_true]
    intro c hc
    rcases List.mem_append.mp (List.mem_of_mem_take hc) with hbyte | hzero
    · obtain ⟨byte, -, hmem⟩ := List.mem_flatMap.mp hbyte
      simp only [List.mem_cons, List.not_mem_nil, or_false] at hmem
      rcases hmem with rfl | rfl
      · exact hdigit _ (Nat.mod_lt _ (by omega))
      · exact hdigit _ (Nat.mod_lt _ (by omega))
    · rw [(List.mem_replicate.mp hzero).2]
      rfl

/-- A platform that reads nothing. -/
def writingPlatform : Platform :=
  ⟨⟨fun _ => true, fun _ => true, fun _ => true, fun _ => true⟩, 4300, hexDigest, id,
    fun _ => none, fun _ => none,
    fun files => (files.map (fun file => 512 + (file.2 + 511) / 512 * 512)).sum + 1024⟩

theorem mapFloats_manifestJson (g : FloatLiteral → Json) (manifest : TableBundleManifest) :
    mapFloats g (manifestJson manifest) = manifestJson manifest := by
  have hchunks : mapFloatsItems g (manifest.chunks.map descriptorJson) =
      manifest.chunks.map descriptorJson := by
    induction manifest.chunks with
    | nil => rfl
    | cons chunk chunks ih =>
      rw [List.map_cons, mapFloatsItems, ih]
      rfl
  simp only [manifestJson, mapFloats, mapFloatsMembers, mapFloats_columnsJson, hchunks]

theorem descriptorJson_injective : Function.Injective descriptorJson := by
  intro d d' h
  simp only [descriptorJson, Json.obj.injEq, List.cons.injEq, Prod.mk.injEq, Json.str.injEq,
    Json.int.injEq, true_and, and_true, Nat.cast_inj] at h
  obtain ⟨hoffset, hcount, hpath, hsize, hsha⟩ := h
  cases d
  cases d'
  simp only at hoffset hcount hpath hsize hsha
  subst hoffset hcount hpath hsize hsha
  rfl

theorem manifestContent_injective : Function.Injective (manifestContent p) := by
  intro m m' h
  have hjson := encodeText_injective (utf8_injective h)
  rw [mapFloats_manifestJson, mapFloats_manifestJson] at hjson
  simp only [manifestJson, Json.obj.injEq, List.cons.injEq, Prod.mk.injEq, Json.str.injEq,
    Json.int.injEq, Json.arr.injEq, true_and, and_true, Nat.cast_inj] at hjson
  obtain ⟨hcolumns, hcount, hsize, hsha, hchunks⟩ := hjson
  exact TableBundleManifest.ext (columnsJson_injective hcolumns) hcount hsize hsha
    (List.map_injective_iff.mpr descriptorJson_injective hchunks)

theorem chunkContent_plain_inj (hfloats : Set.InjOn p.floatText {f | f.isFinite = true})
    {chunk chunk' : TableChunk} (h : chunkContent p chunk = chunkContent p chunk') :
    chunk.plain = chunk'.plain := by
  have hwire := congrArg (mapFloats (readFloat p)) (encodeText_injective (utf8_injective h))
  rw [mapFloats_read_wire hfloats, mapFloats_read_wire hfloats] at hwire
  simp only [chunkJson, mapFloats, mapFloatsMembers, mapFloats_rowsJson, Json.obj.injEq,
    List.cons.injEq, Prod.mk.injEq, Json.int.injEq, true_and, and_true, Nat.cast_inj] at hwire
  exact TableChunk.ext hwire.1
    (List.map_injective_iff.mpr (fun _ _ => Json.obj.inj) (Json.arr.inj hwire.2))

theorem readable_plainRow (row : Row) :
    Readable p nestingLimit (plainRow row) ↔ Readable p nestingLimit row := by
  have hnesting : nesting (.obj (plainRow row)) = nesting (.obj row) := nesting_plain (.obj row)
  have hints : everywhere (readableInt p.maxDigits) (.obj (plainRow row)) =
      everywhere (readableInt p.maxDigits) (.obj row) := by
    refine everywhere_mapFloats ?_ (fun _ => rfl) (fun _ => rfl) (.obj row)
    intro f
    unfold plainFloat
    split <;> rfl
  unfold Readable
  rw [hnesting, hints]

/-- The platform that reads what it wrote. -/
noncomputable def readingPlatform : Platform :=
  open Classical in
  { writingPlatform with
    readManifest := fun content =>
      if h : ∃ manifest, manifestContent writingPlatform manifest = content then
        some h.choose.fields
      else none
    readChunk := fun content =>
      if h : ∃ chunk : TableChunk, (∀ row ∈ chunk.rows, Readable writingPlatform 200 row) ∧
          chunkContent writingPlatform chunk = content then
        some h.choose.plain
      else none }

theorem readingPlatform_documented : Documented readingPlatform 200 := by
  have hfloats : Set.InjOn writingPlatform.floatText {f | f.isFinite = true} :=
    Function.injective_id.injOn
  refine ⟨isHexDigest_hexDigest, hfloats, ?_, ?_, ?_, ?_⟩
  · intro manifest
    have hex : ∃ found, manifestContent writingPlatform found =
        manifestContent writingPlatform manifest := ⟨manifest, rfl⟩
    exact (dif_pos hex).trans (congrArg (fun found => some (TableBundleManifest.fields found))
      (manifestContent_injective hex.choose_spec))
  · intro chunk hread
    have hex : ∃ found : TableChunk, (∀ row ∈ found.rows, Readable writingPlatform 200 row) ∧
        chunkContent writingPlatform found = chunkContent writingPlatform chunk :=
      ⟨chunk, hread, rfl⟩
    exact (dif_pos hex).trans (congrArg some (chunkContent_plain_inj hfloats hex.choose_spec.2))
  · intro chunk _ hnot
    refine dif_neg ?_
    rintro ⟨found, hread, hsame⟩
    have hplain := congrArg TableChunk.rows (chunkContent_plain_inj hfloats hsame)
    apply hnot
    intro row hrow
    have hmem : plainRow row ∈ chunk.rows.map plainRow := List.mem_map_of_mem hrow
    have hrows : found.rows.map plainRow = chunk.rows.map plainRow := hplain
    rw [← hrows] at hmem
    obtain ⟨other, hother, heq⟩ := List.mem_map.mp hmem
    have hreadable : Readable writingPlatform 200 (plainRow other) :=
      (readable_plainRow other).mpr (hread other hother)
    rw [heq] at hreadable
    exact (readable_plainRow row).mp hreadable
  · intro content chunk hread row hrow
    have hwrote : ∃ found : TableChunk, (∀ row ∈ found.rows, Readable writingPlatform 200 row) ∧
        chunkContent writingPlatform found = content := by
      by_contra hnot
      cases (dif_neg hnot).symm.trans hread
    have hchosen : hwrote.choose.plain = chunk :=
      Option.some.inj ((dif_pos hwrote).symm.trans hread)
    rw [← hchosen] at hrow
    obtain ⟨found, hfound, rfl⟩ := List.mem_map.mp hrow
    exact ((readable_plainRow found).mpr (hwrote.choose_spec.1 found hfound)).1

theorem count_length : 1 ≤ "count".length ∧ "count".length ≤ 255 := by decide

theorem count_title_length : "Count".length ≤ 1024 := by decide

theorem count_stripped : Texts.strip "count" = "count" := by decide

def countColumn : TableColumn :=
  ⟨"count", "Count", .number, count_length, count_title_length, count_stripped⟩

def countRow (value : Json) : Row := [("count", value)]

theorem keyed_countRow {value : Json} (h : everywhere distinctKeys value) :
    Keyed [countRow value] := by
  intro row hrow
  rw [List.mem_singleton.mp hrow]
  simpa [countRow, everywhere, everywhereMembers, distinctKeys] using h

/-- A table with one number in it. -/
def countTable (value : Json) (hkeyed : everywhere distinctKeys value)
    (hok : tableOk readingPlatform.formats [countColumn] [countRow value] = true) :
    Table readingPlatform.formats :=
  ⟨[countColumn], [countRow value], keyed_countRow hkeyed, hok⟩

theorem three_ok : tableOk readingPlatform.formats [countColumn] [countRow (.int 3)] = true := by
  decide

def threeTable : Table readingPlatform.formats := countTable (.int 3) rfl three_ok

/-- The manifest of the table with the number three. -/
def threeManifestJson : Json :=
  let content := dumpJson writingPlatform
    (.obj [("offset", .int 0), ("rows", rowsJson [countRow (.int 3)])])
  let logical := logicalContent writingPlatform [countColumn] [countRow (.int 3)]
  .obj [("format", .str tableBundleFormat), ("columns", columnsJson [countColumn]),
    ("row_count", .int 1), ("logical_byte_size", .int logical.size),
    ("logical_sha256", .str (hexDigest logical)),
    ("chunks", .arr [.obj [("offset", .int 0), ("row_count", .int 1),
      ("relative_path", .str (chunkPath 0)), ("byte_size", .int content.size),
      ("sha256", .str (hexDigest content))]])]

theorem manifestJson_three {manifest : TableBundleManifest}
    (h : tableBundleManifest readingPlatform threeTable = .ok manifest) :
    manifestJson manifest = threeManifestJson := by
  have hcount : (tableChunks readingPlatform threeTable).length ≤ 1000000 :=
    (length_iterTableChunks_le _ _ _).trans (by decide)
  have hwritten : Written readingPlatform threeTable.rows := by
    intro row hrow
    rw [List.mem_singleton.mp hrow]
    decide
  obtain ⟨chunks, found, hfound⟩ := exists_manifested readingPlatform_documented threeTable
    hwritten hcount
  cases h.symm.trans hfound.made
  obtain ⟨chunk, rfl, hoffset, hrows⟩ : ∃ chunk, chunks = [chunk] ∧ chunk.offset = 0 ∧
      chunk.rows = [countRow (.int 3)] := by
    have hall : chunks.flatMap TableChunk.rows = [countRow (.int 3)] := hfound.rows
    have hconsecutive := hfound.consecutive
    rcases chunks with _ | ⟨first, _ | ⟨second, rest⟩⟩
    · cases hall
    · exact ⟨first, rfl, hconsecutive.1, by simpa using hall⟩
    · have hfirst := List.length_pos_iff.mpr hconsecutive.2.1
      have hsecond := List.length_pos_iff.mpr hconsecutive.2.2.2.1
      have hlength := congrArg List.length hall
      rw [List.flatMap_cons, List.flatMap_cons, List.length_append, List.length_append,
        List.length_singleton] at hlength
      omega
  have hjson : chunkJson chunk = .obj [("offset", .int 0),
    ("rows", rowsJson [countRow (.int 3)])] := by
    rw [chunkJson, hoffset, hrows]
    rfl
  have hcontent : chunkContent readingPlatform chunk = dumpJson writingPlatform
      (.obj [("offset", .int 0), ("rows", rowsJson [countRow (.int 3)])]) := by
    rw [chunkContent, hjson]
    rfl
  have hdescribed := hfound.described
  rcases hchunks : manifest.chunks with _ | ⟨descriptor, more⟩
  · rw [hchunks] at hdescribed
    exact hdescribed.elim
  · rw [hchunks] at hdescribed
    obtain ⟨⟨hpath, hplace, hlength, hsize, hsha⟩, hmore⟩ := hdescribed
    rcases more with _ | ⟨_, _⟩
    · rw [hcontent] at hsize hsha
      rw [hoffset] at hplace
      rw [hrows] at hlength
      simp only [manifestJson, hchunks, hfound.columns, hfound.rowCount, hfound.byteSize,
        hfound.sha256, List.map_cons, List.map_nil, descriptorJson, hpath, hplace, hlength, hsize,
        hsha]
      rfl
    · exact hmore.elim

theorem size_utf8_le (l : List Char) : (utf8 l).size ≤ 4 * l.length := by
  induction l with
  | nil => rfl
  | cons c l ih =>
    have h := c.utf8Size_le_four
    simp [utf8, List.utf8Encode] at ih ⊢
    omega

theorem threeTable_portable : Portable readingPlatform 200 threeTable := by
  refine ⟨?_, (length_iterTableChunks_le _ _ _).trans (by decide), ?_⟩
  · intro row hrow
    rw [List.mem_singleton.mp hrow]
    exact ⟨⟨by decide, by decide⟩, by decide⟩
  · intro manifest h
    have hsize : (utf8 (encodeText threeManifestJson)).size ≤ manifestMaxBytes :=
      (size_utf8_le _).trans (by decide +kernel)
    have hcontent : manifestContent readingPlatform manifest =
      utf8 (encodeText threeManifestJson) :=
      congrArg (fun json => utf8 (encodeText json))
        ((mapFloats_manifestJson _ manifest).trans (manifestJson_three h))
    exact (congrArg ByteArray.size hcontent).trans_le hsize

theorem threeTable_round_trips : RoundTrips readingPlatform threeTable :=
  ((table_bundle_iff readingPlatform_documented).1 threeTable).mpr threeTable_portable

theorem infinity_numeric : ∀ c ∈ ['I', 'n', 'f', 'i', 'n', 'i', 't', 'y'], isNumberChar c :=
  List.all_eq_true.mp (by decide)

theorem infinity_marked : ∃ c ∈ ['I', 'n', 'f', 'i', 'n', 'i', 't', 'y'], isFloatMark c :=
  ⟨'I', by decide, by decide⟩

theorem infinity_start : ∃ c rest,
    ['I', 'n', 'f', 'i', 'n', 'i', 't', 'y'] = c :: rest ∧ startsNumber c :=
  ⟨'I', _, rfl, by decide⟩

def infinity : FloatLiteral :=
  ⟨['I', 'n', 'f', 'i', 'n', 'i', 't', 'y'], infinity_numeric, infinity_marked, infinity_start⟩

theorem infinity_ok :
    tableOk readingPlatform.formats [countColumn] [countRow (.float infinity)] = true := by
  decide +kernel

/-- A table whose one number is infinite. -/
def infiniteTable : Table readingPlatform.formats := countTable (.float infinity) rfl infinity_ok

/-- Not every table comes back: an infinity is read as null. -/
theorem infinity_lost : ¬ ∀ (p : Platform) (nestingLimit : ℕ), Documented p nestingLimit →
    ∀ table : Table p.formats, RoundTrips p table := by
  intro h
  have hrows := ((roundTrips_iff readingPlatform_documented infiniteTable).mp
    (h readingPlatform 200 readingPlatform_documented infiniteTable)).rows
  exact absurd (hrows _ (List.mem_singleton_self _)).2 (by decide)

end Example
end Grafy.Tables
