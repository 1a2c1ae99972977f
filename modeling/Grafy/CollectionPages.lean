import Grafy.Alignment
import Grafy.JsonCollections

/-!
Pages of JSON collections. What is saved describes the chunks exactly, under
paths that end with their digests, so it is found again whatever is saved around
it. A page shows of each collection the items of its window as JSON keeps them;
pages that follow each other show every item once.
-/
namespace Grafy.JsonCollections

open Tables StoredModels Paging

variable {S : Type*} {p : CollectionsPlatform} {port : FileStoragePort S}
  {collection : JsonCollection} {chunk : JsonCollectionChunk} {collections : List JsonCollection}
  {descriptors : List JsonCollectionDescriptor}

/-! The chunks of a collection -/

theorem cutItems_flatMap (items : List JsonObject) : (cutItems p items).flatMap Prod.snd = items :=
  (cutFitting_spec _ _ jsonCollectionChunkItemCount_pos 64 0 items).1

theorem collectionChunks_flatMap (collection : JsonCollection) :
    (collectionChunks p collection).flatMap JsonCollectionChunk.items = collection.items := by
  unfold collectionChunks
  rw [List.flatMap_map]
  exact cutItems_flatMap collection.items

theorem collectionChunks_items (h : chunk ∈ collectionChunks p collection) :
    chunk.items ≠ [] ∧ chunk.items.length ≤ jsonCollectionChunkItemCount := by
  obtain ⟨piece, hpiece, rfl⟩ := List.mem_map.mp h
  exact (cutFitting_spec _ _ jsonCollectionChunkItemCount_pos 64 0 collection.items).2 piece hpiece

variable {item : JsonObject}

theorem mem_items_of_mem_chunk (h : chunk ∈ collectionChunks p collection)
    (hitem : item ∈ chunk.items) : item ∈ collection.items := by
  rw [← collectionChunks_flatMap (p := p) collection]
  exact List.mem_flatMap.mpr ⟨chunk, h, hitem⟩

theorem exists_chunk_of_mem (h : item ∈ collection.items) :
    ∃ chunk ∈ collectionChunks p collection, item ∈ chunk.items := by
  rw [← collectionChunks_flatMap (p := p) collection] at h
  exact List.mem_flatMap.mp h

/-! What is saved -/

/-- The descriptor says what the save of the chunk gave. -/
structure StandsFor (p : CollectionsPlatform) (arguments : SaveArguments)
    (descriptor : JsonCollectionChunkDescriptor) (chunk : JsonCollectionChunk) : Prop where
  offset : descriptor.offset = chunk.offset
  itemCount : descriptor.itemCount = chunk.items.length
  objectKey : descriptor.objectKey = (chunkCommand p arguments chunk).path
  byteSize : descriptor.byteSize = (dumpJson p chunk.json).size
  sha256 : descriptor.sha256 = p.sha256 (dumpJson p chunk.json)

structure DescribedBy (p : CollectionsPlatform) (arguments : SaveArguments)
    (collection : JsonCollection) (descriptor : JsonCollectionDescriptor) : Prop where
  id : descriptor.id = collection.id
  itemCount : descriptor.itemCount = collection.items.length
  chunks : List.Forall₂ (StandsFor p arguments) descriptor.chunks (collectionChunks p collection)

/-- The manifest describes the collections, one by one. -/
structure Describes (p : CollectionsPlatform) (arguments : SaveArguments)
    (manifest : JsonCollectionsManifest) : Prop where
  collections : List.Forall₂ (DescribedBy p arguments) arguments.collections manifest.collections
  metadatas : manifest.collections.map JsonCollectionDescriptor.metadata =
    arguments.collections.map JsonCollection.metadata
  metadata : manifest.metadata = arguments.metadata

def chunkCommands (p : CollectionsPlatform) (arguments : SaveArguments)
    (collections : List JsonCollection) : List SaveFileCommand :=
  collections.flatMap (fun collection =>
    (collectionChunks p collection).map (chunkCommand p arguments))

/-- Everything that is saved: the chunks of the collections and the manifest. -/
def commands (p : CollectionsPlatform) (arguments : SaveArguments)
    (manifest : JsonCollectionsManifest) : List SaveFileCommand :=
  chunkCommands p arguments arguments.collections ++ [manifestCommand p arguments manifest]

theorem addressed_storagePath {arguments : SaveArguments} {folder : String}
    {command : SaveFileCommand}
    (h : command.path = storagePath arguments folder (p.sha256 command.content)) :
    Addressed p.sha256 command :=
  ⟨"workspaces/" ++ arguments.workspaceId ++ "/" ++ arguments.artifactType.id ++ "/v" ++
    toString arguments.artifactType.schemaVersion ++ "/" ++ folder ++ "/", h⟩

section

variable (arguments : SaveArguments)
include arguments

theorem chunkCommand_content (chunk : JsonCollectionChunk) :
    (chunkCommand p arguments chunk).content = dumpJson p chunk.json := by
  dsimp only [chunkCommand]

theorem manifestCommand_content (manifest : JsonCollectionsManifest) :
    (manifestCommand p arguments manifest).content = dumpJson p manifest.json := by
  dsimp only [manifestCommand]

theorem chunkCommand_path (chunk : JsonCollectionChunk) :
    (chunkCommand p arguments chunk).path =
      storagePath arguments "chunks" (p.sha256 (chunkCommand p arguments chunk).content) := by
  dsimp only [chunkCommand]

theorem manifestCommand_path (manifest : JsonCollectionsManifest) :
    (manifestCommand p arguments manifest).path =
      storagePath arguments "manifests"
        (p.sha256 (manifestCommand p arguments manifest).content) := by
  dsimp only [manifestCommand]

end

variable {manifest : JsonCollectionsManifest}

theorem commands_addressed {arguments : SaveArguments} :
    ∀ command ∈ commands p arguments manifest, Addressed p.sha256 command := by
  intro command hcommand
  rcases mem_snoc.mp hcommand with hchunk | rfl
  · obtain ⟨collection, -, hmem⟩ := List.mem_flatMap.mp hchunk
    obtain ⟨chunk, -, rfl⟩ := List.mem_map.mp hmem
    exact addressed_storagePath (chunkCommand_path arguments chunk)
  · exact addressed_storagePath (manifestCommand_path arguments manifest)

theorem storagePath_length (arguments : SaveArguments) (folder contentHash : String) :
    1 ≤ (storagePath arguments folder contentHash).length := by
  have hjson : ".json".length = 5 := rfl
  unfold storagePath
  rw [String.length_append, hjson]
  omega

theorem coveredItems_of_standsFor {arguments : SaveArguments}
    {descriptors : List JsonCollectionChunkDescriptor}
    (h : List.Forall₂ (StandsFor p arguments) descriptors (collectionChunks p collection)) :
    coveredItems descriptors = some collection.items.length := by
  have hpieces : List.Forall₂ (fun (descriptor : JsonCollectionChunkDescriptor)
      (piece : ℕ × List JsonObject) => descriptor.offset = piece.1 ∧
        descriptor.itemCount = piece.2.length) descriptors (cutItems p collection.items) := by
    rw [collectionChunks, List.forall₂_map_right_iff] at h
    exact h.imp (fun _ _ hstands => ⟨hstands.offset, hstands.itemCount⟩)
  have hcover := covered_cutFitting (itemByteSize p) jsonCollectionChunkTargetByteSize
    jsonCollectionChunkItemCount_pos 64 0 collection.items
  unfold coveredItems
  rw [covered_congr hpieces]
  exact hcover.trans (congrArg some (Nat.zero_add _))

/-- The save runs its commands and refers to the manifest. -/
structure Saved (p : CollectionsPlatform) (arguments : SaveArguments)
    (manifest : JsonCollectionsManifest) (stored : StoredJsonCollections) : Prop where
  bucket : stored.bucket = arguments.bucket
  path : stored.manifestPath = (manifestCommand p arguments manifest).path
  byteSize : stored.manifestByteSize = (dumpJson p manifest.json).size
  sha256 : stored.manifestSha256 = p.sha256 (dumpJson p manifest.json)
  totalItems : stored.totalItems = manifest.totalItems

theorem map_id_of_described {arguments : SaveArguments}
    (h : List.Forall₂ (DescribedBy p arguments) collections descriptors) :
    descriptors.map JsonCollectionDescriptor.id = collections.map JsonCollection.id ∧
      descriptors.map JsonCollectionDescriptor.itemCount =
        collections.map (fun collection => collection.items.length) := by
  induction h with
  | nil => exact ⟨rfl, rfl⟩
  | cons hhead _ ih =>
    simp only [List.map_cons, ih.1, ih.2, hhead.id, hhead.itemCount, and_self]

/-! The save -/

variable {chunks : List JsonCollectionChunk}

section Saving

variable (hport : port.Keeps p.sha256) (hdigest : ∀ content, isHexDigest (p.sha256 content) = true)

include hport hdigest

theorem saveChunks_ok (arguments : SaveArguments) (hchunks : ∀ chunk ∈ chunks, chunk.items ≠ [])
    (s : S) (storedByteSize : ℕ) :
    ∃ descriptors stored, saveChunks p port arguments s storedByteSize chunks =
        .ok (descriptors, stored, port.run s (chunks.map (chunkCommand p arguments))) ∧
      List.Forall₂ (StandsFor p arguments) descriptors chunks := by
  induction chunks generalizing s storedByteSize with
  | nil => exact ⟨[], storedByteSize, rfl, .nil⟩
  | cons chunk chunks ih =>
    rw [List.forall_mem_cons] at hchunks
    obtain ⟨file, s', hsave, -, hpath, hsize, hsha⟩ :=
      hport.saves s (chunkCommand p arguments chunk) rfl
    rw [chunkCommand_content] at hsize hsha
    have hcount : 1 ≤ chunk.items.length := List.length_pos_iff.mpr hchunks.1
    have hkey : 1 ≤ file.path.length := by
      rw [hpath]
      exact storagePath_length _ _ _
    have hhex : isHexDigest file.sha256 = true := by
      rw [hsha]
      exact hdigest _
    let descriptor : JsonCollectionChunkDescriptor :=
      ⟨chunk.offset, chunk.items.length, file.path, file.byteSize, file.sha256, hcount, hkey, hhex⟩
    have hdescriptor : JsonCollectionChunkDescriptor.ofFields ⟨chunk.offset, chunk.items.length,
        file.path, file.byteSize, file.sha256⟩ = some descriptor :=
      JsonCollectionChunkDescriptor.ofFields_fields descriptor
    obtain ⟨descriptors, stored, hrest, hall⟩ := ih hchunks.2 s' (storedByteSize + file.byteSize)
    refine ⟨descriptor :: descriptors, stored, ?_, .cons ⟨rfl, rfl, hpath, hsize, hsha⟩ hall⟩
    have hrun : port.run s ((chunk :: chunks).map (chunkCommand p arguments)) =
        port.run s' (chunks.map (chunkCommand p arguments)) := by
      rw [List.map_cons, FileStoragePort.run, hsave]
    rw [hrun, saveChunks]
    simp only [hsave, hdescriptor, hrest]

theorem saveCollections_ok (arguments : SaveArguments) (collections : List JsonCollection) (s : S)
    (storedByteSize : ℕ) :
    ∃ descriptors stored, saveCollections p port arguments s storedByteSize collections =
        .ok (descriptors, stored, port.run s (chunkCommands p arguments collections)) ∧
      List.Forall₂ (DescribedBy p arguments) collections descriptors ∧
      descriptors.map JsonCollectionDescriptor.metadata =
        collections.map JsonCollection.metadata := by
  induction collections generalizing s storedByteSize with
  | nil => exact ⟨[], storedByteSize, rfl, .nil, rfl⟩
  | cons collection collections ih =>
    obtain ⟨chunks, size, hchunks, hstands⟩ := saveChunks_ok hport hdigest arguments
      (fun chunk hchunk => (collectionChunks_items hchunk).1) s storedByteSize
    have hcovers := coveredItems_of_standsFor hstands
    let descriptor : JsonCollectionDescriptor := ⟨collection.id, collection.items.length, chunks,
      collection.metadata, collection.id_length, hcovers⟩
    have hmake : JsonCollectionDescriptor.make collection.id collection.items.length chunks
        collection.metadata = some descriptor := dif_pos ⟨collection.id_length, hcovers⟩
    obtain ⟨descriptors, stored, hrest, hall, hmetadata⟩ := ih (port.run s
      ((collectionChunks p collection).map (chunkCommand p arguments))) size
    refine ⟨descriptor :: descriptors, stored, ?_, .cons ⟨rfl, rfl, hstands⟩ hall, ?_⟩
    · simp only [saveCollections, hchunks, hmake, hrest, chunkCommands, List.flatMap_cons,
        port.run_append]
    · rw [List.map_cons, List.map_cons, hmetadata]

theorem save_ok {arguments : SaveArguments}
    (hids : (arguments.collections.map JsonCollection.id).Nodup) (s : S) :
    ∃ stored manifest, saveJsonCollections p port s arguments =
        .ok (stored, port.run s (commands p arguments manifest)) ∧
      Saved p arguments manifest stored ∧ Describes p arguments manifest := by
  obtain ⟨descriptors, size, hcollections, hall, hmetadata⟩ :=
    saveCollections_ok hport hdigest arguments arguments.collections s 0
  obtain ⟨hmapIds, hmapCounts⟩ := map_id_of_described hall
  have hdistinct : (descriptors.map JsonCollectionDescriptor.id).Nodup := hmapIds ▸ hids
  have htotal : (descriptors.map JsonCollectionDescriptor.itemCount).sum =
      (arguments.collections.map (fun collection => collection.items.length)).sum :=
    congrArg List.sum hmapCounts
  let manifest : JsonCollectionsManifest := ⟨_, descriptors, arguments.metadata, hdistinct, htotal⟩
  have hmake : JsonCollectionsManifest.make
      (arguments.collections.map (fun collection => collection.items.length)).sum descriptors
      arguments.metadata = some manifest := dif_pos ⟨hdistinct, htotal⟩
  obtain ⟨file, s', hsave, hbucket, hpath, hbytes, hsha⟩ := hport.saves
    (port.run s (chunkCommands p arguments arguments.collections))
    (manifestCommand p arguments manifest) rfl
  rw [manifestCommand_content] at hbytes hsha
  have hrun : port.run s (commands p arguments manifest) = s' := by
    rw [commands, port.run_append]
    simp only [FileStoragePort.run, hsave]
  refine ⟨⟨file.bucket, file.path, file.byteSize, file.sha256, size + file.byteSize,
    manifest.totalItems⟩, manifest, ?_, ⟨hbucket, hpath, hbytes, hsha, rfl⟩, ⟨hall, hmetadata, rfl⟩⟩
  rw [hrun, saveJsonCollections, if_neg (not_not.mpr hids)]
  simp only [hcollections, hmake, hsave]

end Saving

/-! The platform's reader -/

/-- The manifest's metadata is read back. -/
def ReadableManifest (p : CollectionsPlatform) (manifest : JsonCollectionsManifest) : Prop :=
  (∀ collection ∈ manifest.collections,
    JsonObject.Readable p.maxDigits p.nestingLimit 3 collection.metadata) ∧
  JsonObject.Readable p.maxDigits p.nestingLimit 1 manifest.metadata

def ReadableItems (p : CollectionsPlatform) (items : List JsonObject) : Prop :=
  ∀ item ∈ items, JsonObject.Readable p.maxDigits p.nestingLimit 2 item

/-- The documented behaviour of the platform: a digest is 64 hexadecimal digits, and the text of a
chunk or a manifest within the limits is read back, with null where an infinity or NaN was; past
the limits it is refused. -/
structure Documented (p : CollectionsPlatform) : Prop where
  digest : ∀ content, isHexDigest (p.sha256 content) = true
  chunk : ∀ chunk : JsonCollectionChunk, ReadableItems p chunk.items →
    p.readChunk (dumpJson p chunk.json) = some chunk.plain.fields
  unreadableChunk : ∀ chunk : JsonCollectionChunk, ¬ ReadableItems p chunk.items →
    p.readChunk (dumpJson p chunk.json) = none
  manifest : ∀ manifest, ReadableManifest p manifest →
    p.readManifest (dumpJson p manifest.json) = some manifest.plain.fields
  unreadableManifest : ∀ manifest, ¬ ReadableManifest p manifest →
    p.readManifest (dumpJson p manifest.json) = none

theorem Documented.chunkModel (hp : Documented p) (h : ReadableItems p chunk.items) :
    chunkModel p (dumpJson p chunk.json) = some chunk.plain := by
  rw [JsonCollections.chunkModel, hp.chunk chunk h]
  exact JsonCollectionChunk.ofFields_fields chunk.plain

theorem Documented.manifestModel (hp : Documented p) (h : ReadableManifest p manifest) :
    manifestModel p (dumpJson p manifest.json) = some manifest.plain := by
  rw [JsonCollections.manifestModel, hp.manifest manifest h]
  exact JsonCollectionsManifest.ofFields_fields manifest.plain

/-! The load -/

variable {bucket : String} {descriptor : JsonCollectionChunkDescriptor}

variable {s : S}

theorem StandsFor.loadStoredModel {arguments : SaveArguments}
    (h : StandsFor p arguments descriptor chunk)
    (hload : port.load s bucket (chunkCommand p arguments chunk).path =
      some (dumpJson p chunk.json)) :
    StoredModels.loadStoredModel port p.sha256 s bucket descriptor.objectKey (chunkModel p)
        (some descriptor.byteSize) (some descriptor.sha256) =
      (chunkModel p (dumpJson p chunk.json)).elim (.error .validation) .ok := by
  refine loadStoredModel_eq (h.objectKey ▸ hload) ⟨?_, ?_⟩
  · intro size hsize
    rw [← Option.mem_some.mp hsize, h.byteSize]
  · intro digest hdigest
    rw [← Option.mem_some.mp hdigest, h.sha256]

variable {artifactId : String}

variable {collectionId : String}

section

variable {arguments : SaveArguments} (hp : Documented p)
  (h : StandsFor p arguments descriptor chunk)
  (hload : port.load s bucket (chunkCommand p arguments chunk).path = some (dumpJson p chunk.json))
include hp h hload

theorem loadChunk_ok (hread : ReadableItems p chunk.items) :
    loadChunk p port s artifactId bucket chunk.collectionId descriptor =
      .ok (chunk.items.map JsonObject.plain) := by
  have hmatches : ¬ (chunk.plain.collectionId ≠ chunk.collectionId ∨
      chunk.plain.offset ≠ descriptor.offset ∨
        chunk.plain.items.length ≠ descriptor.itemCount) := by
    simp [JsonCollectionChunk.plain, h.offset, h.itemCount]
  unfold loadChunk
  rw [h.loadStoredModel hload, hp.chunkModel hread]
  simp only [Option.elim_some, if_neg hmatches]
  rfl

theorem readable_of_loadChunk {items : List JsonObject}
    (hitems : loadChunk p port s artifactId bucket collectionId descriptor = .ok items) :
    ReadableItems p chunk.items := by
  by_contra hnot
  have hnone : chunkModel p (dumpJson p chunk.json) = none := by
    rw [chunkModel, hp.unreadableChunk chunk hnot]
    rfl
  unfold loadChunk at hitems
  rw [h.loadStoredModel hload, hnone] at hitems
  cases hitems

end

/-- The chunks of the collections are found. -/
def Found (p : CollectionsPlatform) (port : FileStoragePort S) (arguments : SaveArguments) (s : S)
    (collections : List JsonCollection) : Prop :=
  ∀ collection ∈ collections, ∀ chunk ∈ collectionChunks p collection,
    port.load s arguments.bucket (chunkCommand p arguments chunk).path =
      some (dumpJson p chunk.json)

/-- The collection as JSON keeps it. -/
def JsonCollection.plain (collection : JsonCollection) : JsonCollection :=
  { collection with items := collection.items.map JsonObject.plain }

theorem collectionChunks_id (h : chunk ∈ collectionChunks p collection) :
    chunk.collectionId = collection.id := by
  obtain ⟨piece, -, rfl⟩ := List.mem_map.mp h
  rfl

theorem loads_pieces (hp : Documented p) {arguments : SaveArguments} (artifactId : String)
    {descriptors : List JsonCollectionChunkDescriptor}
    (h : List.Forall₂ (StandsFor p arguments) descriptors chunks)
    (hid : ∀ chunk ∈ chunks, chunk.collectionId = collectionId)
    (hfound : ∀ chunk ∈ chunks, port.load s arguments.bucket (chunkCommand p arguments chunk).path =
      some (dumpJson p chunk.json)) (hread : ∀ chunk ∈ chunks, ReadableItems p chunk.items) :
    List.Forall₂ (fun descriptor items =>
        loadChunk p port s artifactId arguments.bucket collectionId descriptor = .ok items ∧
          descriptor.itemCount = items.length)
      descriptors (chunks.map (fun chunk => chunk.items.map JsonObject.plain)) := by
  induction h with
  | nil => exact .nil
  | cons hhead _ ih =>
    rw [List.forall_mem_cons] at hid hfound hread
    refine .cons ⟨?_, by rw [hhead.itemCount, List.length_map]⟩ (ih hid.2 hfound.2 hread.2)
    rw [← hid.1]
    exact loadChunk_ok hp hhead hfound.1 hread.1

theorem collected_eq (hp : Documented p) {arguments : SaveArguments} (artifactId : String)
    {descriptor : JsonCollectionDescriptor} (h : DescribedBy p arguments collection descriptor)
    (hfound : ∀ chunk ∈ collectionChunks p collection, port.load s arguments.bucket (chunkCommand p
      arguments chunk).path = some (dumpJson p chunk.json))
    (hread : ReadableItems p collection.items) (localStart localEnd : ℕ) :
    (if localStart < localEnd then
      readWindow JsonCollectionChunkDescriptor.offset JsonCollectionChunkDescriptor.itemCount
        (loadChunk p port s artifactId arguments.bucket descriptor.id) localStart localEnd
        descriptor.chunks
      else .ok []) = .ok (window localStart localEnd 0 collection.plain.items) := by
  have hpieces := loads_pieces hp artifactId h.chunks
    (fun chunk hchunk => (collectionChunks_id hchunk).trans h.id.symm) hfound
    (fun chunk hchunk item hitem => hread item (mem_items_of_mem_chunk hchunk hitem))
  have hflatten : ((collectionChunks p collection).map
      (fun chunk => chunk.items.map JsonObject.plain)).flatten = collection.plain.items := by
    rw [JsonCollection.plain, ← collectionChunks_flatMap (p := p) collection, List.map_flatMap,
      List.flatMap_def]
  split
  · rw [readWindow_eq hpieces descriptor.covers, hflatten]
  · rename_i hempty
    rw [window_eq_nil_of_le (Nat.not_lt.mp hempty)]

/-- The pages show of each collection the items of the window, the first of the collections
starting at a place. -/
def ShowsFrom (offset stop : ℕ) : ℕ → List JsonCollection → List JsonCollectionPage → Prop
  | _, [], [] => True
  | start, collection :: rest, page :: pages =>
    (page.id = collection.id ∧ page.totalItems = collection.items.length ∧
      page.items = ((collection.items.zipIdx start).filter (fun entry =>
        offset ≤ entry.2 && entry.2 < stop)).map Prod.fst ∧
      page.items = (collection.items.drop page.itemOffset).take page.items.length) ∧
    ShowsFrom offset stop (start + collection.items.length) rest pages
  | _, _, _ => False

variable {start : ℕ}

variable {total : ℕ}

theorem loadPages_ok (hp : Documented p) {arguments : SaveArguments} (artifactId : String)
    (h : List.Forall₂ (DescribedBy p arguments) collections descriptors)
    (hfound : Found p port arguments s collections)
    (hread : ∀ collection ∈ collections, ReadableItems p collection.items) (offset stop : ℕ)
    (htotal : start + (collections.map (fun collection => collection.items.length)).sum ≤ total) :
    ∃ pages, loadPages p port s artifactId arguments.bucket (min offset total)
      (min stop total) start
        descriptors = .ok pages ∧
      ShowsFrom offset stop start (collections.map JsonCollection.plain) pages := by
  induction h generalizing start with
  | nil => exact ⟨[], rfl, trivial⟩
  | @cons collection descriptor collections descriptors hhead _ ih =>
    have hhere := hfound collection List.mem_cons_self
    have hitems := hread collection List.mem_cons_self
    rw [List.map_cons, List.sum_cons, ← Nat.add_assoc] at htotal
    have hlength : collection.plain.items.length = descriptor.itemCount := by
      rw [hhead.itemCount]
      exact List.length_map _
    obtain ⟨pages, hpages, hshows⟩ := ih
      (fun c hc => hfound c (List.mem_cons_of_mem _ hc))
      (fun c hc => hread c (List.mem_cons_of_mem _ hc)) htotal
    let localStart := min descriptor.itemCount (min offset total - start)
    let localEnd := min descriptor.itemCount (min stop total - start)
    let items := window localStart localEnd 0 collection.plain.items
    have hcollected := collected_eq hp artifactId hhead hhere hitems localStart
      localEnd
    have hwindow : items = window offset stop start collection.plain.items := by
      have hlocal : items = window (min offset total) (min stop total) start
          collection.plain.items := by
        rw [← window_local, hlength]
      rw [hlocal]
      refine window_clamp ?_
      rw [hlength, hhead.itemCount]
      omega
    have hwithin : localStart + items.length ≤ descriptor.itemCount := by
      have hle : items.length ≤ collection.plain.items.length - (localStart - 0) :=
        length_window_le _
      have hstart : localStart ≤ descriptor.itemCount := Nat.min_le_left _ _
      omega
    let page : JsonCollectionPage := ⟨descriptor.id, localStart, descriptor.itemCount, items,
      descriptor.metadata, descriptor.id_length, Nat.min_le_left _ _, hwithin⟩
    have hmake : JsonCollectionPage.make descriptor.id localStart descriptor.itemCount items
        descriptor.metadata = some page :=
      dif_pos ⟨descriptor.id_length, Nat.min_le_left _ _, hwithin⟩
    rw [← hhead.itemCount] at hpages
    refine ⟨page :: pages, ?_, ⟨hhead.id, hlength.symm, ?_, window_eq_take _⟩, ?_⟩
    · rw [loadPages]
      simp only [localStart, localEnd, items] at hcollected hmake
      simp only [hcollected, hmake, hpages]
    · rw [← window_eq_filter]
      exact hwindow
    · rw [hlength, hhead.itemCount]
      exact hshows

variable {pages : List JsonCollectionPage}

theorem loaded_of_loadPages {arguments : SaveArguments} {s : S} {artifactId : String}
    {collections : List JsonCollection} {descriptors : List JsonCollectionDescriptor}
    (h : List.Forall₂ (DescribedBy p arguments) collections descriptors) {start total : ℕ}
    (htotal : start + (collections.map (fun collection => collection.items.length)).sum ≤ total)
    {pages : List JsonCollectionPage}
    (hpages : loadPages p port s artifactId arguments.bucket 0 total start descriptors =
      .ok pages) :
    ∀ collection ∈ collections, ∀ chunk ∈ collectionChunks p collection, ∃ descriptor,
      StandsFor p arguments descriptor chunk ∧ ∃ items,
        loadChunk p port s artifactId arguments.bucket collection.id descriptor = .ok items := by
  induction h generalizing start pages with
  | nil => nofun
  | @cons collection descriptor collections descriptors hhead _ ih =>
    rw [List.map_cons, List.sum_cons, ← Nat.add_assoc] at htotal
    rw [loadPages] at hpages
    split at hpages
    · cases hpages
    rename_i items hitems
    split at hpages
    · cases hpages
    split at hpages
    · cases hpages
    rename_i rest hrest
    rw [hhead.itemCount] at hrest
    rw [List.forall_mem_cons]
    refine ⟨fun chunk hchunk => ?_, ih htotal hrest⟩
    obtain ⟨piece, hpiece, hstands⟩ := Alignment.exists_left hhead.chunks hchunk
    obtain ⟨-, hwithin⟩ := within_of_covered descriptor.covers hpiece
    have hpos := piece.itemCount_pos
    have hend : min descriptor.itemCount (total - start) = descriptor.itemCount := by
      rw [hhead.itemCount]
      omega
    have hstart : min descriptor.itemCount (0 - start) = 0 := by omega
    rw [hend, hstart, if_pos (by omega), hhead.id] at hitems
    exact ⟨piece, hstands, load_of_readWindow hitems hpiece (by omega) (by omega)⟩

section

variable {offset stop : ℕ} (h : ShowsFrom offset stop start collections pages)
include h

/-- What a page shows that takes in everything. -/
theorem items_of_showsFrom (hoffset : offset ≤ start)
    (hstop : start + (collections.map (fun collection => collection.items.length)).sum ≤ stop) :
    pages.map JsonCollectionPage.items = collections.map JsonCollection.items := by
  fun_induction ShowsFrom offset stop start collections pages with
  | case1 => rfl
  | case2 start collection rest page pages ih =>
    obtain ⟨⟨-, -, hitems, -⟩, hrest⟩ := h
    rw [List.map_cons, List.sum_cons, ← Nat.add_assoc] at hstop
    rw [← window_eq_filter, window_eq_self hoffset (by omega)] at hitems
    rw [List.map_cons, List.map_cons, hitems, ih hrest (by omega) hstop]
  | case3 => exact h.elim

/-- What a page shows of one collection. -/
theorem showsFrom_get {k : ℕ} (hk : collections[k]? = some collection) :
    ∃ page, pages[k]? = some page ∧
      page.items = window offset stop
        (start + ((collections.take k).map (fun c => c.items.length)).sum) collection.items := by
  fun_induction ShowsFrom offset stop start collections pages generalizing k with
  | case1 => cases hk
  | case2 start first rest page pages ih =>
    obtain ⟨⟨-, -, hitems, -⟩, hrest⟩ := h
    cases k with
    | zero =>
      cases hk
      exact ⟨page, rfl, hitems.trans (window_eq_filter _).symm⟩
    | succ k =>
      obtain ⟨found, hfound, hshown⟩ := ih hrest hk
      refine ⟨found, hfound, ?_⟩
      rw [hshown, List.take_succ_cons, List.map_cons, List.sum_cons, Nat.add_assoc]
  | case3 => exact h.elim

end

variable {artifact : ArtifactObject}

theorem loadJsonCollectionsManifest_eq (hp : Documented p) {objectKey : String}
    (hrefers : RefersTo p.sha256 artifact bucket objectKey (dumpJson p manifest.json))
    (hload : port.load s bucket objectKey = some (dumpJson p manifest.json)) :
    loadJsonCollectionsManifest p port s artifact =
      (manifestModel p (dumpJson p manifest.json)).elim
        (.error (.manifest (.resolution artifact.id bucket objectKey .validation))) .ok := by
  unfold loadJsonCollectionsManifest
  rw [loadManifest_eq hp.digest hrefers hload]
  cases manifestModel p (dumpJson p manifest.json) <;> rfl

theorem DescribedBy.plain {arguments : SaveArguments} {descriptor : JsonCollectionDescriptor}
    (h : DescribedBy p arguments collection descriptor) :
    DescribedBy p arguments collection descriptor.plain := ⟨h.id, h.itemCount, h.chunks⟩

def totalItems (collections : List JsonCollection) : ℕ :=
  (collections.map (fun collection => collection.items.length)).sum

theorem Describes.totalItems {arguments : SaveArguments} (h : Describes p arguments manifest) :
    manifest.totalItems = JsonCollections.totalItems arguments.collections := by
  rw [← manifest.totals, (map_id_of_described h.collections).2]
  rfl

variable {limit : ℤ}

section Loaded

variable (hp : Documented p) {arguments : SaveArguments}
  (hdescribes : Describes p arguments manifest)
  (hrefers : RefersTo p.sha256 artifact arguments.bucket (manifestCommand p arguments manifest).path
    (dumpJson p manifest.json)) (hfound : Found p port arguments s arguments.collections)
  (hload : port.load s arguments.bucket (manifestCommand p arguments manifest).path = some (dumpJson
    p manifest.json))

include hp hdescribes hrefers hfound hload

theorem loadPage_ok (hmanifest : ReadableManifest p manifest)
    (hitems : ∀ collection ∈ arguments.collections, ReadableItems p collection.items) {offset : ℤ}
    (hoffset : 0 ≤ offset) (hlimit : 1 ≤ limit) :
    ∃ page, loadJsonCollectionsPage p port s artifact offset limit = .ok page ∧
      ShowsFrom offset.toNat (offset + limit).toNat 0
        (arguments.collections.map JsonCollection.plain) page.collections := by
  have hbucket := hrefers.bucket
  have hread : loadJsonCollectionsManifest p port s artifact = .ok manifest.plain := by
    rw [loadJsonCollectionsManifest_eq hp hrefers hload, hp.manifestModel hmanifest]
    rfl
  have hplain : List.Forall₂ (DescribedBy p arguments) arguments.collections
      manifest.plain.collections :=
    List.forall₂_map_right_iff.mpr (hdescribes.collections.imp (fun _ _ h => h.plain))
  have htotal : 0 + totalItems arguments.collections ≤ manifest.totalItems := by
    rw [hdescribes.totalItems]
    omega
  obtain ⟨pages, hpages, hshows⟩ := loadPages_ok hp artifact.id hplain hfound hitems offset.toNat
    (offset + limit).toNat htotal
  refine ⟨⟨pages, min offset.toNat manifest.totalItems, manifest.totalItems,
    manifest.metadata.plain⟩, ?_, hshows⟩
  have hpages' : loadPages p port s artifact.id arguments.bucket
      (min offset.toNat manifest.plain.totalItems)
        (min (offset + limit).toNat manifest.plain.totalItems)
      0 manifest.plain.collections = .ok pages := hpages
  unfold loadJsonCollectionsPage
  rw [if_neg (by omega), if_neg (by omega)]
  simp only [hbucket, hread, hpages']
  rfl

theorem readable_of_loadPage {page : JsonCollectionsPage}
    (hlimit : totalItems arguments.collections ≤ limit)
    (hpage : loadJsonCollectionsPage p port s artifact 0 limit = .ok page) :
    ReadableManifest p manifest ∧
      ∀ collection ∈ arguments.collections, ReadableItems p collection.items := by
  have hbucket := hrefers.bucket
  have hmanifest : ReadableManifest p manifest := by
    by_contra hnot
    have hnone : manifestModel p (dumpJson p manifest.json) = none := by
      rw [manifestModel, hp.unreadableManifest manifest hnot]
      rfl
    unfold loadJsonCollectionsPage at hpage
    rw [loadJsonCollectionsManifest_eq hp hrefers hload, hnone] at hpage
    simp only [hbucket, Option.elim_none] at hpage
    split at hpage
    · cases hpage
    split at hpage
    · cases hpage
    cases hpage
  refine ⟨hmanifest, ?_⟩
  have hplain : List.Forall₂ (DescribedBy p arguments) arguments.collections
      manifest.plain.collections :=
    List.forall₂_map_right_iff.mpr (hdescribes.collections.imp (fun _ _ h => h.plain))
  have htotal : manifest.plain.totalItems = totalItems arguments.collections :=
    hdescribes.totalItems
  have hwhole : min (0 + limit).toNat manifest.plain.totalItems = manifest.plain.totalItems := by
    omega
  unfold loadJsonCollectionsPage at hpage
  rw [loadJsonCollectionsManifest_eq hp hrefers hload, hp.manifestModel hmanifest] at hpage
  simp only [hbucket, Option.elim_some, hwhole, Int.toNat_zero, Nat.zero_min] at hpage
  split at hpage
  · cases hpage
  split at hpage
  · cases hpage
  split at hpage
  · cases hpage
  rename_i pages hpages
  intro collection hcollection item hitem
  obtain ⟨chunk, hchunk, hmem⟩ := exists_chunk_of_mem hitem
  obtain ⟨descriptor, hstands, items, hitems⟩ := loaded_of_loadPages hplain
    (by rw [Nat.zero_add, htotal]; rfl) hpages collection hcollection chunk hchunk
  exact readable_of_loadChunk hp hstands (hfound collection hcollection chunk hchunk) hitems item
    hmem

end Loaded

end Grafy.JsonCollections
