import Grafy.CollectionPages
import Grafy.BundleRoundTrips

/-!
Lossless pages of JSON collections. Every page shows exactly the items of its
window, and pages that follow each other all of them, when JSON keeps the items
and its reader takes what is saved; nothing checks that before the save.
-/
namespace Grafy.JsonCollections

open CanonicalJson JsonTexts Tables StoredModels Paging

variable {S : Type*} {p : CollectionsPlatform} {port : FileStoragePort S}

/-- Every page shows of each collection the items whose places among all items lie in its window,
from the page's own offset on. -/
def PagesShown (p : CollectionsPlatform) (port : FileStoragePort S) (arguments : SaveArguments)
    (s : S) (artifact : ArtifactObject) : Prop :=
  ∀ offset limit : ℤ, 0 ≤ offset → 1 ≤ limit →
    ∃ page, loadJsonCollectionsPage p port s artifact offset limit = .ok page ∧
      ShowsFrom offset.toNat (offset + limit).toNat 0 arguments.collections page.collections

/-- Pages that follow each other up to the end make up the items of every collection. -/
def PagesJoin (p : CollectionsPlatform) (port : FileStoragePort S) (arguments : SaveArguments)
    (s : S) (artifact : ArtifactObject) : Prop :=
  ∀ limits : List ℕ, (∀ limit ∈ limits, 1 ≤ limit) →
    totalItems arguments.collections ≤ limits.sum →
    ∃ loaded, List.Forall₂ (fun range page =>
        loadJsonCollectionsPage p port s artifact range.1 range.2 = .ok page)
        (pages 0 limits) loaded ∧
      ∀ (k : ℕ) collection, arguments.collections[k]? = some collection →
        loaded.flatMap (fun page => (page.collections[k]?.map JsonCollectionPage.items).getD []) =
          collection.items

/-- The save succeeds. Whatever else is saved under its digest, before, between or after, the
chunks are found, which are the items of the collections cut in order, and the pages are right. -/
def Lossless (p : CollectionsPlatform) (port : FileStoragePort S) (arguments : SaveArguments)
    (s : S) : Prop :=
  ∃ stored manifest,
    saveJsonCollections p port s arguments =
      .ok (stored, port.run s (commands p arguments manifest)) ∧
    Saved p arguments manifest stored ∧ Describes p arguments manifest ∧
    (∀ collection ∈ arguments.collections,
      (collectionChunks p collection).flatMap JsonCollectionChunk.items = collection.items ∧
        ∀ chunk ∈ collectionChunks p collection, chunk.items ≠ []) ∧
    ∀ others, commands p arguments manifest ⊆ others →
      (∀ command ∈ others, Addressed p.sha256 command) → NoCollision p.sha256 others →
      Found p port arguments (port.run s others) arguments.collections ∧
      ∀ artifact, RefersTo p.sha256 artifact stored.bucket stored.manifestPath
          (dumpJson p manifest.json) →
        PagesShown p port arguments (port.run s others) artifact ∧
          PagesJoin p port arguments (port.run s others) artifact

/-- JSON keeps the items, and the reader takes what is saved. -/
structure Storable (p : CollectionsPlatform) (arguments : SaveArguments) : Prop where
  finite : ∀ collection ∈ arguments.collections, ∀ item ∈ collection.items,
    everywhere finiteFloat item.json = true
  items : ∀ collection ∈ arguments.collections, ReadableItems p collection.items
  metadatas : ∀ collection ∈ arguments.collections,
    JsonObject.Readable p.maxDigits p.nestingLimit 3 collection.metadata
  metadata : JsonObject.Readable p.maxDigits p.nestingLimit 1 arguments.metadata

variable {arguments : SaveArguments} {manifest : JsonCollectionsManifest}

theorem readableManifest_iff (h : Describes p arguments manifest) :
    ReadableManifest p manifest ↔ (∀ collection ∈ arguments.collections,
        JsonObject.Readable p.maxDigits p.nestingLimit 3 collection.metadata) ∧
      JsonObject.Readable p.maxDigits p.nestingLimit 1 arguments.metadata := by
  have hall : (∀ collection ∈ manifest.collections,
      JsonObject.Readable p.maxDigits p.nestingLimit 3 collection.metadata) ↔
      ∀ collection ∈ arguments.collections,
        JsonObject.Readable p.maxDigits p.nestingLimit 3 collection.metadata := by
    rw [← List.forall_mem_map (f := JsonCollectionDescriptor.metadata)
      (P := JsonObject.Readable p.maxDigits p.nestingLimit 3), h.metadatas, List.forall_mem_map]
  unfold ReadableManifest
  rw [hall, h.metadata]

theorem exists_aligned {A B : Type*} {R : A → B → Prop} {l : List A} (h : ∀ a ∈ l, ∃ b, R a b) :
    ∃ r, List.Forall₂ R l r := by
  induction l with
  | nil => exact ⟨[], .nil⟩
  | cons a l ih =>
    obtain ⟨b, hb⟩ := h a List.mem_cons_self
    obtain ⟨r, hr⟩ := ih (fun a' ha' => h a' (List.mem_cons_of_mem _ ha'))
    exact ⟨b :: r, .cons hb hr⟩

theorem pagesJoin_of_shown {s : S} {artifact : ArtifactObject}
    (h : PagesShown p port arguments s artifact) : PagesJoin p port arguments s artifact := by
  intro limits hlimits htotal
  obtain ⟨loaded, hloaded⟩ : ∃ loaded, List.Forall₂ (fun (range : ℕ × ℕ) page =>
      loadJsonCollectionsPage p port s artifact range.1 range.2 = .ok page ∧
        ShowsFrom range.1 (range.1 + range.2) 0 arguments.collections page.collections)
      (pages 0 limits) loaded := by
    refine exists_aligned (fun range hrange => ?_)
    have hlimit : 1 ≤ range.2 := hlimits _ (mem_pages hrange)
    obtain ⟨page, hpage, hshows⟩ := h range.1 range.2 (Int.natCast_nonneg _) (by omega)
    rw [← Int.natCast_add, Int.toNat_natCast, Int.toNat_natCast] at hshows
    exact ⟨page, hpage, hshows⟩
  refine ⟨loaded, hloaded.imp (fun _ _ h => h.1), fun k collection hk => ?_⟩
  have hplace : ((arguments.collections.take k).map (fun c => c.items.length)).sum +
      collection.items.length ≤ totalItems arguments.collections := by
    have hlt : k < arguments.collections.length := (List.getElem?_eq_some_iff.mp hk).1
    have hget : arguments.collections[k] = collection := (List.getElem?_eq_some_iff.mp hk).2
    have hsplit := List.take_append_drop k arguments.collections
    rw [List.drop_eq_getElem_cons hlt, hget] at hsplit
    unfold totalItems
    conv_rhs => rw [← hsplit]
    rw [List.map_append, List.sum_append, List.map_cons, List.sum_cons]
    omega
  have hshown : loaded.flatMap (fun page =>
      (page.collections[k]?.map JsonCollectionPage.items).getD []) =
      (pages 0 limits).flatMap (fun range => window range.1 (range.1 + range.2)
        ((arguments.collections.take k).map (fun c => c.items.length)).sum collection.items) := by
    generalize pages 0 limits = ranges at hloaded ⊢
    induction hloaded with
    | nil => rfl
    | cons hhead _ ih =>
      obtain ⟨page, hpage, hitems⟩ := showsFrom_get hhead.2 hk
      rw [List.flatMap_cons, List.flatMap_cons, ih, hpage, Option.map_some, Option.getD_some,
        hitems, Nat.zero_add]
  rw [hshown, flatMap_pages, Nat.zero_add]
  exact window_eq_self (Nat.zero_le _) (hplace.trans htotal)

section Finding

variable (hport : port.Keeps p.sha256) (hdigest : ∀ content, isHexDigest (p.sha256 content) = true)
  {others : List SaveFileCommand} (hsub : commands p arguments manifest ⊆ others)
  (haddressed : ∀ command ∈ others, Addressed p.sha256 command)
  (hcollision : NoCollision p.sha256 others) (s : S)

include hport hdigest hsub haddressed hcollision

theorem found_run : Found p port arguments (port.run s others) arguments.collections := by
  intro collection hcollection chunk hchunk
  have hmem : chunkCommand p arguments chunk ∈ commands p arguments manifest :=
    List.mem_append_left _ (List.mem_flatMap.mpr
      ⟨collection, hcollection, List.mem_map_of_mem hchunk⟩)
  have hload := load_run hdigest hport (s := s) (hsub hmem) rfl haddressed hcollision
  rw [chunkCommand_content] at hload
  exact hload

theorem manifest_found_run :
    port.load (port.run s others) arguments.bucket (manifestCommand p arguments manifest).path =
      some (dumpJson p manifest.json) := by
  have hmem : manifestCommand p arguments manifest ∈ commands p arguments manifest :=
    List.mem_append_right _ (List.mem_singleton_self _)
  have hload := load_run hdigest hport (s := s) (hsub hmem) rfl haddressed hcollision
  rw [manifestCommand_content] at hload
  exact hload

end Finding

section Settled

variable (hport : port.Keeps p.sha256) (hp : Documented p) {arguments : SaveArguments}

include hport hp

theorem lossless_of_storable (hids : (arguments.collections.map JsonCollection.id).Nodup) (s : S)
    (h : Storable p arguments) : Lossless p port arguments s := by
  obtain ⟨stored, manifest, hsave, hsaved, hdescribes⟩ := save_ok hport hp.digest hids s
  refine ⟨stored, manifest, hsave, hsaved, hdescribes, ?_, ?_⟩
  · exact fun collection _ => ⟨collectionChunks_flatMap collection,
      fun chunk hchunk => (collectionChunks_items hchunk).1⟩
  intro others hsub haddressed hcollision
  have hfound := found_run hport hp.digest hsub haddressed hcollision s
  have hload := manifest_found_run hport hp.digest hsub haddressed hcollision s
  have hmanifest := (readableManifest_iff hdescribes).mpr ⟨h.metadatas, h.metadata⟩
  have hplain : arguments.collections.map JsonCollection.plain = arguments.collections := by
    refine (List.map_congr_left (fun collection hcollection => ?_)).trans (List.map_id _)
    have hitems := (JsonObject.map_plain_eq_iff collection.items).mpr
      (h.finite collection hcollection)
    unfold JsonCollection.plain
    rw [hitems]
    rfl
  refine ⟨hfound, fun artifact hrefers => ?_⟩
  rw [hsaved.bucket, hsaved.path] at hrefers
  have hshown : PagesShown p port arguments (port.run s others) artifact := by
    intro offset limit hoffset hlimit
    have hpage := loadPage_ok hp hdescribes hrefers hfound hload hmanifest h.items hoffset
      hlimit
    rwa [hplain] at hpage
  exact ⟨hshown, pagesJoin_of_shown hshown⟩

theorem storable_of_lossless {s : S} (hcollision : ∀ manifest, Describes p arguments manifest →
    NoCollision p.sha256 (commands p arguments manifest)) (h : Lossless p port arguments s) :
    Storable p arguments := by
  obtain ⟨stored, manifest, -, hsaved, hdescribes, -, hall⟩ := h
  have hdistinct := hcollision manifest hdescribes
  obtain ⟨hfound, hpages⟩ := hall _ (List.Subset.refl _) commands_addressed hdistinct
  have hload :=
    manifest_found_run hport hp.digest (List.Subset.refl _) commands_addressed hdistinct s
  let artifact : ArtifactObject :=
    ⟨"", some stored.bucket, some stored.manifestPath, none, none, none, []⟩
  have hrefers : RefersTo p.sha256 artifact stored.bucket stored.manifestPath
      (dumpJson p manifest.json) := ⟨rfl, rfl, nofun, nofun⟩
  have htotal : (totalItems arguments.collections : ℤ) ≤ totalItems arguments.collections + 1 := by
    omega
  obtain ⟨page, hpage, hshows⟩ := (hpages artifact hrefers).1 0
    (totalItems arguments.collections + 1) (Int.le_refl _) (by omega)
  rw [hsaved.bucket, hsaved.path] at hrefers
  obtain ⟨hmanifest, hitems⟩ := readable_of_loadPage hp hdescribes hrefers hfound hload htotal
    hpage
  obtain ⟨hmetadatas, hmetadata⟩ := (readableManifest_iff hdescribes).mp hmanifest
  refine ⟨?_, hitems, hmetadatas, hmetadata⟩
  -- the same page shows the items as JSON keeps them
  obtain ⟨page', hpage', hshows'⟩ := loadPage_ok hp hdescribes hrefers hfound hload hmanifest
    hitems (Int.le_refl 0) (show 1 ≤ (totalItems arguments.collections : ℤ) + 1 by omega)
  cases hpage.symm.trans hpage'
  have hsame := (items_of_showsFrom hshows' (Nat.zero_le _) ?_).symm.trans
    (items_of_showsFrom hshows (Nat.zero_le _) ?_)
  · intro collection hcollection
    rw [List.map_map] at hsame
    exact (JsonObject.map_plain_eq_iff collection.items).mp
      (List.map_inj_left.mp hsame collection hcollection)
  · rw [List.map_map]
    have hlengths : (fun collection : JsonCollection => collection.items.length) ∘
        JsonCollection.plain = fun collection => collection.items.length := by
      funext collection
      exact List.length_map _
    rw [hlengths]
    unfold totalItems
    omega
  · unfold totalItems
    omega

/-- Collections come back in pages exactly when JSON keeps their items and its reader takes what is
saved. -/
theorem pages_lossless_iff (hids : (arguments.collections.map JsonCollection.id).Nodup)
    (hcollision : ∀ manifest, Describes p arguments manifest →
      NoCollision p.sha256 (commands p arguments manifest)) (s : S) :
    Lossless p port arguments s ↔ Storable p arguments :=
  ⟨storable_of_lossless hport hp hcollision, lossless_of_storable hport hp hids s⟩

end Settled

section Example

/-- A storage that overwrites what it may. -/
def mapStorage : FileStoragePort (String → String → Option Bytes) where
  save objects command :=
    if ¬ command.allowOverwrite ∧ (objects command.bucket command.path).isSome then none
    else some (⟨command.bucket, command.path, none, none, command.content.size,
      hexDigest command.content⟩, fun bucket path =>
        if bucket = command.bucket ∧ path = command.path then some command.content
        else objects bucket path)
  load objects bucket path := objects bucket path

theorem mapStorage_keeps : mapStorage.Keeps hexDigest := by
  refine ⟨?_, ?_, ?_⟩
  · intro objects command hwrites
    refine ⟨_, _, if_neg (fun h => h.1 hwrites), rfl, rfl, rfl, rfl⟩
  · intro objects command file objects' h
    simp only [mapStorage] at h
    split at h
    · cases h
    · cases h
      exact if_pos ⟨rfl, rfl⟩
  · intro objects command file objects' h bucket path hne
    simp only [mapStorage] at h
    split at h
    · cases h
    · cases h
      exact if_neg (fun hsame => hne (Prod.ext hsame.1 hsame.2))

/-- A platform that reads nothing. -/
def writingCollections : CollectionsPlatform :=
  ⟨hexDigest, id, 4300, 200, fun _ => none, fun _ => none⟩

theorem plain_eq_of_dump {v w : Json}
    (h : dumpJson writingCollections v = dumpJson writingCollections w) :
    mapFloats plainFloat v = mapFloats plainFloat w :=
  encodeText_injective (utf8_injective h)

theorem mapFloats_chunkJson (chunk : JsonCollectionChunk) :
    mapFloats plainFloat chunk.json = chunk.plain.json := by
  simp only [JsonCollectionChunk.json, JsonCollectionChunk.plain, mapFloats, mapFloatsMembers,
    JsonObject.mapFloats_array]

theorem chunkJson_injective : Function.Injective JsonCollectionChunk.json := by
  intro chunk chunk' h
  simp only [JsonCollectionChunk.json, Json.obj.injEq, List.cons.injEq, Prod.mk.injEq,
    Json.str.injEq, Json.int.injEq, true_and, and_true, Nat.cast_inj] at h
  exact JsonCollectionChunk.ext h.1 h.2.1 (JsonObject.array_injective h.2.2)

theorem descriptorJson_inj : Function.Injective JsonCollectionChunkDescriptor.json := by
  intro d d' h
  simp only [JsonCollectionChunkDescriptor.json, Json.obj.injEq, List.cons.injEq, Prod.mk.injEq,
    Json.str.injEq, Json.int.injEq, true_and, and_true, Nat.cast_inj] at h
  exact JsonCollectionChunkDescriptor.ext h.1 h.2.1 h.2.2.1 h.2.2.2.1 h.2.2.2.2

theorem collectionJson_injective : Function.Injective JsonCollectionDescriptor.json := by
  intro d d' h
  simp only [JsonCollectionDescriptor.json, Json.obj.injEq, List.cons.injEq, Prod.mk.injEq,
    Json.str.injEq, Json.int.injEq, Json.arr.injEq, true_and, and_true, Nat.cast_inj] at h
  exact JsonCollectionDescriptor.ext h.1 h.2.1
    (List.map_injective_iff.mpr descriptorJson_inj h.2.2.1) (JsonObject.json_injective h.2.2.2)

theorem manifestJson_injective : Function.Injective JsonCollectionsManifest.json := by
  intro m m' h
  simp only [JsonCollectionsManifest.json, Json.obj.injEq, List.cons.injEq, Prod.mk.injEq,
    Json.int.injEq, Json.arr.injEq, true_and, and_true, Nat.cast_inj] at h
  exact JsonCollectionsManifest.ext h.1
    (List.map_injective_iff.mpr collectionJson_injective h.2.1) (JsonObject.json_injective h.2.2)

theorem mapFloats_chunks (chunks : List JsonCollectionChunkDescriptor) :
    mapFloatsItems plainFloat (chunks.map JsonCollectionChunkDescriptor.json) =
      chunks.map JsonCollectionChunkDescriptor.json := by
  induction chunks with
  | nil => rfl
  | cons chunk chunks ih =>
    rw [List.map_cons, mapFloatsItems, ih]
    rfl

theorem mapFloats_collections (collections : List JsonCollectionDescriptor) :
    mapFloatsItems plainFloat (collections.map JsonCollectionDescriptor.json) =
      (collections.map JsonCollectionDescriptor.plain).map JsonCollectionDescriptor.json := by
  induction collections with
  | nil => rfl
  | cons collection collections ih =>
    rw [List.map_cons, mapFloatsItems, ih, List.map_cons, List.map_cons]
    congr 1
    simp only [JsonCollectionDescriptor.json, JsonCollectionDescriptor.plain, mapFloats,
      mapFloatsMembers, mapFloats_chunks, JsonObject.json_plain]

theorem mapFloats_manifest (manifest : JsonCollectionsManifest) :
    mapFloats plainFloat manifest.json = manifest.plain.json := by
  simp only [JsonCollectionsManifest.json, JsonCollectionsManifest.plain, mapFloats,
    mapFloatsMembers, mapFloats_collections, JsonObject.json_plain]

theorem readableItems_plain (items : List JsonObject) :
    ReadableItems writingCollections (items.map JsonObject.plain) ↔
      ReadableItems writingCollections items := by
  unfold ReadableItems
  rw [List.forall_mem_map]
  exact forall₂_congr (fun item _ => JsonObject.readable_plain item)

theorem readableManifest_plain (manifest : JsonCollectionsManifest) :
    ReadableManifest writingCollections manifest.plain ↔
      ReadableManifest writingCollections manifest := by
  have hcollections : (∀ collection ∈ manifest.plain.collections,
      JsonObject.Readable 4300 200 3 collection.metadata) ↔
      ∀ collection ∈ manifest.collections, JsonObject.Readable 4300 200 3 collection.metadata := by
    rw [JsonCollectionsManifest.plain, List.forall_mem_map]
    exact forall₂_congr (fun collection _ => JsonObject.readable_plain collection.metadata)
  exact and_congr hcollections (JsonObject.readable_plain manifest.metadata)

/-- The platform that reads what it wrote. -/
noncomputable def readingCollections : CollectionsPlatform :=
  open Classical in
  { writingCollections with
    readChunk := fun content =>
      if h : ∃ chunk : JsonCollectionChunk, ReadableItems writingCollections chunk.items ∧
          dumpJson writingCollections chunk.json = content then
        some h.choose.plain.fields
      else none
    readManifest := fun content =>
      if h : ∃ manifest, ReadableManifest writingCollections manifest ∧
          dumpJson writingCollections manifest.json = content then
        some h.choose.plain.fields
      else none }

theorem readingCollections_documented : Documented readingCollections := by
  have hchunk : ∀ {chunk chunk' : JsonCollectionChunk},
      dumpJson writingCollections chunk.json = dumpJson writingCollections chunk'.json →
        chunk.plain = chunk'.plain := by
    intro chunk chunk' h
    have hplain := plain_eq_of_dump h
    rw [mapFloats_chunkJson, mapFloats_chunkJson] at hplain
    exact chunkJson_injective hplain
  have hmanifest : ∀ {manifest manifest' : JsonCollectionsManifest},
      dumpJson writingCollections manifest.json = dumpJson writingCollections manifest'.json →
        manifest.plain = manifest'.plain := by
    intro manifest manifest' h
    have hplain := plain_eq_of_dump h
    rw [mapFloats_manifest, mapFloats_manifest] at hplain
    exact manifestJson_injective hplain
  refine ⟨isHexDigest_hexDigest, ?_, ?_, ?_, ?_⟩
  · intro chunk hread
    have hex : ∃ found : JsonCollectionChunk, ReadableItems writingCollections found.items ∧
        dumpJson writingCollections found.json = dumpJson writingCollections chunk.json :=
      ⟨chunk, hread, rfl⟩
    exact (dif_pos hex).trans
      (congrArg (fun found => some (JsonCollectionChunk.fields found)) (hchunk hex.choose_spec.2))
  · intro chunk hnot
    refine dif_neg ?_
    rintro ⟨found, hread, hsame⟩
    have hitems := congrArg JsonCollectionChunk.items (hchunk hsame)
    have hplain := (readableItems_plain found.items).mpr hread
    rw [show found.items.map JsonObject.plain = chunk.items.map JsonObject.plain from hitems]
      at hplain
    exact hnot ((readableItems_plain chunk.items).mp hplain)
  · intro manifest hread
    have hex : ∃ found, ReadableManifest writingCollections found ∧
        dumpJson writingCollections found.json = dumpJson writingCollections manifest.json :=
      ⟨manifest, hread, rfl⟩
    exact (dif_pos hex).trans (congrArg
      (fun found => some (JsonCollectionsManifest.fields found)) (hmanifest hex.choose_spec.2))
  · intro manifest hnot
    refine dif_neg ?_
    rintro ⟨found, hread, hsame⟩
    have hplain := (readableManifest_plain found).mpr hread
    rw [hmanifest hsame] at hplain
    exact hnot ((readableManifest_plain manifest).mp hplain)

theorem hexDigest_append (start rest : Bytes) :
    (hexDigest (start ++ rest)).toList = (start.data.toList.flatMap (fun byte =>
      [Nat.digitChar (byte.toNat / 16 % 16), Nat.digitChar (byte.toNat % 16)]) ++
        (rest.data.toList.flatMap (fun byte =>
          [Nat.digitChar (byte.toNat / 16 % 16), Nat.digitChar (byte.toNat % 16)]) ++
            List.replicate 64 '0')).take 64 := by
  unfold hexDigest
  rw [String.toList_ofList, ByteArray.data_append, Array.toList_append, List.flatMap_append,
    List.append_assoc]

/-- A chunk and a manifest differ in their third byte. -/
theorem hexDigest_chunk_ne (chunk : JsonCollectionChunk) (manifest : JsonCollectionsManifest) :
    hexDigest (dumpJson readingCollections chunk.json) ≠
      hexDigest (dumpJson readingCollections manifest.json) := by
  obtain ⟨more, hmore⟩ : ∃ more, encodeText (mapFloats (wireFloat readingCollections) chunk.json) =
      ['{', '"', 'c'] ++ more :=
    ⟨_, by rw [JsonCollectionChunk.json, mapFloats, mapFloatsMembers, encodeText]; rfl⟩
  obtain ⟨more', hmore'⟩ : ∃ more',
      encodeText (mapFloats (wireFloat readingCollections) manifest.json) =
        ['{', '"', 'f'] ++ more' :=
    ⟨_, by rw [JsonCollectionsManifest.json, mapFloats, mapFloatsMembers, encodeText]; rfl⟩
  intro h
  have hchars := congrArg (fun digest => (String.toList digest).take 6) h
  unfold dumpJson at hchars
  simp only [hmore, hmore', ← utf8_append, hexDigest_append, List.take_take] at hchars
  have hc : (utf8 ['{', '"', 'c']).data.toList.flatMap (fun byte =>
      [Nat.digitChar (byte.toNat / 16 % 16), Nat.digitChar (byte.toNat % 16)]) =
        ['7', 'b', '2', '2', '6', '3'] := by decide
  have hf : (utf8 ['{', '"', 'f']).data.toList.flatMap (fun byte =>
      [Nat.digitChar (byte.toNat / 16 % 16), Nat.digitChar (byte.toNat % 16)]) =
        ['7', 'b', '2', '2', '6', '6'] := by decide
  rw [hc, hf] at hchars
  simp at hchars

def noMetadata : JsonObject := ⟨[], rfl⟩

/-- One collection with one item. -/
def oneItem (item : JsonObject) : SaveArguments :=
  ⟨"artifacts", ⟨"geo.feature_collection", 1⟩, [⟨"features", [item], noMetadata, by decide⟩],
    noMetadata, none, "w"⟩

theorem collectionChunks_oneItem {collection : JsonCollection} {item : JsonObject}
    (h : collection.items = [item]) :
    ∃ chunk, collectionChunks readingCollections collection = [chunk] := by
  unfold collectionChunks cutItems
  rw [h, cutFitting, takeFitting, if_neg (by decide), if_neg (by simp), takeFitting, cutFitting]
  exact ⟨_, rfl⟩

theorem oneItem_noCollision (item : JsonObject) (manifest : JsonCollectionsManifest) :
    NoCollision readingCollections.sha256
      (commands readingCollections (oneItem item) manifest) := by
  let collection : JsonCollection := ⟨"features", [item], noMetadata, by decide⟩
  have hitems : collection.items = [item] := rfl
  obtain ⟨chunk, hchunk⟩ := collectionChunks_oneItem hitems
  have hcommands : commands readingCollections (oneItem item) manifest =
      [chunkCommand readingCollections (oneItem item) chunk,
        manifestCommand readingCollections (oneItem item) manifest] := by
    unfold commands chunkCommands
    rw [oneItem, List.flatMap_singleton, hchunk]
    rfl
  have hne := hexDigest_chunk_ne chunk manifest
  rw [hcommands]
  intro command hcommand command' hcommand' hsame
  simp only [List.mem_cons, List.not_mem_nil, or_false] at hcommand hcommand'
  rcases hcommand with rfl | rfl <;> rcases hcommand' with rfl | rfl
  · rfl
  · exact absurd hsame hne
  · exact absurd hsame.symm hne
  · rfl

def pointFeature : JsonObject := ⟨[("type", .str "Feature"), ("id", .int 7)], by decide⟩

theorem pointFeature_lossless :
    Lossless readingCollections mapStorage (oneItem pointFeature) (fun _ _ => none) := by
  refine (pages_lossless_iff mapStorage_keeps readingCollections_documented (by decide)
    (fun manifest _ => oneItem_noCollision pointFeature manifest) _).mpr ⟨?_, ?_, ?_, ?_⟩
  · intro collection hcollection item hitem
    rw [List.mem_singleton.mp hcollection] at hitem
    rw [List.mem_singleton.mp hitem]
    decide
  · intro collection hcollection item hitem
    rw [List.mem_singleton.mp hcollection] at hitem
    rw [List.mem_singleton.mp hitem]
    exact ⟨by decide, by decide⟩
  · intro collection hcollection
    rw [List.mem_singleton.mp hcollection]
    exact ⟨by decide, by decide⟩
  · exact ⟨by decide, by decide⟩

/-- Arrays in each other, with a number in the innermost. -/
def nestedArrays : ℕ → Json
  | 0 => .arr [.int 0]
  | n + 1 => .arr [nestedArrays n]

theorem nesting_nestedArrays (n : ℕ) : nesting (nestedArrays n) = n + 1 := by
  induction n with
  | zero => rfl
  | succ n ih => simp [nestedArrays, nesting, nestingItems, ih]

theorem keyed_nestedArrays (n : ℕ) : everywhere distinctKeys (nestedArrays n) = true := by
  induction n with
  | zero => rfl
  | succ n ih => simp [nestedArrays, everywhere, everywhereItems, distinctKeys, ih]

def deepFeature : JsonObject :=
  ⟨[("value", nestedArrays 197)], by
    simp [everywhere, everywhereMembers, distinctKeys, keyed_nestedArrays]⟩

/-- What is nested too deep is saved and never read again. -/
theorem deepFeature_lost : ¬ ∀ (p : CollectionsPlatform)
    (port : FileStoragePort (String → String → Option Bytes)), Documented p → port.Keeps p.sha256 →
      ∀ arguments : SaveArguments, (arguments.collections.map JsonCollection.id).Nodup →
        (∀ manifest, Describes p arguments manifest →
          NoCollision p.sha256 (commands p arguments manifest)) →
        ∀ s, Lossless p port arguments s := by
  intro h
  have hlossless := h readingCollections mapStorage readingCollections_documented mapStorage_keeps
    (oneItem deepFeature) (by decide)
    (fun manifest _ => oneItem_noCollision deepFeature manifest) (fun _ _ => none)
  have hstorable := storable_of_lossless mapStorage_keeps readingCollections_documented
    (fun manifest _ => oneItem_noCollision deepFeature manifest) hlossless
  have hread := (hstorable.items _ (List.mem_singleton_self _) _ (List.mem_singleton_self _)).2
  have hnesting : nesting (JsonObject.json deepFeature) = 199 := by
    simp [JsonObject.json, deepFeature, nesting, nestingMembers, nesting_nestedArrays]
  rw [hnesting] at hread
  exact absurd hread (by decide)

end Example

end Grafy.JsonCollections
