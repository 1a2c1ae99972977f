import Grafy.ArtifactDeletion

/-!
The text searches of a deletion find every document and every stored result that names the
artifact: its identity is written without escapes wherever a value holds it.
-/
namespace Grafy.ArtifactDeletion

open CanonicalJson Dumps Fingerprints GraphDocuments OrderedDict Project Results Validation

section HeldTexts

variable (text : String)

mutual

/-- Whether a text is one of the strings of a value. -/
@[simp] def holdsText : Json → Bool
  | .str s => s = text
  | .arr items => holdsTextItems items
  | .obj members => holdsTextMembers members
  | _ => false

@[simp] def holdsTextItems : List Json → Bool
  | [] => false
  | v :: rest => holdsText v || holdsTextItems rest

@[simp] def holdsTextMembers : List (String × Json) → Bool
  | [] => false
  | (_, v) :: rest => holdsText v || holdsTextMembers rest

end

variable {text}

theorem holdsText_arr {items : List Json} :
    holdsText text (.arr items) ↔ ∃ v ∈ items, holdsText text v := by
  rw [holdsText]
  induction items with
  | nil => simp [holdsTextItems]
  | cons v rest ih => simp [holdsTextItems, ih]

theorem holdsText_obj {members : List (String × Json)} :
    holdsText text (.obj members) ↔ ∃ entry ∈ members, holdsText text entry.2 := by
  rw [holdsText]
  induction members with
  | nil => simp [holdsTextMembers]
  | cons entry rest ih => simp [holdsTextMembers, ih]

theorem infix_encodeString (hplain : ∀ c ∈ text.toList, escapeChar c = [c]) :
    text.toList <:+: encodeString text := by
  have hflat : text.toList.flatMap escapeChar = text.toList := by
    rw [List.flatMap_congr hplain, List.flatMap_singleton']
  rw [encodeString, hflat]
  exact ⟨['"'], ['"'], rfl⟩

theorem infix_encodeItems {v : Json} {items : List Json} (hv : v ∈ items) :
    encode v <:+: (encodeItems items).tail := by
  induction items with
  | nil => cases hv
  | cons w rest ih =>
    rw [encodeItems, List.tail_cons]
    rcases List.mem_cons.mp hv with rfl | hv
    · exact List.infix_append_of_infix_left (List.infix_refl _)
    · exact List.infix_append_of_infix_right ((ih hv).trans (List.tail_suffix _).isInfix)

theorem infix_encodeMembers {entry : String × Json} {members : List (String × Json)}
    (hentry : entry ∈ members) : encode entry.2 <:+: (encodeMembers members).tail := by
  induction members with
  | nil => cases hentry
  | cons first rest ih =>
    rw [encodeMembers, List.tail_cons]
    refine List.infix_append_of_infix_right (List.infix_cons ?_)
    rcases List.mem_cons.mp hentry with rfl | hentry
    · exact List.infix_append_of_infix_left (List.infix_refl _)
    · exact List.infix_append_of_infix_right ((ih hentry).trans (List.tail_suffix _).isInfix)

/-- A text without escapes stands in the JSON text of every value that holds it. -/
theorem infix_encode (hplain : ∀ c ∈ text.toList, escapeChar c = [c]) (v : Json)
    (h : holdsText text v) : text.toList <:+: encode v := by
  induction v using Json.induct with
  | str s =>
    simp only [holdsText, decide_eq_true_eq] at h
    subst h
    rw [encode]
    exact infix_encodeString hplain
  | arr items ih =>
    obtain ⟨v, hv, h⟩ := holdsText_arr.mp h
    refine ((ih v hv h).trans (infix_encodeItems hv)).trans ?_
    cases items with
    | nil => cases hv
    | cons w rest => exact List.infix_cons (List.infix_refl _)
  | obj members ih =>
    obtain ⟨entry, hentry, h⟩ := holdsText_obj.mp h
    refine ((ih entry hentry h).trans (infix_encodeMembers hentry)).trans ?_
    cases members with
    | nil => cases hentry
    | cons first rest => exact List.infix_cons (List.infix_refl _)
  | _ => simp [holdsText] at h

end HeldTexts

theorem escapeChar_hex {c : Char} (h : c = '-' ∨ c.isDigit ∨ ('a' ≤ c ∧ c ≤ 'f')) :
    escapeChar c = [c] := by
  have hnat : 45 ≤ c.toNat ∧ c.toNat ≤ 102 ∧ c.toNat ≠ 92 := by
    rcases h with rfl | h | ⟨hlow, hhigh⟩
    · decide
    · simp only [Char.isDigit, Bool.and_eq_true, decide_eq_true_eq] at h
      have hlow : 48 ≤ c.toNat := h.1
      have hhigh : c.toNat ≤ 57 := h.2
      omega
    · have hlow' : 97 ≤ c.toNat := hlow
      have hhigh' : c.toNat ≤ 102 := hhigh
      omega
  have hne : ∀ d : Char, d.toNat < 45 ∨ d.toNat = 92 → c ≠ d := by
    rintro d hd rfl
    omega
  unfold escapeChar
  rw [if_neg (hne _ (by decide)), if_neg (hne _ (by decide)), if_neg (hne _ (by decide)),
    if_neg (hne _ (by decide)), if_neg (hne _ (by decide)), if_neg (hne _ (by decide)),
    if_neg (hne _ (by decide)), if_pos (by omega)]

theorem uuid_plain (id : ArtifactId) : ∀ c ∈ id.1.toList, escapeChar c = [c] := by
  intro c hc
  have hid := id.2
  unfold isUuid at hid
  simp only [Bool.and_eq_true, decide_eq_true_eq, List.all_eq_true] at hid
  obtain ⟨i, hi, hget⟩ := List.mem_iff_getElem.mp hc
  have hchar := hid.2 (c, i) (by rw [List.mem_zipIdx_iff_getElem?]; simp [hi, hget])
  apply escapeChar_hex
  split at hchar
  · exact .inl (by simpa using hchar)
  · exact .inr (by simpa using hchar)

variable {id : ArtifactId}

theorem like_of_holdsText {v : Json} (h : holdsText id.1 v) : like id (encode v) := by
  unfold like
  exact decide_eq_true (infix_encode (uuid_plain id) v h)

/-- Whether a document names an artifact. -/
def names (document : ProjectDocument) (id : ArtifactId) : Bool :=
  holdsText id.1 (dumpProject document)

def valueNames (value : ArtifactOutputValue) (id : ArtifactId) : Bool :=
  match value with
  | .sequence refs => refs.itemRefs.any (fun ref => ref.artifactId = id.1)
  | .ref ref => ref.artifactId = id.1

theorem holdsText_modelDump {value : ArtifactOutputValue} (h : valueNames value id) :
    holdsText id.1 (modelDump value) := by
  cases value with
  | ref ref =>
    have href : ref.artifactId = id.1 := by simpa [valueNames] using h
    rw [modelDump, dumpRef, holdsText_obj]
    exact ⟨_, List.mem_cons_self, by simp [holdsText, href]⟩
  | sequence refs =>
    obtain ⟨ref, hmem, href⟩ : ∃ ref ∈ refs.itemRefs, ref.artifactId = id.1 := by
      simpa [valueNames] using h
    have hitem : holdsText id.1 (dumpRef ref) := by
      rw [dumpRef, holdsText_obj]
      exact ⟨_, List.mem_cons_self, by simp [holdsText, href]⟩
    have hitems : holdsText id.1 (.arr (refs.itemRefs.map dumpRef)) :=
      holdsText_arr.mpr ⟨_, List.mem_map_of_mem hmem, hitem⟩
    rw [modelDump, holdsText_obj]
    exact ⟨("item_refs", .arr (refs.itemRefs.map dumpRef)), by simp, hitems⟩

theorem holdsText_dumpList {A : Type} {dump : A → Json} {l : List A} {a : A} (ha : a ∈ l)
    (h : holdsText id.1 (dump a)) : holdsText id.1 (dumpList dump l) :=
  holdsText_arr.mpr ⟨_, List.mem_map_of_mem ha, h⟩

section Values

variable {document : ProjectDocument} {graph : GraphDefinition} {value : ArtifactOutputValue}
  (hgraph : graph ∈ document.graphs)
include hgraph

theorem names_of_dumpDocument (h : holdsText id.1 (dumpDocument graph.document)) :
    names document id := by
  have hheld : holdsText id.1 (dumpGraph graph) :=
    holdsText_obj.mpr ⟨("document", dumpDocument graph.document), by simp, h⟩
  exact holdsText_obj.mpr ⟨("graphs", dumpList dumpGraph document.graphs), by simp,
    holdsText_dumpList hgraph hheld⟩

/-- A document names the artifacts its origins hand on. -/
theorem names_of_origin {origin : GraphOrigin} (horigin : origin ∈ graph.document.origins)
    (h : valueNames origin.value id) : names document id := by
  have hheld : holdsText id.1 (dumpOrigin origin) :=
    holdsText_obj.mpr ⟨("value", modelDump origin.value), by simp, holdsText_modelDump h⟩
  exact names_of_dumpDocument hgraph (holdsText_obj.mpr
    ⟨("origins", dumpList dumpOrigin graph.document.origins), by simp,
      holdsText_dumpList horigin hheld⟩)

/-- And those its cards show. -/
theorem names_of_viewer {viewer : GraphPresentationViewer}
    (hviewer : viewer ∈ graph.document.presentation.viewers)
    (hshows : viewer.artifactRef = some value) (h : valueNames value id) : names document id := by
  have hheld : holdsText id.1 (dumpViewer viewer) :=
    holdsText_obj.mpr ⟨("artifact_ref", modelDump value), by simp [hshows, dumpOption],
      holdsText_modelDump h⟩
  have hviewers : holdsText id.1 (dumpPresentation graph.document.presentation) :=
    holdsText_obj.mpr ⟨("viewers", dumpList dumpViewer graph.document.presentation.viewers),
      by simp, holdsText_dumpList hviewer hheld⟩
  exact names_of_dumpDocument hgraph (holdsText_obj.mpr
    ⟨("presentation", dumpPresentation graph.document.presentation), by simp, hviewers⟩)

end Values

theorem outputsReference_iff {outputs : Outputs} :
    outputsReference outputs id ↔ ∃ entry ∈ outputs, valueNames entry.2 id := by
  unfold outputsReference Dict.values
  rw [List.any_map, List.any_eq_true]
  refine exists_congr fun entry => and_congr_right fun _ => ?_
  obtain ⟨port, value⟩ := entry
  cases value <;> rfl

/-- The text search over the stored results passes over none that refers to the artifact. -/
theorem like_of_outputsReference {outputs : Outputs} (h : outputsReference outputs id) :
    like id (outputsText outputs) := by
  obtain ⟨entry, hentry, hvalue⟩ := outputsReference_iff.mp h
  have hmem : entry ∈ outputs.insertionSort (fun a b => a.1 ≤ b.1) :=
    (List.perm_insertionSort _ outputs).mem_iff.mpr hentry
  apply like_of_holdsText
  rw [holdsText_arr]
  refine ⟨_, List.mem_map_of_mem hmem, ?_⟩
  rw [dumpEnvelope, holdsText_obj]
  exact ⟨("value", modelDump entry.2), by simp, holdsText_modelDump hvalue⟩

end Grafy.ArtifactDeletion
