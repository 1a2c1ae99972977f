import Grafy.Validation

/-!
Validation is settled by one pass. What a model returns satisfies the
conditions on its fields, and a value that satisfies them is read back from
its own dump unchanged. Two exceptions are kept apart: the numbers in a node's
configuration, which a copied node may hold unchecked, and the length of a
normalised endpoint, which is only checked before it is normalised.
-/
namespace Grafy.Reloading

open CanonicalJson DocumentRules Dumps Fingerprints GraphDocuments Loops OrderedDict Project Texts
  Validation

variable {A : Type} {value : Json} {entries : Dict String Json} {name : String}

variable {read : Json → Validated A} {o : Option A}

section Readers

variable {dump : A → Json} {l : List A} {text : String} {a : A} {longest : ℕ}
  {number : FloatLiteral}

section Holding

/-! What holds of everything that is read holds of a field that was read. -/

variable {P : A → Prop}

theorem field_ok (hread : ∀ {value a}, read value = .ok a → P a)
    (h : field entries name read = .ok a) : P a := by
  unfold field at h
  cases hget : entries.get? name with
  | none => simp [hget] at h
  | some value => exact hread (by simpa [hget] using h)

theorem exists_of_field (h : field entries name read = .ok a) : ∃ value, read value = .ok a :=
  field_ok (P := fun a => ∃ value, read value = .ok a) (fun hread => ⟨_, hread⟩) h

theorem fieldOr_ok {absent : A} (hread : ∀ {value a}, read value = .ok a → P a)
    (habsent : P absent) (h : fieldOr entries name absent read = .ok a) : P a := by
  unfold fieldOr at h
  cases hget : entries.get? name with
  | none =>
    obtain rfl : absent = a := by simpa [hget] using h
    exact habsent
  | some value => exact hread (by simpa [hget] using h)

theorem readOption_ok (hread : ∀ {value a}, read value = .ok a → P a)
    (h : readOption read value = .ok o) : ∀ a ∈ o, P a := by
  intro a ha
  obtain rfl : o = some a := ha
  unfold readOption at h
  split at h
  · simp at h
  · obtain ⟨result, hresult, heq⟩ := bind_ok.mp h
    obtain rfl : result = a := by simpa [pure, Except.pure] using heq
    exact hread hresult

theorem readList_ok (hread : ∀ {value a}, read value = .ok a → P a)
    (h : readList read value = .ok l) : ∀ a ∈ l, P a := by
  unfold readList at h
  split at h
  · intro a ha
    obtain ⟨item, -, hitem⟩ := Alignment.exists_left (mapM_ok h) ha
    exact hread hitem
  · simp at h

/-- An optional field that is absent or null holds nothing to check. -/
theorem fieldOr_option_ok (hread : ∀ {value a}, read value = .ok a → P a)
    (h : fieldOr entries name none (readOption read) = .ok o) : ∀ a ∈ o, P a :=
  fieldOr_ok (readOption_ok hread) (by simp) h

theorem fieldOr_list_ok (hread : ∀ {value a}, read value = .ok a → P a)
    (h : fieldOr entries name [] (readList read) = .ok l) : ∀ a ∈ l, P a :=
  fieldOr_ok (readList_ok hread) (by simp) h

end Holding

theorem readOption_dump (h : ∀ a ∈ o, read (dump a) = .ok a) (hnull : ∀ a ∈ o, dump a ≠ .null) :
    readOption read (dumpOption dump o) = .ok o := by
  cases o with
  | none => rfl
  | some a =>
    have hread := h a rfl
    have hsome := hnull a rfl
    simp only [dumpOption]
    unfold readOption
    split
    · contradiction
    · rw [hread]
      rfl

theorem mapM_dump {B : Type} {read : B → Validated A} {dump : A → B}
    (h : ∀ a ∈ l, read (dump a) = .ok a) : (l.map dump).mapM read = .ok l := by
  induction l with
  | nil => rfl
  | cons a rest ih =>
    have hrest := ih (fun b hb => h b (List.mem_cons_of_mem _ hb))
    rw [List.map_cons]
    exact mapM_cons_ok.mpr ⟨a, rest, h a (List.mem_cons_self ..), hrest, rfl⟩

theorem readList_dump (h : ∀ a ∈ l, read (dump a) = .ok a) :
    readList read (dumpList dump l) = .ok l := mapM_dump h

/-- A text that trimming leaves alone, of one to so many characters. -/
def TrimmedTo (longest : ℕ) (text : String) : Prop :=
  trim text = text ∧ 1 ≤ text.length ∧ text.length ≤ longest

abbrev Identifier (text : String) : Prop := TrimmedTo 255 text

theorem readTrimmed_ok (h : readTrimmed longest value = .ok text) : TrimmedTo longest text := by
  obtain ⟨raw, -, h⟩ := bind_ok.mp h
  obtain ⟨_, hlength, h⟩ := bind_ok.mp h
  obtain rfl : trim raw = text := by simpa [pure, Except.pure] using h
  exact ⟨trim_trim raw, require_ok.mp hlength⟩

theorem readTrimmed_str (h : TrimmedTo longest text) :
    readTrimmed longest (.str text) = .ok text := by
  obtain ⟨htrim, hlength⟩ := h
  simp [readTrimmed, readText, htrim, hlength, require, bind, Except.bind, pure, Except.pure]

theorem readFloat_ok (h : readFloat value = .ok number) : number.isFinite := by
  unfold readFloat at h
  split at h
  · split at h
    · rename_i hfinite
      cases h
      exact hfinite
    · simp at h
  · simp at h

theorem readFloat_float (h : number.isFinite) :
    readFloat (.float number) = .ok number := by simp [readFloat, h]

end Readers

variable {text : String}

section Numbers

theorem pure_ok {a b : A} : (pure a : Validated A) = .ok b ↔ a = b := by
  simp [pure, Except.pure]

variable {longest : ℕ}

theorem readBounded_ok (h : readBounded longest value = .ok text) : text.length ≤ longest := by
  simp only [readBounded, bind_ok, require_ok, pure_ok] at h
  obtain ⟨raw, -, -, hlength, rfl⟩ := h
  exact hlength

theorem readBounded_str (h : text.length ≤ longest) :
    readBounded longest (.str text) = .ok text := by
  simp [readBounded, readText, h, require, bind, Except.bind, pure, Except.pure]

variable {least : ℕ} {number : ℕ}

theorem readAtLeast_ok (h : readAtLeast least value = .ok number) : least ≤ number := by
  simp only [readAtLeast, bind_ok, require_ok, pure_ok] at h
  obtain ⟨raw, -, -, hleast, rfl⟩ := h
  omega

theorem readAtLeast_int (h : least ≤ number) : readAtLeast least (.int number) = .ok number := by
  simp [readAtLeast, readInt, h, require, bind, Except.bind, pure, Except.pure]

def DimensionOk (least : ℕ) (number : FloatLiteral) : Prop := number.isFinite ∧ InRange least number

theorem readDimension_ok {number : FloatLiteral} (h : readDimension least value = .ok number) :
    DimensionOk least number := by
  simp only [readDimension, bind_ok, require_ok, pure_ok] at h
  obtain ⟨raw, hread, -, hrange, rfl⟩ := h
  exact ⟨readFloat_ok hread, hrange⟩

theorem readDimension_float {number : FloatLiteral} (h : DimensionOk least number) :
    readDimension least (.float number) = .ok number := by
  simp [readDimension, readFloat_float h.1, h.2, require, bind, Except.bind, pure, Except.pure]

end Numbers

attribute [local simp] members field fieldOr Dict.get? Dict.keys require bind Except.bind pure
  Except.pure

section Values

def PointOk (point : GraphPoint) : Prop := point.x.isFinite ∧ point.y.isFinite

variable {point : GraphPoint} {layout : GraphNodeLayout} {plug : GraphInputPlug}
  {binding : GraphArtifactTypeBinding} {node : GraphNode}

theorem readPoint_ok (h : readPoint value = .ok point) : PointOk point := by
  simp only [readPoint, bind_ok, pure_ok] at h
  obtain ⟨entries, -, x, hx, y, hy, rfl⟩ := h
  exact ⟨field_ok (P := fun x => x.isFinite) readFloat_ok hx,
    field_ok (P := fun y => y.isFinite) readFloat_ok hy⟩

theorem readPoint_dump (h : PointOk point) : readPoint (dumpPoint point) = .ok point := by
  simp [readPoint, dumpPoint, readFloat_float h.1, readFloat_float h.2]

structure LayoutOk (layout : GraphNodeLayout) : Prop where
  width : ∀ number ∈ layout.width, DimensionOk 260 number
  bodyHeight : ∀ number ∈ layout.bodyHeight, DimensionOk 96 number
  appendixHeight : ∀ number ∈ layout.appendixHeight, DimensionOk 120 number
  dimension : layout.width.isSome ∨ layout.bodyHeight.isSome ∨ layout.appendixHeight.isSome

theorem readLayout_ok (h : readLayout value = .ok layout) : LayoutOk layout := by
  simp only [readLayout, bind_ok, require_ok, pure_ok] at h
  obtain ⟨entries, -, width, hwidth, body, hbody, appendix, happendix, -, hdimension, rfl⟩ := h
  refine ⟨?_, ?_, ?_, hdimension⟩
  · exact fieldOr_option_ok readDimension_ok hwidth
  · exact fieldOr_option_ok readDimension_ok hbody
  · exact fieldOr_option_ok readDimension_ok happendix

theorem readDimensions_dump {least : ℕ} {o : Option FloatLiteral}
    (h : ∀ number ∈ o, DimensionOk least number) :
    readOption (readDimension least) (dumpOption .float o) = .ok o :=
  readOption_dump (fun number hnumber => readDimension_float (h number hnumber)) (by simp)

theorem readLayout_dump (h : LayoutOk layout) : readLayout (dumpLayout layout) = .ok layout := by
  simp [readLayout, dumpLayout, readDimensions_dump h.width, readDimensions_dump h.bodyHeight,
    readDimensions_dump h.appendixHeight, h.dimension]

def PlugOk (plug : GraphInputPlug) : Prop := Identifier plug.id ∧ Identifier plug.port

theorem readPlug_ok (h : readPlug value = .ok plug) : PlugOk plug := by
  simp only [readPlug, bind_ok, pure_ok] at h
  obtain ⟨entries, -, id, hid, port, hport, rfl⟩ := h
  exact ⟨field_ok readTrimmed_ok hid, field_ok readTrimmed_ok hport⟩

theorem readIdentifier_str (h : Identifier text) :
    readIdentifier (.str text) = .ok text := readTrimmed_str h

theorem readPlug_dump (h : PlugOk plug) : readPlug (dumpPlug plug) = .ok plug := by
  simp [readPlug, dumpPlug, readIdentifier_str h.1, readIdentifier_str h.2]

structure BindingOk (binding : GraphArtifactTypeBinding) : Prop where
  typeVariable : Identifier binding.typeVariable
  typeId : strip binding.artifactType.id ≠ "" ∧
    binding.artifactType.id = strip binding.artifactType.id ∧ binding.artifactType.id.length ≤ 255
  schemaVersion : 1 ≤ binding.artifactType.schemaVersion

theorem readBinding_ok (h : readBinding value = .ok binding) : BindingOk binding := by
  simp only [readBinding, bind_ok, require_ok, pure_ok] at h
  obtain ⟨entries, -, typeVariable, hvariable, artifactType, -, -, hid, -, hversion, rfl⟩ := h
  exact ⟨field_ok readTrimmed_ok hvariable, hid, hversion⟩

theorem readTypeKey_dump (key : ArtifactTypeKey) : readTypeKey (dumpTypeKey key) = .ok key := by
  simp [readTypeKey, dumpTypeKey, readText, readInt]

theorem readBinding_dump (h : BindingOk binding) :
    readBinding (dumpBinding binding) = .ok binding := by
  simp only [readBinding, bind_ok, require_ok, pure_ok]
  refine ⟨[("variable", .str binding.typeVariable),
    ("artifact_type", dumpTypeKey binding.artifactType)],
    by simp [dumpBinding], binding.typeVariable, ?_, binding.artifactType, ?_, (), h.typeId, (),
    h.schemaVersion, rfl⟩
  · simp [readIdentifier_str h.typeVariable]
  · simp [readTypeKey_dump]

structure NodeOk (node : GraphNode) : Prop where
  id : Identifier node.id
  operatorId : Identifier node.operatorId
  operatorVersion : 1 ≤ node.operatorVersion
  position : PointOk node.position
  layout : ∀ layout ∈ node.layout, LayoutOk layout
  inputPlugs : ∀ plug ∈ node.inputPlugs, PlugOk plug
  artifactTypeBindings : ∀ binding ∈ node.artifactTypeBindings, BindingOk binding
  typeVariables : (node.artifactTypeBindings.map GraphArtifactTypeBinding.typeVariable).Nodup

/-- The configuration holds finite numbers only. -/
def Finite (node : GraphNode) : Prop := freezable (.obj node.config)

theorem readConfig_ok {config : Dict String Json} (h : readConfig value = .ok config) :
    freezable (.obj config) := by
  unfold readConfig at h
  split at h
  · split at h
    · rename_i hfreezable
      cases h
      exact hfreezable
    · simp at h
  · simp at h

theorem readNode_ok (h : readNode value = .ok node) : NodeOk node ∧ Finite node := by
  simp only [readNode, bind_ok, require_ok, pure_ok] at h
  obtain ⟨entries, -, kind, -, id, hid, operatorId, hoperator, version, hversion, config, hconfig,
    position, hposition, layout, hlayout, plugs, hplugs, bindings, hbindings, -, hvariables, rfl⟩ :=
      h
  refine ⟨⟨field_ok readTrimmed_ok hid, field_ok readTrimmed_ok hoperator,
    field_ok readAtLeast_ok hversion, field_ok readPoint_ok hposition, ?_, ?_, ?_, hvariables⟩, ?_⟩
  · exact fieldOr_option_ok readLayout_ok hlayout
  · exact fieldOr_list_ok readPlug_ok hplugs
  · exact fieldOr_list_ok readBinding_ok hbindings
  · exact fieldOr_ok (P := fun config => freezable (.obj config)) readConfig_ok rfl hconfig

theorem readKind_text (kind : GraphNodeKind) :
    readChoice [.builtin, .module, .call] GraphNodeKind.text (.str kind.text) = .ok kind := by
  cases kind <;> simp [readChoice, readText, GraphNodeKind.text]

theorem readLayouts_dump {o : Option GraphNodeLayout} (h : ∀ layout ∈ o, LayoutOk layout) :
    readOption readLayout (dumpOption dumpLayout o) = .ok o :=
  readOption_dump (fun layout hlayout => readLayout_dump (h layout hlayout)) (by simp [dumpLayout])

theorem readNode_dump (h : NodeOk node) :
    readNode (dumpNode node) =
      if freezable (.obj node.config) then .ok node else .error .configNumberNotFinite := by
  have hplugs : readList readPlug (dumpList dumpPlug node.inputPlugs) = .ok node.inputPlugs :=
    readList_dump (fun plug hplug => readPlug_dump (h.inputPlugs plug hplug))
  have hbindings : readList readBinding (dumpList dumpBinding node.artifactTypeBindings) =
      .ok node.artifactTypeBindings :=
    readList_dump (fun binding hbinding => readBinding_dump
      (h.artifactTypeBindings binding hbinding))
  cases hfinite : freezable (.obj node.config) with
  | true =>
    simp [readNode, dumpNode, readKind_text, readIdentifier_str h.id,
      readIdentifier_str h.operatorId, readAtLeast_int h.operatorVersion, readConfig, hfinite,
      readPoint_dump h.position, readLayouts_dump h.layout, hplugs, hbindings, h.typeVariables]
  | false =>
    simp [readNode, dumpNode, readKind_text, readIdentifier_str h.id,
      readIdentifier_str h.operatorId, readAtLeast_int h.operatorVersion, readConfig, hfinite]

end Values

section Edges

def ProjectionOk (projection : GraphProjection) : Prop :=
  (∀ step ∈ projection.path, Identifier step) ∧ projection.path ≠ []

variable {projection : GraphProjection} {step : GraphConversion}

theorem readProjection_ok (h : readProjection value = .ok projection) :
    ProjectionOk projection := by
  simp only [readProjection, bind_ok, require_ok, pure_ok] at h
  obtain ⟨entries, -, path, hpath, -, hne, rfl⟩ := h
  exact ⟨field_ok (readList_ok readTrimmed_ok) hpath, hne⟩

theorem readProjection_dump (h : ProjectionOk projection) :
    readProjection (dumpProjection projection) = .ok projection := by
  have hpath : readList readIdentifier (dumpList .str projection.path) = .ok projection.path :=
    readList_dump (fun step hstep => readIdentifier_str (h.1 step hstep))
  simp [readProjection, dumpProjection, hpath, h.2]

def ConversionOk (step : GraphConversion) : Prop := Identifier step.id ∧ 1 ≤ step.version

theorem readConversion_ok (h : readConversion value = .ok step) : ConversionOk step := by
  simp only [readConversion, bind_ok, pure_ok] at h
  obtain ⟨entries, -, id, hid, version, hversion, rfl⟩ := h
  exact ⟨field_ok readTrimmed_ok hid, field_ok readAtLeast_ok hversion⟩

theorem readConversion_dump (h : ConversionOk step) :
    readConversion (dumpConversion step) = .ok step := by
  simp [readConversion, dumpConversion, readIdentifier_str h.1, readAtLeast_int h.2]

def PathOk (path : List GraphConversion) : Prop :=
  (∀ step ∈ path, ConversionOk step) ∧ path.length ≤ maxArtifactConversionHops

variable {path : List GraphConversion} {edge : GraphEdge}

theorem readConversionPath_ok (h : readConversionPath value = .ok path) : PathOk path := by
  simp only [readConversionPath, bind_ok, require_ok, pure_ok] at h
  obtain ⟨steps, hsteps, -, hlength, rfl⟩ := h
  refine ⟨?_, hlength⟩
  exact readList_ok readConversion_ok hsteps

theorem readConversionPath_dump (h : PathOk path) :
    readConversionPath (dumpList dumpConversion path) = .ok path := by
  have hsteps : readList readConversion (dumpList dumpConversion path) = .ok path :=
    readList_dump (fun step hstep => readConversion_dump (h.1 step hstep))
  simp [readConversionPath, hsteps, h.2]

theorem fieldOr_path_ok (h : fieldOr entries name [] readConversionPath = .ok path) : PathOk path :=
  fieldOr_ok readConversionPath_ok ⟨by simp, Nat.zero_le _⟩ h

theorem readMode_text (mode : CollectionMode) : readMode (.str mode.text) = .ok mode := by
  cases mode <;> simp [readMode, readChoice, readText, CollectionMode.text]

theorem readIdentifiers_dump {o : Option String} (h : ∀ text ∈ o, Identifier text) :
    readOption readIdentifier (dumpOption .str o) = .ok o :=
  readOption_dump (fun text htext => readIdentifier_str (h text htext)) (by simp)

theorem readProjections_dump {o : Option GraphProjection}
    (h : ∀ projection ∈ o, ProjectionOk projection) :
    readOption readProjection (dumpOption dumpProjection o) = .ok o :=
  readOption_dump (fun projection hprojection => readProjection_dump (h projection hprojection))
    (by simp [dumpProjection])

theorem readPoints_dump {o : Option GraphPoint} (h : ∀ point ∈ o, PointOk point) :
    readOption readPoint (dumpOption dumpPoint o) = .ok o :=
  readOption_dump (fun point hpoint => readPoint_dump (h point hpoint)) (by simp [dumpPoint])

structure EdgeOk (edge : GraphEdge) : Prop where
  id : Identifier edge.id
  fromNode : Identifier edge.fromNode
  fromPort : Identifier edge.fromPort
  toNode : Identifier edge.toNode
  toPort : Identifier edge.toPort
  toPlug : ∀ plug ∈ edge.toPlug, Identifier plug
  projection : ∀ projection ∈ edge.projection, ProjectionOk projection
  conversionPath : PathOk edge.conversionPath
  routeOffset : ∀ point ∈ edge.routeOffset, PointOk point

theorem readEdge_ok (h : readEdge value = .ok edge) : EdgeOk edge := by
  simp only [readEdge, bind_ok, pure_ok] at h
  obtain ⟨entries, -, id, hid, enabled, -, fromNode, hfromNode, fromPort, hfromPort, toNode,
    htoNode, toPort, htoPort, toPlug, htoPlug, mode, -, projection, hprojection, path, hpath,
    offset, hoffset, rfl⟩ := h
  refine ⟨field_ok readTrimmed_ok hid, field_ok readTrimmed_ok hfromNode,
    field_ok readTrimmed_ok hfromPort, field_ok readTrimmed_ok htoNode,
    field_ok readTrimmed_ok htoPort, ?_, ?_, fieldOr_path_ok hpath, ?_⟩
  · exact fieldOr_option_ok readTrimmed_ok htoPlug
  · exact fieldOr_option_ok readProjection_ok hprojection
  · exact fieldOr_option_ok readPoint_ok hoffset

theorem readEdge_dump (h : EdgeOk edge) : readEdge (dumpEdge edge) = .ok edge := by
  simp [readEdge, dumpEdge, readIdentifier_str h.id, readBool, readIdentifier_str h.fromNode,
    readIdentifier_str h.fromPort, readIdentifier_str h.toNode, readIdentifier_str h.toPort,
    readIdentifiers_dump h.toPlug, readMode_text, readProjections_dump h.projection,
    readConversionPath_dump h.conversionPath, readPoints_dump h.routeOffset]

end Edges

section Artifacts

def RefOk (ref : ArtifactRef) : Prop := isUuid ref.artifactId

variable {value : Json} {ref : ArtifactRef} {refs : ArtifactRefSequence}
  {held : ArtifactOutputValue} {origin : GraphOrigin}

theorem readUuid_ok (h : readUuid value = .ok text) : isUuid text := by
  simp only [readUuid, bind_ok, require_ok, pure_ok] at h
  obtain ⟨raw, -, -, huuid, rfl⟩ := h
  exact huuid

theorem readUuid_str (h : isUuid text) : readUuid (.str text) = .ok text := by
  simp [readUuid, readText, h]

theorem readRef_ok (h : readRef value = .ok ref) : RefOk ref := by
  unfold readRef at h
  split at h
  · simp only [bind_ok, pure_ok] at h
    obtain ⟨artifactId, hid, artifactType, -, version, -, hash, -, rfl⟩ := h
    exact field_ok (P := fun id => isUuid id) readUuid_ok hid
  · simp at h

theorem readTexts_dump (o : Option String) : readOption readText (optionalText o) = .ok o := by
  cases o <;> rfl

theorem readRef_dump (h : RefOk ref) : readRef (dumpRef ref) = .ok ref := by
  simp [readRef, dumpRef, readUuid_str h, readText, readInt, readTexts_dump]

structure SequenceOk (refs : ArtifactRefSequence) : Prop where
  sequenceId : isUuid refs.sequenceId
  itemRefs : ∀ item ∈ refs.itemRefs, RefOk item
  itemTypes : ∀ item ∈ refs.itemRefs, item.artifactType = refs.artifactType ∧
    item.schemaVersion = refs.schemaVersion

theorem readSequence_ok (h : readSequence value = .ok refs) : SequenceOk refs := by
  unfold readSequence at h
  split at h
  · simp only [bind_ok, require_ok, pure_ok] at h
    obtain ⟨sequenceId, hid, artifactType, -, version, -, items, hitems, ordered, -, indexKey, -,
      metadata, -, -, htypes, rfl⟩ := h
    exact ⟨field_ok (P := fun id => isUuid id) readUuid_ok hid,
      field_ok (readList_ok readRef_ok) hitems, htypes⟩
  · simp at h

def OutputOk : ArtifactOutputValue → Prop
  | .ref ref => RefOk ref
  | .sequence refs => SequenceOk refs

theorem readOutputValue_ok (h : readOutputValue value = .ok held) : OutputOk held := by
  unfold readOutputValue at h
  split at h
  · rename_i ref href
    cases h
    exact readRef_ok href
  · cases hsequence : readSequence value with
    | error e => simp [hsequence, Except.map] at h
    | ok refs =>
      obtain rfl : ArtifactOutputValue.sequence refs = held := by
        simpa [hsequence, Except.map] using h
      exact readSequence_ok hsequence

theorem readSequence_dump (h : SequenceOk refs) :
    readSequence (modelDump (.sequence refs)) = .ok refs := by
  have hitems : readList readRef (.arr (refs.itemRefs.map dumpRef)) = .ok refs.itemRefs :=
    mapM_dump (fun item hitem => readRef_dump (h.itemRefs item hitem))
  simp only [readSequence, modelDump, bind_ok, require_ok, pure_ok]
  refine ⟨refs.sequenceId, by simp [readUuid_str h.sequenceId], refs.artifactType,
    by simp [readText], refs.schemaVersion, by simp [readInt], refs.itemRefs, by simp [hitems],
    refs.ordered, by simp [readBool], refs.indexKey, by simp [readText], refs.metadata,
    by simp [readObject], (), h.itemTypes, rfl⟩

theorem readOutputValue_dump (h : OutputOk held) : readOutputValue (modelDump held) = .ok held := by
  cases held with
  | ref ref =>
    have hread : readRef (dumpRef ref) = .ok ref := readRef_dump h
    simp [readOutputValue, modelDump, hread]
  | sequence refs =>
    have hnot : readRef (modelDump (.sequence refs)) = .error (.missing "artifact_id") := by
      simp [readRef, modelDump]
    simp [readOutputValue, hnot, readSequence_dump h, Except.map]

theorem dumpRef_ne_null (held : ArtifactOutputValue) : modelDump held ≠ .null := by
  cases held <;> simp [modelDump, dumpRef]

structure OriginOk (origin : GraphOrigin) : Prop where
  id : Identifier origin.id
  toNode : Identifier origin.toNode
  toPort : Identifier origin.toPort
  toPlug : ∀ plug ∈ origin.toPlug, Identifier plug
  value : OutputOk origin.value
  conversionPath : PathOk origin.conversionPath

theorem readOrigin_ok (h : readOrigin value = .ok origin) : OriginOk origin := by
  simp only [readOrigin, bind_ok, pure_ok] at h
  obtain ⟨entries, -, id, hid, toNode, htoNode, toPort, htoPort, toPlug, htoPlug, held, hheld, mode,
    -, path, hpath, rfl⟩ := h
  refine ⟨field_ok readTrimmed_ok hid, field_ok readTrimmed_ok htoNode,
    field_ok readTrimmed_ok htoPort, ?_,
    field_ok readOutputValue_ok hheld, fieldOr_path_ok hpath⟩
  exact fieldOr_option_ok readTrimmed_ok htoPlug

theorem readOrigin_dump (h : OriginOk origin) : readOrigin (dumpOrigin origin) = .ok origin := by
  simp [readOrigin, dumpOrigin, readIdentifier_str h.id, readIdentifier_str h.toNode,
    readIdentifier_str h.toPort, readIdentifiers_dump h.toPlug, readOutputValue_dump h.value,
    readMode_text, readConversionPath_dump h.conversionPath]

end Artifacts

section Presentation

/-- An identifier that starts as its kind requires. -/
def PrefixedBy (start text : String) : Prop := Identifier text ∧ start.toList.isPrefixOf text.toList

variable {text : String} {start : String} {viewer : GraphPresentationViewer} {color : String}
  { annotation : GraphPresentationAnnotation} {link : GraphPresentationLink}
  {binding : GraphPresentationBinding} {presentation : GraphPresentationDocument}

theorem readPrefixed_ok (h : readPrefixed start value = .ok text) : PrefixedBy start text := by
  simp only [readPrefixed, bind_ok, require_ok, pure_ok] at h
  obtain ⟨raw, hread, -, hstart, rfl⟩ := h
  exact ⟨readTrimmed_ok hread, hstart⟩

theorem readPrefixed_str (h : PrefixedBy start text) :
    readPrefixed start (.str text) = .ok text := by
  simp only [readPrefixed, bind_ok, require_ok, pure_ok]
  exact ⟨text, readIdentifier_str h.1, (), h.2, rfl⟩

structure ViewerOk (viewer : GraphPresentationViewer) : Prop where
  id : PrefixedBy "artifact-viewer-" viewer.id
  position : PointOk viewer.position
  layout : ∀ layout ∈ viewer.layout, LayoutOk layout
  mode : ∀ mode ∈ viewer.mode, mode.length ≤ 255
  artifactRef : ∀ held ∈ viewer.artifactRef, OutputOk held

theorem readViewer_ok (h : readViewer value = .ok viewer) : ViewerOk viewer := by
  simp only [readViewer, bind_ok, pure_ok] at h
  obtain ⟨entries, -, id, hid, position, hposition, layout, hlayout, mode, hmode, held, hheld,
    rfl⟩ := h
  refine ⟨field_ok readPrefixed_ok hid, field_ok readPoint_ok hposition, ?_, ?_, ?_⟩
  · exact fieldOr_option_ok readLayout_ok hlayout
  · exact fieldOr_option_ok readBounded_ok hmode
  · exact fieldOr_option_ok readOutputValue_ok hheld

theorem readViewer_dump (h : ViewerOk viewer) : readViewer (dumpViewer viewer) = .ok viewer := by
  have hmode : readOption (readBounded 255) (dumpOption .str viewer.mode) = .ok viewer.mode :=
    readOption_dump (fun mode hmode => readBounded_str (h.mode mode hmode)) (by simp)
  have hheld : readOption readOutputValue (dumpOption modelDump viewer.artifactRef) =
      .ok viewer.artifactRef :=
    readOption_dump (fun held hheld => readOutputValue_dump (h.artifactRef held hheld))
      (fun held _ => dumpRef_ne_null held)
  simp [readViewer, dumpViewer, readPrefixed_str h.id, readPoint_dump h.position,
    readLayouts_dump h.layout, hmode, hheld]

theorem upperHex_of_isColor (h : isColor text) :
    String.ofList (text.toList.map upperHex) = text := by
  have hsame : ∀ c ∈ text.toList, upperHex c = c := by
    unfold isColor at h
    split at h
    · rename_i digits htext
      rw [htext]
      intro c hc
      rcases List.mem_cons.mp hc with rfl | hc
      · rfl
      · simp only [Bool.and_eq_true, List.all_eq_true] at h
        have hdigit := h.2 c hc
        simp only [Bool.or_eq_true, Bool.and_eq_true, decide_eq_true_eq, Char.isDigit] at hdigit
        unfold upperHex
        rw [if_neg]
        simp only [Bool.and_eq_true, decide_eq_true_eq, not_and]
        intro ha
        exfalso
        have hval : ('a' : Char).val ≤ c.val := ha
        rcases hdigit with ⟨-, hnine⟩ | ⟨-, hF⟩
        · exact absurd (UInt32.le_trans hval hnine) (by decide)
        · have hF' : c.val ≤ ('F' : Char).val := hF
          exact absurd (UInt32.le_trans hval hF') (by decide)
    · simp at h
  rw [List.map_congr_left hsame, List.map_id', String.ofList_toList]

structure AnnotationOk (card : GraphPresentationAnnotation) : Prop where
  id : PrefixedBy "annotation-" card.id
  position : PointOk card.position
  width : DimensionOk 24 card.width
  height : DimensionOk 24 card.height
  text : card.text.length ≤ 8000
  color : isColor card.color
  textForKind : card.kind = .text ∨ strip card.text = ""

theorem readColor_ok (h : readColor value = .ok color) : isColor color := by
  simp only [readColor, bind_ok, require_ok, pure_ok] at h
  obtain ⟨raw, -, -, hcolor, rfl⟩ := h
  exact hcolor

theorem readColor_str (h : isColor color) : readColor (.str color) = .ok color := by
  simp [readColor, readText, upperHex_of_isColor h, h]

theorem readAnnotation_ok (h : readAnnotationCard value = .ok annotation) :
    AnnotationOk annotation := by
  simp only [readAnnotationCard, bind_ok, require_ok, pure_ok] at h
  obtain ⟨entries, -, id, hid, kind, -, position, hposition, layout, hlayout, text, htext, color,
    hcolor, -, hkind, rfl⟩ := h
  obtain ⟨_, hlayout⟩ := exists_of_field hlayout
  simp only [readAnnotationLayout, bind_ok, pure_ok] at hlayout
  obtain ⟨_, -, width, hwidth, height, hheight, rfl⟩ := hlayout
  refine ⟨field_ok readPrefixed_ok hid, field_ok readPoint_ok hposition,
    field_ok readDimension_ok hwidth, field_ok readDimension_ok hheight, ?_, ?_, hkind⟩
  · exact fieldOr_ok (P := fun text => text.length ≤ 8000) readBounded_ok (Nat.zero_le _) htext
  · exact fieldOr_ok (P := fun color => isColor color) readColor_ok (by decide) hcolor

theorem readAnnotationKind_text (kind : AnnotationKind) :
    readChoice [.text, .rectangle, .ellipse] annotationKindText (.str (annotationKindText kind)) =
      .ok kind := by
  cases kind <;> simp [readChoice, readText, annotationKindText]

theorem readAnnotation_dump (h : AnnotationOk annotation) :
    readAnnotationCard (dumpAnnotationCard annotation) = .ok annotation := by
  simp [readAnnotationCard, dumpAnnotationCard, readPrefixed_str h.id, readAnnotationKind_text,
    readPoint_dump h.position, readAnnotationLayout, readDimension_float h.width,
    readDimension_float h.height, readBounded_str h.text, readColor_str h.color, h.textForKind]

structure LinkOk (link : GraphPresentationLink) : Prop where
  id : PrefixedBy "artifact-viewer-edge-" link.id
  sourceNodeId : Identifier link.sourceNodeId
  sourcePortName : Identifier link.sourcePortName
  targetViewerId : Identifier link.targetViewerId
  projection : ∀ projection ∈ link.projection, ProjectionOk projection
  routeOffset : ∀ point ∈ link.routeOffset, PointOk point

theorem readLink_ok (h : readLink value = .ok link) : LinkOk link := by
  simp only [readLink, bind_ok, pure_ok] at h
  obtain ⟨entries, -, id, hid, node, hnode, port, hport, viewer, hviewer, projection, hprojection,
    offset, hoffset, rfl⟩ := h
  refine ⟨field_ok readPrefixed_ok hid, field_ok readTrimmed_ok hnode,
    field_ok readTrimmed_ok hport, field_ok readTrimmed_ok hviewer, ?_, ?_⟩
  · exact fieldOr_option_ok readProjection_ok hprojection
  · exact fieldOr_option_ok readPoint_ok hoffset

theorem readLink_dump (h : LinkOk link) : readLink (dumpLink link) = .ok link := by
  simp [readLink, dumpLink, readPrefixed_str h.id, readIdentifier_str h.sourceNodeId,
    readIdentifier_str h.sourcePortName, readIdentifier_str h.targetViewerId,
    readProjections_dump h.projection, readPoints_dump h.routeOffset]

structure PresentationBindingOk (binding : GraphPresentationBinding) : Prop where
  id : PrefixedBy "artifact-viewer-binding-" binding.id
  sourceViewerId : Identifier binding.sourceViewerId
  targetViewerId : Identifier binding.targetViewerId
  mappings : (∀ mapping ∈ binding.mappings, Identifier mapping.1 ∧ Identifier mapping.2) ∧
    binding.mappings.length ≤ 8
  effects : (1 ≤ binding.effects.length ∧ binding.effects.length ≤ 3) ∧ binding.effects.Nodup
  endpoints : binding.sourceViewerId ≠ binding.targetViewerId

theorem readPresentationBinding_ok (h : readPresentationBinding value = .ok binding) :
    PresentationBindingOk binding := by
  simp only [readPresentationBinding, bind_ok, require_ok, pure_ok] at h
  obtain ⟨entries, -, id, hid, source, hsource, target, htarget, mappings, hmappings, effects,
    heffects, _, -, -, hendpoints, -, hnodup, rfl⟩ := h
  obtain ⟨_, hmappings⟩ := exists_of_field hmappings
  obtain ⟨_, heffects⟩ := exists_of_field heffects
  simp only [readMappings, readEffects, bind_ok, require_ok, pure_ok] at hmappings heffects
  obtain ⟨found, hfound, -, hlength, rfl⟩ := hmappings
  obtain ⟨_, -, -, hcount, rfl⟩ := heffects
  refine ⟨field_ok readPrefixed_ok hid, field_ok readTrimmed_ok hsource,
    field_ok readTrimmed_ok htarget, ⟨?_, hlength⟩, ⟨hcount, hnodup⟩, hendpoints⟩
  refine readList_ok (fun hread => ?_) hfound
  simp only [readMapping, bind_ok, pure_ok] at hread
  obtain ⟨_, -, sourceField, hsourceField, targetField, htargetField, rfl⟩ := hread
  exact ⟨field_ok readTrimmed_ok hsourceField, field_ok readTrimmed_ok htargetField⟩

theorem readPresentationBinding_dump (h : PresentationBindingOk binding) :
    readPresentationBinding (dumpPresentationBinding binding) = .ok binding := by
  have hmapping : ∀ mapping ∈ binding.mappings, readMapping (dumpMapping mapping) =
    .ok mapping := by
    intro mapping hmem
    obtain ⟨hsource, htarget⟩ := h.mappings.1 mapping hmem
    simp [readMapping, dumpMapping, readIdentifier_str hsource, readIdentifier_str htarget]
  have hmappings : readMappings (dumpList dumpMapping binding.mappings) = .ok binding.mappings := by
    simp [readMappings, readList_dump hmapping, h.mappings.2]
  have heffect : ∀ effect ∈ binding.effects,
      readChoice [.filter, .highlight, .focus] effectText (.str (effectText effect)) =
        .ok effect := by
    intro effect _
    cases effect <;> simp [readChoice, readText, effectText]
  have heffects : readEffects (dumpList (fun effect => .str (effectText effect)) binding.effects) =
      .ok binding.effects := by
    simp only [readEffects, bind_ok, require_ok, pure_ok]
    exact ⟨binding.effects, readList_dump heffect, (), h.effects.1, rfl⟩
  simp [readPresentationBinding, dumpPresentationBinding, readPrefixed_str h.id,
    readIdentifier_str h.sourceViewerId, readIdentifier_str h.targetViewerId, hmappings, heffects,
    readShowAll, readText, h.endpoints, h.effects.2]

structure PresentationOk (presentation : GraphPresentationDocument) : Prop where
  viewers : ∀ viewer ∈ presentation.viewers, ViewerOk viewer
  links : ∀ link ∈ presentation.links, LinkOk link
  bindings : ∀ binding ∈ presentation.bindings, PresentationBindingOk binding
  annotations : ∀ annotation ∈ presentation.annotations, AnnotationOk annotation
  rules : validatePresentation presentation = .ok ()

theorem readPresentation_ok (h : readPresentation value = .ok presentation) :
    PresentationOk presentation := by
  simp only [readPresentation, bind_ok, pure_ok, mapError_ok] at h
  obtain ⟨entries, -, viewers, hviewers, links, hlinks, bindings, hbindings, annotations,
    hannotations, _, hrules, rfl⟩ := h
  refine ⟨?_, ?_, ?_, ?_, hrules⟩
  · exact fieldOr_list_ok readViewer_ok hviewers
  · exact fieldOr_list_ok readLink_ok hlinks
  · exact fieldOr_list_ok readPresentationBinding_ok hbindings
  · exact fieldOr_list_ok readAnnotation_ok hannotations

theorem readPresentation_dump (h : PresentationOk presentation) :
    readPresentation (dumpPresentation presentation) = .ok presentation := by
  have hviewers := readList_dump (fun viewer hviewer => readViewer_dump (h.viewers viewer hviewer))
  have hlinks := readList_dump (fun link hlink => readLink_dump (h.links link hlink))
  have hbindings := readList_dump (fun binding hbinding =>
    readPresentationBinding_dump (h.bindings binding hbinding))
  have hannotations :=
    readList_dump (fun note hnote => readAnnotation_dump (h.annotations note hnote))
  simp [readPresentation, dumpPresentation, hviewers, hlinks, hbindings, hannotations, h.rules,
    Except.mapError]

end Presentation

section Agents

variable {destination : String → Option String} {model : AgentModel} {agent : GraphAgent}

/-- What is relied on of URL normalisation: a normalised URL is normal, and it
is not empty. -/
structure Normalising (destination : String → Option String) : Prop where
  again : ∀ {text url}, destination text = some url → destination url = some url
  nonempty : ∀ {text url}, destination text = some url → 1 ≤ url.length

def ModelOk (destination : String → Option String) : AgentModel → Prop
  | .deployment => True
  | .custom endpoint model =>
    destination endpoint = some endpoint ∧ 1 ≤ endpoint.length ∧ Identifier model

structure AgentOk (destination : String → Option String) (agent : GraphAgent) : Prop where
  id : Identifier agent.id
  name : Identifier agent.name
  instructions : agent.instructions.length ≤ 100000
  model : ModelOk destination agent.model
  position : PointOk agent.position
  width : DimensionOk 260 agent.width
  height : DimensionOk 96 agent.height

def endpointLength : AgentModel → ℕ
  | .deployment => 0
  | .custom endpoint _ => endpoint.length

/-- The normalised endpoint is no longer than one that may be given. -/
def EndpointFits (agent : GraphAgent) : Prop := endpointLength agent.model ≤ 2048

theorem readModel_ok (hdestination : Normalising destination)
    (h : readModel destination value = .ok model) : ModelOk destination model := by
  unfold readModel at h
  split at h
  · obtain ⟨kind, -, h⟩ := bind_ok.mp h
    split_ifs at h
    · simp only [bind_ok, pure_ok] at h
      obtain ⟨_, -, rfl⟩ := h
      trivial
    · simp only [bind_ok, pure_ok] at h
      obtain ⟨_, -, endpoint, hendpoint, name, hname, rfl⟩ := h
      obtain ⟨_, hendpoint⟩ := exists_of_field hendpoint
      simp only [readEndpoint, bind_ok] at hendpoint
      obtain ⟨text, -, _, -, hurl⟩ := hendpoint
      cases hget : destination text with
      | none => simp [hget] at hurl
      | some url =>
        obtain rfl : url = endpoint := by simpa [hget] using hurl
        exact ⟨hdestination.again hget, hdestination.nonempty hget, field_ok readTrimmed_ok hname⟩
  · simp at h

theorem defaults_ok : PointOk ⟨zero, zero⟩ ∧ DimensionOk 260 defaultAgentWidth ∧
    DimensionOk 96 defaultAgentHeight :=
  ⟨⟨by decide, by decide⟩, ⟨by decide, by decide +kernel⟩, by decide, by decide +kernel⟩

theorem readAgent_ok (hdestination : Normalising destination)
    (h : readAgent destination value = .ok agent) : AgentOk destination agent := by
  simp only [readAgent, bind_ok, pure_ok] at h
  obtain ⟨entries, -, id, hid, name, hname, instructions, hinstructions, model, hmodel, position,
    hposition, width, hwidth, height, hheight, rfl⟩ := h
  refine ⟨field_ok readTrimmed_ok hid, field_ok readTrimmed_ok hname, ?_, ?_, ?_, ?_, ?_⟩
  · exact fieldOr_ok (P := fun text => text.length ≤ 100000) readBounded_ok (Nat.zero_le _)
      hinstructions
  · exact fieldOr_ok (P := ModelOk destination) (readModel_ok hdestination)
      (show ModelOk destination .deployment from trivial) hmodel
  · exact fieldOr_ok readPoint_ok defaults_ok.1 hposition
  · exact fieldOr_ok readDimension_ok defaults_ok.2.1 hwidth
  · exact fieldOr_ok readDimension_ok defaults_ok.2.2 hheight

theorem readModel_dump (h : ModelOk destination model) :
    readModel destination (dumpModel model) =
      if endpointLength model ≤ 2048 then .ok model else .error .constraint := by
  cases model with
  | deployment => simp [readModel, dumpModel, readText, endpointLength]
  | custom endpoint name =>
    obtain ⟨hnormal, hnonempty, hname⟩ := h
    by_cases hlength : endpoint.length ≤ 2048
    · simp [readModel, dumpModel, readText, readEndpoint, hnormal, hnonempty, hlength,
        readIdentifier_str hname, endpointLength]
    · simp [readModel, dumpModel, readText, readEndpoint, hlength, endpointLength]

theorem readAgent_dump (h : AgentOk destination agent) :
    readAgent destination (dumpAgent agent) =
      if endpointLength agent.model ≤ 2048 then .ok agent else .error .constraint := by
  by_cases hlength : endpointLength agent.model ≤ 2048
  · simp [readAgent, dumpAgent, readIdentifier_str h.id, readIdentifier_str h.name,
      readBounded_str h.instructions, readModel_dump h.model, hlength, readPoint_dump h.position,
      readDimension_float h.width, readDimension_float h.height]
  · simp [readAgent, dumpAgent, readIdentifier_str h.id, readIdentifier_str h.name,
      readBounded_str h.instructions, readModel_dump h.model, hlength]

end Agents

section Documents

variable {destination : String → Option String} {document : GraphDocument} {result : GraphDocument}
  {graph : GraphDefinition}

structure DocumentOk (destination : String → Option String) (document : GraphDocument) : Prop where
  agents : ∀ agent ∈ document.agents, AgentOk destination agent
  nodes : ∀ node ∈ document.nodes, NodeOk node
  edges : ∀ edge ∈ document.edges, EdgeOk edge
  origins : ∀ origin ∈ document.origins, OriginOk origin
  presentation : PresentationOk document.presentation
  rules : validateStructure document = .ok ()

def FiniteNodes (document : GraphDocument) : Prop := ∀ node ∈ document.nodes, Finite node

def EndpointsFit (document : GraphDocument) : Prop := ∀ agent ∈ document.agents, EndpointFits agent

/-- A list of values that are read back unchanged or refused is so read back
as a whole. -/
theorem readList_dump_iff {dump : A → Json} {P : A → Prop} [DecidablePred P] {e : ValidationError}
    {l : List A} (h : ∀ a ∈ l, read (dump a) = if P a then .ok a else .error e) {r : List A} :
    readList read (dumpList dump l) = .ok r ↔ (∀ a ∈ l, P a) ∧ r = l := by
  constructor
  · intro hread
    have hall : ∀ a ∈ l, P a := by
      intro a ha
      obtain ⟨b, -, hb⟩ := Alignment.exists_right (mapM_ok hread)
        (List.mem_map_of_mem (f := dump) ha)
      by_contra hnot
      simp [h a ha, hnot] at hb
    refine ⟨hall, ?_⟩
    have hsame : readList read (dumpList dump l) = .ok l :=
      readList_dump (fun a ha => by rw [h a ha, if_pos (hall a ha)])
    exact Except.ok.inj (hread.symm.trans hsame)
  · rintro ⟨hall, rfl⟩
    exact readList_dump (fun a ha => by rw [h a ha, if_pos (hall a ha)])

theorem readDocument_ok (hdestination : Normalising destination)
    (h : readDocument destination value = .ok document) :
    DocumentOk destination document ∧ FiniteNodes document := by
  simp only [readDocument, readDocumentWith, readAgents, Option.elim_none, bind_ok, pure_ok,
    mapError_ok] at h
  obtain ⟨entries, -, _, -, agents, hagents, nodes, hnodes, edges, hedges, origins, horigins,
    presentation, hpresentation, _, hrules, rfl⟩ := h
  refine ⟨⟨?_, ?_, ?_, ?_, ?_, hrules⟩, ?_⟩
  · exact fieldOr_list_ok (readAgent_ok hdestination) hagents
  · exact fieldOr_list_ok (fun h => (readNode_ok h).1) hnodes
  · exact fieldOr_list_ok readEdge_ok hedges
  · exact fieldOr_list_ok readOrigin_ok horigins
  · exact fieldOr_ok readPresentation_ok ⟨by simp, by simp, by simp, by simp, rfl⟩ hpresentation
  · exact fieldOr_list_ok (fun h => (readNode_ok h).2) hnodes

theorem members_dumpDocument (document : GraphDocument) :
    members ["schema_version", "agents", "nodes", "edges", "origins", "presentation"]
      (dumpDocument document) =
    .ok [("schema_version", .int savedGraphSchemaVersion),
      ("agents", dumpList dumpAgent document.agents), ("nodes", dumpList dumpNode document.nodes),
      ("edges", dumpList dumpEdge document.edges),
        ("origins", dumpList dumpOrigin document.origins),
      ("presentation", dumpPresentation document.presentation)] := by
  simp [dumpDocument]

/-- The document's own parts are read back unchanged, or refused for a number
in a configuration. -/
theorem readDocumentWith_dump_iff (h : DocumentOk destination document)
    {agents : Option (List GraphAgent)} :
    readDocumentWith destination agents (dumpDocument document) = .ok result ↔
      ∃ held, agents.elim (readList (readAgent destination) (dumpList dumpAgent document.agents))
          .ok = .ok held ∧ FiniteNodes document ∧
        validateStructure { document with agents := held } = .ok () ∧
        result = { document with agents := held } := by
  have hnodes : ∀ r, readList readNode (dumpList dumpNode document.nodes) = .ok r ↔
      (∀ node ∈ document.nodes, Finite node) ∧ r = document.nodes := fun r =>
    readList_dump_iff (P := fun node => freezable (.obj node.config))
      (fun node hnode => readNode_dump (h.nodes node hnode))
  have hedges : readList readEdge (dumpList dumpEdge document.edges) = .ok document.edges :=
    readList_dump (fun edge hedge => readEdge_dump (h.edges edge hedge))
  have horigins : readList readOrigin (dumpList dumpOrigin document.origins) =
    .ok document.origins :=
    readList_dump (fun origin horigin => readOrigin_dump (h.origins origin horigin))
  have hpresentation := readPresentation_dump h.presentation
  simp only [readDocumentWith, readAgents, members_dumpDocument, bind_ok, pure_ok, mapError_ok,
    fieldOr, Dict.get?,
    String.reduceEq, reduceIte, Except.ok.injEq, exists_eq_left', hedges, horigins, hpresentation]
  constructor
  · rintro ⟨_, -, held, hheld, nodes, hread, _, hrules, rfl⟩
    obtain ⟨hfinite, rfl⟩ := (hnodes nodes).mp hread
    exact ⟨held, hheld, hfinite, hrules, rfl⟩
  · rintro ⟨held, hheld, hfinite, hrules, rfl⟩
    refine ⟨(), ?_, held, hheld, document.nodes, (hnodes _).mpr ⟨hfinite, rfl⟩, (), hrules, rfl⟩
    simp [readSchemaVersion, readInt]

theorem readDocument_dump_iff (h : DocumentOk destination document) :
    readDocument destination (dumpDocument document) = .ok result ↔
      FiniteNodes document ∧ EndpointsFit document ∧ result = document := by
  have hagents : ∀ r, readList (readAgent destination) (dumpList dumpAgent document.agents) =
    .ok r ↔
      (∀ agent ∈ document.agents, EndpointFits agent) ∧ r = document.agents := fun r =>
    readList_dump_iff (P := fun agent => endpointLength agent.model ≤ 2048)
      (fun agent hagent => readAgent_dump (h.agents agent hagent))
  rw [readDocument, readDocumentWith_dump_iff h]
  constructor
  · rintro ⟨held, hheld, hfinite, -, rfl⟩
    obtain ⟨hfits, rfl⟩ := (hagents held).mp hheld
    exact ⟨hfinite, hfits, rfl⟩
  · rintro ⟨hfinite, hfits, rfl⟩
    exact ⟨result.agents, (hagents _).mpr ⟨hfits, rfl⟩, hfinite, h.rules, rfl⟩

structure GraphOk (destination : String → Option String) (graph : GraphDefinition) : Prop where
  id : Identifier graph.id
  name : TrimmedTo graphNameMaxLength graph.name
  document : DocumentOk destination graph.document
  rules : validateGraph graph = .ok ()

theorem readGenerations_dump (generations : Dict String ℕ) :
    readGenerations (.obj (generations.map (fun entry => (entry.1, .int entry.2)))) =
      .ok generations := by
  refine mapM_dump ?_
  intro entry _
  simp [readGeneration, readAtLeast_int (Nat.zero_le entry.2)]

theorem readGraph_ok (hdestination : Normalising destination)
    (h : readGraph destination value = .ok graph) :
    GraphOk destination graph ∧ FiniteNodes graph.document := by
  simp only [readGraph, bind_ok, pure_ok, mapError_ok] at h
  obtain ⟨entries, -, id, hid, name, hname, document, hdocument, generations, -, _, hrules, rfl⟩ :=
    h
  obtain ⟨_, hdocument⟩ := exists_of_field hdocument
  obtain ⟨hok, hfinite⟩ := readDocument_ok hdestination hdocument
  exact ⟨⟨field_ok readTrimmed_ok hid, field_ok readTrimmed_ok hname, hok, hrules⟩, hfinite⟩

/-- What a copied node or a normalised endpoint may fail of. -/
def Storable (document : GraphDocument) : Prop := FiniteNodes document ∧ EndpointsFit document

theorem members_dumpGraph (graph : GraphDefinition) :
    members ["id", "name", "document", "refresh_generations"] (dumpGraph graph) =
    .ok [("id", .str graph.id), ("name", .str graph.name),
      ("document", dumpDocument graph.document),
      ("refresh_generations",
        .obj (graph.refreshGenerations.map (fun entry => (entry.1, .int entry.2))))] := by
  simp [dumpGraph]

theorem readGraph_dump_iff (h : GraphOk destination graph) {result : GraphDefinition} :
    readGraph destination (dumpGraph graph) = .ok result ↔
      Storable graph.document ∧ result = graph := by
  have hid := readIdentifier_str h.id
  have hname : readGraphName (.str graph.name) = .ok graph.name := readTrimmed_str h.name
  have hgenerations := readGenerations_dump graph.refreshGenerations
  have heq : readGraph destination (dumpGraph graph) = do
      let document ← readDocument destination (dumpDocument graph.document)
      (validateGraph { graph with document := document }).mapError .graph
      return { graph with document := document } := by
    unfold readGraph
    rw [members_dumpGraph]
    simp [hid, hname, hgenerations]
  simp only [heq, bind_ok, pure_ok, mapError_ok, readDocument_dump_iff h.document]
  constructor
  · rintro ⟨document, ⟨hfinite, hfits, rfl⟩, _, -, rfl⟩
    exact ⟨⟨hfinite, hfits⟩, rfl⟩
  · rintro ⟨⟨hfinite, hfits⟩, rfl⟩
    exact ⟨result.document, ⟨hfinite, hfits, rfl⟩, (), h.rules, rfl⟩

end Documents

section Projects

variable {destination : String → Option String} {casefold : String → String}
  {project : ProjectDocument}

structure ProjectOk (destination : String → Option String) (casefold : String → String)
    (project : ProjectDocument) : Prop where
  graphs : ∀ graph ∈ project.graphs, GraphOk destination graph
  rules : checkProject casefold project.graphs = .ok ()

theorem ProjectOk.valid (h : ProjectOk destination casefold project) : project.Valid casefold :=
  ⟨fun graph hgraph => (h.graphs graph hgraph).document.rules,
    fun graph hgraph => (h.graphs graph hgraph).rules, h.rules⟩

theorem readProject_ok (hdestination : Normalising destination)
    (h : readProject destination casefold value = .ok project) :
    ProjectOk destination casefold project := by
  simp only [readProject, bind_ok, pure_ok, mapError_ok] at h
  obtain ⟨entries, -, graphs, hgraphs, _, hrules, rfl⟩ := h
  refine ⟨?_, hrules⟩
  exact fieldOr_list_ok (fun h => (readGraph_ok hdestination h).1) hgraphs

theorem readProject_dump_iff (hdestination : Normalising destination) :
    readProject destination casefold (dumpProject project) = .ok project ↔
      ProjectOk destination casefold project ∧
        ∀ graph ∈ project.graphs, Storable graph.document := by
  have hmembers : members ["graphs"] (dumpProject project) =
      .ok [("graphs", dumpList dumpGraph project.graphs)] := by simp [dumpProject]
  have hgraphs : ProjectOk destination casefold project → ∀ r,
      readList (readGraph destination) (dumpList dumpGraph project.graphs) = .ok r ↔
        (∀ graph ∈ project.graphs, Storable graph.document) ∧ r = project.graphs := by
    intro hok r
    constructor
    · intro hread
      have hall : ∀ graph ∈ project.graphs, Storable graph.document := by
        intro graph hgraph
        obtain ⟨_, -, hone⟩ := Alignment.exists_right (mapM_ok hread)
          (List.mem_map_of_mem (f := dumpGraph) hgraph)
        exact ((readGraph_dump_iff (hok.graphs graph hgraph)).mp hone).1
      have hsame : readList (readGraph destination) (dumpList dumpGraph project.graphs) =
          .ok project.graphs := readList_dump (fun graph hgraph =>
        (readGraph_dump_iff (hok.graphs graph hgraph)).mpr ⟨hall graph hgraph, rfl⟩)
      exact ⟨hall, Except.ok.inj (hread.symm.trans hsame)⟩
    · rintro ⟨hall, rfl⟩
      exact readList_dump (fun graph hgraph =>
        (readGraph_dump_iff (hok.graphs graph hgraph)).mpr ⟨hall graph hgraph, rfl⟩)
  have hread : readProject destination casefold (dumpProject project) = .ok project ↔
      ∃ graphs, readList (readGraph destination) (dumpList dumpGraph project.graphs) = .ok graphs ∧
        checkProject casefold graphs = .ok () ∧ ⟨graphs⟩ = project := by
    simp only [readProject, hmembers, bind_ok, pure_ok, mapError_ok, fieldOr, Dict.get?,
      reduceIte, Except.ok.injEq, exists_eq_left']
    constructor
    · rintro ⟨graphs, hgraphs, _, hrules, hproject⟩
      exact ⟨graphs, hgraphs, hrules, hproject⟩
    · rintro ⟨graphs, hgraphs, hrules, hproject⟩
      exact ⟨graphs, hgraphs, (), hrules, hproject⟩
  constructor
  · intro h
    have hok := readProject_ok hdestination h
    obtain ⟨graphs, hgraphs', -, -⟩ := hread.mp h
    exact ⟨hok, ((hgraphs hok graphs).mp hgraphs').1⟩
  · rintro ⟨hok, hall⟩
    exact hread.mpr ⟨project.graphs, (hgraphs hok _).mpr ⟨hall, rfl⟩, hok.rules, rfl⟩

end Projects

section Frozen

mutual

/-- An array stands in the value. -/
def holdsArray : Json → Bool
  | .arr _ => true
  | .obj members => memberHoldsArray members
  | _ => false

def memberHoldsArray : List (String × Json) → Bool
  | [] => false
  | (_, value) :: rest => holdsArray value || memberHoldsArray rest

end

/-- The nodes, by Graph and node, whose configurations are held in the lists
of a JSON value. Validation freezes a configuration into tuples. -/
abbrev Thawed := List (String × String)

/-- A list equals no tuple: without arrays only a configuration held in lists
equals the frozen one. -/
def EqualFrozen (thawed : Thawed) (graphId : String) (nodes : List GraphNode) : Prop :=
  ∀ node ∈ nodes, (graphId, node.id) ∈ thawed → memberHoldsArray node.config = false

def ProjectFrozen (thawed : Thawed) (project : ProjectDocument) : Prop :=
  ∀ graph ∈ project.graphs, EqualFrozen thawed graph.id graph.document.nodes

/-- A document is reloadable when validating its dump from scratch gives an
equal one. -/
def Reloadable (destination : String → Option String) (casefold : String → String)
    (thawed : Thawed) (project : ProjectDocument) : Prop :=
  readProject destination casefold (dumpProject project) = .ok project ∧
    ProjectFrozen thawed project

end Frozen

end Grafy.Reloading
