import Grafy.Dumps
import Grafy.Texts

/-!
Validating a Project document from JSON. Each model reads its fields, applies
their constraints and then its own rules; the first refusal is the error. A
number, a truth value or a UUID is read from the form a dump has: the further
spellings pydantic would coerce lead to the same values. The normalisation of
an endpoint URL is a parameter, as is the case folding of Graph names.
-/
namespace Grafy.Validation

open CanonicalJson DocumentRules Dumps Fingerprints GraphDocuments Loops OrderedDict Project Texts

/-- Why a value is refused: its JSON form, a field constraint, or one of the
rules the models state themselves. -/
inductive ValidationError
  | wrongType
  | missing (field : String)
  | extra (field : String)
  | constraint
  | layoutWithoutDimension
  | configNumberNotFinite
  | boundTypeId
  | boundTypeVersion
  | bindingVariablesNotUnique
  | sequenceItemType
  | idPrefix (required : String)
  | annotationText (id : String)
  | bindingToItself
  | effectsNotUnique
  | endpoint
  | presentation (error : PresentationError)
  | structure (error : StructureError)
  | graph (error : GraphError)
  | project (error : ProjectError)
  deriving DecidableEq

abbrev Validated := Except ValidationError

section Readers

variable {A : Type}

/-- The members of an object that has no others than these. -/
def members (allowed : List String) : Json → Validated (Dict String Json)
  | .obj entries =>
    match (Dict.keys entries).find? (fun key => key ∉ allowed) with
    | some key => .error (.extra key)
    | none => .ok entries
  | _ => .error .wrongType

def field (entries : Dict String Json) (name : String) (read : Json → Validated A) : Validated A :=
  match entries.get? name with
  | none => .error (.missing name)
  | some value => read value

def fieldOr (entries : Dict String Json) (name : String) (absent : A) (read : Json → Validated A) :
    Validated A :=
  match entries.get? name with
  | none => .ok absent
  | some value => read value

def readText : Json → Validated String
  | .str text => .ok text
  | _ => .error .wrongType

/-- A trimmed text of one to so many characters. -/
def readTrimmed (longest : ℕ) (value : Json) : Validated String := do
  let text ← readText value
  require (1 ≤ (trim text).length ∧ (trim text).length ≤ longest) .constraint
  return trim text

def readIdentifier : Json → Validated String := readTrimmed 255

def graphNameMaxLength : ℕ := 160

def readGraphName : Json → Validated String := readTrimmed graphNameMaxLength

def readBounded (longest : ℕ) (value : Json) : Validated String := do
  let text ← readText value
  require (text.length ≤ longest) .constraint
  return text

def readBool : Json → Validated Bool
  | .bool value => .ok value
  | _ => .error .wrongType

def readInt : Json → Validated Int
  | .int value => .ok value
  | _ => .error .wrongType

def readAtLeast (least : ℕ) (value : Json) : Validated ℕ := do
  let number ← readInt value
  require ((least : Int) ≤ number) .constraint
  return number.toNat

def readFloat : Json → Validated FloatLiteral
  | .float value => if value.isFinite then .ok value else .error .constraint
  | _ => .error .wrongType

def readOption (read : Json → Validated A) : Json → Validated (Option A)
  | .null => .ok none
  | value => do
    let result ← read value
    return some result

def readList (read : Json → Validated A) : Json → Validated (List A)
  | .arr items => items.mapM read
  | _ => .error .wrongType

def readChoice (choices : List A) (text : A → String) (value : Json) : Validated A := do
  let name ← readText value
  match choices.find? (fun choice => text choice = name) with
  | none => .error .constraint
  | some choice => .ok choice

end Readers

section Numbers

def digitsValue (digits : List Char) : ℕ := digits.foldl (fun n c => 10 * n + (c.toNat - 48)) 0

def signedValue : List Char → Int
  | '-' :: digits => -digitsValue digits
  | '+' :: digits => digitsValue digits
  | digits => digitsValue digits

/-- The number a decimal text stands for. A float is at least a bound that is
itself a float exactly when the decimal of its repr is. -/
def decimalValue (text : List Char) : ℚ :=
  let unsigned := if text.head? = some '-' then text.drop 1 else text
  let mantissa := unsigned.takeWhile (· ≠ 'e')
  let exponent := signedValue ((unsigned.dropWhile (· ≠ 'e')).drop 1)
  let whole := mantissa.takeWhile (· ≠ '.')
  let fraction := (mantissa.dropWhile (· ≠ '.')).drop 1
  let magnitude : ℚ := digitsValue (whole ++ fraction) * 10 ^ (exponent - fraction.length)
  if text.head? = some '-' then -magnitude else magnitude

def graphLayoutDimensionMax : ℕ := 16384

def InRange (least : ℕ) (value : FloatLiteral) : Prop :=
  (least : ℚ) ≤ decimalValue value.text ∧ decimalValue value.text ≤ (graphLayoutDimensionMax : ℚ)

instance (least : ℕ) (value : FloatLiteral) : Decidable (InRange least value) :=
  inferInstanceAs (Decidable (_ ∧ _))

def readDimension (least : ℕ) (value : Json) : Validated FloatLiteral := do
  let number ← readFloat value
  require (InRange least number) .constraint
  return number

end Numbers

section Artifacts

/-- Lower-case hexadecimal digits in groups of 8, 4, 4, 4 and 12. -/
def isUuid (text : String) : Bool :=
  let isHex (c : Char) : Bool := c.isDigit || ('a' ≤ c && c ≤ 'f')
  text.length = 36 && text.toList.zipIdx.all (fun entry =>
    if entry.2 ∈ [8, 13, 18, 23] then entry.1 = '-' else isHex entry.1)

def readUuid (value : Json) : Validated String := do
  let text ← readText value
  require (isUuid text) .constraint
  return text

/-- An artifact reference ignores members it does not know. -/
def readRef : Json → Validated ArtifactRef
  | .obj entries => do
    let artifactId ← field entries "artifact_id" readUuid
    let artifactType ← field entries "artifact_type" readText
    let schemaVersion ← field entries "schema_version" readInt
    let contentHash ← fieldOr entries "content_hash" none (readOption readText)
    return ⟨artifactId, artifactType, schemaVersion, contentHash⟩
  | _ => .error .wrongType

def readObject : Json → Validated (Dict String Json)
  | .obj entries => .ok entries
  | _ => .error .wrongType

/-- The generated id of a sequence without one is left out: a stored sequence
has its id. -/
def readSequence : Json → Validated ArtifactRefSequence
  | .obj entries => do
    let sequenceId ← field entries "sequence_id" readUuid
    let artifactType ← field entries "artifact_type" readText
    let schemaVersion ← field entries "schema_version" readInt
    let itemRefs ← field entries "item_refs" (readList readRef)
    let ordered ← fieldOr entries "ordered" true readBool
    let indexKey ← fieldOr entries "index_key" "order_index" readText
    let metadata ← fieldOr entries "metadata" [] readObject
    require (∀ item ∈ itemRefs, item.artifactType = artifactType ∧
      item.schemaVersion = schemaVersion)
      .sequenceItemType
    return ⟨sequenceId, artifactType, schemaVersion, itemRefs, ordered, indexKey, metadata⟩
  | _ => .error .wrongType

def readOutputValue (value : Json) : Validated ArtifactOutputValue :=
  match readRef value with
  | .ok ref => .ok (.ref ref)
  | .error _ => (readSequence value).map .sequence

def readTypeKey (value : Json) : Validated ArtifactTypeKey := do
  let entries ← members ["id", "schema_version"] value
  let id ← field entries "id" readText
  let schemaVersion ← field entries "schema_version" readInt
  return ⟨id, schemaVersion⟩

end Artifacts

section Nodes

def readPoint (value : Json) : Validated GraphPoint := do
  let entries ← members ["x", "y"] value
  let x ← field entries "x" readFloat
  let y ← field entries "y" readFloat
  return ⟨x, y⟩

def readLayout (value : Json) : Validated GraphNodeLayout := do
  let entries ← members ["width", "body_height", "appendix_height"] value
  let width ← fieldOr entries "width" none (readOption (readDimension 260))
  let bodyHeight ← fieldOr entries "body_height" none (readOption (readDimension 96))
  let appendixHeight ← fieldOr entries "appendix_height" none (readOption (readDimension 120))
  require (width.isSome ∨ bodyHeight.isSome ∨ appendixHeight.isSome) .layoutWithoutDimension
  return ⟨width, bodyHeight, appendixHeight⟩

def readPlug (value : Json) : Validated GraphInputPlug := do
  let entries ← members ["id", "port"] value
  let id ← field entries "id" readIdentifier
  let port ← field entries "port" readIdentifier
  return ⟨id, port⟩

def readBinding (value : Json) : Validated GraphArtifactTypeBinding := do
  let entries ← members ["variable", "artifact_type"] value
  let typeVariable ← field entries "variable" readIdentifier
  let artifactType ← field entries "artifact_type" readTypeKey
  require (strip artifactType.id ≠ "" ∧ artifactType.id = strip artifactType.id ∧
    artifactType.id.length ≤ 255) .boundTypeId
  require (1 ≤ artifactType.schemaVersion) .boundTypeVersion
  return ⟨typeVariable, artifactType⟩

mutual

/-- Whether `_freeze_json` takes the value: every number in it is finite. -/
def freezable : Json → Bool
  | .float number => number.isFinite
  | .arr items => freezableItems items
  | .obj entries => freezableMembers entries
  | _ => true

def freezableItems : List Json → Bool
  | [] => true
  | value :: rest => freezable value && freezableItems rest

def freezableMembers : List (String × Json) → Bool
  | [] => true
  | (_, value) :: rest => freezable value && freezableMembers rest

end

def readConfig : Json → Validated (Dict String Json)
  | .obj entries => if freezable (.obj entries) then .ok entries else .error .configNumberNotFinite
  | _ => .error .wrongType

def readNode (value : Json) : Validated GraphNode := do
  let entries ← members ["kind", "id", "operator_id", "operator_version", "config", "position",
    "layout", "input_plugs", "artifact_type_bindings"] value
  let kind ← field entries "kind" (readChoice [.builtin, .module, .call] GraphNodeKind.text)
  let id ← field entries "id" readIdentifier
  let operatorId ← field entries "operator_id" readIdentifier
  let operatorVersion ← field entries "operator_version" (readAtLeast 1)
  let config ← fieldOr entries "config" [] readConfig
  let position ← field entries "position" readPoint
  let layout ← fieldOr entries "layout" none (readOption readLayout)
  let inputPlugs ← fieldOr entries "input_plugs" [] (readList readPlug)
  let artifactTypeBindings ← fieldOr entries "artifact_type_bindings" [] (readList readBinding)
  require (artifactTypeBindings.map GraphArtifactTypeBinding.typeVariable).Nodup
    .bindingVariablesNotUnique
  return ⟨kind, id, operatorId, operatorVersion, config, position, layout, inputPlugs,
    artifactTypeBindings⟩

end Nodes

section Edges

def maxArtifactConversionHops : ℕ := 8

def readProjection (value : Json) : Validated GraphProjection := do
  let entries ← members ["path"] value
  let path ← field entries "path" (readList readIdentifier)
  require (path ≠ []) .constraint
  return ⟨path⟩

def readConversion (value : Json) : Validated GraphConversion := do
  let entries ← members ["id", "version"] value
  let id ← field entries "id" readIdentifier
  let version ← field entries "version" (readAtLeast 1)
  return ⟨id, version⟩

def readConversionPath (value : Json) : Validated (List GraphConversion) := do
  let path ← readList readConversion value
  require (path.length ≤ maxArtifactConversionHops) .constraint
  return path

def readMode : Json → Validated CollectionMode := readChoice [.direct, .map] CollectionMode.text

def readEdge (value : Json) : Validated GraphEdge := do
  let entries ← members ["id", "enabled", "from_node", "from_port", "to_node", "to_port", "to_plug",
    "collection_mode", "projection", "conversion_path", "route_offset"] value
  let id ← field entries "id" readIdentifier
  let enabled ← fieldOr entries "enabled" true readBool
  let fromNode ← field entries "from_node" readIdentifier
  let fromPort ← field entries "from_port" readIdentifier
  let toNode ← field entries "to_node" readIdentifier
  let toPort ← field entries "to_port" readIdentifier
  let toPlug ← fieldOr entries "to_plug" none (readOption readIdentifier)
  let collectionMode ← fieldOr entries "collection_mode" .direct readMode
  let projection ← fieldOr entries "projection" none (readOption readProjection)
  let conversionPath ← fieldOr entries "conversion_path" [] readConversionPath
  let routeOffset ← fieldOr entries "route_offset" none (readOption readPoint)
  return ⟨id, enabled, fromNode, fromPort, toNode, toPort, toPlug, collectionMode, projection,
    conversionPath, routeOffset⟩

def readOrigin (value : Json) : Validated GraphOrigin := do
  let entries ← members ["id", "to_node", "to_port", "to_plug", "value", "collection_mode",
    "conversion_path"] value
  let id ← field entries "id" readIdentifier
  let toNode ← field entries "to_node" readIdentifier
  let toPort ← field entries "to_port" readIdentifier
  let toPlug ← fieldOr entries "to_plug" none (readOption readIdentifier)
  let held ← field entries "value" readOutputValue
  let collectionMode ← fieldOr entries "collection_mode" .direct readMode
  let conversionPath ← fieldOr entries "conversion_path" [] readConversionPath
  return ⟨id, toNode, toPort, toPlug, held, collectionMode, conversionPath⟩

end Edges

section Presentation

def readPrefixed (required : String) (value : Json) : Validated String := do
  let id ← readIdentifier value
  require (required.toList.isPrefixOf id.toList) (.idPrefix required)
  return id

def readViewer (value : Json) : Validated GraphPresentationViewer := do
  let entries ← members ["id", "position", "layout", "mode", "artifact_ref"] value
  let id ← field entries "id" (readPrefixed "artifact-viewer-")
  let position ← field entries "position" readPoint
  let layout ← fieldOr entries "layout" none (readOption readLayout)
  let mode ← fieldOr entries "mode" none (readOption (readBounded 255))
  let artifactRef ← fieldOr entries "artifact_ref" none (readOption readOutputValue)
  return ⟨id, position, layout, mode, artifactRef⟩

def defaultAnnotationColor : String := "#475569"

/-- `^#[0-9A-Fa-f]{6}$` on a text already in upper case. -/
def isColor (text : String) : Bool :=
  match text.toList with
  | '#' :: digits => digits.length = 6 && digits.all (fun c => c.isDigit || ('A' ≤ c && c ≤ 'F'))
  | _ => false

/-- Of the upper case only what concerns the digits of a colour; the ligatures
that also become such digits lead to the same colours. -/
def upperHex (c : Char) : Char := if 'a' ≤ c && c ≤ 'f' then Char.ofNat (c.toNat - 32) else c

def readColor (value : Json) : Validated String := do
  let text ← readText value
  let upper := String.ofList (text.toList.map upperHex)
  require (isColor upper) .constraint
  return upper

def readAnnotationLayout (value : Json) : Validated (FloatLiteral × FloatLiteral) := do
  let entries ← members ["width", "height"] value
  let width ← field entries "width" (readDimension 24)
  let height ← field entries "height" (readDimension 24)
  return (width, height)

def readAnnotationCard (value : Json) : Validated GraphPresentationAnnotation := do
  let entries ← members ["id", "kind", "position", "layout", "text", "color"] value
  let id ← field entries "id" (readPrefixed "annotation-")
  let kind ← field entries "kind" (readChoice [.text, .rectangle, .ellipse] annotationKindText)
  let position ← field entries "position" readPoint
  let layout ← field entries "layout" readAnnotationLayout
  let text ← fieldOr entries "text" "" (readBounded 8000)
  let color ← fieldOr entries "color" defaultAnnotationColor readColor
  require (kind = .text ∨ strip text = "") (.annotationText id)
  return ⟨id, kind, position, layout.1, layout.2, text, color⟩

def readLink (value : Json) : Validated GraphPresentationLink := do
  let entries ← members ["id", "source_node_id", "source_port_name", "target_viewer_id",
    "projection", "route_offset"] value
  let id ← field entries "id" (readPrefixed "artifact-viewer-edge-")
  let sourceNodeId ← field entries "source_node_id" readIdentifier
  let sourcePortName ← field entries "source_port_name" readIdentifier
  let targetViewerId ← field entries "target_viewer_id" readIdentifier
  let projection ← fieldOr entries "projection" none (readOption readProjection)
  let routeOffset ← fieldOr entries "route_offset" none (readOption readPoint)
  return ⟨id, sourceNodeId, sourcePortName, targetViewerId, projection, routeOffset⟩

def readMapping (value : Json) : Validated (String × String) := do
  let entries ← members ["source_field", "target_field"] value
  let sourceField ← field entries "source_field" readIdentifier
  let targetField ← field entries "target_field" readIdentifier
  return (sourceField, targetField)

def readMappings (value : Json) : Validated (List (String × String)) := do
  let mappings ← readList readMapping value
  require (mappings.length ≤ 8) .constraint
  return mappings

def readEffects (value : Json) : Validated (List BindingEffect) := do
  let effects ← readList (readChoice [.filter, .highlight, .focus] effectText) value
  require (1 ≤ effects.length ∧ effects.length ≤ 3) .constraint
  return effects

def readShowAll (value : Json) : Validated Unit := do
  let text ← readText value
  require (text = "show_all") .constraint

def readPresentationBinding (value : Json) : Validated GraphPresentationBinding := do
  let entries ← members ["id", "source_viewer_id", "target_viewer_id", "mappings", "effects",
    "empty_selection"] value
  let id ← field entries "id" (readPrefixed "artifact-viewer-binding-")
  let sourceViewerId ← field entries "source_viewer_id" readIdentifier
  let targetViewerId ← field entries "target_viewer_id" readIdentifier
  let mappings ← field entries "mappings" readMappings
  let effects ← field entries "effects" readEffects
  let _ ← fieldOr entries "empty_selection" () readShowAll
  require (sourceViewerId ≠ targetViewerId) .bindingToItself
  require effects.Nodup .effectsNotUnique
  return ⟨id, sourceViewerId, targetViewerId, mappings, effects⟩

def readPresentation (value : Json) : Validated GraphPresentationDocument := do
  let entries ← members ["viewers", "links", "bindings", "annotations"] value
  let viewers ← fieldOr entries "viewers" [] (readList readViewer)
  let links ← fieldOr entries "links" [] (readList readLink)
  let bindings ← fieldOr entries "bindings" [] (readList readPresentationBinding)
  let annotations ← fieldOr entries "annotations" [] (readList readAnnotationCard)
  let presentation : GraphPresentationDocument := ⟨viewers, links, bindings, annotations⟩
  (validatePresentation presentation).mapError .presentation
  return presentation

end Presentation

section Documents

variable (destination : String → Option String)

/-- The length is checked on the text given, the normalised one is kept. -/
def readEndpoint (value : Json) : Validated String := do
  let text ← readText value
  require (1 ≤ text.length ∧ text.length ≤ 2048) .constraint
  match destination text with
  | none => .error .endpoint
  | some url => .ok url

def readModel : Json → Validated AgentModel
  | .obj entries => do
    let kind ← field entries "kind" readText
    if kind = "deployment" then do
      let _ ← members ["kind"] (.obj entries)
      return .deployment
    else if kind = "custom" then do
      let _ ← members ["kind", "endpoint", "model"] (.obj entries)
      let endpoint ← field entries "endpoint" (readEndpoint destination)
      let model ← field entries "model" readIdentifier
      return .custom endpoint model
    else .error .constraint
  | _ => .error .wrongType

def zero : FloatLiteral := default

def defaultAgentWidth : FloatLiteral :=
  ⟨['3', '6', '0', '.', '0'], by simp [isNumberChar], by simp [isFloatMark], ⟨_, _, rfl, by decide⟩⟩

def defaultAgentHeight : FloatLiteral :=
  ⟨['4', '8', '0', '.', '0'], by simp [isNumberChar], by simp [isFloatMark], ⟨_, _, rfl, by decide⟩⟩

def readAgent (value : Json) : Validated GraphAgent := do
  let entries ← members ["id", "name", "instructions", "model", "position", "width", "height"] value
  let id ← field entries "id" readIdentifier
  let name ← field entries "name" readIdentifier
  let instructions ← fieldOr entries "instructions" "" (readBounded 100000)
  let model ← fieldOr entries "model" .deployment (readModel destination)
  let position ← fieldOr entries "position" ⟨zero, zero⟩ readPoint
  let width ← fieldOr entries "width" defaultAgentWidth (readDimension 260)
  let height ← fieldOr entries "height" defaultAgentHeight (readDimension 96)
  return ⟨id, name, instructions, model, position, width, height⟩

def readSchemaVersion (value : Json) : Validated Unit := do
  let version ← readInt value
  require (version = savedGraphSchemaVersion) .constraint

/-- Agents that are models already are not validated again. -/
def readAgents (given : Option (List GraphAgent)) (entries : Dict String Json) :
    Validated (List GraphAgent) :=
  given.elim (fieldOr entries "agents" [] (readList (readAgent destination))) .ok

/-- `GraphDocument.model_validate` on members whose agents may be given. -/
def readDocumentWith (given : Option (List GraphAgent)) (value : Json) : Validated GraphDocument :=
    do
  let entries ← members ["schema_version", "agents", "nodes", "edges", "origins",
    "presentation"] value
  let _ ← fieldOr entries "schema_version" () readSchemaVersion
  let agents ← readAgents destination given entries
  let nodes ← fieldOr entries "nodes" [] (readList readNode)
  let edges ← fieldOr entries "edges" [] (readList readEdge)
  let origins ← fieldOr entries "origins" [] (readList readOrigin)
  let presentation ← fieldOr entries "presentation" ⟨[], [], [], []⟩ readPresentation
  let document : GraphDocument := ⟨agents, nodes, edges, origins, presentation⟩
  (validateStructure document).mapError .structure
  return document

def readDocument (value : Json) : Validated GraphDocument := readDocumentWith destination none value

def readGeneration (entry : String × Json) : Validated (String × ℕ) := do
  let generation ← readAtLeast 0 entry.2
  return (entry.1, generation)

def readGenerations : Json → Validated (Dict String ℕ)
  | .obj entries => entries.mapM readGeneration
  | _ => .error .wrongType

def readGraph (value : Json) : Validated GraphDefinition := do
  let entries ← members ["id", "name", "document", "refresh_generations"] value
  let id ← field entries "id" readIdentifier
  let name ← field entries "name" readGraphName
  let document ← field entries "document" (readDocument destination)
  let refreshGenerations ← fieldOr entries "refresh_generations" [] readGenerations
  let graph : GraphDefinition := ⟨id, name, document, refreshGenerations⟩
  (validateGraph graph).mapError .graph
  return graph

/-- `ProjectDocument.model_validate`. -/
def readProject (casefold : String → String) (value : Json) : Validated ProjectDocument := do
  let entries ← members ["graphs"] value
  let graphs ← fieldOr entries "graphs" [] (readList (readGraph destination))
  (checkProject casefold graphs).mapError .project
  return ⟨graphs⟩

end Documents

end Grafy.Validation
