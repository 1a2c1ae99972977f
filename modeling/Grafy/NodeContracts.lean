import Grafy.ConnectionRoutes
import Grafy.Instances

/-!
How the server resolves what a connection or an origin delivers to an input: the projection
and the conversions that the document asks for, against the artifact type that arrived, and
whether the input accepts the outcome.
-/
namespace Grafy.NodeContracts

open ConnectionRoutes GraphDocuments OrderedDict

/-- The Python types that conversions declare. -/
inductive RuntimeType
  | object
  | int
  | float
  | named (name : String)
deriving DecidableEq

def RuntimeType.text : RuntimeType → String
  | object => "<class 'object'>"
  | int => "<class 'int'>"
  | float => "<class 'float'>"
  | named name => "<class '" ++ name ++ "'>"

/-- A conversion of the deployment's catalogue; the canvas is sent all but its types. -/
structure ArtifactConversion extends ArtifactConversionSpec where
  sourceType : RuntimeType
  targetType : RuntimeType
deriving DecidableEq

/-- `conversion_runtime_types_are_compatible`. -/
def compatible (produced accepted : RuntimeType) : Bool :=
  produced = accepted || accepted = .object || (produced = .int && accepted = .float)

def maxArtifactConversionHops : ℕ := 8

inductive ArtifactTypeContract
  | concrete (key : ArtifactTypeKey)
  | typeVariable (name : String)

structure InputPortSpec where
  name : String
  accepts : ArtifactTypeContract
  alsoAccepts : List ArtifactTypeKey
  variadic : Bool
  instancePlugs : Bool
  required : Bool

def InputPortSpec.acceptedTypes (port : InputPortSpec) : List ArtifactTypeKey :=
  match port.accepts with
  | .typeVariable _ => []
  | .concrete key => key :: port.alsoAccepts

/-- One connection or origin before its transformations are resolved. -/
structure Incoming where
  toPort : String
  toPlug : Option String
  value : ArtifactOutputValue
  projectionPath : Option (List String)
  conversionPath : List GraphConversion
  mapDriven : Bool
  label : String
  sourceNodeId : String
  sourcePort : String
  targetNodeId : String

structure InputSlot where
  toPort : String
  toPlug : Option String
  value : ArtifactOutputValue
  projection : Option FieldProjection
  conversionPath : List ArtifactConversion
  mapDriven : Bool
  label : String
  sourceNodeId : String
  sourcePort : String
  targetNodeId : String

/-- `_value_key`. -/
def valueKey : ArtifactOutputValue → ArtifactTypeKey
  | .ref ref => ⟨ref.artifactType, ref.schemaVersion⟩
  | .sequence refs => ⟨refs.artifactType, refs.schemaVersion⟩

def typeLabel (key : ArtifactTypeKey) : String := key.id ++ "@" ++ toString key.schemaVersion

/-- How Python quotes a text in a message. -/
abbrev Quoting := String → String

section Slots

variable (repr : Quoting)

/-- `_projectable_artifact_types`. -/
def projectableArtifactTypes (artifactTypes : List ArtifactTypeSpec) :
    Dict ArtifactTypeKey ArtifactTypeSpec :=
  (artifactTypes.filter (fun spec => ¬ spec.fieldProjections.isEmpty)).foldl
    (fun d spec => d.set spec.key spec) []

/-- `_projection_for`. -/
def projectionFor (artifactTypes : List ArtifactTypeSpec) (path : List String)
    (artifactType : ArtifactTypeKey) : Option FieldProjection := do
  let spec ← (projectableArtifactTypes artifactTypes).get? artifactType
  spec.fieldProjections.find? (fun projection => projection.path = path)

/-- The loop of `_conversions_for`. -/
def convertSteps (catalogue : List ArtifactConversion) (label : String) :
    List GraphConversion → ℕ → Option ArtifactConversion → List ArtifactTypeKey →
      ArtifactTypeKey → Except String (List ArtifactConversion × ArtifactTypeKey)
  | [], _, _, _, source => .ok ([], source)
  | step :: rest, index, previous, seen, source =>
    match catalogue.find? (fun conversion => conversion.key = step) with
    | none => .error (label ++ " requests undeclared conversion " ++ repr step.id ++ "@" ++
        toString step.version ++ " at step " ++ toString (index + 1))
    | some conversion =>
      if conversion.sourceArtifactType ≠ source then
        .error (label ++ " applies conversion step " ++ toString (index + 1) ++ " " ++
          repr conversion.key.id ++ "@" ++ toString conversion.key.version ++
          ", which expects " ++ typeLabel conversion.sourceArtifactType ++ ", to " ++
          typeLabel source)
      else match previous.filter (fun p => ¬ compatible p.targetType conversion.sourceType) with
        | some p => .error (label ++ " conversion steps " ++ toString index ++ " and " ++
            toString (index + 1) ++ " have incompatible runtime types: " ++ p.targetType.text ++
            " does not match " ++ conversion.sourceType.text)
        | none =>
          if conversion.targetArtifactType ∈ seen then
            .error (label ++ " conversion path repeats artifact type " ++
              typeLabel conversion.targetArtifactType ++ " at step " ++ toString (index + 1))
          else do
            let (path, final) ← convertSteps catalogue label rest (index + 1) (some conversion)
              (conversion.targetArtifactType :: seen) conversion.targetArtifactType
            return (conversion :: path, final)

/-- `_conversions_for`. -/
def conversionsFor (catalogue : List ArtifactConversion) (item : Incoming)
    (artifactType : ArtifactTypeKey) : Except String (List ArtifactConversion × ArtifactTypeKey) :=
  if item.conversionPath.length > maxArtifactConversionHops then
    .error (item.label ++ " conversion path exceeds the maximum of " ++
      toString maxArtifactConversionHops ++ " steps")
  else convertSteps repr catalogue item.label item.conversionPath 0 none [artifactType] artifactType

/-- The projection of an incoming value, if it asks for one. -/
def resolveProjection (artifactTypes : List ArtifactTypeSpec) (item : Incoming)
    (artifactType : ArtifactTypeKey) : Except String (Option FieldProjection) :=
  match item.projectionPath with
  | none => .ok none
  | some path =>
    match projectionFor artifactTypes path artifactType with
    | none => .error (item.label ++ " requests undeclared projection " ++
        repr (".".intercalate path) ++ " on " ++ typeLabel artifactType)
    | some projection => .ok (some projection)

/-- `_slot`. -/
def slot (artifactTypes : List ArtifactTypeSpec) (catalogue : List ArtifactConversion)
    (item : Incoming) : Except String InputSlot := do
  let projection ← resolveProjection repr artifactTypes item (valueKey item.value)
  let artifactType := projection.elim (valueKey item.value) (fun p => p.targetArtifactType)
  let (conversionPath, _) ← conversionsFor repr catalogue item artifactType
  return ⟨item.toPort, item.toPlug, item.value, projection, conversionPath, item.mapDriven,
    item.label, item.sourceNodeId, item.sourcePort, item.targetNodeId⟩

/-- What a slot delivers, in `_check_target`. -/
def InputSlot.delivered (s : InputSlot) : ArtifactTypeKey :=
  match s.conversionPath.getLast? with
  | some conversion => conversion.targetArtifactType
  | none => s.projection.elim (valueKey s.value) (fun p => p.targetArtifactType)

/-- `_check_target`, as far as it is about artifact types. -/
def checkDelivered (s : InputSlot) (port : InputPortSpec) : Except String Unit :=
  if port.acceptedTypes.isEmpty then
    match port.accepts with
    | .typeVariable name => .error ("Node " ++ repr s.targetNodeId ++ " input " ++ repr s.toPort ++
        " retained unresolved artifact type variable " ++ repr name)
    | .concrete _ => .error ("Node " ++ repr s.targetNodeId ++ " input " ++ repr s.toPort ++
        " declares no accepted artifact types")
  else if s.delivered ∈ port.acceptedTypes then .ok ()
  else .error (s.label ++ " delivers " ++ typeLabel s.delivered ++ " to node " ++
    repr s.targetNodeId ++ " input " ++ repr s.toPort ++ ", which accepts " ++
    ", ".intercalate (port.acceptedTypes.map typeLabel))

end Slots

end Grafy.NodeContracts
