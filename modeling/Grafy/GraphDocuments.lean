import Grafy.CanonicalJson

/-!
The value types of one Graph's canvas: nodes, edges, origins, agents and
presentation, and the artifact references they hold. Identifiers are strings;
an integer field the source bounds below by zero or one is a natural number.
A UUID is carried by its canonical text. The document rules that relate these
values to each other are not part of the types.
-/
namespace Grafy.GraphDocuments

open CanonicalJson OrderedDict

instance : Inhabited FloatLiteral :=
  ⟨⟨['0', '.', '0'], by simp [isNumberChar], by simp [isFloatMark],
    ⟨_, _, rfl, by simp [startsNumber]⟩⟩⟩

instance : Inhabited Json := ⟨.null⟩

structure ArtifactTypeKey where
  id : String
  schemaVersion : Int
  deriving DecidableEq

structure ArtifactRef where
  artifactId : String
  artifactType : String
  schemaVersion : Int
  contentHash : Option String
  deriving DecidableEq

structure ArtifactRefSequence where
  sequenceId : String
  artifactType : String
  schemaVersion : Int
  itemRefs : List ArtifactRef
  ordered : Bool
  indexKey : String
  metadata : Dict String Json

inductive ArtifactOutputValue
  | ref (value : ArtifactRef)
  | sequence (value : ArtifactRefSequence)

structure GraphPoint where
  x : FloatLiteral
  y : FloatLiteral
  deriving Inhabited

structure GraphNodeLayout where
  width : Option FloatLiteral
  bodyHeight : Option FloatLiteral
  appendixHeight : Option FloatLiteral

structure GraphInputPlug where
  id : String
  port : String
  deriving DecidableEq

structure GraphArtifactTypeBinding where
  typeVariable : String
  artifactType : ArtifactTypeKey
  deriving DecidableEq

inductive GraphNodeKind
  | builtin
  | module
  | call
  deriving DecidableEq, Inhabited

def GraphNodeKind.text : GraphNodeKind → String
  | .builtin => "builtin"
  | .module => "module"
  | .call => "call"

structure GraphNode where
  kind : GraphNodeKind
  id : String
  operatorId : String
  operatorVersion : ℕ
  config : Dict String Json
  position : GraphPoint
  layout : Option GraphNodeLayout
  inputPlugs : List GraphInputPlug
  artifactTypeBindings : List GraphArtifactTypeBinding
  deriving Inhabited

structure GraphProjection where
  path : List String
  deriving DecidableEq

structure GraphConversion where
  id : String
  version : ℕ
  deriving DecidableEq

inductive CollectionMode
  | direct
  | map
  deriving DecidableEq

def CollectionMode.text : CollectionMode → String
  | .direct => "direct"
  | .map => "map"

structure GraphEdge where
  id : String
  enabled : Bool
  fromNode : String
  fromPort : String
  toNode : String
  toPort : String
  toPlug : Option String
  collectionMode : CollectionMode
  projection : Option GraphProjection
  conversionPath : List GraphConversion
  routeOffset : Option GraphPoint

structure GraphOrigin where
  id : String
  toNode : String
  toPort : String
  toPlug : Option String
  value : ArtifactOutputValue
  collectionMode : CollectionMode
  conversionPath : List GraphConversion

/-- One satisfiable input position of an edge or origin. -/
def graphInputSlot (toNode toPort : String) (toPlug : Option String) : String × String :=
  (toNode, toPlug.getD toPort)

structure GraphPresentationViewer where
  id : String
  position : GraphPoint
  layout : Option GraphNodeLayout
  mode : Option String
  artifactRef : Option ArtifactOutputValue

inductive AnnotationKind
  | text
  | rectangle
  | ellipse
  deriving DecidableEq

structure GraphPresentationAnnotation where
  id : String
  kind : AnnotationKind
  position : GraphPoint
  width : FloatLiteral
  height : FloatLiteral
  text : String
  color : String

structure GraphPresentationLink where
  id : String
  sourceNodeId : String
  sourcePortName : String
  targetViewerId : String
  projection : Option GraphProjection
  routeOffset : Option GraphPoint

inductive BindingEffect
  | filter
  | highlight
  | focus
  deriving DecidableEq

structure GraphPresentationBinding where
  id : String
  sourceViewerId : String
  targetViewerId : String
  mappings : List (String × String)
  effects : List BindingEffect

structure GraphPresentationDocument where
  viewers : List GraphPresentationViewer
  links : List GraphPresentationLink
  bindings : List GraphPresentationBinding
  annotations : List GraphPresentationAnnotation

inductive AgentModel
  | deployment
  | custom (endpoint model : String)
  deriving DecidableEq

structure GraphAgent where
  id : String
  name : String
  instructions : String
  model : AgentModel
  position : GraphPoint
  width : FloatLiteral
  height : FloatLiteral

structure GraphDocument where
  agents : List GraphAgent
  nodes : List GraphNode
  edges : List GraphEdge
  origins : List GraphOrigin
  presentation : GraphPresentationDocument

end Grafy.GraphDocuments
