import Grafy.Project
import Grafy.Fingerprints

/-!
What `model_dump(mode="json")` writes for the values of a Project document.
Every field is written, an absent value as null.
-/
namespace Grafy.Dumps

open CanonicalJson Fingerprints GraphDocuments Project

def dumpOption {A : Type*} (dump : A → Json) : Option A → Json
  | none => .null
  | some value => dump value

def dumpList {A : Type*} (dump : A → Json) (values : List A) : Json := .arr (values.map dump)

def dumpPoint (point : GraphPoint) : Json := .obj [("x", .float point.x), ("y", .float point.y)]

def dumpLayout (layout : GraphNodeLayout) : Json :=
  .obj [("width", dumpOption .float layout.width),
    ("body_height", dumpOption .float layout.bodyHeight),
    ("appendix_height", dumpOption .float layout.appendixHeight)]

def dumpPlug (plug : GraphInputPlug) : Json := .obj [("id", .str plug.id), ("port", .str plug.port)]

def dumpTypeKey (key : ArtifactTypeKey) : Json :=
  .obj [("id", .str key.id), ("schema_version", .int key.schemaVersion)]

def dumpBinding (binding : GraphArtifactTypeBinding) : Json :=
  .obj [("variable", .str binding.typeVariable),
    ("artifact_type", dumpTypeKey binding.artifactType)]

def dumpNode (node : GraphNode) : Json :=
  .obj [("kind", .str node.kind.text), ("id", .str node.id), ("operator_id", .str node.operatorId),
    ("operator_version", .int node.operatorVersion), ("config", .obj node.config),
    ("position", dumpPoint node.position), ("layout", dumpOption dumpLayout node.layout),
    ("input_plugs", dumpList dumpPlug node.inputPlugs),
    ("artifact_type_bindings", dumpList dumpBinding node.artifactTypeBindings)]

def dumpProjection (projection : GraphProjection) : Json :=
  .obj [("path", dumpList .str projection.path)]

def dumpConversion (step : GraphConversion) : Json :=
  .obj [("id", .str step.id), ("version", .int step.version)]

def dumpEdge (edge : GraphEdge) : Json :=
  .obj [("id", .str edge.id), ("enabled", .bool edge.enabled), ("from_node", .str edge.fromNode),
    ("from_port", .str edge.fromPort), ("to_node", .str edge.toNode), ("to_port", .str edge.toPort),
    ("to_plug", dumpOption .str edge.toPlug), ("collection_mode", .str edge.collectionMode.text),
    ("projection", dumpOption dumpProjection edge.projection),
    ("conversion_path", dumpList dumpConversion edge.conversionPath),
    ("route_offset", dumpOption dumpPoint edge.routeOffset)]

def dumpOrigin (origin : GraphOrigin) : Json :=
  .obj [("id", .str origin.id), ("to_node", .str origin.toNode), ("to_port", .str origin.toPort),
    ("to_plug", dumpOption .str origin.toPlug), ("value", modelDump origin.value),
    ("collection_mode", .str origin.collectionMode.text),
    ("conversion_path", dumpList dumpConversion origin.conversionPath)]

def dumpViewer (viewer : GraphPresentationViewer) : Json :=
  .obj [("id", .str viewer.id), ("position", dumpPoint viewer.position),
    ("layout", dumpOption dumpLayout viewer.layout), ("mode", dumpOption .str viewer.mode),
    ("artifact_ref", dumpOption modelDump viewer.artifactRef)]

def annotationKindText : AnnotationKind → String
  | .text => "text"
  | .rectangle => "rectangle"
  | .ellipse => "ellipse"

def dumpAnnotationCard (card : GraphPresentationAnnotation) : Json :=
  .obj [("id", .str card.id), ("kind", .str (annotationKindText card.kind)),
    ("position", dumpPoint card.position),
    ("layout", .obj [("width", .float card.width), ("height", .float card.height)]),
    ("text", .str card.text), ("color", .str card.color)]

def dumpLink (link : GraphPresentationLink) : Json :=
  .obj [("id", .str link.id), ("source_node_id", .str link.sourceNodeId),
    ("source_port_name", .str link.sourcePortName), ("target_viewer_id", .str link.targetViewerId),
    ("projection", dumpOption dumpProjection link.projection),
    ("route_offset", dumpOption dumpPoint link.routeOffset)]

def effectText : BindingEffect → String
  | .filter => "filter"
  | .highlight => "highlight"
  | .focus => "focus"

def dumpMapping (mapping : String × String) : Json :=
  .obj [("source_field", .str mapping.1), ("target_field", .str mapping.2)]

def dumpPresentationBinding (binding : GraphPresentationBinding) : Json :=
  .obj [("id", .str binding.id), ("source_viewer_id", .str binding.sourceViewerId),
    ("target_viewer_id", .str binding.targetViewerId),
    ("mappings", dumpList dumpMapping binding.mappings),
    ("effects", dumpList (fun effect => .str (effectText effect)) binding.effects),
    ("empty_selection", .str "show_all")]

def dumpPresentation (presentation : GraphPresentationDocument) : Json :=
  .obj [("viewers", dumpList dumpViewer presentation.viewers),
    ("links", dumpList dumpLink presentation.links),
    ("bindings", dumpList dumpPresentationBinding presentation.bindings),
    ("annotations", dumpList dumpAnnotationCard presentation.annotations)]

def dumpModel : AgentModel → Json
  | .deployment => .obj [("kind", .str "deployment")]
  | .custom endpoint model =>
    .obj [("kind", .str "custom"), ("endpoint", .str endpoint), ("model", .str model)]

def dumpAgent (agent : GraphAgent) : Json :=
  .obj [("id", .str agent.id), ("name", .str agent.name), ("instructions", .str agent.instructions),
    ("model", dumpModel agent.model), ("position", dumpPoint agent.position),
    ("width", .float agent.width), ("height", .float agent.height)]

def savedGraphSchemaVersion : ℕ := 7

def dumpDocument (document : GraphDocument) : Json :=
  .obj [("schema_version", .int savedGraphSchemaVersion),
    ("agents", dumpList dumpAgent document.agents), ("nodes", dumpList dumpNode document.nodes),
    ("edges", dumpList dumpEdge document.edges), ("origins", dumpList dumpOrigin document.origins),
    ("presentation", dumpPresentation document.presentation)]

def dumpGraph (graph : GraphDefinition) : Json :=
  .obj [("id", .str graph.id), ("name", .str graph.name), ("document", dumpDocument graph.document),
    ("refresh_generations",
      .obj (graph.refreshGenerations.map (fun entry => (entry.1, .int entry.2))))]

def dumpProject (project : ProjectDocument) : Json :=
  .obj [("graphs", dumpList dumpGraph project.graphs)]

end Grafy.Dumps
