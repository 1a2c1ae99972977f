import Grafy.Commands

/-!
What a batch of commands is signed over. The envelope names the Workspace, the
Project, the actor, the room epoch and the sequence the client has read, and
carries the commands as `model_dump(mode="json")` writes them, in the order
given. The digest is a keyed hash of the envelope's canonical text.
-/
namespace Grafy.CommandEnvelopes

open CanonicalJson Commands Dumps

abbrev Uuid := String

/-- A command is written with its kind among its fields. -/
def tagged (kind : String) (fields : List (String × Json)) : Json :=
  .obj (("kind", .str kind) :: fields)

def dumpTexts (texts : List String) : Json := dumpList .str texts

/-- The three kinds of position differ in the name of the id's field. -/
def dumpMoves (idField : String) (positions : List Move) : Json :=
  dumpList (fun move =>
    .obj [(idField, .str move.id), ("x", .float move.x), ("y", .float move.y)]) positions

def dumpGraphCommand : GraphCommand → Json
  | .addAgent agent => tagged "add_agent" [("agent", dumpAgent agent)]
  | .configureAgent agent => tagged "configure_agent" [("agent", dumpAgent agent)]
  | .removeAgent agentId => tagged "remove_agent" [("agent_id", .str agentId)]
  | .addNode node => tagged "add_node" [("node", dumpNode node)]
  | .duplicateNode sourceNodeId node =>
    tagged "duplicate_node" [("source_node_id", .str sourceNodeId), ("node", dumpNode node)]
  | .removeNodes nodeIds => tagged "remove_nodes" [("node_ids", dumpTexts nodeIds)]
  | .moveNodes positions => tagged "move_nodes" [("positions", dumpMoves "node_id" positions)]
  | .updateNodeConfiguration nodeId field value expectedValue =>
    tagged "update_node_configuration" [("node_id", .str nodeId), ("field", .str field),
      ("value", value), ("expected_value", expectedValue)]
  | .updateNodeLayout nodeId layout expectedLayout =>
    tagged "update_node_layout" [("node_id", .str nodeId),
      ("layout", dumpOption dumpLayout layout),
      ("expected_layout", dumpOption dumpLayout expectedLayout)]
  | .setNodeInputPlugs nodeId inputPlugs expectedPlugIds =>
    tagged "set_node_input_plugs" [("node_id", .str nodeId),
      ("input_plugs", dumpList dumpPlug inputPlugs),
      ("expected_plug_ids", dumpTexts expectedPlugIds)]
  | .updateNodeConfigurationAndInputPlugs nodeId config inputPlugs expectedConfig
      expectedPlugIds =>
    tagged "update_node_configuration_and_input_plugs" [("node_id", .str nodeId),
      ("config", .obj config), ("input_plugs", dumpList dumpPlug inputPlugs),
      ("expected_config", .obj expectedConfig),
      ("expected_plug_ids", dumpTexts expectedPlugIds)]
  | .setNodeArtifactTypeBinding nodeId binding expectedBinding =>
    tagged "set_node_artifact_type_binding" [("node_id", .str nodeId),
      ("binding", dumpBinding binding),
      ("expected_binding", dumpOption dumpBinding expectedBinding)]
  | .clearNodeArtifactTypeBinding nodeId typeVariable expectedBinding =>
    tagged "clear_node_artifact_type_binding" [("node_id", .str nodeId),
      ("variable", .str typeVariable), ("expected_binding", dumpBinding expectedBinding)]
  | .addEdge edge => tagged "add_edge" [("edge", dumpEdge edge)]
  | .updateEdge edge expectedEdge =>
    tagged "update_edge" [("edge", dumpEdge edge), ("expected_edge", dumpEdge expectedEdge)]
  | .removeEdges edgeIds => tagged "remove_edges" [("edge_ids", dumpTexts edgeIds)]
  | .addOrigin origin => tagged "add_origin" [("origin", dumpOrigin origin)]
  | .updateOrigin origin expectedOrigin =>
    tagged "update_origin" [("origin", dumpOrigin origin),
      ("expected_origin", dumpOrigin expectedOrigin)]
  | .removeOrigins originIds => tagged "remove_origins" [("origin_ids", dumpTexts originIds)]
  | .replaceDocument document => tagged "replace_document" [("document", dumpDocument document)]
  | .replacePresentation presentation =>
    tagged "replace_presentation" [("presentation", dumpPresentation presentation)]
  | .moveArtifactViewers positions =>
    tagged "move_artifact_viewers" [("positions", dumpMoves "viewer_id" positions)]
  | .moveAnnotations positions =>
    tagged "move_annotations" [("positions", dumpMoves "annotation_id" positions)]

def dumpProjectCommand : ProjectCommand → Json
  | .renameProject name expectedName =>
    tagged "rename_project" [("name", .str name), ("expected_name", .str expectedName)]
  | .addGraph graphId name document =>
    tagged "add_graph" [("graph_id", .str graphId), ("name", .str name),
      ("document", dumpDocument document)]
  | .renameGraph graphId name expectedName =>
    tagged "rename_graph" [("graph_id", .str graphId), ("name", .str name),
      ("expected_name", .str expectedName)]
  | .removeGraph graphId => tagged "remove_graph" [("graph_id", .str graphId)]
  | .refreshNode graphId nodeId expectedGeneration =>
    tagged "refresh_node" [("graph_id", .str graphId), ("node_id", .str nodeId),
      ("expected_generation", .int expectedGeneration)]
  | .addCallNode graphId nodeId calleeGraphId position =>
    tagged "add_call_node" [("graph_id", .str graphId), ("node_id", .str nodeId),
      ("callee_graph_id", .str calleeGraphId), ("position", dumpPoint position)]
  | .inGraph graphId command =>
    tagged "in_graph" [("graph_id", .str graphId), ("command", dumpGraphCommand command)]

def envelope (workspaceId projectId actorUserId roomEpoch : Uuid) (observedSequence : ℤ)
    (commands : List ProjectCommand) : Json :=
  .obj [("actor_user_id", .str actorUserId), ("commands", dumpList dumpProjectCommand commands),
    ("observed_sequence", .int observedSequence), ("project_id", .str projectId),
    ("room_epoch", .str roomEpoch), ("workspace_id", .str workspaceId)]

/-- The keyed hash is a parameter. The key's version is no part of what is
signed. -/
def commandHmacDigest (hmac : String → String) (workspaceId projectId actorUserId roomEpoch : Uuid)
    (observedSequence : ℤ) (commands : List ProjectCommand) : String :=
  hmac (canonical (envelope workspaceId projectId actorUserId roomEpoch observedSequence commands))

end Grafy.CommandEnvelopes
