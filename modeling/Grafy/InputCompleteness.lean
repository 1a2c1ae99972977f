import Grafy.NodeContracts
import Grafy.Expansion

/-!
Whether a node's inputs are fed: as the canvas counts before it lets a run through, and as
the runner counts when it binds an instance to the results that arrived.
-/
namespace Grafy.InputCompleteness

open ConnectionRoutes Fingerprints GraphDocuments Instances NodeContracts OrderedDict

section Canvas

/-- What `decodeHandleId` reads from a target handle, as far as it is asked here. -/
structure TargetHandle where
  portName : String
  plugId : Option String

structure WorkflowEdge where
  source : String
  target : String
  targetHandle : Option TargetHandle
  /-- `data.enabled`, where the edge says so. -/
  enabled : Option Bool

structure WorkflowNode where
  id : String
  operatorId : String
  title : String
  /-- Whether the node's compatibility status is supported. -/
  supported : Bool
  inputs : List InputPortSpec
  inputPlugs : List GraphInputPlug

structure MissingRequiredInput where
  nodeId : String
  nodeTitle : String
  portName : String

def collectionOperatorId : String := "sequence.collect"

def isCollectionNode (node : WorkflowNode) : Bool :=
  node.supported && node.operatorId = collectionOperatorId

/-- `portHasInstancePlugs`; every port here is an input. -/
def portHasInstancePlugs (port : InputPortSpec) : Bool := port.instancePlugs

def inputPlugsForPort (inputPlugs : List GraphInputPlug) (portName : String) :
    List GraphInputPlug :=
  inputPlugs.filter (fun plug => plug.port = portName)

def originSatisfiesSlot (origin : GraphOrigin) (nodeId portName : String)
    (plugId : Option String) : Bool :=
  origin.toNode = nodeId && origin.toPort = portName && origin.toPlug = plugId

variable (edges : List WorkflowEdge) (origins : List GraphOrigin) (node : WorkflowNode)
  (port : InputPortSpec)

/-- Whether an edge or an origin fills a plug; the edge is asked for the plug alone. -/
def plugFilled (plug : GraphInputPlug) : Bool :=
  edges.any (fun edge => edge.enabled ≠ some false && edge.target = node.id &&
      edge.targetHandle.bind TargetHandle.plugId = some plug.id) ||
    origins.any (fun origin => originSatisfiesSlot origin node.id port.name (some plug.id))

def portFilled : Bool :=
  edges.any (fun edge => edge.enabled ≠ some false && edge.target = node.id &&
      edge.targetHandle.map TargetHandle.portName = some port.name) ||
    origins.any (fun origin => originSatisfiesSlot origin node.id port.name none)

/-- What `missingRequiredInputsFor` reports of one port. -/
def missingAtPort : List MissingRequiredInput :=
  let report : MissingRequiredInput := ⟨node.id, node.title, port.name⟩
  if portHasInstancePlugs port then
    if ¬ port.required then []
    else
      let plugs := inputPlugsForPort node.inputPlugs port.name
      let filled := plugs.map (plugFilled edges origins node port)
      if plugs = [] then [report]
      else if isCollectionNode node then
        -- a collection keeps a spare plug, so one member is enough
        if filled.any id then [] else [report]
      else filled.zipIdx.flatMap (fun (isFilled, index) =>
        if isFilled then []
        else [⟨node.id, node.title, port.name ++ " input " ++ toString (index + 1)⟩])
  else if ¬ port.required then []
  else if portFilled edges origins node port then []
  else [report]

def missingRequiredInputsFor (nodes : List WorkflowNode) : List MissingRequiredInput :=
  nodes.flatMap (fun node => node.inputs.flatMap (missingAtPort edges origins node))

end Canvas

section Incoming

variable (repr : Quoting)

def describe (key : InstanceKey) : String :=
  "instance node=" ++ repr key.nodeId ++ " graph=" ++ repr key.graphId ++ " call_path=" ++
    (if key.callPath = [] then "(root)" else "/".intercalate key.callPath)

def edgeLabel (edge : GraphEdge) : String :=
  "Edge " ++ repr edge.fromNode ++ "." ++ repr edge.fromPort ++ " -> " ++ repr edge.toNode ++ "." ++
    repr edge.toPort

def originLabel (origin : GraphOrigin) : String :=
  "Origin " ++ repr origin.toNode ++ "." ++ repr origin.toPort

/-- The stored results a computation was given, by the instance they are of. -/
abbrev Upstream := Dict InstanceKey (Dict String ArtifactOutputValue)

/-- One connection of `_incoming`. -/
def incomingConnection (inst : ExpandedInstance) (upstream : Upstream) (connection : Connection) :
    Except String Incoming :=
  let edge := connection.edge
  match upstream.get? connection.source with
  | none => .error ("Node " ++ repr inst.key.nodeId ++ " is fed by " ++
      describe repr connection.source ++ ", whose result this computation was not given a " ++
      "fingerprint for")
  | some outputs =>
    match outputs.get? edge.fromPort with
    | none => .error ("Node " ++ repr inst.key.nodeId ++ " input " ++ repr edge.toPort ++
        " reads " ++ repr edge.fromPort ++ " of " ++ describe repr connection.source ++
        ", whose stored result has no such output")
    | some value => .ok
        ⟨edge.toPort, edge.toPlug, value, edge.projection.map GraphProjection.path,
          edge.conversionPath, edge.collectionMode = .map, edgeLabel repr edge, edge.fromNode,
          edge.fromPort, edge.toNode⟩

def incomingOrigin (origin : GraphOrigin) : Incoming :=
  ⟨origin.toPort, origin.toPlug, origin.value, none, origin.conversionPath,
    origin.collectionMode = .map, originLabel repr origin, "origin", "value", origin.toNode⟩

/-- `_incoming`. -/
def incoming (inst : ExpandedInstance) (upstream : Upstream) : Except String (List Incoming) := do
  let connections ← inst.connections.mapM (incomingConnection repr inst upstream)
  return connections ++ (sortedOrigins inst.origins).map (incomingOrigin repr)

end Incoming

section Binding

variable (repr : Quoting) (ports : List InputPortSpec) (node : GraphNode)

def findPort (name : String) : Option InputPortSpec := ports.find? (fun port => port.name = name)

def operatorLabel : String :=
  "Node " ++ repr node.id ++ " (" ++ node.operatorId ++ "@" ++ toString node.operatorVersion ++ ")"

/-- One plug of the first loop of `_validate_input_plugs`. -/
def declarePlug (plugs : Dict String String) (plug : GraphInputPlug) :
    Except String (Dict String String) :=
  if (plugs.get? plug.id).isSome then
    .error ("Node " ++ repr node.id ++ " has duplicate input plug id " ++ repr plug.id)
  else match findPort ports plug.port with
    | none => .error ("Node " ++ repr node.id ++ " input plug " ++ repr plug.id ++
        " references unknown input port " ++ repr plug.port)
    | some target =>
      if ¬ target.instancePlugs then .error ("Node " ++ repr node.id ++ " input port " ++
        repr plug.port ++ " does not accept instance plugs")
      else .ok (plugs.set plug.id plug.port)

/-- A required port that takes plugs has some. -/
def checkPlugsSubmitted : Except String Unit :=
  match ports.find? (fun port => port.instancePlugs && port.required &&
      ¬ node.inputPlugs.any (fun plug => plug.port = port.name)) with
  | none => .ok ()
  | some port => .error (operatorLabel repr node ++ " required instance-plug input " ++
      repr port.name ++ " has no submitted plugs")

/-- One value of the loop of `_validate_input_plugs` over what arrives. -/
def checkPlugTarget (plugs : Dict String String) (item : Incoming) : Except String Unit :=
  match findPort ports item.toPort with
  | none => .ok ()
  | some target =>
    if ¬ target.instancePlugs then
      match item.toPlug with
      | none => .ok ()
      | some plug => .error (item.label ++ " declares input plug " ++ repr plug ++
          ", but the target port does not accept instance plugs")
    else if item.mapDriven then
      .error (item.label ++ " cannot use collection mode 'map' with an instance-plug input")
    else match item.toPlug with
      | none => .error (item.label ++ " must target an input plug")
      | some plug =>
        match plugs.get? plug with
        | none => .error (item.label ++ " targets unknown input plug " ++ repr plug)
        | some plugPort =>
          if plugPort ≠ item.toPort then .error (item.label ++ " targets input plug " ++
            repr plug ++ ", which belongs to port " ++ repr plugPort)
          else .ok ()

/-- `connections_by_plug`: how many values arrive at a plug. -/
def connectionsByPlug (items : List Incoming) (plug : String) : ℕ :=
  items.countP (fun item =>
    (findPort ports item.toPort).any (fun port => port.instancePlugs) && item.toPlug = some plug)

/-- Every plug has exactly one value. -/
def checkPlugsFed (plugIds : List String) (items : List Incoming) : Except String Unit :=
  match plugIds.find? (fun plug => connectionsByPlug ports items plug ≠ 1) with
  | none => .ok ()
  | some plug => .error ("Node " ++ repr node.id ++ " input plug " ++ repr plug ++
      " requires exactly one incoming connection")

/-- `_validate_input_plugs`. -/
def validateInputPlugs (items : List Incoming) : Except String Unit := do
  let plugs ← node.inputPlugs.foldlM (declarePlug repr ports node) []
  checkPlugsSubmitted repr ports node
  let _ ← items.mapM (checkPlugTarget repr ports plugs)
  checkPlugsFed repr ports node plugs.keys items

/-- `connections_by_port`: how many values arrive at a port. -/
def connectionsByPort (items : List Incoming) (name : String) : ℕ :=
  items.countP (fun item => item.toPort = name)

/-- Every required port has a value. -/
def checkInputsConnected (items : List Incoming) : Except String Unit :=
  match ports.find? (fun port => port.required && connectionsByPort items port.name = 0) with
  | none => .ok ()
  | some port => .error (operatorLabel repr node ++ " required input " ++ repr port.name ++
      " has no incoming connection")

variable (artifactTypes : List ArtifactTypeSpec) (catalogue : List ArtifactConversion)

/-- One value of the loop of `bind`, after the slots it has made. -/
def bindItem (slots : List InputSlot) (item : Incoming) : Except String (List InputSlot) :=
  match findPort ports item.toPort with
  | none => .error (item.label ++ " references unknown input port " ++ repr item.toPort ++
      " on node " ++ repr node.id)
  | some port => do
    let s ← slot repr artifactTypes catalogue item
    checkDelivered repr s port
    let count := slots.countP (fun other => other.toPort = s.toPort) + 1
    if ¬ port.variadic ∧ count > 1 then
      .error ("Node " ++ repr node.id ++ " input " ++ repr s.toPort ++
        " accepts one connection, got " ++ toString count)
    else .ok (slots ++ [s])

/-- `bind`, from the values that arrive to the slots they fill. -/
def bindInputs (items : List Incoming) : Except String (List InputSlot) := do
  validateInputPlugs repr ports node items
  let slots ← items.foldlM (bindItem repr ports node artifactTypes catalogue) []
  checkInputsConnected repr ports node items
  return slots

end Binding

/-- None of the checks of completeness raises anything. -/
structure Complete (repr : Quoting) (ports : List InputPortSpec) (node : GraphNode)
    (items : List Incoming) : Prop where
  submitted : checkPlugsSubmitted repr ports node = .ok ()
  fed : checkPlugsFed repr ports node (node.inputPlugs.map GraphInputPlug.id) items = .ok ()
  connected : checkInputsConnected repr ports node items = .ok ()

end Grafy.InputCompleteness
