import Grafy.Fingerprints
import Grafy.Project

/-!
Instance expansion: one target Graph with its calls inlined. Every occurrence
of a Graph is a visit at the path of call nodes that leads to it. A call node
never becomes an instance: an edge or origin at one of its ports is placed on
the boundary instance the callee declares under that name, one call path
deeper. The instances are then put into a topological order.
-/
namespace Grafy.Expansion

open Fingerprints GraphDocuments Instances OrderedDict Project

/-- The errors of `expand_graph`. The two missing lookups are KeyErrors. -/
inductive ExpansionError
  | unknownGraph (graphId : String)
  | missingIndex (graphId : String)
  | missingInstance (key : InstanceKey)
  | cycle (path : List InstanceKey)
  | outOfFuel
  deriving DecidableEq

/-- One occurrence of a Graph. -/
structure Visit where
  graph : GraphDefinition
  callPath : List String

structure GraphIndex where
  graph : GraphDefinition
  nodes : Dict String GraphNode
  inputs : Dict String GraphNode
  outputs : Dict String GraphNode

/-- One instance while its edges and origins are being rewritten. -/
structure Pending where
  node : GraphNode
  refreshGeneration : ℕ
  connections : List Connection := []
  ownOrigins : List GraphOrigin := []
  callerOrigins : List GraphOrigin := []
  callerSupplied : Bool := false

def indexNode (index : GraphIndex) (node : GraphNode) : GraphIndex :=
  let index := { index with nodes := index.nodes.set node.id node }
  if node.operatorId = graphInputOperatorId then
    { index with inputs := index.inputs.set (publicName node) node }
  else if node.operatorId = graphOutputOperatorId then
    { index with outputs := index.outputs.set (publicName node) node }
  else index

def index (graph : GraphDefinition) : GraphIndex :=
  graph.document.nodes.foldl indexNode ⟨graph, [], [], []⟩

def getGraph (project : ProjectDocument) (graphId : String) :
    Except ExpansionError GraphDefinition :=
  match project.getGraph graphId with
  | some graph => .ok graph
  | none => .error (.unknownGraph graphId)

/-- This Graph and, under each call node in document order, its callees. Every
call lowers the Graph's rank, so the fuel `expandGraph` gives is enough. -/
def visits (project : ProjectDocument) : ℕ → GraphDefinition → List String →
    Except ExpansionError (List Visit)
  | 0, _, _ => .error .outOfFuel
  | fuel + 1, graph, callPath => do
    let below ← graph.document.nodes.mapM (fun node =>
      if isCall node then do
        let callee ← getGraph project node.operatorId
        visits project fuel callee (callPath ++ [node.id])
      else .ok [])
    return ⟨graph, callPath⟩ :: below.flatten

section Wiring

variable (projectId : String)

def keyAt (graph : GraphDefinition) (callPath : List String) (node : GraphNode) : InstanceKey :=
  ⟨projectId, graph.id, callPath, node.id, none⟩

def amend (pending : Dict InstanceKey Pending) (key : InstanceKey) (change : Pending → Pending) :
    Except ExpansionError (Dict InstanceKey Pending) :=
  match pending.get? key with
  | none => .error (.missingInstance key)
  | some item => .ok (pending.set key (change item))

def supply (item : Pending) : Pending := { item with callerSupplied := true }

def connect (connection : Connection) (item : Pending) : Pending :=
  { item with connections := item.connections ++ [connection] }

def holdOrigin (origin : GraphOrigin) (item : Pending) : Pending :=
  { item with ownOrigins := item.ownOrigins ++ [origin] }

def supplyOrigin (origin : GraphOrigin) (item : Pending) : Pending :=
  { item with callerSupplied := true, callerOrigins := item.callerOrigins ++ [origin] }

variable (indexes : Dict String GraphIndex)

def calleeIndex (node : GraphNode) : Except ExpansionError GraphIndex :=
  match indexes.get? node.operatorId with
  | none => .error (.missingIndex node.operatorId)
  | some callee => .ok callee

variable (index : GraphIndex) (callPath : List String)

/-- The instance an edge out of this node reads, with the port it reads there;
none when the callee declares no such output. -/
def edgeSource (source : GraphNode) (fromPort : String) :
    Except ExpansionError (Option (InstanceKey × String)) :=
  if isCall source then do
    let callee ← calleeIndex indexes source
    return (callee.outputs.get? fromPort).map (fun boundary =>
      (keyAt projectId callee.graph (callPath ++ [source.id]) boundary, graphBoundaryPort))
  else .ok (some (keyAt projectId index.graph callPath source, fromPort))

/-- The boundary instance behind an input port of this call node. -/
def callTarget (target : GraphNode) (toPort : String) :
    Except ExpansionError (Option (GraphNode × InstanceKey)) := do
  let callee ← calleeIndex indexes target
  return (callee.inputs.get? toPort).map (fun boundary =>
    (boundary, keyAt projectId callee.graph (callPath ++ [target.id]) boundary))

def wireSource (source : GraphNode) (targetKey : InstanceKey) (edge : GraphEdge)
    (pending : Dict InstanceKey Pending) : Except ExpansionError (Dict InstanceKey Pending) := do
  match ← edgeSource projectId indexes index callPath source edge.fromPort with
  | none => return pending
  | some (sourceKey, fromPort) =>
    amend pending targetKey (connect ⟨sourceKey, { edge with fromPort := fromPort }⟩)

def wireEdge (pending : Dict InstanceKey Pending) (edge : GraphEdge) :
    Except ExpansionError (Dict InstanceKey Pending) :=
  if edge.enabled then
    match index.nodes.get? edge.toNode, index.nodes.get? edge.fromNode with
    | some target, some source =>
      if isCall target then do
        match ← callTarget projectId indexes callPath target edge.toPort with
        | none => return pending
        | some (_, targetKey) =>
          -- the port counts as supplied before the source is looked at
          let pending ← amend pending targetKey supply
          wireSource projectId indexes index callPath source targetKey
            { edge with toPort := graphBoundaryPort, toPlug := none } pending
      else
        wireSource projectId indexes index callPath source
          (keyAt projectId index.graph callPath target) edge pending
    | _, _ => .ok pending
  else .ok pending

def wireEdges (pending : Dict InstanceKey Pending) :
    Except ExpansionError (Dict InstanceKey Pending) :=
  index.graph.document.edges.foldlM (wireEdge projectId indexes index callPath) pending

def wireOrigin (pending : Dict InstanceKey Pending) (origin : GraphOrigin) :
    Except ExpansionError (Dict InstanceKey Pending) :=
  match index.nodes.get? origin.toNode with
  | none => .ok pending
  | some target =>
    if isCall target then do
      match ← callTarget projectId indexes callPath target origin.toPort with
      | none => return pending
      | some (boundary, targetKey) =>
        amend pending targetKey (supplyOrigin { origin with
          toNode := boundary.id, toPort := graphBoundaryPort, toPlug := none })
    else amend pending (keyAt projectId index.graph callPath target) (holdOrigin origin)

def wireOrigins (pending : Dict InstanceKey Pending) :
    Except ExpansionError (Dict InstanceKey Pending) :=
  index.graph.document.origins.foldlM (wireOrigin projectId indexes index callPath) pending

def wireVisit (pending : Dict InstanceKey Pending) (visit : Visit) :
    Except ExpansionError (Dict InstanceKey Pending) :=
  match indexes.get? visit.graph.id with
  | none => .error (.missingIndex visit.graph.id)
  | some index => do
    let pending ← wireEdges projectId indexes index visit.callPath pending
    wireOrigins projectId indexes index visit.callPath pending

end Wiring

section Ordering

/-- The order of `InstanceKey.sort_key`, which names the key it comes from: a
map index, where there is one, is never the -1 that stands for none. -/
def SortLE (a b : InstanceKey) : Prop :=
  a.projectId < b.projectId ∨ a.projectId = b.projectId ∧
    (a.graphId < b.graphId ∨ a.graphId = b.graphId ∧
      (a.callPath < b.callPath ∨ a.callPath = b.callPath ∧
        (a.nodeId < b.nodeId ∨ a.nodeId = b.nodeId ∧ a.mapIndex.getD (-1) ≤ b.mapIndex.getD (-1))))

instance (a b : InstanceKey) : Decidable (SortLE a b) := inferInstanceAs (Decidable (_ ∨ _))

def pushKey (key : InstanceKey) (ready : List InstanceKey) : List InstanceKey :=
  ready.orderedInsert SortLE key

variable (instances : Dict InstanceKey ExpandedInstance)

def feeders (key : InstanceKey) : List InstanceKey :=
  match instances.get? key with
  | none => []
  | some inst => inst.connections.map Connection.source

/-- One dependency cycle among the unplaced instances: each key on the path is
fed by the next. -/
def oneCycle (unplaced : List InstanceKey) : ℕ → InstanceKey → List InstanceKey →
    Except ExpansionError (List InstanceKey)
  | 0, _, _ => .error .outOfFuel
  | fuel + 1, current, path =>
    if current ∈ path then .ok (path.drop (path.idxOf current))
    else
      match ((feeders instances current).filter (· ∈ unplaced)).insertionSort SortLE with
      | [] => .error (.missingInstance current)
      | feeder :: _ => oneCycle unplaced fuel feeder (path ++ [current])

def cycleError (order : List InstanceKey) : ExpansionError :=
  let unplaced := (instances.keys.filter (· ∉ order)).insertionSort SortLE
  match unplaced with
  | [] => .outOfFuel
  | first :: _ =>
    match oneCycle instances unplaced (unplaced.length + 1) first [] with
    | .error e => e
    | .ok path => .cycle path

def topologicalOrder : Except ExpansionError (List InstanceKey) :=
  match (instances.keys.flatMap (feeders instances)).find? (fun key => key ∉ instances.keys) with
  | some foreign => .error (.missingInstance foreign)
  | none =>
    let order := TopologicalSort.sort pushKey (feeders instances) instances.keys
    if order.length = instances.length then .ok order else .error (cycleError instances order)

end Ordering

section Expand

/-- The order of incoming connections; ties keep the order they were read in. -/
def incomingSlot (connection : Connection) : String × String :=
  (connection.edge.toPort, connection.edge.toPlug.getD "")

def draftInstance (key : InstanceKey) (item : Pending) : ExpandedInstance where
  key := key
  node := item.node
  connections := item.connections.insertionSort
    (fun a b => PairLE (incomingSlot a) (incomingSlot b))
  origins := (if item.callerSupplied then [] else item.ownOrigins) ++ item.callerOrigins
  refreshGeneration := item.refreshGeneration

/-- The instances of one visit, before anything is wired. -/
def placed (projectId : String) (visit : Visit) : Dict InstanceKey Pending :=
  (visit.graph.document.nodes.filter (fun node => !isCall node)).map (fun node =>
    (keyAt projectId visit.graph visit.callPath node,
      { node := node, refreshGeneration := (visit.graph.refreshGenerations.get? node.id).getD 0 }))

def pendingInstances (projectId : String) (visits : List Visit) : Dict InstanceKey Pending :=
  (visits.flatMap (placed projectId)).foldl (fun pending entry => pending.set entry.1 entry.2) []

def indexesOf (visits : List Visit) : Dict String GraphIndex :=
  visits.foldl (fun indexes visit => indexes.set visit.graph.id (index visit.graph)) []

def draftInstances (pending : Dict InstanceKey Pending) : Dict InstanceKey ExpandedInstance :=
  pending.map (fun entry => (entry.1, draftInstance entry.1 entry.2))

def expandGraph (project : ProjectDocument) (graphId projectId : String) :
    Except ExpansionError ExpandedGraph := do
  let target ← getGraph project graphId
  let visits ← visits project project.graphs.length target []
  let pending ← visits.foldlM (wireVisit projectId (indexesOf visits))
    (pendingInstances projectId visits)
  let draft := draftInstances pending
  let order ← topologicalOrder draft
  return {
    projectId := projectId
    graphId := graphId
    instances := order.filterMap (fun key => (draft.get? key).map (fun inst => (key, inst)))
    order := order }

end Expand

end Grafy.Expansion
