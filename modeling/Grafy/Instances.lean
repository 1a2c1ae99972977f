import Grafy.GraphDocuments

/-!
Node instances: the unit that owns a fingerprint and a state. An expanded
graph lists its instances under their keys together with an order over them.
That the order is topological is a predicate on the graph, because the
functions that walk an expanded graph accept any order and report a bad one.
-/
namespace Grafy.Instances

open GraphDocuments OrderedDict

structure InstanceKey where
  projectId : String
  graphId : String
  callPath : List String
  nodeId : String
  mapIndex : Option Int := none
  deriving DecidableEq, Inhabited, Repr

structure Connection where
  source : InstanceKey
  edge : GraphEdge

structure ExpandedInstance where
  key : InstanceKey
  node : GraphNode
  connections : List Connection
  origins : List GraphOrigin
  refreshGeneration : ℕ
  deriving Inhabited

structure ExpandedGraph where
  projectId : String
  graphId : String
  instances : Dict InstanceKey ExpandedInstance
  order : List InstanceKey

namespace ExpandedGraph

/-- The upstream keys an instance reads, one per connection. -/
def sources (graph : ExpandedGraph) (key : InstanceKey) : List InstanceKey :=
  match graph.instances.get? key with
  | some inst => inst.connections.map Connection.source
  | none => []

theorem sources_eq {graph : ExpandedGraph} {key : InstanceKey} {inst : ExpandedInstance}
    (h : graph.instances.get? key = some inst) :
    graph.sources key = inst.connections.map Connection.source := by
  simp [sources, h]

/-- The order lists every instance once, and each instance after the ones
that feed it. -/
structure Topological (graph : ExpandedGraph) : Prop where
  nodup : graph.order.Nodup
  covers : ∀ key, key ∈ graph.order ↔ ∃ inst, graph.instances.get? key = some inst
  sourcesBefore : ∀ before key after, graph.order = before ++ key :: after →
    ∀ source ∈ graph.sources key, source ∈ before

end ExpandedGraph

end Grafy.Instances
