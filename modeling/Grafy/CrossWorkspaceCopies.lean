import Grafy.Commands

/-!
What a copy into another Workspace carries. References that only mean something
in the Workspace they were made in are stripped: uploads and artifact ids in
the configuration of a node, at any depth, and the artifacts placed on inputs.
The stripped values are built anew and meet their own rules again.
-/
namespace Grafy.CrossWorkspaceCopies

open CanonicalJson Commands GraphDocuments Project

def isList : Json → Bool
  | .arr _ => true
  | _ => false

/-- The members of an object that a copy leaves out. -/
def isScoped (key : String) (value : Json) : Bool :=
  key = "upload_key" || key = "artifact_id" || (key = "uploads" && isList value)

mutual

def sanitizeConfigValue : Json → Json
  | .obj members => .obj (sanitizeMembers members)
  | .arr items => .arr (sanitizeItems items)
  | value => value

def sanitizeMembers : List (String × Json) → List (String × Json)
  | [] => []
  | (key, value) :: rest =>
    if isScoped key value then sanitizeMembers rest
    else (key, sanitizeConfigValue value) :: sanitizeMembers rest

def sanitizeItems : List Json → List Json
  | [] => []
  | value :: rest => sanitizeConfigValue value :: sanitizeItems rest

end

def sanitizeNode (node : GraphNode) : GraphNode :=
  { node with config := sanitizeMembers node.config }

/-- The artifacts placed on inputs stay behind. -/
def sanitizeDocument (document : GraphDocument) : Applied GraphDocument := do
  let nodes := document.nodes.map sanitizeNode
  let presentation ← buildPresentation { document.presentation with
    links := document.presentation.links.filter (fun link =>
      link.sourceNodeId ∈ nodes.map GraphNode.id) }
  buildDocument { document with nodes := nodes, origins := [], presentation := presentation }

def sanitizeGraph (graph : GraphDefinition) : Applied GraphDefinition := do
  let document ← sanitizeDocument graph.document
  buildGraph { graph with document := document }

def sanitizeProject (casefold : String → String) (project : ProjectDocument) :
    Applied ProjectDocument := do
  let graphs ← project.graphs.mapM sanitizeGraph
  rebuild casefold graphs

end Grafy.CrossWorkspaceCopies
