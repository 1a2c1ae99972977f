import Grafy.Alignment
import Grafy.GraphDocuments
import Grafy.Loops

/-!
The rules one Graph's document keeps: ids are unique, edges and origins name
existing nodes and plugs, a plug takes one edge, and an origin never shares
its input position with an enabled edge or another origin. The presentation
has rules of its own: links and bindings name existing viewers, and a viewer
takes one link unless it shows an artifact. The first broken rule is the error,
in the order the source checks them.
-/
namespace Grafy.DocumentRules

open GraphDocuments Loops OrderedDict

/-- The ValueErrors of `validate_structure`, by the ids they name. -/
inductive StructureError
  | agentIdsNotUnique
  | nodeIdsNotUnique
  | edgeIdsNotUnique
  | originIdsNotUnique
  | plugIdsNotUnique (node : String)
  | edgeSourceMissing (edge node : String)
  | edgeTargetMissing (edge node : String)
  | edgePlugMissing (edge plug node : String)
  | edgePlugPort (edge port plug plugPort : String)
  | plugTaken (plug node : String)
  | originTargetMissing (origin node : String)
  | originPlugMissing (origin plug node : String)
  | originPlugPort (origin port plug plugPort : String)
  | slotTaken (input node feed : String)
  | linkSourceMissing (link node : String)
  deriving DecidableEq

/-- The input positions met so far: the plugs an edge names, enabled or not,
and the feed of each enabled slot. -/
structure Slots where
  connectedPlugs : List (String × String)
  enabledSlots : Dict (String × String) String

section Rules

variable (document : GraphDocument)

def nodeIds : List String := document.nodes.map GraphNode.id

def plugOf (node plug : String) : Option GraphInputPlug :=
  (document.nodes.find? (fun n => n.id = node)).bind
    (fun n => n.inputPlugs.find? (fun p => p.id = plug))

def checkPlugs (node : GraphNode) : Except StructureError Unit :=
  require (node.inputPlugs.map GraphInputPlug.id).Nodup (.plugIdsNotUnique node.id)

def checkEdge (slots : Slots) (edge : GraphEdge) : Except StructureError Slots :=
  let slot := graphInputSlot edge.toNode edge.toPort edge.toPlug
  -- the first enabled edge of a slot keeps it
  let slots := if edge.enabled ∧ (slots.enabledSlots.get? slot).isNone then
    { slots with enabledSlots := slots.enabledSlots.set slot edge.id } else slots
  if edge.fromNode ∉ nodeIds document then .error (.edgeSourceMissing edge.id edge.fromNode)
  else if edge.toNode ∉ nodeIds document then .error (.edgeTargetMissing edge.id edge.toNode)
  else
    match edge.toPlug with
    | none => .ok slots
    | some plug =>
      match plugOf document edge.toNode plug with
      | none => .error (.edgePlugMissing edge.id plug edge.toNode)
      | some target =>
        if target.port ≠ edge.toPort then
          .error (.edgePlugPort edge.id edge.toPort plug target.port)
        else if (edge.toNode, plug) ∈ slots.connectedPlugs then
          .error (.plugTaken plug edge.toNode)
        else
          .ok { slots with connectedPlugs := (edge.toNode, plug) :: slots.connectedPlugs }

def checkOriginPlug (origin : GraphOrigin) : Except StructureError Unit :=
  match origin.toPlug with
  | none => .ok ()
  | some plug =>
    match plugOf document origin.toNode plug with
    | none => .error (.originPlugMissing origin.id plug origin.toNode)
    | some target =>
      if target.port ≠ origin.toPort then
        .error (.originPlugPort origin.id origin.toPort plug target.port)
      else .ok ()

def checkOrigin (slots : Slots) (origin : GraphOrigin) : Except StructureError Slots :=
  if origin.toNode ∉ nodeIds document then .error (.originTargetMissing origin.id origin.toNode)
  else
    match checkOriginPlug document origin with
    | .error e => .error e
    | .ok () =>
      let slot := graphInputSlot origin.toNode origin.toPort origin.toPlug
      match slots.enabledSlots.get? slot with
      | some feed => .error (.slotTaken (origin.toPlug.getD origin.toPort) origin.toNode feed)
      | none => .ok { slots with enabledSlots := slots.enabledSlots.set slot origin.id }

def checkLink (link : GraphPresentationLink) : Except StructureError Unit :=
  require (link.sourceNodeId ∈ nodeIds document) (.linkSourceMissing link.id link.sourceNodeId)

def validateStructure : Except StructureError Unit := do
  require (document.agents.map GraphAgent.id).Nodup .agentIdsNotUnique
  require (nodeIds document).Nodup .nodeIdsNotUnique
  require (document.edges.map GraphEdge.id).Nodup .edgeIdsNotUnique
  require (document.origins.map GraphOrigin.id).Nodup .originIdsNotUnique
  let _ ← document.nodes.mapM checkPlugs
  let slots ← document.edges.foldlM (checkEdge document) ⟨[], []⟩
  let _ ← document.origins.foldlM (checkOrigin document) slots
  let _ ← document.presentation.links.mapM (checkLink document)
  return ()

end Rules

section Presentation

/-- The ValueErrors of `validate_presentation`, by the ids they name. -/
inductive PresentationError
  | viewerIdsNotUnique
  | linkIdsNotUnique
  | linkViewerMissing (link viewer : String)
  | linkToArtifactCard (link viewer : String)
  | viewerLinkedTwice (viewer : String)
  | bindingIdsNotUnique
  | bindingSourceMissing (binding viewer : String)
  | bindingTargetMissing (binding viewer : String)
  | annotationIdsNotUnique
  deriving DecidableEq

def checkPresentationLink (viewers : List GraphPresentationViewer) (linked : List String)
    (link : GraphPresentationLink) : Except PresentationError (List String) := do
  let known := viewers.map GraphPresentationViewer.id
  let cards := (viewers.filter (fun viewer => viewer.artifactRef.isSome)).map
    GraphPresentationViewer.id
  require (link.targetViewerId ∈ known) (.linkViewerMissing link.id link.targetViewerId)
  require (link.targetViewerId ∉ cards) (.linkToArtifactCard link.id link.targetViewerId)
  require (link.targetViewerId ∉ linked) (.viewerLinkedTwice link.targetViewerId)
  return link.targetViewerId :: linked

def checkPresentationBinding (viewers : List GraphPresentationViewer)
    (binding : GraphPresentationBinding) : Except PresentationError Unit := do
  let known := viewers.map GraphPresentationViewer.id
  require (binding.sourceViewerId ∈ known) (.bindingSourceMissing binding.id binding.sourceViewerId)
  require (binding.targetViewerId ∈ known) (.bindingTargetMissing binding.id binding.targetViewerId)

def validatePresentation (presentation : GraphPresentationDocument) :
    Except PresentationError Unit := do
  require (presentation.viewers.map GraphPresentationViewer.id).Nodup .viewerIdsNotUnique
  require (presentation.links.map GraphPresentationLink.id).Nodup .linkIdsNotUnique
  let _ ← presentation.links.foldlM (checkPresentationLink presentation.viewers) []
  require (presentation.bindings.map GraphPresentationBinding.id).Nodup .bindingIdsNotUnique
  let _ ← presentation.bindings.mapM (checkPresentationBinding presentation.viewers)
  require (presentation.annotations.map GraphPresentationAnnotation.id).Nodup
    .annotationIdsNotUnique
  return ()

end Presentation

variable {document : GraphDocument} {slots' slots : Slots}

theorem checkEdge_ok {edge : GraphEdge} (h : checkEdge document slots edge = .ok slots') :
    edge.fromNode ∈ nodeIds document ∧ edge.toNode ∈ nodeIds document := by
  by_cases hfrom : edge.fromNode ∈ nodeIds document
  · by_cases hto : edge.toNode ∈ nodeIds document
    · exact ⟨hfrom, hto⟩
    · simp [checkEdge, hfrom, hto] at h
  · simp [checkEdge, hfrom] at h

theorem checkOrigin_ok {origin : GraphOrigin} (h : checkOrigin document slots origin = .ok slots') :
    origin.toNode ∈ nodeIds document := by
  by_contra hto
  simp [checkOrigin, hto] at h

/-- Every check of the structure passes. -/
structure Structured (document : GraphDocument) : Prop where
  agentIds : (document.agents.map GraphAgent.id).Nodup
  nodeIds : (nodeIds document).Nodup
  edgeIds : (document.edges.map GraphEdge.id).Nodup
  originIds : (document.origins.map GraphOrigin.id).Nodup
  plugs : ∃ r, document.nodes.mapM checkPlugs = .ok r
  wires : ∃ slots slots', document.edges.foldlM (checkEdge document) ⟨[], []⟩ = .ok slots ∧
    document.origins.foldlM (checkOrigin document) slots = .ok slots'
  links : ∃ r, document.presentation.links.mapM (checkLink document) = .ok r

theorem validateStructure_ok : validateStructure document = .ok () ↔ Structured document := by
  constructor
  · intro h
    unfold validateStructure at h
    obtain ⟨_, hagents, h⟩ := bind_ok.mp h
    obtain ⟨_, hnodes, h⟩ := bind_ok.mp h
    obtain ⟨_, hedgeIds, h⟩ := bind_ok.mp h
    obtain ⟨_, horiginIds, h⟩ := bind_ok.mp h
    obtain ⟨r, hplugs, h⟩ := bind_ok.mp h
    obtain ⟨slots, hedges, h⟩ := bind_ok.mp h
    obtain ⟨slots', horigins, h⟩ := bind_ok.mp h
    obtain ⟨r', hlinks, -⟩ := bind_ok.mp h
    exact ⟨require_ok.mp hagents, require_ok.mp hnodes, require_ok.mp hedgeIds,
      require_ok.mp horiginIds, ⟨r, hplugs⟩, ⟨slots, slots', hedges, horigins⟩, ⟨r', hlinks⟩⟩
  · rintro ⟨hagents, hnodes, hedgeIds, horiginIds, ⟨r, hplugs⟩, ⟨slots, slots', hedges, horigins⟩,
      ⟨r', hlinks⟩⟩
    exact bind_ok.mpr ⟨(), require_ok.mpr hagents, bind_ok.mpr ⟨(), require_ok.mpr hnodes,
      bind_ok.mpr ⟨(), require_ok.mpr hedgeIds, bind_ok.mpr ⟨(), require_ok.mpr horiginIds,
        bind_ok.mpr ⟨r, hplugs, bind_ok.mpr ⟨slots, hedges, bind_ok.mpr ⟨slots', horigins,
          bind_ok.mpr ⟨r', hlinks, rfl⟩⟩⟩⟩⟩⟩⟩⟩

theorem validateStructure_links (h : validateStructure document = .ok ()) :
    ∀ link ∈ document.presentation.links, link.sourceNodeId ∈ nodeIds document := by
  obtain ⟨r, hlinks⟩ := (validateStructure_ok.mp h).links
  intro link hlink
  obtain ⟨_, -, hone⟩ := Alignment.exists_right (mapM_ok hlinks) hlink
  exact require_ok.mp hone

/-- What an accepted document's edges and origins may name. -/
structure Anchored (document : GraphDocument) : Prop where
  nodeIds : (nodeIds document).Nodup
  edges : ∀ edge ∈ document.edges,
    edge.fromNode ∈ DocumentRules.nodeIds document ∧ edge.toNode ∈ DocumentRules.nodeIds document
  origins : ∀ origin ∈ document.origins, origin.toNode ∈ DocumentRules.nodeIds document

theorem validateStructure_anchored (h : validateStructure document = .ok ()) :
    Anchored document := by
  have hstructured := validateStructure_ok.mp h
  obtain ⟨slots, slots', hedges, horigins⟩ := hstructured.wires
  refine ⟨hstructured.nodeIds, ?_, ?_⟩
  · intro edge hedge
    obtain ⟨_, _, hok⟩ := exists_turn_of_foldlM hedges edge hedge
    exact checkEdge_ok hok
  · intro origin horigin
    obtain ⟨_, _, hok⟩ := exists_turn_of_foldlM horigins origin horigin
    exact checkOrigin_ok hok

theorem checkEdge_plug {edge : GraphEdge} (h : checkEdge document slots edge = .ok slots') :
    ∀ plug ∈ edge.toPlug, (plugOf document edge.toNode plug).isSome := by
  intro plug hplug
  have htoPlug : edge.toPlug = some plug := hplug
  obtain ⟨hfrom, hto⟩ := checkEdge_ok h
  cases hfound : plugOf document edge.toNode plug with
  | none => simp [checkEdge, hfrom, hto, htoPlug, hfound] at h
  | some target => rfl

theorem checkOrigin_plug {slots slots' : Slots} {origin : GraphOrigin}
    (h : checkOrigin document slots origin = .ok slots') :
    ∀ plug ∈ origin.toPlug, (plugOf document origin.toNode plug).isSome := by
  intro plug hplug
  have htoPlug : origin.toPlug = some plug := hplug
  have hto := checkOrigin_ok h
  cases hfound : plugOf document origin.toNode plug with
  | none => simp [checkOrigin, hto, checkOriginPlug, htoPlug, hfound] at h
  | some target => rfl

/-- Ids name one edge or origin each, and a plug that is named is there. -/
structure Plugged (document : GraphDocument) : Prop where
  edgeIds : (document.edges.map GraphEdge.id).Nodup
  originIds : (document.origins.map GraphOrigin.id).Nodup
  edges : ∀ edge ∈ document.edges, ∀ plug ∈ edge.toPlug, (plugOf document edge.toNode plug).isSome
  origins : ∀ origin ∈ document.origins, ∀ plug ∈ origin.toPlug,
    (plugOf document origin.toNode plug).isSome

theorem validateStructure_plugged (h : validateStructure document = .ok ()) : Plugged document := by
  have hstructured := validateStructure_ok.mp h
  obtain ⟨slots, slots', hedges, horigins⟩ := hstructured.wires
  refine ⟨hstructured.edgeIds, hstructured.originIds, ?_, ?_⟩
  · intro edge hedge
    obtain ⟨_, _, hok⟩ := exists_turn_of_foldlM hedges edge hedge
    exact checkEdge_plug hok
  · intro origin horigin
    obtain ⟨_, _, hok⟩ := exists_turn_of_foldlM horigins origin horigin
    exact checkOrigin_plug hok

/-- A link leads to a viewer and a binding is between two. -/
structure Shown (presentation : GraphPresentationDocument) : Prop where
  links : ∀ link ∈ presentation.links,
    link.targetViewerId ∈ presentation.viewers.map GraphPresentationViewer.id
  bindings : ∀ binding ∈ presentation.bindings,
    binding.sourceViewerId ∈ presentation.viewers.map GraphPresentationViewer.id ∧
      binding.targetViewerId ∈ presentation.viewers.map GraphPresentationViewer.id

theorem validatePresentation_shown {presentation : GraphPresentationDocument}
    (h : validatePresentation presentation = .ok ()) : Shown presentation := by
  unfold validatePresentation at h
  obtain ⟨_, -, h⟩ := bind_ok.mp h
  obtain ⟨_, -, h⟩ := bind_ok.mp h
  obtain ⟨_, hlinks, h⟩ := bind_ok.mp h
  obtain ⟨_, -, h⟩ := bind_ok.mp h
  obtain ⟨_, hbindings, -⟩ := bind_ok.mp h
  constructor
  · intro link hlink
    obtain ⟨_, _, hok⟩ := exists_turn_of_foldlM hlinks link hlink
    obtain ⟨_, hviewer, -⟩ := bind_ok.mp hok
    exact require_ok.mp hviewer
  · intro binding hbinding
    obtain ⟨_, -, hok⟩ := Alignment.exists_right (mapM_ok hbindings) hbinding
    obtain ⟨_, hsource, htarget⟩ := bind_ok.mp hok
    exact ⟨require_ok.mp hsource, require_ok.mp htarget⟩

end Grafy.DocumentRules
