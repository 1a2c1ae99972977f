import Grafy.ExclusiveSlots

/-!
Which documents the validator accepts. A well-formed document is one whose ids are unique,
whose edges, origins and links end at what is there, whose plugs take one edge, and whose
origins have an input position of their own. Positions are compared by a key that is the
plug's id or, without a plug, the port's name: where a plug is called as a port of its node,
the two positions have one key.
-/
namespace Grafy.DocumentRules

open GraphDocuments Loops

/-- The target node, port and plug of an edge or origin. -/
abbrev Position := String × String × Option String

def edgePosition (edge : GraphEdge) : Position := (edge.toNode, edge.toPort, edge.toPlug)

def originPosition (origin : GraphOrigin) : Position :=
  (origin.toNode, origin.toPort, origin.toPlug)

def Position.slot (position : Position) : String × String :=
  graphInputSlot position.1 position.2.1 position.2.2

/-- The node has the plug, and the plug belongs to the port. -/
def HasPlug (document : GraphDocument) (toNode toPort plug : String) : Prop :=
  ∃ node ∈ document.nodes, node.id = toNode ∧ ∃ target ∈ node.inputPlugs,
    target.id = plug ∧ target.port = toPort

structure WellFormed (document : GraphDocument) : Prop where
  agentIds : (document.agents.map GraphAgent.id).Nodup
  nodeIds : (nodeIds document).Nodup
  edgeIds : (document.edges.map GraphEdge.id).Nodup
  originIds : (document.origins.map GraphOrigin.id).Nodup
  plugIds : ∀ node ∈ document.nodes, (node.inputPlugs.map GraphInputPlug.id).Nodup
  edgeEnds : ∀ edge ∈ document.edges,
    edge.fromNode ∈ DocumentRules.nodeIds document ∧ edge.toNode ∈ DocumentRules.nodeIds document
  edgePlugs : ∀ edge ∈ document.edges, ∀ plug ∈ edge.toPlug,
    HasPlug document edge.toNode edge.toPort plug
  onePerPlug : (document.edges.filterMap plugKey).Nodup
  originEnds : ∀ origin ∈ document.origins, origin.toNode ∈ DocumentRules.nodeIds document
  originPlugs : ∀ origin ∈ document.origins, ∀ plug ∈ origin.toPlug,
    HasPlug document origin.toNode origin.toPort plug
  originsApart : (document.origins.map originPosition).Nodup
  edgesApart : ∀ edge ∈ document.edges, edge.enabled → ∀ origin ∈ document.origins,
    edgePosition edge ≠ originPosition origin
  links : ∀ link ∈ document.presentation.links, link.sourceNodeId ∈ DocumentRules.nodeIds document

/-- The positions something feeds: those of the enabled edges and of the origins. -/
def feeds (document : GraphDocument) : List Position :=
  (document.edges.filter GraphEdge.enabled).map edgePosition ++ document.origins.map originPosition

/-- The first names a plug that is called as the port of the second, which names no plug. -/
def Shadows (p q : Position) : Prop := p.1 = q.1 ∧ p.2.2 = some q.2.1 ∧ q.2.2 = none

/-- No origin's plug is called as a port that is fed without a plug, and no origin without a
plug ends at a port that is called as a fed plug. -/
def Unshadowed (document : GraphDocument) : Prop :=
  ∀ p ∈ feeds document, ∀ q ∈ document.origins.map originPosition, ¬ Shadows p q ∧ ¬ Shadows q p

variable {document : GraphDocument} {p : Position} {q : Position} {toNode toPort : String}
  {toPlug : Option String}

theorem mem_feeds : p ∈ feeds document ↔
    (∃ edge ∈ document.edges, edge.enabled ∧ edgePosition edge = p) ∨
      ∃ origin ∈ document.origins, originPosition origin = p := by
  simp [feeds, and_assoc]

theorem Shadows.slot (h : Shadows p q) : p.slot = q.slot := by
  obtain ⟨hnode, hplug, hnone⟩ := h
  simp [Position.slot, graphInputSlot, hnode, hplug, hnone]

theorem Shadows.ne (h : Shadows p q) : p ≠ q := by
  rintro rfl
  exact Option.some_ne_none _ (h.2.1.symm.trans h.2.2)

theorem PortOf.hasPlug (h : PortOf document toNode toPort toPlug) :
    ∀ plug ∈ toPlug, HasPlug document toNode toPort plug := by
  intro plug hplug
  obtain ⟨target, hfound, hport⟩ := h plug hplug
  obtain ⟨node, hnode, hplugs⟩ := Option.bind_eq_some_iff.mp hfound
  exact ⟨node, List.mem_of_find?_eq_some hnode, by simpa using List.find?_some hnode,
    target, List.mem_of_find?_eq_some hplugs, by simpa using List.find?_some hplugs, hport⟩

theorem portOf_of_hasPlug (hnodes : (nodeIds document).Nodup)
    (hplugs : ∀ node ∈ document.nodes, (node.inputPlugs.map GraphInputPlug.id).Nodup)
    (h : ∀ plug ∈ toPlug, HasPlug document toNode toPort plug) :
    PortOf document toNode toPort toPlug := by
  intro plug hplug
  obtain ⟨node, hnode, rfl, target, htarget, rfl, hport⟩ := h plug hplug
  refine ⟨target, ?_, hport⟩
  rw [plugOf, find?_by_key GraphNode.id hnodes hnode]
  exact find?_by_key GraphInputPlug.id (hplugs node hnode) htarget

/-- Two positions with one key are one position, or one shadows the other. -/
theorem eq_or_shadows (hp : PortOf document p.1 p.2.1 p.2.2) (hq : PortOf document q.1 q.2.1 q.2.2)
    (h : p.slot = q.slot) : p = q ∨ Shadows p q ∨ Shadows q p := by
  obtain ⟨node, port, plug⟩ := p
  obtain ⟨node', port', plug'⟩ := q
  obtain ⟨hnode, hkey⟩ := Prod.mk.inj h
  dsimp only at hnode hkey hp hq
  subst hnode
  cases plug with
  | none =>
    cases plug' with
    | none => exact Or.inl (by rw [show port = port' from hkey])
    | some plug' => exact Or.inr (Or.inr ⟨rfl, congrArg some hkey.symm, rfl⟩)
  | some plug =>
    cases plug' with
    | none => exact Or.inr (Or.inl ⟨rfl, congrArg some hkey, rfl⟩)
    | some plug' =>
      obtain rfl : plug = plug' := hkey
      obtain ⟨target, htarget, rfl⟩ := hp plug rfl
      obtain ⟨target', htarget', rfl⟩ := hq plug rfl
      cases htarget.symm.trans htarget'
      exact Or.inl rfl

theorem WellFormed.feedPorts (h : WellFormed document) :
    ∀ p ∈ feeds document, PortOf document p.1 p.2.1 p.2.2 := by
  intro p hp
  rcases mem_feeds.mp hp with ⟨edge, hedge, -, rfl⟩ | ⟨origin, horigin, rfl⟩
  · exact portOf_of_hasPlug h.nodeIds h.plugIds (h.edgePlugs edge hedge)
  · exact portOf_of_hasPlug h.nodeIds h.plugIds (h.originPlugs origin horigin)

theorem Accepted.wellFormed (h : Accepted document) : WellFormed document where
  agentIds := h.agentIds
  nodeIds := h.anchored.nodeIds
  edgeIds := h.edgeIds
  originIds := h.originIds
  plugIds := h.plugIds
  edgeEnds := h.anchored.edges
  edgePlugs := fun edge hedge => (h.exclusive.edgePorts edge hedge).hasPlug
  onePerPlug := h.exclusive.plugs
  originEnds := h.anchored.origins
  originPlugs := fun origin horigin => (h.exclusive.originPorts origin horigin).hasPlug
  originsApart := List.Nodup.of_map Position.slot (by rw [List.map_map]; exact h.exclusive.origins)
  edgesApart := fun edge hedge henabled origin horigin hsame =>
    h.exclusive.apart edge hedge henabled origin horigin (congrArg Position.slot hsame)
  links := h.links

/-- Feeds of an accepted document with one key are one feed. -/
theorem Accepted.feeds_eq (h : Accepted document) (hp : p ∈ feeds document)
    (hq : q ∈ document.origins.map originPosition) (hslot : p.slot = q.slot) : p = q := by
  obtain ⟨origin, horigin, rfl⟩ := List.mem_map.mp hq
  rcases mem_feeds.mp hp with ⟨edge, hedge, henabled, rfl⟩ | ⟨other, hother, rfl⟩
  · exact absurd hslot (h.exclusive.apart edge hedge henabled origin horigin)
  · exact congrArg originPosition
      (List.inj_on_of_nodup_map h.exclusive.origins hother horigin hslot)

theorem WellFormed.accepted (h : WellFormed document) (hclear : Unshadowed document) :
    Accepted document := by
  have hone : ∀ p ∈ feeds document, ∀ q ∈ document.origins.map originPosition,
      p.slot = q.slot → p = q := by
    intro p hp q hq hslot
    have hqfeed : q ∈ feeds document := List.mem_append_right _ hq
    rcases eq_or_shadows (h.feedPorts p hp) (h.feedPorts q hqfeed) hslot with heq | hpq | hqp
    · exact heq
    · exact absurd hpq (hclear p hp q hq).1
    · exact absurd hqp (hclear p hp q hq).2
  refine ⟨h.agentIds, h.edgeIds, h.originIds, h.plugIds,
    ⟨h.nodeIds, h.edgeEnds, h.originEnds⟩, ⟨?_, ?_, h.onePerPlug, ?_, ?_⟩, h.links⟩
  · exact fun edge hedge => portOf_of_hasPlug h.nodeIds h.plugIds (h.edgePlugs edge hedge)
  · exact fun origin horigin =>
      portOf_of_hasPlug h.nodeIds h.plugIds (h.originPlugs origin horigin)
  · have hnodup : ((document.origins.map originPosition).map Position.slot).Nodup :=
      List.Nodup.map_on (fun p hp q hq => hone p (List.mem_append_right _ hp) q hq)
        h.originsApart
    rwa [List.map_map] at hnodup
  · intro edge hedge henabled origin horigin hslot
    have hfeed : edgePosition edge ∈ feeds document :=
      mem_feeds.mpr (Or.inl ⟨edge, hedge, henabled, rfl⟩)
    exact h.edgesApart edge hedge henabled origin horigin
      (hone _ hfeed _ (List.mem_map_of_mem horigin) hslot)

theorem accepted_iff :
    validateStructure document = .ok () ↔ WellFormed document ∧ Unshadowed document := by
  rw [validateStructure_iff]
  constructor
  · intro h
    refine ⟨h.wellFormed, fun p hp q hq => ⟨fun hshadows => ?_, fun hshadows => ?_⟩⟩
    · exact hshadows.ne (h.feeds_eq hp hq hshadows.slot)
    · exact hshadows.ne (h.feeds_eq hp hq hshadows.slot.symm).symm
  · exact fun h => h.1.accepted h.2

/-- The document with its lists in another order. -/
structure Reordered (document other : GraphDocument) : Prop where
  agents : document.agents.Perm other.agents
  nodes : document.nodes.Perm other.nodes
  edges : document.edges.Perm other.edges
  origins : document.origins.Perm other.origins
  links : document.presentation.links.Perm other.presentation.links

variable {other : GraphDocument}

section

variable (h : Reordered document other)
include h

theorem Reordered.symm : Reordered other document :=
  ⟨h.agents.symm, h.nodes.symm, h.edges.symm, h.origins.symm, h.links.symm⟩

theorem Reordered.hasPlug {toNode toPort plug : String}
    (hplug : HasPlug document toNode toPort plug) : HasPlug other toNode toPort plug := by
  obtain ⟨node, hnode, hrest⟩ := hplug
  exact ⟨node, h.nodes.mem_iff.mp hnode, hrest⟩

theorem Reordered.wellFormed (hformed : WellFormed document) : WellFormed other := by
  have hnodes : (nodeIds document).Perm (nodeIds other) := h.nodes.map _
  have hedges := fun edge => (h.edges.mem_iff (a := edge)).mpr
  have horigins := fun origin => (h.origins.mem_iff (a := origin)).mpr
  exact {
    agentIds := (h.agents.map _).nodup_iff.mp hformed.agentIds
    nodeIds := hnodes.nodup_iff.mp hformed.nodeIds
    edgeIds := (h.edges.map _).nodup_iff.mp hformed.edgeIds
    originIds := (h.origins.map _).nodup_iff.mp hformed.originIds
    plugIds := fun node hnode => hformed.plugIds node (h.nodes.mem_iff.mpr hnode)
    edgeEnds := fun edge hedge => (hformed.edgeEnds edge (hedges edge hedge)).imp
      hnodes.mem_iff.mp hnodes.mem_iff.mp
    edgePlugs := fun edge hedge plug hplug =>
      h.hasPlug (hformed.edgePlugs edge (hedges edge hedge) plug hplug)
    onePerPlug := (h.edges.filterMap _).nodup_iff.mp hformed.onePerPlug
    originEnds := fun origin horigin =>
      hnodes.mem_iff.mp (hformed.originEnds origin (horigins origin horigin))
    originPlugs := fun origin horigin plug hplug =>
      h.hasPlug (hformed.originPlugs origin (horigins origin horigin) plug hplug)
    originsApart := (h.origins.map _).nodup_iff.mp hformed.originsApart
    edgesApart := fun edge hedge henabled origin horigin =>
      hformed.edgesApart edge (hedges edge hedge) henabled origin (horigins origin horigin)
    links := fun link hlink =>
      hnodes.mem_iff.mp (hformed.links link (h.links.mem_iff.mpr hlink)) }

theorem Reordered.unshadowed (hclear : Unshadowed document) : Unshadowed other := by
  have hfeeds : (feeds document).Perm (feeds other) :=
    ((h.edges.filter _).map _).append (h.origins.map _)
  exact fun p hp q hq =>
    hclear p (hfeeds.mem_iff.mpr hp) q ((h.origins.map _).mem_iff.mpr hq)

end

variable {slots : Slots} {feed input node : String}

theorem checkEdge_ne_slotTaken {edge : GraphEdge} :
    checkEdge document slots edge ≠ .error (.slotTaken input node feed) := by
  intro h
  unfold checkEdge at h
  extract_lets slot slots at h
  split_ifs at h
  · split at h
    · cases h
    split at h
    · cases h
    split_ifs at h <;> cases h
  · cases h
  · cases h

variable {origin : GraphOrigin}

theorem checkOriginPlug_ne_slotTaken :
    checkOriginPlug document origin ≠ .error (.slotTaken input node feed) := by
  intro h
  unfold checkOriginPlug at h
  split at h
  · cases h
  split at h
  · cases h
  split_ifs at h
  cases h

theorem checkOrigin_slotTaken
    (h : checkOrigin document slots origin = .error (.slotTaken input node feed)) :
    PortOf document origin.toNode origin.toPort origin.toPlug ∧
      (slots.enabledSlots.get? (originSlot origin)).isSome := by
  unfold checkOrigin at h
  split_ifs at h with hto
  · cases hcheck : checkOriginPlug document origin with
    | error e =>
      rw [hcheck] at h
      exact absurd (hcheck.trans (by simpa using h)) checkOriginPlug_ne_slotTaken
    | ok u =>
      refine ⟨checkOriginPlug_ok hcheck, ?_⟩
      rw [hcheck] at h
      cases hget : slots.enabledSlots.get? (originSlot origin) with
      | none =>
        rw [originSlot] at hget
        simp [hget] at h
      | some feed => rfl
  · cases h

/-- The key of the origin at which the loop stops is that of a feed. -/
theorem slotTaken_feed (h : validateStructure document = .error (.slotTaken input node feed)) :
    ∃ before origin after, document.origins = before ++ origin :: after ∧
      PortOf document origin.toNode origin.toPort origin.toPlug ∧
      (∀ edge ∈ document.edges, PortOf document edge.toNode edge.toPort edge.toPlug) ∧
      (∀ other ∈ before, PortOf document other.toNode other.toPort other.toPlug) ∧
      ((∃ edge ∈ document.edges, edge.enabled ∧ edgeSlot edge = originSlot origin) ∨
        ∃ other ∈ before, originSlot other = originSlot origin) := by
  unfold validateStructure at h
  rcases bind_error.mp h with h | ⟨_, -, h⟩
  · cases (require_error.mp h).2
  rcases bind_error.mp h with h | ⟨_, -, h⟩
  · cases (require_error.mp h).2
  rcases bind_error.mp h with h | ⟨_, -, h⟩
  · cases (require_error.mp h).2
  rcases bind_error.mp h with h | ⟨_, -, h⟩
  · cases (require_error.mp h).2
  rcases bind_error.mp h with h | ⟨_, -, h⟩
  · obtain ⟨_, -, h⟩ := mapM_error h
    cases (require_error.mp h).2
  rcases bind_error.mp h with h | ⟨slots, hedges, h⟩
  · obtain ⟨_, _, _, _, -, -, h⟩ := foldlM_error h
    exact absurd h checkEdge_ne_slotTaken
  rcases bind_error.mp h with h | ⟨_, -, h⟩
  · obtain ⟨before, origin, after, met, hsplit, hbefore, h⟩ := foldlM_error h
    have hnoted := edges_noted hedges
    have hmet := @origins_noted { document with origins := before } _ _
      ⟨hnoted.ports, hnoted.plugs, hnoted.connected, hnoted.enabled⟩ hbefore
    obtain ⟨hport, htaken⟩ := checkOrigin_slotTaken h
    exact ⟨before, origin, after, hsplit, hport, hnoted.ports, hmet.ports,
      (hmet.enabled _).mp htaken⟩
  rcases bind_error.mp h with h | ⟨_, -, h⟩
  · obtain ⟨_, -, h⟩ := mapM_error h
    cases (require_error.mp h).2
  · cases h

/-- An origin of an input position that an enabled edge or an earlier origin feeds. -/
def Contested (document : GraphDocument) : Prop :=
  ∃ before origin after, document.origins = before ++ origin :: after ∧
    ((∃ edge ∈ document.edges, edge.enabled ∧ edgePosition edge = originPosition origin) ∨
      ∃ other ∈ before, originPosition other = originPosition origin)

/-- Without shadows a conflict is reported only where one position is fed twice. -/
theorem contested_of_slotTaken (hclear : Unshadowed document)
    (h : validateStructure document = .error (.slotTaken input node feed)) :
    Contested document := by
  obtain ⟨before, origin, after, hsplit, hport, hedgePorts, hports, hmet⟩ := slotTaken_feed h
  have horigin : origin ∈ document.origins := by simp [hsplit]
  have hbefore : ∀ other ∈ before, other ∈ document.origins := by
    intro other hother
    simp [hsplit, hother]
  have hone : ∀ p ∈ feeds document, PortOf document p.1 p.2.1 p.2.2 →
      p.slot = (originPosition origin).slot → p = originPosition origin := by
    intro p hp hpport hslot
    obtain ⟨hpq, hqp⟩ := hclear p hp _ (List.mem_map_of_mem horigin)
    exact (eq_or_shadows hpport hport hslot).resolve_right
      (fun hshadows => hshadows.elim hpq hqp)
  refine ⟨before, origin, after, hsplit, ?_⟩
  rcases hmet with ⟨edge, hedge, henabled, hslot⟩ | ⟨other, hother, hslot⟩
  · exact Or.inl ⟨edge, hedge, henabled,
      hone _ (mem_feeds.mpr (Or.inl ⟨edge, hedge, henabled, rfl⟩)) (hedgePorts edge hedge) hslot⟩
  · exact Or.inr ⟨other, hother,
      hone _ (mem_feeds.mpr (Or.inr ⟨other, hbefore other hother, rfl⟩)) (hports other hother)
        hslot⟩

/-- The validator accepts exactly the well-formed documents where no well-formed document is
shadowed, names a conflict only where there is one if nothing is shadowed, and never depends
on the order of the lists. -/
theorem accepts_exactly_iff (document : GraphDocument) :
    ((validateStructure document = .ok () ↔ WellFormed document) ↔
      (WellFormed document → Unshadowed document)) ∧
    (Unshadowed document → ∀ input node feed,
      validateStructure document = .error (.slotTaken input node feed) → Contested document) ∧
    ∀ other, Reordered document other →
      (validateStructure document = .ok () ↔ validateStructure other = .ok ()) := by
  refine ⟨?_, fun hclear _ _ _ => contested_of_slotTaken hclear, fun other hother => ?_⟩
  · rw [accepted_iff]
    exact ⟨fun h hformed => (h.mpr hformed).2, fun h => ⟨And.left, fun hformed =>
      ⟨hformed, h hformed⟩⟩⟩
  · rw [accepted_iff, accepted_iff]
    exact ⟨fun h => ⟨hother.wellFormed h.1, hother.unshadowed h.2⟩,
      fun h => ⟨hother.symm.wellFormed h.1, hother.symm.unshadowed h.2⟩⟩

section Example

/-- A node whose port `image` has a plug called as its other port `mask`. -/
def maskedNode : GraphNode :=
  { (default : GraphNode) with id := "blend", inputPlugs := [⟨"mask", "image"⟩] }

def feedOf (id port : String) (plug : Option String) : GraphOrigin :=
  ⟨id, "blend", port, plug, .ref ⟨"a", "image", 1, none⟩, .direct, []⟩

def maskedDocument : GraphDocument :=
  ⟨[], [maskedNode], [], [feedOf "o1" "image" (some "mask"), feedOf "o2" "mask" none],
    ⟨[], [], [], []⟩⟩

/-- Origins of two ports of a node are refused as those of one input. -/
theorem maskedDocument_refused :
    ¬ (validateStructure maskedDocument = .ok () ↔ WellFormed maskedDocument) ∧
      validateStructure maskedDocument = .error (.slotTaken "mask" "blend" "o1") := by
  have hrefused : validateStructure maskedDocument = .error (.slotTaken "mask" "blend" "o1") := by
    decide
  refine ⟨fun h => ?_, hrefused⟩
  have hplug : HasPlug maskedDocument "blend" "image" "mask" :=
    ⟨maskedNode, List.mem_singleton_self _, rfl, ⟨"mask", "image"⟩, List.mem_singleton_self _,
      rfl, rfl⟩
  have hformed : WellFormed maskedDocument := by
    constructor
    case originPlugs =>
      rintro origin horigin plug hplugged
      rcases List.mem_cons.mp horigin with rfl | horigin
      · obtain rfl : "mask" = plug := Option.some.inj hplugged
        exact hplug
      · obtain rfl := List.mem_singleton.mp horigin
        cases hplugged
    case edgePlugs => exact fun _ hedge => absurd hedge List.not_mem_nil
    all_goals decide
  exact absurd (hrefused.symm.trans (h.mpr hformed)) (by decide)

end Example

end Grafy.DocumentRules
