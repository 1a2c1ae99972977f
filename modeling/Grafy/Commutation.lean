import Grafy.CommandParts

/-!
Commands of different authors that write different data. What a command drops
beyond its own data, the edges and origins of a node or a plug it removes, the
other command cannot have written when both orders are accepted: a wire that
is valid after the one is not among those it drops. So either order leads to
the same document, up to the order of lists.
-/
namespace Grafy.Commutation

open CanonicalJson Commands DocumentRules Edits GraphDocuments Loops OrderedDict Project Reloading

variable {a b command : GraphCommand}

section Nodes

/-- The same node up to the order of its bindings; a configuration is what its
fields are. -/
structure NodeAlike (node node' : GraphNode) : Prop where
  kind : node.kind = node'.kind
  id : node.id = node'.id
  operatorId : node.operatorId = node'.operatorId
  operatorVersion : node.operatorVersion = node'.operatorVersion
  config : ∀ field, node.config.get? field = node'.config.get? field
  position : node.position = node'.position
  layout : node.layout = node'.layout
  inputPlugs : node.inputPlugs = node'.inputPlugs
  artifactTypeBindings : node.artifactTypeBindings.Perm node'.artifactTypeBindings

theorem NodeAlike.refl (node : GraphNode) : NodeAlike node node :=
  ⟨rfl, rfl, rfl, rfl, fun _ => rfl, rfl, rfl, rfl, List.Perm.refl _⟩

variable {node : GraphNode}

/-- One of two disjoint commands leaves a target alone. -/
theorem Disjoint.cases (h : Disjoint a b) (target : Target) :
    ¬ Writes a target ∨ ¬ Writes b target := by
  by_cases ha : Writes a target
  · exact Or.inr (fun hb => h target ⟨ha, hb⟩)
  · exact Or.inl ha

theorem bindingEdit_passes (h : Disjoint a b) (id : String)
    (bindings : List GraphArtifactTypeBinding) :
    (bindingEdit a id).Passes (bindingEdit b id) bindings := by
  constructor
  · intro binding _ _
    rw [bindingEdit_change]
  · intro binding hbinding
    have hwrites := writes_of_mem_bindingEdit hbinding
    exact ⟨bindingEdit_keep binding (fun hb => h _ ⟨hwrites, hb⟩), bindingEdit_change binding⟩

theorem nodeChange_comm (h : Disjoint a b) (node : GraphNode) :
    NodeAlike (nodeChange b (nodeChange a node)) (nodeChange a (nodeChange b node)) := by
  refine ⟨rfl, rfl, rfl, rfl, ?_, ?_, ?_, ?_, ?_⟩
  · intro field
    rcases h.cases (.configurationField node.id field) with ha | hb
    · exact (get?_newConfig_congr (get?_newConfig_of_not_writes ha _)).trans
        (get?_newConfig_of_not_writes ha _).symm
    · exact (get?_newConfig_of_not_writes hb _).trans
        (get?_newConfig_congr (get?_newConfig_of_not_writes hb _)).symm
  · rcases h.cases (.position node.id) with ha | hb
    · simp only [nodeChange, newPosition_of_not_writes ha]
    · simp only [nodeChange, newPosition_of_not_writes hb]
  · rcases h.cases (.layout node.id) with ha | hb
    · simp only [nodeChange, newLayout_of_not_writes ha]
    · simp only [nodeChange, newLayout_of_not_writes hb]
  · rcases h.cases (.inputPlugs node.id) with ha | hb
    · simp only [nodeChange, newPlugs_of_not_writes ha]
    · simp only [nodeChange, newPlugs_of_not_writes hb]
  · apply Edit.perm (bindingEdit_passes h node.id _) (bindingEdit_passes h.symm node.id _)
    intro binding _
    simp only [bindingEdit_change]

theorem nodeChange_eq_self (h : ∀ target, target.node? = some node.id → ¬ Writes command target) :
    nodeChange command node = node := by
  unfold nodeChange
  rw [newPosition_of_not_writes (h (.position node.id) rfl),
    newConfig_of_not_writes (fun field => h (.configurationField node.id field) rfl),
    newLayout_of_not_writes (h (.layout node.id) rfl),
    newPlugs_of_not_writes (h (.inputPlugs node.id) rfl),
    bindingEdit_of_not_writes (fun typeVariable => h (.binding node.id typeVariable) rfl)]

theorem writes_of_mem_addedNodes (h : node ∈ addedNodes command) {target : Target}
    (htarget : target.node? = some node.id) : Writes command target := by
  cases command with
  | addNode added | duplicateNode source added =>
    obtain rfl := List.mem_singleton.mp h
    exact htarget
  | _ => simp [addedNodes] at h

theorem writes_of_mem_removedNodes {id : String} (h : id ∈ removedNodes command) :
    Writes command (.node id) := by
  cases command with
  | removeNodes removed => exact ⟨id, h, rfl⟩
  | _ => simp [removedNodes] at h

theorem nodeEdit_passes (h : Disjoint a b) (nodes : List GraphNode) :
    (nodeEdit a).Passes (nodeEdit b) nodes := by
  constructor
  · intro node _ _
    rfl
  · intro node hnode
    constructor
    · simp only [nodeEdit, decide_eq_true_iff]
      intro hremoved
      exact h (.node node.id)
        ⟨writes_of_mem_addedNodes hnode rfl, writes_of_mem_removedNodes hremoved⟩
    · apply nodeChange_eq_self
      intro target htarget hb
      exact h target ⟨writes_of_mem_addedNodes hnode htarget, hb⟩

theorem nodeEdit_reordered (h : Disjoint a b) (nodes : List GraphNode) :
    Reordered NodeAlike ((nodeEdit b).apply ((nodeEdit a).apply nodes))
      ((nodeEdit a).apply ((nodeEdit b).apply nodes)) :=
  Edit.reordered NodeAlike.refl (nodeEdit_passes h nodes) (nodeEdit_passes h.symm nodes)
    (fun node _ => nodeChange_comm h node)

end Nodes

section Wires

variable {W : Type} {wiring : Wiring W} {left right : Written W} {document : GraphDocument}
  {wires : List W} {wire : W}

/-- The wires a command puts into the document. -/
def Written.Puts (written : Written W) (wire : W) : Prop :=
  wire ∈ written.added ∨ written.updated = some wire

theorem wireEdit_passes (hids : (wires.map wiring.idOf).Nodup)
    (hput : ∀ wire, left.Puts wire → KeepsWire wiring b right wire)
    (hapart : ∀ wire, left.Puts wire → ∀ other ∈ right.updated, wiring.idOf wire ≠ wiring.idOf
      other)
    (hfound : ∀ wire ∈ left.updated, ∃ held ∈ wires, wiring.idOf held = wiring.idOf wire ∧ KeepsWire
      wiring b right held) :
    (wireEdit wiring a left).Passes (wireEdit wiring b right) wires := by
  constructor
  · intro held hheld _
    cases hupdated : left.updated with
    | none => simp [wireEdit, hupdated]
    | some wire =>
      by_cases hid : wiring.idOf held = wiring.idOf wire
      · -- the updated wire and the one it replaces are both kept
        obtain ⟨found, hmem, hsame, hkeeps⟩ := hfound wire hupdated
        obtain rfl : found = held := List.inj_on_of_nodup_map hids hmem hheld (hsame.trans hid.symm)
        simp [wireEdit, hupdated, hid, hkeeps, hput wire (Or.inr hupdated)]
      · simp [wireEdit, hupdated, hid]
  · intro wire hwire
    refine ⟨by simpa [wireEdit] using hput wire (Or.inl hwire), ?_⟩
    cases hupdated : right.updated with
    | none => simp [wireEdit, hupdated]
    | some other =>
      have hne := hapart wire (Or.inl hwire) other hupdated
      simp [wireEdit, hupdated, hne]

theorem wireEdit_change_comm
    (hapart : ∀ wire, left.Puts wire → ∀ other ∈ right.updated,
      wiring.idOf wire ≠ wiring.idOf other)
    (held : W) :
    (wireEdit wiring b right).change ((wireEdit wiring a left).change held) =
      (wireEdit wiring a left).change ((wireEdit wiring b right).change held) := by
  cases hleft : left.updated with
  | none => simp [wireEdit, hleft]
  | some wire =>
    cases hright : right.updated with
    | none => simp [wireEdit, hright]
    | some other =>
      have hne := hapart wire (Or.inr hleft) other hright
      simp only [wireEdit, hleft, hright, Option.elim_some]
      by_cases hwire : wiring.idOf held = wiring.idOf wire
      · have hother : wiring.idOf held ≠ wiring.idOf other := fun h => hne (hwire.symm.trans h)
        simp [hwire, hne]
      · by_cases hother : wiring.idOf held = wiring.idOf other
        · simp [hother, Ne.symm hne]
        · simp [hwire, hother]

theorem not_mem_removedNodes (hedit : IsEdit b) {id : String}
    (h : id ∈ nodeIds (outcome document b)) : id ∉ removedNodes b := by
  intro hremoved
  cases b with
  | removeNodes removed =>
    obtain ⟨node, hnode, rfl⟩ := List.mem_map.mp h
    have hkept := (List.mem_filter.mp hnode).2
    simp only [decide_eq_true_iff] at hkept
    exact hkept hremoved
  | _ => simp [removedNodes] at hremoved

theorem plugOf_edited {nodeId plug : String} {command : GraphCommand}
    {edges : List GraphEdge} {origins : List GraphOrigin}
    (h : (plugOf { document with
      nodes := editNode document nodeId (edited command), edges := edges, origins := origins }
      nodeId plug).isSome) :
    ∃ node, plug ∈ plugIds (edited command node).inputPlugs := by
  obtain ⟨target, htarget⟩ := Option.isSome_iff_exists.mp h
  obtain ⟨node, hnode, hplug⟩ := Option.bind_eq_some_iff.mp htarget
  have hfind := find_map_same_id GraphNode.id (edited command) nodeId document.nodes
    (fun held hheld => (edited_id command held).trans hheld)
  obtain ⟨held, -, rfl⟩ := Option.map_eq_some_iff.mp (hfind.symm.trans hnode)
  refine ⟨held, List.mem_map.mpr ⟨target, List.mem_of_find?_eq_some hplug, ?_⟩⟩
  simpa using List.find?_some hplug

theorem mem_retainedPlugs (document : GraphDocument) {nodeId plug : String} {ids : List String}
    (hretained : retainedPlugs b = some (nodeId, ids))
    (h : (plugOf (outcome document b) nodeId plug).isSome) : plug ∈ ids := by
  cases b with
  | setNodeInputPlugs id plugs expected
  | updateNodeConfigurationAndInputPlugs id config plugs expectedConfig expected =>
    cases hretained
    exact (plugOf_edited h).choose_spec
  | _ => simp [retainedPlugs] at hretained

/-- A wire that is valid after a command is not one the command drops. -/
theorem keepsWire_of_valid (hedit : IsEdit b)
    (hends : ∀ id ∈ wiring.ends wire, id ∈ nodeIds (outcome document b))
    (hplug : ∀ plug ∈ wiring.toPlug wire, (plugOf (outcome document b) (wiring.toNode wire)
      plug).isSome) (hdropped : wiring.idOf wire ∉ right.dropped) :
    KeepsWire wiring b right wire := by
  refine ⟨fun id hid => not_mem_removedNodes hedit (hends id hid), ?_, hdropped⟩
  rintro ⟨nodeId, ids⟩ hretained
  by_cases hnode : wiring.toNode wire = nodeId
  · right
    cases htoPlug : wiring.toPlug wire with
    | none => exact Or.inl rfl
    | some plug =>
      right
      refine ⟨plug, rfl, mem_retainedPlugs document hretained ?_⟩
      rw [← hnode]
      exact hplug plug htoPlug
  · exact Or.inl hnode

/-- A wire that another command does not write was there before, and stays. -/
theorem exists_kept_of_mem (h : wire ∈ (wireEdit wiring b right).apply wires)
    (hapart : ∀ other, right.Puts other → wiring.idOf other ≠ wiring.idOf wire) :
    wire ∈ wires ∧ KeepsWire wiring b right wire := by
  rcases List.mem_append.mp h with hkept | hadded
  · obtain ⟨held, hheld, hchange⟩ := List.mem_map.mp hkept
    obtain ⟨hmem, hkeeps⟩ := List.mem_filter.mp hheld
    have hkeeps : KeepsWire wiring b right held := by simpa [wireEdit] using hkeeps
    cases hupdated : right.updated with
    | none =>
      obtain rfl : held = wire := by simpa [wireEdit, hupdated] using hchange
      exact ⟨hmem, hkeeps⟩
    | some other =>
      simp only [wireEdit, hupdated, Option.elim_some] at hchange
      split_ifs at hchange with hid
      · exact absurd (congrArg wiring.idOf hchange) (hapart other (Or.inr hupdated))
      · obtain rfl := hchange
        exact ⟨hmem, hkeeps⟩
  · exact absurd rfl (hapart wire (Or.inl hadded))

theorem wireEdit_perm (hids : (wires.map wiring.idOf).Nodup)
    (hleft : ∀ wire, left.Puts wire → KeepsWire wiring b right wire)
    (hright : ∀ wire, right.Puts wire → KeepsWire wiring a left wire)
    (hapart : ∀ wire, left.Puts wire → ∀ other, right.Puts other → wiring.idOf wire ≠ wiring.idOf
      other)
    (hfound : ∀ wire ∈ left.updated, ∃ held ∈ wires, wiring.idOf held = wiring.idOf wire ∧ KeepsWire
      wiring b right held)
    (hfound' : ∀ wire ∈ right.updated, ∃ held ∈ wires, wiring.idOf held = wiring.idOf wire ∧
      KeepsWire wiring a left held) :
    ((wireEdit wiring b right).apply ((wireEdit wiring a left).apply wires)).Perm
      ((wireEdit wiring a left).apply ((wireEdit wiring b right).apply wires)) := by
  have hapart' : ∀ wire, left.Puts wire → ∀ other ∈ right.updated,
      wiring.idOf wire ≠ wiring.idOf other :=
    fun wire hwire other hother => hapart wire hwire other (Or.inr hother)
  apply Edit.perm
  · exact wireEdit_passes hids hleft hapart' hfound
  · refine wireEdit_passes hids hright ?_ hfound'
    exact fun wire hwire other hother => (hapart other (Or.inr hother) wire hwire).symm
  · exact fun held _ => wireEdit_change_comm hapart' held

end Wires

section Accepted

variable {destination : String → Option String} {a b : GraphCommand} {document : GraphDocument}

/-- The second of two commands, as it is accepted after the first. -/
structure Follows (destination : String → Option String) (document : GraphDocument)
    (first second : GraphCommand) : Prop where
  accepted : applyGraphCommand destination (outcome document first) second =
    .ok (outcome (outcome document first) second)
  rules : validateStructure (outcome (outcome document first) second) = .ok ()

/-- One kind of wire in a document, with what its commands and its rules say
about it. -/
structure Part (destination : String → Option String) (W : Type) where
  wiring : Wiring W
  written : GraphCommand → Written W
  target : String → Target
  wires : GraphDocument → List W
  writes_of_puts : ∀ {command wire}, (written command).Puts wire →
    Writes command (target (wiring.idOf wire))
  writes_of_dropped : ∀ {command id}, id ∈ (written command).dropped → Writes command (target id)
  wires_outcome : ∀ document {command}, IsEdit command →
    wires (outcome document command) =
      (wireEdit wiring command (written command)).apply (wires document)
  puts_accepted : ∀ {document command wire}, (written command).Puts wire →
    applyGraphCommand destination document command = .ok (outcome document command) →
    (outcome document command).nodes = document.nodes ∧ wire ∈ wires (outcome document command) ∧
      ((written command).updated = some wire →
        ∃ held ∈ wires document, wiring.idOf held = wiring.idOf wire)
  ids : ∀ {document}, validateStructure document = .ok () → ((wires document).map wiring.idOf).Nodup
  anchored : ∀ {document}, validateStructure document = .ok () → ∀ wire ∈ wires document,
    (∀ id ∈ wiring.ends wire, id ∈ nodeIds document) ∧
      ∀ plug ∈ wiring.toPlug wire, (plugOf document (wiring.toNode wire) plug).isSome

namespace Part

variable {W : Type} (part : Part destination W)

section

variable (hedit : IsEdit b) (hdisjoint : Disjoint a b) (hfollows : Follows destination document b a)
include hedit hdisjoint hfollows

variable {wire : W}

theorem keepsWire_of_puts (h : (part.written a).Puts wire) :
    KeepsWire part.wiring b (part.written b) wire := by
  obtain ⟨hnodes, hmem, -⟩ := part.puts_accepted h hfollows.accepted
  have hsame : nodeIds (outcome (outcome document b) a) = nodeIds (outcome document b) :=
    congrArg (List.map GraphNode.id) hnodes
  obtain ⟨hends, hplugs⟩ := part.anchored hfollows.rules wire hmem
  rw [hsame] at hends
  refine keepsWire_of_valid hedit hends ?_ ?_
  · intro plug hplug
    have hthere := hplugs plug hplug
    rw [plugOf, hnodes] at hthere
    exact hthere
  · intro hdropped
    exact hdisjoint _ ⟨part.writes_of_puts h, part.writes_of_dropped hdropped⟩

theorem found (h : (part.written a).updated = some wire) :
    ∃ held ∈ part.wires document, part.wiring.idOf held = part.wiring.idOf wire ∧
      KeepsWire part.wiring b (part.written b) held := by
  have hputs : (part.written a).Puts wire := Or.inr h
  obtain ⟨held, hheld, hid⟩ := (part.puts_accepted hputs hfollows.accepted).2.2 h
  have hapart : ∀ other, (part.written b).Puts other →
      part.wiring.idOf other ≠ part.wiring.idOf held := by
    intro other hother hsame
    have hwrites := part.writes_of_puts hother
    rw [hsame.trans hid] at hwrites
    exact hdisjoint _ ⟨part.writes_of_puts hputs, hwrites⟩
  rw [part.wires_outcome document hedit] at hheld
  obtain ⟨hmem, hkeeps⟩ := exists_kept_of_mem hheld hapart
  exact ⟨held, hmem, hid, hkeeps⟩

end

theorem wires_perm (hedit : IsEdit a) (hedit' : IsEdit b) (hdisjoint : Disjoint a b)
    (hrules : validateStructure document = .ok ()) (hab : Follows destination document a b)
    (hba : Follows destination document b a) :
    (part.wires (outcome (outcome document a) b)).Perm
      (part.wires (outcome (outcome document b) a)) := by
  rw [part.wires_outcome _ hedit', part.wires_outcome _ hedit, part.wires_outcome _ hedit,
    part.wires_outcome _ hedit']
  apply wireEdit_perm (part.ids hrules)
  · exact fun wire h => part.keepsWire_of_puts hedit' hdisjoint hba h
  · exact fun wire h => part.keepsWire_of_puts hedit hdisjoint.symm hab h
  · intro wire h other hother hsame
    have hwrites := part.writes_of_puts h
    rw [hsame] at hwrites
    exact hdisjoint _ ⟨hwrites, part.writes_of_puts hother⟩
  · exact fun wire h => part.found hedit' hdisjoint hba h
  · exact fun wire h => part.found hedit hdisjoint.symm hab h

end Part

def edgePart (destination : String → Option String) : Part destination GraphEdge where
  wiring := edgeWiring
  written := writtenEdges
  target := .edge
  wires := GraphDocument.edges
  writes_of_puts := by
    intro command edge h
    cases command with
    | addEdge added =>
      obtain rfl : edge = added := by simpa [Written.Puts, writtenEdges] using h
      rfl
    | updateEdge updated expected =>
      obtain rfl : updated = edge := by simpa [Written.Puts, writtenEdges] using h
      rfl
    | _ => simp [Written.Puts, writtenEdges] at h
  writes_of_dropped := by
    intro command id h
    cases command with
    | removeEdges ids => exact ⟨id, h, rfl⟩
    | _ => simp [writtenEdges] at h
  wires_outcome := fun document _ h => edges_outcome document h
  puts_accepted := by
    intro document command edge h haccepted
    cases command with
    | addEdge added =>
      obtain rfl : edge = added := by simpa [Written.Puts, writtenEdges] using h
      exact ⟨rfl, by simp [outcome], by simp [writtenEdges]⟩
    | updateEdge updated expected =>
      obtain rfl : updated = edge := by simpa [Written.Puts, writtenEdges] using h
      obtain ⟨held, hheld, -⟩ := bind_ok.mp haccepted
      have hfind := edgeOrRaise_ok.mp hheld
      have hmem := List.mem_of_find?_eq_some hfind
      have hid : held.id = updated.id := by simpa using List.find?_some hfind
      exact ⟨rfl, List.mem_map.mpr ⟨held, hmem, by simp [hid]⟩, fun _ => ⟨held, hmem, hid⟩⟩
    | _ => simp [Written.Puts, writtenEdges] at h
  ids := fun h => (validateStructure_plugged h).edgeIds
  anchored := by
    intro document h edge hedge
    obtain ⟨hfrom, hto⟩ := (validateStructure_anchored h).edges edge hedge
    refine ⟨?_, (validateStructure_plugged h).edges edge hedge⟩
    simp only [edgeWiring, List.mem_cons, List.not_mem_nil, or_false]
    rintro id (rfl | rfl)
    · exact hfrom
    · exact hto

def originPart (destination : String → Option String) : Part destination GraphOrigin where
  wiring := originWiring
  written := writtenOrigins
  target := .origin
  wires := GraphDocument.origins
  writes_of_puts := by
    intro command origin h
    cases command with
    | addOrigin added =>
      obtain rfl : origin = added := by simpa [Written.Puts, writtenOrigins] using h
      rfl
    | updateOrigin updated expected =>
      obtain rfl : updated = origin := by simpa [Written.Puts, writtenOrigins] using h
      rfl
    | _ => simp [Written.Puts, writtenOrigins] at h
  writes_of_dropped := by
    intro command id h
    cases command with
    | removeOrigins ids => exact ⟨id, h, rfl⟩
    | _ => simp [writtenOrigins] at h
  wires_outcome := fun document _ h => origins_outcome document h
  puts_accepted := by
    intro document command origin h haccepted
    cases command with
    | addOrigin added =>
      obtain rfl : origin = added := by simpa [Written.Puts, writtenOrigins] using h
      exact ⟨rfl, by simp [outcome], by simp [writtenOrigins]⟩
    | updateOrigin updated expected =>
      obtain rfl : updated = origin := by simpa [Written.Puts, writtenOrigins] using h
      obtain ⟨held, hheld, -⟩ := bind_ok.mp haccepted
      have hfind := originOrRaise_ok.mp hheld
      have hmem := List.mem_of_find?_eq_some hfind
      have hid : held.id = updated.id := by simpa using List.find?_some hfind
      exact ⟨rfl, List.mem_map.mpr ⟨held, hmem, by simp [hid]⟩, fun _ => ⟨held, hmem, hid⟩⟩
    | _ => simp [Written.Puts, writtenOrigins] at h
  ids := fun h => (validateStructure_plugged h).originIds
  anchored := by
    intro document h origin horigin
    have hto := (validateStructure_anchored h).origins origin horigin
    refine ⟨?_, (validateStructure_plugged h).origins origin horigin⟩
    simpa [originWiring] using hto

end Accepted

section OtherParts

variable {agent : GraphAgent}

theorem agentEdit_change (agent : GraphAgent) : (agentEdit command).change agent = agent := by
  cases command <;> rfl

theorem agentEdit_keep (h : ¬ Writes command (.agent agent.id)) :
    (agentEdit command).keep agent = true := by
  cases command with
  | addAgent written | configureAgent written | removeAgent agentId =>
    simp only [agentEdit, decide_eq_true_iff]
    exact fun hsame => h (by rw [Writes, hsame])
  | _ => rfl

theorem writes_of_mem_agentEdit (h : agent ∈ (agentEdit command).added) :
    Writes command (.agent agent.id) := by
  cases command with
  | addAgent written | configureAgent written =>
    obtain rfl := List.mem_singleton.mp h
    rfl
  | _ => simp [agentEdit, Edit.skip] at h

theorem agentEdit_passes (h : Disjoint a b) (agents : List GraphAgent) :
    (agentEdit a).Passes (agentEdit b) agents := by
  constructor
  · intro agent _ _
    rw [agentEdit_change]
  · intro agent hagent
    have hwrites := writes_of_mem_agentEdit hagent
    exact ⟨agentEdit_keep (fun hb => h _ ⟨hwrites, hb⟩), agentEdit_change agent⟩

theorem agents_perm (h : Disjoint a b) (agents : List GraphAgent) :
    ((agentEdit b).apply ((agentEdit a).apply agents)).Perm
      ((agentEdit a).apply ((agentEdit b).apply agents)) := by
  apply Edit.perm (agentEdit_passes h agents) (agentEdit_passes h.symm agents)
  intro agent _
  simp only [agentEdit_change]

/-- Edits that keep the ids and change only what their command writes. -/
theorem moved_comm {A : Type} {edit : GraphCommand → Edit A} {t : A → Target}
    (hkeep : ∀ c x, (edit c).keep x = true) (hadded : ∀ c, (edit c).added = [])
    (hid : ∀ c x, t ((edit c).change x) = t x)
    (hchange : ∀ c x, ¬ Writes c (t x) → (edit c).change x = x)
    (h : Disjoint a b) (l : List A) :
    (edit b).apply ((edit a).apply l) = (edit a).apply ((edit b).apply l) := by
  have hpasses : ∀ c c', (edit c).Passes (edit c') l :=
    fun c c' => ⟨fun x _ _ => by rw [hkeep, hkeep], by simp [hadded]⟩
  apply Edit.comm (hadded a) (hadded b) (hpasses a b) (hpasses b a)
  intro x _
  rcases h.cases (t x) with ha | hb
  · rw [hchange a x ha, hchange a _ (by rwa [hid])]
  · rw [hchange b x hb, hchange b _ (by rwa [hid])]

theorem viewerEdit_keep (viewer : GraphPresentationViewer) :
    (viewerEdit command).keep viewer = true := by
  cases command <;> rfl

theorem viewerEdit_added : (viewerEdit command).added = [] := by
  cases command <;> rfl

theorem viewerEdit_change_id (viewer : GraphPresentationViewer) :
    ((viewerEdit command).change viewer).id = viewer.id := by
  cases command with
  | moveArtifactViewers positions =>
    simp only [viewerEdit, movedViewer]
    cases positionOf positions viewer.id <;> rfl
  | _ => rfl

theorem viewerEdit_change {viewer : GraphPresentationViewer}
    (h : ¬ Writes command (.viewer viewer.id)) : (viewerEdit command).change viewer = viewer := by
  cases command with
  | moveArtifactViewers positions =>
    have hnone : positionOf positions viewer.id = none := by
      apply positionOf_eq_none
      intro move hmove hsame
      exact h ⟨move, hmove, by rw [hsame]⟩
    simp [viewerEdit, movedViewer, hnone]
  | _ => rfl

theorem viewers_comm (h : Disjoint a b) (viewers : List GraphPresentationViewer) :
    (viewerEdit b).apply ((viewerEdit a).apply viewers) =
      (viewerEdit a).apply ((viewerEdit b).apply viewers) :=
  moved_comm (t := fun viewer => .viewer viewer.id) (fun _ => viewerEdit_keep)
    (fun _ => viewerEdit_added) (fun _ viewer => by rw [viewerEdit_change_id])
    (fun _ _ => viewerEdit_change) h viewers

theorem cardEdit_keep (card : GraphPresentationAnnotation) :
    (cardEdit command).keep card = true := by
  cases command <;> rfl

theorem cardEdit_added : (cardEdit command).added = [] := by
  cases command <;> rfl

theorem cardEdit_change_id (card : GraphPresentationAnnotation) :
    ((cardEdit command).change card).id = card.id := by
  cases command with
  | moveAnnotations positions =>
    simp only [cardEdit, movedCard]
    cases positionOf positions card.id <;> rfl
  | _ => rfl

theorem cardEdit_change {card : GraphPresentationAnnotation}
    (h : ¬ Writes command (.card card.id)) : (cardEdit command).change card = card := by
  cases command with
  | moveAnnotations positions =>
    have hnone : positionOf positions card.id = none := by
      apply positionOf_eq_none
      intro move hmove hsame
      exact h ⟨move, hmove, by rw [hsame]⟩
    simp [cardEdit, movedCard, hnone]
  | _ => rfl

theorem cards_comm (h : Disjoint a b) (cards : List GraphPresentationAnnotation) :
    (cardEdit b).apply ((cardEdit a).apply cards) =
      (cardEdit a).apply ((cardEdit b).apply cards) :=
  moved_comm (t := fun card => .card card.id) (fun _ => cardEdit_keep)
    (fun _ => cardEdit_added) (fun _ card => by rw [cardEdit_change_id])
    (fun _ _ => cardEdit_change) h cards

theorem links_comm (links : List GraphPresentationLink) :
    (linkEdit b).apply ((linkEdit a).apply links) =
      (linkEdit a).apply ((linkEdit b).apply links) := by
  have hpasses : ∀ c c' : GraphCommand, (linkEdit c).Passes (linkEdit c') links :=
    fun c c' => ⟨fun _ _ _ => rfl, by simp [linkEdit]⟩
  exact Edit.comm rfl rfl (hpasses a b) (hpasses b a) (fun _ _ => rfl)

end OtherParts

section Documents

variable {destination : String → Option String} {document : GraphDocument}

/-- The same document up to the order of its agents, nodes, edges and origins
and of the nodes' bindings. -/
structure DocumentAlike (document document' : GraphDocument) : Prop where
  agents : document.agents.Perm document'.agents
  nodes : Reordered NodeAlike document.nodes document'.nodes
  edges : document.edges.Perm document'.edges
  origins : document.origins.Perm document'.origins
  presentation : document.presentation = document'.presentation

theorem DocumentAlike.refl (document : GraphDocument) : DocumentAlike document document :=
  ⟨List.Perm.refl _, Reordered.refl NodeAlike.refl _, List.Perm.refl _, List.Perm.refl _, rfl⟩

theorem outcome_comm (hedit : IsEdit a) (hedit' : IsEdit b) (hdisjoint : Disjoint a b)
    (hrules : validateStructure document = .ok ()) (hab : Follows destination document a b)
    (hba : Follows destination document b a) :
    DocumentAlike (outcome (outcome document a) b) (outcome (outcome document b) a) := by
  refine ⟨?_, ?_, (edgePart destination).wires_perm hedit hedit' hdisjoint hrules hab hba,
    (originPart destination).wires_perm hedit hedit' hdisjoint hrules hab hba, ?_⟩
  · rw [agents_outcome _ hedit', agents_outcome _ hedit, agents_outcome _ hedit,
      agents_outcome _ hedit']
    exact agents_perm hdisjoint document.agents
  · rw [nodes_outcome _ hedit', nodes_outcome _ hedit, nodes_outcome _ hedit,
      nodes_outcome _ hedit']
    exact nodeEdit_reordered hdisjoint document.nodes
  · rw [presentation_outcome _ hedit', presentation_outcome _ hedit, presentation_outcome _ hedit,
      presentation_outcome _ hedit']
    rw [viewers_comm hdisjoint, cards_comm hdisjoint, links_comm]

/-- Of the nodes there were, exactly the removed ones are gone. -/
theorem mem_nodeIds_outcome_iff (hedit : IsEdit a) {id : String} (h : id ∈ nodeIds document) :
    id ∈ nodeIds (outcome document a) ↔ id ∉ removedNodes a := by
  constructor
  · exact not_mem_removedNodes hedit
  · intro hstays
    obtain ⟨node, hnode, rfl⟩ := List.mem_map.mp h
    rw [nodeIds, nodes_outcome _ hedit]
    refine List.mem_map.mpr ⟨nodeChange a node, List.mem_append_left _ ?_, rfl⟩
    exact List.mem_map_of_mem (List.mem_filter.mpr ⟨hnode, by simpa [nodeEdit] using hstays⟩)

/-- The generations that are left are those of the nodes neither command
removes. -/
theorem generations_comm (hedit : IsEdit a) (hedit' : IsEdit b) {generations : Dict String ℕ}
    (hkeys : ∀ entry ∈ generations, entry.1 ∈ nodeIds document) :
    (generations.filter (fun entry => entry.1 ∈ nodeIds (outcome document a))).filter
        (fun entry => entry.1 ∈ nodeIds (outcome (outcome document a) b)) =
      (generations.filter (fun entry => entry.1 ∈ nodeIds (outcome document b))).filter
        (fun entry => entry.1 ∈ nodeIds (outcome (outcome document b) a)) := by
  have hboth : ∀ {c c' : GraphCommand}, IsEdit c → IsEdit c' → ∀ {id}, id ∈ nodeIds document →
      (id ∈ nodeIds (outcome (outcome document c) c') ∧ id ∈ nodeIds (outcome document c) ↔
        id ∉ removedNodes c ∧ id ∉ removedNodes c') := by
    intro c c' hc hc' id hid
    constructor
    · rintro ⟨hlast, hmiddle⟩
      exact ⟨not_mem_removedNodes hc hmiddle, not_mem_removedNodes hc' hlast⟩
    · rintro ⟨hfirst, hsecond⟩
      have hmiddle := (mem_nodeIds_outcome_iff hc hid).mpr hfirst
      exact ⟨(mem_nodeIds_outcome_iff hc' hmiddle).mpr hsecond, hmiddle⟩
  rw [List.filter_filter, List.filter_filter]
  apply List.filter_congr
  intro entry hentry
  have hid := hkeys entry hentry
  have hiff := (hboth hedit hedit' hid).trans (and_comm.trans (hboth hedit' hedit hid).symm)
  rw [Bool.eq_iff_iff]
  simp only [Bool.and_eq_true, decide_eq_true_iff]
  exact hiff

end Documents

section Projects

variable {destination : String → Option String} {casefold : String → String} {graphId : String}

structure GraphAlike (graph graph' : GraphDefinition) : Prop where
  id : graph.id = graph'.id
  name : graph.name = graph'.name
  document : DocumentAlike graph.document graph'.document
  refreshGenerations : graph.refreshGenerations = graph'.refreshGenerations

theorem GraphAlike.refl (graph : GraphDefinition) : GraphAlike graph graph :=
  ⟨rfl, rfl, DocumentAlike.refl _, rfl⟩

def ProjectAlike (project project' : ProjectDocument) : Prop :=
  List.Forall₂ GraphAlike project.graphs project'.graphs

/-- An accepted command in a Graph of a valid Project: its outcome takes the
place of the document. -/
theorem inGraph_outcome (hdestination : Normalising destination) {head next : Head}
    (hok : ProjectOk destination casefold head.2) (hgiven : command.Given destination)
    (h : applyProjectCommand casefold destination head.1 head.2 (.inGraph graphId command) = .ok
      next) :
    ∃ graph, head.2.getGraph graphId = some graph ∧
      applyGraphCommand destination graph.document command = .ok (outcome graph.document command) ∧
      DocumentOk destination (outcome graph.document command) ∧
      ProjectOk destination casefold next.2 ∧ next = (head.1, changed head.2 graphId
        (withDocument (outcome graph.document command))) := by
  have hnext := projectOk_apply hdestination hok
    (show ProjectCommand.Given destination (.inGraph graphId command) from hgiven) h
  cases applyProjectCommand_step h with
  | inGraph hgraph hdocument =>
    have hold := (hok.graphs _ (mem_graphs_of_getGraph hgraph).1).document
    obtain rfl := applyGraphCommand_outcome hold hdocument
    exact ⟨_, hgraph, hdocument, documentOk_apply hdestination hold hgiven hdocument, hnext, rfl⟩

theorem changed_changed (project : ProjectDocument) (graphId : String)
    (first second : GraphDefinition → GraphDefinition)
    (hfirst : ∀ graph, (first graph).id = graph.id) :
    changed (changed project graphId first) graphId second =
      changed project graphId (fun graph => second (first graph)) := by
  unfold changed
  simp only [List.map_map]
  congr 1
  apply List.map_congr_left
  intro graph _
  by_cases hid : graph.id = graphId
  · simp [hid, hfirst]
  · simp [hid]

theorem changed_comm (project : ProjectDocument) {otherId : String} (hne : graphId ≠ otherId)
    (first second : GraphDefinition → GraphDefinition)
    (hfirst : ∀ graph, (first graph).id = graph.id)
    (hsecond : ∀ graph, (second graph).id = graph.id) :
    changed (changed project graphId first) otherId second =
      changed (changed project otherId second) graphId first := by
  unfold changed
  simp only [List.map_map]
  congr 1
  apply List.map_congr_left
  intro graph _
  by_cases hid : graph.id = graphId
  · simp [hid, hfirst, hne]
  · by_cases hother : graph.id = otherId
    · simp [hother, hsecond, Ne.symm hne]
    · simp [hid, hother]

theorem changed_alike {project : ProjectDocument} {first second : GraphDefinition → GraphDefinition}
    (h : ∀ graph ∈ project.graphs, graph.id = graphId → GraphAlike (first graph) (second graph)) :
    ProjectAlike (changed project graphId first) (changed project graphId second) := by
  unfold ProjectAlike changed
  rw [List.forall₂_map_left_iff, List.forall₂_map_right_iff, List.forall₂_same]
  intro graph hgraph
  split_ifs with hid
  · exact h graph hgraph hid
  · exact GraphAlike.refl graph

/-- The two orders within one Graph. -/
theorem withDocument_alike {graph : GraphDefinition} (hok : GraphOk destination graph)
    (hedit : IsEdit a) (hedit' : IsEdit b) (hdisjoint : Disjoint a b)
    (hab : Follows destination graph.document a b) (hba : Follows destination graph.document b a) :
    GraphAlike
      (withDocument (outcome (outcome graph.document a) b)
        (withDocument (outcome graph.document a) graph))
      (withDocument (outcome (outcome graph.document b) a)
        (withDocument (outcome graph.document b) graph)) := by
  have hkeys : ∀ entry ∈ graph.refreshGenerations, entry.1 ∈ nodeIds graph.document := by
    intro entry hentry
    exact mem_nodeIds_of_key hok.rules (List.mem_map_of_mem hentry)
  exact ⟨rfl, rfl, outcome_comm hedit hedit' hdisjoint hok.document.rules hab hba,
    generations_comm hedit hedit' hkeys⟩

/-- Two commands in Graphs of one Project that write different data: when both
orders are accepted, they end with the same Project, up to the order of lists. -/
theorem inGraph_commute (hdestination : Normalising destination) {name : String}
    {project : ProjectDocument} (hok : ProjectOk destination casefold project)
    {graphId otherId : String} {a b : GraphCommand} (hgiven : a.Given destination)
    (hgiven' : b.Given destination) (hedit : IsEdit a) (hedit' : IsEdit b)
    (hdisjoint : graphId = otherId → Disjoint a b) {last last' : Head}
    (hab : applyProjectCommands casefold destination name project
      [.inGraph graphId a, .inGraph otherId b] = .ok last)
    (hba : applyProjectCommands casefold destination name project
      [.inGraph otherId b, .inGraph graphId a] = .ok last') :
    last.1 = last'.1 ∧ ProjectAlike last.2 last'.2 := by
  obtain ⟨-, hab⟩ := applyProjectCommands_ok.mp hab
  obtain ⟨-, hba⟩ := applyProjectCommands_ok.mp hba
  obtain ⟨middle, ha, hab⟩ := Applies.cons_iff.mp hab
  obtain ⟨_, hb, hnil⟩ := Applies.cons_iff.mp hab
  cases hnil
  obtain ⟨middle', hb', hba⟩ := Applies.cons_iff.mp hba
  obtain ⟨_, ha', hnil⟩ := Applies.cons_iff.mp hba
  cases hnil
  obtain ⟨graph, hgraph, haccepted, hoka, hokmiddle, rfl⟩ :=
    inGraph_outcome hdestination hok hgiven ha
  obtain ⟨other, hother, haccepted', hokb, hokmiddle', rfl⟩ :=
    inGraph_outcome hdestination hok hgiven' hb'
  obtain ⟨held, hheld, hab', hokab, -, rfl⟩ := inGraph_outcome hdestination hokmiddle hgiven' hb
  obtain ⟨held', hheld', hba', hokba, -, rfl⟩ := inGraph_outcome hdestination hokmiddle' hgiven ha'
  refine ⟨rfl, ?_⟩
  by_cases hsame : graphId = otherId
  · subst hsame
    obtain rfl : graph = other := Option.some.inj (hgraph.symm.trans hother)
    cases hheld.symm.trans (getGraph_changed hgraph _ (withDocument_id _))
    cases hheld'.symm.trans (getGraph_changed hgraph _ (withDocument_id _))
    simp only
    rw [changed_changed _ _ _ _ (withDocument_id _), changed_changed _ _ _ _ (withDocument_id _)]
    apply changed_alike
    intro found hfound hid
    have hids := hok.valid.wellFormed.ids
    obtain ⟨hmem, hid'⟩ := mem_graphs_of_getGraph hgraph
    obtain rfl : found = graph := List.inj_on_of_nodup_map hids hfound hmem (hid.trans hid'.symm)
    exact withDocument_alike (hok.graphs found hfound) hedit hedit' (hdisjoint rfl)
      ⟨hab', hokab.rules⟩ ⟨hba', hokba.rules⟩
  · have hheld₁ := hheld.symm.trans (getGraph_changed_ne (Ne.symm hsame) _ (withDocument_id _))
    have hheld₂ := hheld'.symm.trans (getGraph_changed_ne hsame _ (withDocument_id _))
    cases hheld₁.trans hother
    cases hheld₂.trans hgraph
    simp only
    rw [changed_comm _ hsame _ _ (withDocument_id _) (withDocument_id _)]
    exact List.forall₂_same.mpr (fun found _ => GraphAlike.refl found)

end Projects

section Limits

/-- A field of the one node, set by an author who found none. -/
def setField (field : String) (value : Json) : GraphCommand :=
  .updateNodeConfiguration "load" field value .null

theorem setFields_accepted {field field' : String} (hne : field ≠ field') (value value' : Json) :
    applyProjectCommands id knownDestination "Draft" (limitedProject [])
        [.inGraph "main" (setField field value), .inGraph "main" (setField field' value')] =
      .ok ("Draft", limitedProject [(field, value), (field', value')]) := by
  have hsecond := @setField_accepted [(field, value)] field' (by simp [Dict.get?, hne]) value'
  have hset : Dict.set [(field, value)] field' value' = [(field, value), (field', value')] := by
    simp [Dict.set, hne]
  rw [hset] at hsecond
  exact applyProjectCommands_ok.mpr ⟨by simp, .cons (setField_accepted rfl value)
    (.cons hsecond .nil)⟩

/-- Two authors set different fields of one node; only the order in which the
fields stand differs. -/
theorem setFields_commute : ∃ last last',
    applyProjectCommands id knownDestination "Draft" (limitedProject [])
        [.inGraph "main" (setField "limit" (.int 3)), .inGraph "main" (setField "skip" (.int 4))] =
      .ok last ∧
    applyProjectCommands id knownDestination "Draft" (limitedProject [])
        [.inGraph "main" (setField "skip" (.int 4)), .inGraph "main" (setField "limit" (.int 3))] =
      .ok last' ∧ last.1 = last'.1 ∧ ProjectAlike last.2 last'.2 := by
  have hab : applyProjectCommands id knownDestination "Draft" (limitedProject [])
      [.inGraph "main" (setField "limit" (.int 3)), .inGraph "main" (setField "skip" (.int 4))] =
        .ok ("Draft", limitedProject [("limit", .int 3), ("skip", .int 4)]) :=
    setFields_accepted (by decide) _ _
  have hba : applyProjectCommands id knownDestination "Draft" (limitedProject [])
      [.inGraph "main" (setField "skip" (.int 4)), .inGraph "main" (setField "limit" (.int 3))] =
        .ok ("Draft", limitedProject [("skip", .int 4), ("limit", .int 3)]) :=
    setFields_accepted (by decide) _ _
  have hgiven : ∀ field value, (setField field value).Given knownDestination := fun _ _ => trivial
  refine ⟨_, _, hab, hba, ?_⟩
  refine inGraph_commute knownDestination_normalising (limitedProject_ok []) (hgiven _ _)
    (hgiven _ _) rfl rfl ?_ hab hba
  rintro - target ⟨rfl, hskip⟩
  simp [setField, Writes] at hskip

end Limits

end Grafy.Commutation
