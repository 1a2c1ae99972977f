import Grafy.ExclusiveSlots
import Grafy.ExpansionInstances
import Grafy.InputCompleteness

/-!
The canvas's readiness check against the runner's. Both ask which plugs and ports of a node
an enabled edge or an origin ends at; they part over a plug that nothing feeds. The runner
refuses every such plug. The canvas asks for those of required ports only, and of a
collection only that one of them is fed.
-/
namespace Grafy.InputCompleteness

open DocumentRules Expansion GraphDocuments Instances Loops NodeContracts Project

section Conditions

variable (document : GraphDocument) (node : GraphNode) (ports : List InputPortSpec)
  (collection : Bool)

/-- An enabled edge or an origin ends at this place of the node. -/
def Fed (port : String) (plug : Option String) : Prop :=
  (∃ edge ∈ document.edges, edge.enabled ∧ edge.toNode = node.id ∧ edge.toPort = port ∧
      edge.toPlug = plug) ∨
    ∃ origin ∈ document.origins, origin.toNode = node.id ∧ origin.toPort = port ∧
      origin.toPlug = plug

/-- Some required input has no value, or not all that it needs. -/
def Lacking : Prop :=
  ∃ port ∈ ports, port.required ∧
    (port.instancePlugs ∧
        ((∀ plug ∈ node.inputPlugs, plug.port = port.name →
            ¬ Fed document node port.name (some plug.id)) ∨
          ¬ collection ∧ ∃ plug ∈ node.inputPlugs, plug.port = port.name ∧
            ¬ Fed document node port.name (some plug.id)) ∨
      ¬ port.instancePlugs ∧ ¬ Fed document node port.name none)

/-- A plug without a value at a port that is not required, or of a collection that has a
member at the port. -/
def Spare (plug : GraphInputPlug) : Prop :=
  plug ∈ node.inputPlugs ∧ ¬ Fed document node plug.port (some plug.id) ∧
    ∀ port ∈ ports, port.name = plug.port → port.required → port.instancePlugs →
      collection ∧ ∃ other ∈ node.inputPlugs, other.port = plug.port ∧
        Fed document node plug.port (some other.id)

/-- Every edge and every origin at the node ends at a declared port, and at a plug just when
the port takes plugs. -/
structure Targeted : Prop where
  edges : ∀ edge ∈ document.edges, edge.toNode = node.id →
    ∃ port ∈ ports, port.name = edge.toPort ∧ (edge.toPlug.isSome ↔ port.instancePlugs)
  origins : ∀ origin ∈ document.origins, origin.toNode = node.id →
    ∃ port ∈ ports, port.name = origin.toPort ∧ (origin.toPlug.isSome ↔ port.instancePlugs)

/-- A node on the canvas. -/
def shownNode (title : String) (supported : Bool) : WorkflowNode :=
  ⟨node.id, node.operatorId, title, supported, ports, node.inputPlugs⟩

/-- An edge on the canvas, with a handle that encodes its port and plug. -/
def shownEdge (edge : GraphEdge) : WorkflowEdge :=
  ⟨edge.fromNode, edge.toNode, some ⟨edge.toPort, edge.toPlug⟩, some edge.enabled⟩

end Conditions

variable {document : GraphDocument} {node : GraphNode} {ports : List InputPortSpec}
  {plug : GraphInputPlug}

section Feeds

theorem fed_port (htargets : Targeted document node ports) {port : String} {plug : Option String}
    (h : Fed document node port plug) :
    ∃ spec ∈ ports, spec.name = port ∧ (plug.isSome ↔ spec.instancePlugs) := by
  rcases h with ⟨edge, hedge, -, hnode, rfl, rfl⟩ | ⟨origin, horigin, hnode, rfl, rfl⟩
  · exact htargets.edges edge hedge hnode
  · exact htargets.origins origin horigin hnode

theorem eq_of_name (hnames : (ports.map InputPortSpec.name).Nodup) {a b : InputPortSpec}
    (ha : a ∈ ports) (hb : b ∈ ports) (hname : a.name = b.name) : a = b :=
  List.inj_on_of_nodup_map hnames ha hb hname

section

variable (hvalid : validateStructure document = .ok ()) (hnode : node ∈ document.nodes)
  (hplug : plug ∈ node.inputPlugs)
include hvalid hnode hplug

theorem plugOf_of_mem : plugOf document node.id plug.id = some plug := by
  have hstructured := validateStructure_ok.mp hvalid
  obtain ⟨checked, hchecked⟩ := hstructured.plugs
  obtain ⟨_, -, hcheck⟩ := Alignment.exists_right (mapM_ok hchecked) hnode
  unfold plugOf
  rw [find?_by_key GraphNode.id hstructured.nodeIds hnode, Option.bind_some]
  exact find?_by_key GraphInputPlug.id (require_ok.mp hcheck) hplug

/-- What feeds a plug of the node feeds it at its own port. -/
theorem fed_of_plug {port : String} (h : Fed document node port (some plug.id)) :
    port = plug.port := by
  have hexclusive := validateStructure_exclusive hvalid
  have hown := plugOf_of_mem hvalid hnode hplug
  rcases h with ⟨edge, hedge, -, hto, rfl, hedgePlug⟩ | ⟨origin, horigin, hto, rfl, horiginPlug⟩
  · obtain ⟨target, hfound, hport⟩ := hexclusive.edgePorts edge hedge plug.id hedgePlug
    rw [hto, hown] at hfound
    cases hfound
    exact hport.symm
  · obtain ⟨target, hfound, hport⟩ := hexclusive.originPorts origin horigin plug.id horiginPlug
    rw [hto, hown] at hfound
    cases hfound
    exact hport.symm

end

end Feeds

section Canvas

variable {title : String} {supported : Bool} {port : InputPortSpec}

theorem plugFilled_iff (hvalid : validateStructure document = .ok ())
    (hnode : node ∈ document.nodes) {plug : GraphInputPlug} (hplug : plug ∈ node.inputPlugs)
    (hport : plug.port = port.name) :
    plugFilled (document.edges.map shownEdge) document.origins
        (shownNode node ports title supported) port plug ↔
      Fed document node port.name (some plug.id) := by
  have hedges : (∃ edge ∈ document.edges, edge.enabled ∧ edge.toNode = node.id ∧
      edge.toPlug = some plug.id) ↔ ∃ edge ∈ document.edges, edge.enabled ∧
        edge.toNode = node.id ∧ edge.toPort = port.name ∧ edge.toPlug = some plug.id := by
    constructor
    · rintro ⟨edge, hedge, henabled, hto, hedgePlug⟩
      have hfed : Fed document node edge.toPort (some plug.id) :=
        Or.inl ⟨edge, hedge, henabled, hto, rfl, hedgePlug⟩
      exact ⟨edge, hedge, henabled, hto, (fed_of_plug hvalid hnode hplug hfed).trans hport,
        hedgePlug⟩
    · rintro ⟨edge, hedge, henabled, hto, -, hedgePlug⟩
      exact ⟨edge, hedge, henabled, hto, hedgePlug⟩
  rw [Fed, ← hedges]
  unfold plugFilled
  rw [List.any_map]
  change (document.edges.any (fun edge => some edge.enabled ≠ some false &&
      decide (edge.toNode = node.id) && decide (edge.toPlug = some plug.id)) ||
    document.origins.any (fun origin => decide (origin.toNode = node.id) &&
      decide (origin.toPort = port.name) && decide (origin.toPlug = some plug.id))) = true ↔ _
  simp [and_assoc]

theorem portFilled_iff (hnames : (ports.map InputPortSpec.name).Nodup)
    (htargets : Targeted document node ports) {port : InputPortSpec} (hport : port ∈ ports)
    (hplain : ¬ port.instancePlugs) :
    portFilled (document.edges.map shownEdge) document.origins
        (shownNode node ports title supported) port ↔ Fed document node port.name none := by
  have hedges : (∃ edge ∈ document.edges, edge.enabled ∧ edge.toNode = node.id ∧
      edge.toPort = port.name) ↔ ∃ edge ∈ document.edges, edge.enabled ∧
        edge.toNode = node.id ∧ edge.toPort = port.name ∧ edge.toPlug = none := by
    constructor
    · rintro ⟨edge, hedge, henabled, hto, hedgePort⟩
      obtain ⟨spec, hspec, hname, hplug⟩ := htargets.edges edge hedge hto
      obtain rfl := eq_of_name hnames hspec hport (hname.trans hedgePort)
      refine ⟨edge, hedge, henabled, hto, hedgePort, ?_⟩
      rw [← Option.not_isSome_iff_eq_none, hplug]
      exact hplain
    · rintro ⟨edge, hedge, henabled, hto, hedgePort, -⟩
      exact ⟨edge, hedge, henabled, hto, hedgePort⟩
  rw [Fed, ← hedges]
  unfold portFilled
  rw [List.any_map]
  change (document.edges.any (fun edge => some edge.enabled ≠ some false &&
      decide (edge.toNode = node.id) && decide (some edge.toPort = some port.name)) ||
    document.origins.any (fun origin => decide (origin.toNode = node.id) &&
      decide (origin.toPort = port.name) && decide (origin.toPlug = none))) = true ↔ _
  simp [and_assoc]

theorem flatMap_zipIdx_eq_nil {A : Type} {l : List Bool} {f : ℕ → A} :
    l.zipIdx.flatMap (fun x => if x.1 then [] else [f x.2]) = [] ↔ ∀ b ∈ l, b = true := by
  rw [List.flatMap_eq_nil_iff]
  constructor
  · intro h b hb
    obtain ⟨i, hi⟩ := List.mem_iff_getElem?.mp hb
    have hnil := h (b, i) (List.mem_zipIdx_iff_getElem?.mpr hi)
    cases b with
    | true => rfl
    | false => cases hnil
  · rintro h ⟨b, i⟩ hb
    have htrue := h b (List.fst_mem_of_mem_zipIdx hb)
    simp [htrue]

/-- What a port needs on the canvas for nothing to be reported of it. -/
theorem missingAtPort_eq_nil {edges : List WorkflowEdge} {origins : List GraphOrigin}
    {shown : WorkflowNode} :
    missingAtPort edges origins shown port = [] ↔
      (port.required → port.instancePlugs →
        (∃ plug ∈ shown.inputPlugs, plug.port = port.name ∧
          (isCollectionNode shown → plugFilled edges origins shown port plug)) ∧
        (isCollectionNode shown = false → ∀ plug ∈ shown.inputPlugs, plug.port = port.name →
          plugFilled edges origins shown port plug)) ∧
      (port.required → port.instancePlugs = false → portFilled edges origins shown port) := by
  unfold missingAtPort portHasInstancePlugs
  by_cases hrequired : port.required = true
  · by_cases hplugs : port.instancePlugs = true
    · by_cases hempty : inputPlugsForPort shown.inputPlugs port.name = []
      · have hnone : ¬ ∃ plug ∈ shown.inputPlugs, plug.port = port.name := by
          rintro ⟨plug, hplug, hport⟩
          have hmem : plug ∈ inputPlugsForPort shown.inputPlugs port.name :=
            List.mem_filter.mpr ⟨hplug, by simpa using hport⟩
          rw [hempty] at hmem
          cases hmem
        have hnot : ¬ ∃ plug ∈ shown.inputPlugs, plug.port = port.name ∧
            (isCollectionNode shown → plugFilled edges origins shown port plug) := by
          rintro ⟨plug, hplug, hport, -⟩
          exact hnone ⟨plug, hplug, hport⟩
        simp [hrequired, hplugs, hempty, hnot]
      · have hmem : ∀ plug, plug ∈ inputPlugsForPort shown.inputPlugs port.name ↔
            plug ∈ shown.inputPlugs ∧ plug.port = port.name := by
          intro plug
          simp [inputPlugsForPort]
        cases hcollection : isCollectionNode shown with
        | true =>
          simp [hrequired, hplugs, hempty, hmem, and_assoc]
        | false =>
          obtain ⟨first, hfirst⟩ := List.exists_mem_of_ne_nil _ hempty
          have hsome : ∃ plug ∈ shown.inputPlugs, plug.port = port.name :=
            ⟨first, ((hmem first).mp hfirst).1, ((hmem first).mp hfirst).2⟩
          have hall : (∀ b ∈ (inputPlugsForPort shown.inputPlugs port.name).map
              (plugFilled edges origins shown port), b = true) ↔
                ∀ plug ∈ shown.inputPlugs, plug.port = port.name →
                  plugFilled edges origins shown port plug = true := by
            simp [hmem]
          rw [if_pos hplugs, if_neg (not_not.mpr hrequired)]
          dsimp only
          rw [if_neg hempty, if_neg (by simp),
            flatMap_zipIdx_eq_nil (f := fun index => (⟨shown.id, shown.title,
              port.name ++ " input " ++ toString (index + 1)⟩ : MissingRequiredInput)), hall]
          simp [hrequired, hplugs, hsome]
    · simp [hrequired, hplugs]
  · simp [hrequired]

theorem missing_iff_lacking (hvalid : validateStructure document = .ok ())
    (hnode : node ∈ document.nodes) (hnames : (ports.map InputPortSpec.name).Nodup)
    (htargets : Targeted document node ports) :
    missingRequiredInputsFor (document.edges.map shownEdge) document.origins
        [shownNode node ports title supported] = [] ↔
      ¬ Lacking document node ports (isCollectionNode (shownNode node ports title supported)) := by
  have hfilled : ∀ port ∈ ports, ∀ plug ∈ node.inputPlugs, plug.port = port.name →
      (plugFilled (document.edges.map shownEdge) document.origins
          (shownNode node ports title supported) port plug ↔
        Fed document node port.name (some plug.id)) :=
    fun port _ plug hplug hport => plugFilled_iff hvalid hnode hplug hport
  have hplain : ∀ port ∈ ports, port.instancePlugs = false →
      (portFilled (document.edges.map shownEdge) document.origins
          (shownNode node ports title supported) port ↔ Fed document node port.name none) :=
    fun port hport hplugs => portFilled_iff hnames htargets hport (by simp [hplugs])
  have hports : missingRequiredInputsFor (document.edges.map shownEdge) document.origins
      [shownNode node ports title supported] = [] ↔ ∀ port ∈ ports,
        missingAtPort (document.edges.map shownEdge) document.origins
          (shownNode node ports title supported) port = [] := by
    simp [missingRequiredInputsFor, shownNode]
  rw [hports]
  unfold Lacking
  push Not
  refine forall₂_congr fun port hport => ?_
  rw [missingAtPort_eq_nil]
  cases hrequired : port.required with
  | false => simp
  | true =>
    cases hplugs : port.instancePlugs with
    | false => simp [hplain port hport hplugs]
    | true =>
      have hshown : (shownNode node ports title supported).inputPlugs = node.inputPlugs := rfl
      have hone := fun plug hplug hname => hfilled port hport plug hplug hname
      cases hcollection : isCollectionNode (shownNode node ports title supported) with
      | false =>
        simp only [hshown, ne_eq, forall_true_left, Bool.false_eq_true, false_implies, and_true,
          Bool.true_eq_false, not_true_eq_false, not_false_eq_true]
        constructor
        · rintro ⟨⟨plug, hplug, hname⟩, hall⟩
          exact ⟨⟨plug, hplug, hname, (hone plug hplug hname).mp (hall plug hplug hname)⟩,
            fun plug hplug hname => (hone plug hplug hname).mp (hall plug hplug hname)⟩
        · rintro ⟨⟨plug, hplug, hname, -⟩, hall⟩
          exact ⟨⟨plug, hplug, hname⟩,
            fun plug hplug hname => (hone plug hplug hname).mpr (hall plug hplug hname)⟩
      | true =>
        simp only [hshown, ne_eq, forall_true_left, Bool.true_eq_false, false_implies, and_true,
          not_true_eq_false]
        constructor
        · rintro ⟨plug, hplug, hname, hfilled⟩
          exact ⟨plug, hplug, hname, (hone plug hplug hname).mp hfilled⟩
        · rintro ⟨plug, hplug, hname, hfed⟩
          exact ⟨plug, hplug, hname, (hone plug hplug hname).mpr hfed⟩

end Canvas

section Runner

variable {document : GraphDocument} {node : GraphNode} {repr : Quoting}
  {items : List Incoming}

/-- Where a value ends: its port and its plug. -/
abbrev Place := String × Option String

def itemPlace (item : Incoming) : Place := (item.toPort, item.toPlug)

def edgePlace (edge : GraphEdge) : Place := (edge.toPort, edge.toPlug)

def originPlace (origin : GraphOrigin) : Place := (origin.toPort, origin.toPlug)

/-- The places of the node at which its enabled edges and its origins end. -/
def places (document : GraphDocument) (node : GraphNode) : List Place :=
  (document.edges.filter (fun edge => edge.enabled && edge.toNode = node.id)).map edgePlace ++
    (document.origins.filter (fun origin => origin.toNode = node.id)).map originPlace

theorem mem_places {port : String} {plug : Option String} :
    (port, plug) ∈ places document node ↔ Fed document node port plug := by
  simp [places, edgePlace, originPlace, Fed, and_assoc]

/-- A plug of the node is the place of one value at most. -/
theorem countP_places_le (hvalid : validateStructure document = .ok ()) (plug : String) :
    (places document node).countP (fun place => place.2 = some plug) ≤ 1 := by
  have hexclusive := validateStructure_exclusive hvalid
  set key : String × String := (node.id, plug) with hkey
  have hedges : ((document.edges.filter (fun edge => edge.enabled && edge.toNode = node.id)).map
      edgePlace).countP (fun place => place.2 = some plug) =
        document.edges.countP (fun edge => edge.enabled && plugKey edge = some key) := by
    rw [List.countP_map, List.countP_filter]
    refine List.countP_congr fun edge _ => ?_
    change (decide (edge.toPlug = some plug) && (edge.enabled && decide (edge.toNode = node.id))) =
      true ↔ (edge.enabled && decide (plugKey edge = some key)) = true
    simp only [plugKey, hkey, Bool.and_eq_true, decide_eq_true_eq, Option.map_eq_some_iff,
      Prod.mk.injEq]
    constructor
    · rintro ⟨hplug, henabled, hto⟩
      exact ⟨henabled, plug, hplug, hto, rfl⟩
    · rintro ⟨henabled, named, hplug, hto, rfl⟩
      exact ⟨hplug, henabled, hto⟩
  have horigins : ((document.origins.filter (fun origin => origin.toNode = node.id)).map
      originPlace).countP (fun place => place.2 = some plug) =
        document.origins.countP (fun origin => origin.toNode = node.id &&
          origin.toPlug = some plug) := by
    rw [List.countP_map, List.countP_filter]
    refine List.countP_congr fun origin _ => ?_
    change (decide (origin.toPlug = some plug) && decide (origin.toNode = node.id)) = true ↔
      (decide (origin.toNode = node.id) && decide (origin.toPlug = some plug)) = true
    rw [Bool.and_comm]
  have hedgesLe : document.edges.countP (fun edge => edge.enabled && plugKey edge = some key) ≤
    1 := by
    have hcount := List.nodup_iff_count_le_one.mp hexclusive.plugs key
    rw [List.count_filterMap] at hcount
    refine (List.countP_mono_left fun edge _ h => ?_).trans hcount
    simpa using (Bool.and_eq_true_iff.mp h).2
  have horiginsLe : document.origins.countP (fun origin => origin.toNode = node.id &&
      origin.toPlug = some plug) ≤ 1 := by
    have hcount := List.nodup_iff_count_le_one.mp hexclusive.origins key
    rw [List.count, List.countP_map] at hcount
    refine (List.countP_mono_left fun origin _ h => ?_).trans hcount
    simp only [Bool.and_eq_true, decide_eq_true_eq] at h
    simp [originSlot, graphInputSlot, h.1, h.2, hkey]
  have hapart : 0 < document.edges.countP (fun edge => edge.enabled && plugKey edge = some key) →
      document.origins.countP (fun origin => origin.toNode = node.id &&
        origin.toPlug = some plug) = 0 := by
    intro hpos
    obtain ⟨edge, hedge, hends⟩ := List.countP_pos_iff.mp hpos
    simp only [Bool.and_eq_true, decide_eq_true_eq] at hends
    rw [List.countP_eq_zero]
    intro origin horigin hat
    simp only [Bool.and_eq_true, decide_eq_true_eq] at hat
    refine hexclusive.apart edge hedge hends.1 origin horigin ?_
    obtain ⟨named, hnamed, hpair⟩ := Option.map_eq_some_iff.mp hends.2
    obtain ⟨hto, rfl⟩ := Prod.mk.inj hpair
    simp [edgeSlot, originSlot, graphInputSlot, hnamed, hto, hat.1, hat.2]
  rw [places, List.countP_append, hedges, horigins]
  omega

theorem findPort_eq (hnames : (ports.map InputPortSpec.name).Nodup) {port : InputPortSpec}
    (hport : port ∈ ports) : findPort ports port.name = some port :=
  find?_by_key InputPortSpec.name hnames hport

variable (hitems : (items.map itemPlace).Perm (places document node))
include hitems

theorem connectionsByPlug_iff (hvalid : validateStructure document = .ok ())
    (hnode : node ∈ document.nodes) (hnames : (ports.map InputPortSpec.name).Nodup)
    (htargets : Targeted document node ports) (hplug : plug ∈ node.inputPlugs) :
    connectionsByPlug ports items plug.id = 1 ↔ Fed document node plug.port (some plug.id) := by
  have hcount : connectionsByPlug ports items plug.id = (places document node).countP
      (fun place => (findPort ports place.1).any (fun port => port.instancePlugs) &&
        place.2 = some plug.id) := by
    rw [← hitems.countP_eq, List.countP_map]
    rfl
  have hle : connectionsByPlug ports items plug.id ≤ 1 := by
    rw [hcount]
    have hplaces : (places document node).countP (fun place => place.2 = some plug.id) ≤ 1 :=
      countP_places_le hvalid plug.id
    refine (List.countP_mono_left fun place _ h => ?_).trans hplaces
    exact (Bool.and_eq_true_iff.mp h).2
  have hpos : 0 < connectionsByPlug ports items plug.id ↔
      Fed document node plug.port (some plug.id) := by
    rw [hcount, List.countP_pos_iff]
    constructor
    · rintro ⟨⟨port, named⟩, hplace, h⟩
      simp only [Bool.and_eq_true, decide_eq_true_eq] at h
      obtain ⟨-, rfl⟩ := h
      have hfed := mem_places.mp hplace
      rwa [fed_of_plug hvalid hnode hplug hfed] at hfed
    · intro hfed
      obtain ⟨spec, hspec, hname, htakes⟩ := fed_port htargets hfed
      refine ⟨_, mem_places.mpr hfed, ?_⟩
      rw [← hname, findPort_eq hnames hspec]
      simpa using htakes
  rw [← hpos]
  omega

theorem connectionsByPort_iff (port : String) :
    connectionsByPort items port = 0 ↔ ∀ plug, ¬ Fed document node port plug := by
  have hcount : connectionsByPort items port =
      (places document node).countP (fun place => place.1 = port) := by
    rw [← hitems.countP_eq, List.countP_map]
    rfl
  rw [hcount, List.countP_eq_zero]
  constructor
  · intro h plug hfed
    simpa using h (port, plug) (mem_places.mpr hfed)
  · rintro h ⟨port', plug⟩ hplace hsame
    obtain rfl : port' = port := by simpa using hsame
    exact h plug (mem_places.mp hplace)

/-- The checks of completeness pass just when every plug of the node is fed, and what the
canvas asks for as well. -/
theorem complete_iff (hvalid : validateStructure document = .ok ())
    (hnode : node ∈ document.nodes) (hnames : (ports.map InputPortSpec.name).Nodup)
    (htargets : Targeted document node ports) (collection : Bool) :
    Complete repr ports node items ↔ ¬ Lacking document node ports collection ∧
      ∀ plug ∈ node.inputPlugs, Fed document node plug.port (some plug.id) := by
  have hsubmitted : checkPlugsSubmitted repr ports node = .ok () ↔ ∀ port ∈ ports,
      port.instancePlugs → port.required → ∃ plug ∈ node.inputPlugs, plug.port = port.name := by
    unfold checkPlugsSubmitted
    split
    · next hfind =>
      simpa using List.find?_eq_none.mp hfind
    · next port hfind =>
      have hfound := List.find?_some hfind
      simp only [Bool.and_eq_true, decide_eq_true_eq] at hfound
      refine ⟨nofun, fun h => ?_⟩
      obtain ⟨plug, hplug, hport⟩ := h port (List.mem_of_find?_eq_some hfind) hfound.1.1 hfound.1.2
      exact absurd (List.any_eq_true.mpr ⟨plug, hplug, by simpa using hport⟩) hfound.2
  have hfed : checkPlugsFed repr ports node (node.inputPlugs.map GraphInputPlug.id) items = .ok () ↔
      ∀ plug ∈ node.inputPlugs, Fed document node plug.port (some plug.id) := by
    have hone : ∀ plug ∈ node.inputPlugs, connectionsByPlug ports items plug.id = 1 ↔
        Fed document node plug.port (some plug.id) :=
      fun plug hplug => connectionsByPlug_iff hitems hvalid hnode hnames htargets hplug
    unfold checkPlugsFed
    split
    · next hfind =>
      have hall := List.find?_eq_none.mp hfind
      refine iff_of_true rfl fun plug hplug => (hone plug hplug).mp ?_
      simpa using hall plug.id (List.mem_map_of_mem hplug)
    · next id hfind =>
      obtain ⟨plug, hplug, rfl⟩ := List.mem_map.mp (List.mem_of_find?_eq_some hfind)
      have hfound := List.find?_some hfind
      refine ⟨nofun, fun h => ?_⟩
      rw [(hone plug hplug).mpr (h plug hplug)] at hfound
      simp at hfound
  have hconnected : checkInputsConnected repr ports node items = .ok () ↔
      ∀ port ∈ ports, port.required → ∃ plug, Fed document node port.name plug := by
    unfold checkInputsConnected
    split
    · next hfind =>
      have hall := List.find?_eq_none.mp hfind
      refine iff_of_true rfl fun port hport hrequired => ?_
      by_contra hnone
      push Not at hnone
      have hzero := (connectionsByPort_iff hitems port.name).mpr hnone
      simpa [hrequired, hzero] using hall port hport
    · next port hfind =>
      have hfound := List.find?_some hfind
      simp only [Bool.and_eq_true, decide_eq_true_eq] at hfound
      refine ⟨nofun, fun h => ?_⟩
      obtain ⟨plug, hplug⟩ := h port (List.mem_of_find?_eq_some hfind) hfound.1
      exact absurd hplug ((connectionsByPort_iff hitems port.name).mp hfound.2 plug)
  have hcomplete : Complete repr ports node items ↔ checkPlugsSubmitted repr ports node = .ok () ∧
      checkPlugsFed repr ports node (node.inputPlugs.map GraphInputPlug.id) items = .ok () ∧
      checkInputsConnected repr ports node items = .ok () :=
    ⟨fun h => ⟨h.submitted, h.fed, h.connected⟩, fun h => ⟨h.1, h.2.1, h.2.2⟩⟩
  rw [hcomplete, hsubmitted, hfed, hconnected]
  constructor
  · rintro ⟨hplugs, hall, hports⟩
    refine ⟨?_, hall⟩
    rintro ⟨port, hport, hrequired, ⟨htakes, hnone | ⟨-, plug, hplug, hname, hunfed⟩⟩ |
      ⟨hplain, hunfed⟩⟩
    · obtain ⟨plug, hplug, hname⟩ := hplugs port hport htakes hrequired
      exact hnone plug hplug hname (hname ▸ hall plug hplug)
    · exact hunfed (hname ▸ hall plug hplug)
    · obtain ⟨plug, hplug⟩ := hports port hport hrequired
      obtain ⟨spec, hspec, hname, htakes⟩ := fed_port htargets hplug
      obtain rfl := eq_of_name hnames hspec hport hname
      cases plug with
      | none => exact hunfed hplug
      | some plug => exact hplain (htakes.mp rfl)
  · rintro ⟨hlacking, hall⟩
    have hplugs : ∀ port ∈ ports, port.instancePlugs → port.required →
        ∃ plug ∈ node.inputPlugs, plug.port = port.name := by
      intro port hport htakes hrequired
      by_contra hnone
      push Not at hnone
      exact hlacking ⟨port, hport, hrequired, Or.inl ⟨htakes, Or.inl fun plug hplug hname =>
        absurd hname (hnone plug hplug)⟩⟩
    refine ⟨hplugs, hall, fun port hport hrequired => ?_⟩
    by_cases htakes : port.instancePlugs = true
    · obtain ⟨plug, hplug, hname⟩ := hplugs port hport htakes hrequired
      exact ⟨some plug.id, hname ▸ hall plug hplug⟩
    · by_contra hnone
      push Not at hnone
      exact hlacking ⟨port, hport, hrequired, Or.inr ⟨htakes, hnone none⟩⟩

end Runner

variable {A B : Type*}

section Arrivals

variable {project : ProjectDocument} {target : GraphDefinition} {projectId : String}

/-- Every connection of the instance finds its value among the stored results. -/
def Stored (upstream : Upstream) (inst : ExpandedInstance) : Prop :=
  ∀ connection ∈ inst.connections, ∃ outputs, upstream.get? connection.source = some outputs ∧
    (outputs.get? connection.edge.fromPort).isSome

theorem filterMap_if (p : A → Bool) (f : A → B) (l : List A) :
    l.filterMap (fun a => if p a then some (f a) else none) = (l.filter p).map f := by
  induction l with
  | nil => rfl
  | cons a rest ih => cases h : p a <;> simp [h, ih]

theorem map_eq_of_forall₂ {C : Type*} {f : A → C} {g : B → C} {l : List A} {m : List B}
    (h : List.Forall₂ (fun a b => g b = f a) l m) : m.map g = l.map f := by
  induction h with
  | nil => rfl
  | cons hab _ ih => rw [List.map_cons, List.map_cons, hab, ih]

theorem incoming_ok (repr : Quoting) {inst : ExpandedInstance} {upstream : Upstream}
    (hstored : Stored upstream inst) :
    ∃ items, incoming repr inst upstream = .ok items ∧ items.map itemPlace =
      inst.connections.map (fun connection => edgePlace connection.edge) ++
        (Fingerprints.sortedOrigins inst.origins).map originPlace := by
  have hone : ∀ connection ∈ inst.connections, ∃ item,
      incomingConnection repr inst upstream connection = .ok item := by
    intro connection hconnection
    obtain ⟨outputs, houtputs, hvalue⟩ := hstored connection hconnection
    obtain ⟨value, hvalue⟩ := Option.isSome_iff_exists.mp hvalue
    simp [incomingConnection, houtputs, hvalue]
  have hplace : ∀ connection item, incomingConnection repr inst upstream connection = .ok item →
      itemPlace item = edgePlace connection.edge := by
    intro connection item h
    unfold incomingConnection at h
    dsimp only at h
    split at h
    · cases h
    · split at h
      · cases h
      · cases h
        rfl
  obtain ⟨connections, hconnections⟩ := mapM_exists hone
  refine ⟨_, bind_ok.mpr ⟨connections, hconnections, rfl⟩, ?_⟩
  have hplaces := map_eq_of_forall₂ ((mapM_ok hconnections).imp (hplace · ·))
  rw [List.map_append, hplaces, List.map_map]
  rfl

/-- What arrives at a node of a Graph without calls is what the document draws there. -/
theorem places_instance (hwf : WellFormed project) (htarget : target ∈ project.graphs)
    (hcalls : ∀ n ∈ target.document.nodes, isCall n = false) :
    ((instanceOf project projectId none ⟨target, []⟩ node).connections.map
        (fun connection => edgePlace connection.edge) ++
      (Fingerprints.sortedOrigins
        (instanceOf project projectId none ⟨target, []⟩ node).origins).map originPlace).Perm
      (places target.document node) := by
  have hconnection : ∀ edge ∈ target.document.edges, ∃ source,
      connectionOf project projectId ⟨target, []⟩ edge = some ⟨source, edge⟩ := by
    intro edge hedge
    obtain ⟨source, hsource, hid⟩ :=
      List.mem_map.mp ((hwf.anchored target htarget).edges edge hedge).1
    refine ⟨keyAt projectId target [] source, ?_⟩
    rw [connectionOf, sourceOf, (nodeNamed_iff hwf htarget).mpr ⟨hsource, hid⟩, Option.bind_some,
      sourceAt, if_neg (by simp [hcalls source hsource])]
    rfl
  have hdrawn : (drawnConnections project projectId ⟨target, []⟩ (atNode node) false).map
      (fun connection => edgePlace connection.edge) = (target.document.edges.filter
        (fun edge => edge.enabled && edge.toNode = node.id)).map edgePlace := by
    rw [drawnConnections, List.map_filterMap, ← filterMap_if]
    refine List.filterMap_congr fun edge hedge => ?_
    obtain ⟨source, hsource⟩ := hconnection edge hedge
    by_cases hat : (edge.enabled && decide (edge.toNode = node.id)) = true
    · simp [atNode, hat, hsource]
    · simp [atNode, hat]
  have horigins : (instanceOf project projectId none ⟨target, []⟩ node).origins =
      target.document.origins.filter (fun origin => origin.toNode = node.id) := by
    simp [instanceOf, draftInstance, callerDraws, callerOrigins, drawnOrigins, atNode]
  refine List.Perm.append ?_ ?_
  · rw [← hdrawn]
    refine List.Perm.map _ ?_
    exact (List.perm_insertionSort _ _).trans (by rw [callerConnections, List.nil_append])
  · rw [horigins]
    exact (List.perm_insertionSort _ _).map _

end Arrivals

/-- Where no required input lacks a value, a plug without one is spare. -/
theorem spare_of_unfed {collection : Bool} (hlacking : ¬ Lacking document node ports collection)
    (hplug : plug ∈ node.inputPlugs) (hunfed : ¬ Fed document node plug.port (some plug.id)) :
    Spare document node ports collection plug := by
  refine ⟨hplug, hunfed, fun port hport hname hrequired htakes => ⟨?_, ?_⟩⟩
  · by_contra hsingle
    exact hlacking ⟨port, hport, hrequired, Or.inl ⟨htakes,
      Or.inr ⟨hsingle, plug, hplug, hname.symm, hname ▸ hunfed⟩⟩⟩
  · by_contra hnone
    push Not at hnone
    exact hlacking ⟨port, hport, hrequired, Or.inl ⟨htakes, Or.inl fun other hother hother' =>
      hname ▸ hnone other hother (hother'.trans hname)⟩⟩

/-- Where the two checks agree. A spare plug parts them, unless some required input lacks a
value as well. -/
theorem readiness_agrees {casefold : String → String} {project : ProjectDocument}
    (hvalid : project.Valid casefold) {graphId projectId : String} {target : GraphDefinition}
    (hget : project.getGraph graphId = some target)
    (hcalls : ∀ n ∈ target.document.nodes, isCall n = false) {expanded : ExpandedGraph}
    (hexpand : expandGraph project graphId projectId = .ok expanded) {node : GraphNode}
    (hnode : node ∈ target.document.nodes) {ports : List InputPortSpec}
    (hnames : (ports.map InputPortSpec.name).Nodup)
    (htargets : Targeted target.document node ports) {inst : ExpandedInstance}
    (hinst : expanded.instances.get? (keyAt projectId target [] node) = some inst)
    {upstream : Upstream} (hstored : Stored upstream inst) (repr : Quoting)
    (title : String) (supported : Bool) :
    ∃ items, incoming repr inst upstream = .ok items ∧
      ((missingRequiredInputsFor (target.document.edges.map shownEdge) target.document.origins
          [shownNode node ports title supported] = [] ↔ Complete repr ports node items) ↔
        ((∃ plug, Spare target.document node ports
            (isCollectionNode (shownNode node ports title supported)) plug) →
          Lacking target.document node ports
            (isCollectionNode (shownNode node ports title supported)))) := by
  have hwf := hvalid.wellFormed
  have hmem : target ∈ project.graphs := List.mem_of_find?_eq_some hget
  have hstructure := hvalid.structures target hmem
  obtain ⟨found, hfound, hexpands⟩ := expandGraph_ok hwf hexpand
  cases hget.symm.trans hfound
  have hown := hexpands.get .root hnode (hcalls node hnode)
  cases hinst.symm.trans hown
  obtain ⟨items, hitems, hplaces⟩ := incoming_ok repr hstored
  have hperm : (items.map itemPlace).Perm (places target.document node) :=
    hplaces ▸ places_instance hwf hmem hcalls
  refine ⟨items, hitems, ?_⟩
  rw [missing_iff_lacking hstructure hnode hnames htargets, complete_iff hperm hstructure hnode
    hnames htargets (isCollectionNode (shownNode node ports title supported))]
  generalize isCollectionNode (shownNode node ports title supported) = collection
  by_cases hlacking : Lacking target.document node ports collection
  · simp [hlacking]
  · have hspare : (∃ plug, Spare target.document node ports collection plug) ↔
        ¬ ∀ plug ∈ node.inputPlugs, Fed target.document node plug.port (some plug.id) := by
      push Not
      constructor
      · rintro ⟨plug, hplug, hunfed, -⟩
        exact ⟨plug, hplug, hunfed⟩
      · rintro ⟨plug, hplug, hunfed⟩
        exact ⟨plug, spare_of_unfed hlacking hplug hunfed⟩
    simp [hlacking, hspare]

section Example

def firstPlug : GraphInputPlug := ⟨"first", "items"⟩

def secondPlug : GraphInputPlug := ⟨"second", "items"⟩

def sparePlug : GraphInputPlug := ⟨"spare", "items"⟩

/-- The input port of `sequence.collect`. -/
def itemsPort : InputPortSpec := ⟨"items", .typeVariable "T", [], true, true, true⟩

def collectNode (plugs : List GraphInputPlug) : GraphNode :=
  ⟨.builtin, "collect", "sequence.collect", 1, [], default, none, plugs, []⟩

def loadNode : GraphNode := ⟨.builtin, "load", "files.load", 1, [], default, none, [], []⟩

def loadedEdge : GraphEdge :=
  ⟨"loaded", true, "load", "out", "collect", "items", some "second", .direct, none, [], none⟩

def memberOrigin : GraphOrigin :=
  ⟨"member", "collect", "items", some "first", .ref ⟨"artifact", "table", 1, none⟩, .direct, []⟩

/-- A collection with one member, and the nodes that feed it besides. -/
def collectGraph (plugs : List GraphInputPlug) (sources : List GraphNode)
    (edges : List GraphEdge) : GraphDefinition :=
  ⟨"g", "Graph", ⟨[], collectNode plugs :: sources, edges, [memberOrigin], ⟨[], [], [], []⟩⟩, []⟩

def collectProject (plugs : List GraphInputPlug) (sources : List GraphNode)
    (edges : List GraphEdge) : ProjectDocument := ⟨[collectGraph plugs sources edges]⟩

variable {plugs : List GraphInputPlug} {sources : List GraphNode} {edges : List GraphEdge}

theorem collectProject_valid
    (hstructure : validateStructure (collectGraph plugs sources edges).document = .ok ())
    (hgraph : validateGraph (collectGraph plugs sources edges) = .ok ())
    (hproject : checkProject id (collectProject plugs sources edges).graphs = .ok ()) :
    (collectProject plugs sources edges).Valid id := by
  refine ⟨?_, ?_, hproject⟩
  · simpa [collectProject] using hstructure
  · simpa [collectProject] using hgraph

/-- The instance of the collection. -/
def collectInstance (plugs : List GraphInputPlug) (sources : List GraphNode)
    (edges : List GraphEdge) : ExpandedInstance :=
  instanceOf (collectProject plugs sources edges) "p" none ⟨collectGraph plugs sources edges, []⟩
    (collectNode plugs)

theorem collectProject_instance (hvalid : (collectProject plugs sources edges).Valid id)
    (hok : (expandGraph (collectProject plugs sources edges) "g" "p").isOk) : ∃ expanded,
    expandGraph (collectProject plugs sources edges) "g" "p" = .ok expanded ∧
      expanded.instances.get? (keyAt "p" (collectGraph plugs sources edges) []
        (collectNode plugs)) = some (collectInstance plugs sources edges) := by
  cases hexpand : expandGraph (collectProject plugs sources edges) "g" "p" with
  | error e => simp [hexpand, Except.isOk, Except.toBool] at hok
  | ok expanded =>
    obtain ⟨target, htarget, hexpands⟩ := expandGraph_ok hvalid.wellFormed hexpand
    obtain rfl : collectGraph plugs sources edges = target := Option.some.inj htarget
    exact ⟨expanded, rfl, hexpands.get .root List.mem_cons_self rfl⟩

theorem collect_targeted
    (hedges : ∀ edge ∈ edges, "items" = edge.toPort ∧ edge.toPlug.isSome) :
    Targeted (collectGraph plugs sources edges).document (collectNode plugs) [itemsPort] := by
  refine ⟨fun edge hedge _ => ⟨itemsPort, List.mem_singleton_self _, (hedges edge hedge).1,
    iff_of_true (hedges edge hedge).2 rfl⟩, fun origin horigin _ =>
    ⟨itemsPort, List.mem_singleton_self _, ?_⟩⟩
  rw [List.mem_singleton.mp horigin]
  exact ⟨rfl, by decide⟩

/-- A collection whose plugs are all fed, one by an edge: the checks agree. -/
theorem full_collection_agrees : ∃ expanded inst items upstream,
    expandGraph (collectProject [firstPlug, secondPlug] [loadNode] [loadedEdge]) "g" "p" =
      .ok expanded ∧
      expanded.instances.get? (keyAt "p" (collectGraph [firstPlug, secondPlug] [loadNode]
        [loadedEdge]) [] (collectNode [firstPlug, secondPlug])) = some inst ∧
      incoming id inst upstream = .ok items ∧ items.length = 2 ∧
      (missingRequiredInputsFor [shownEdge loadedEdge] [memberOrigin]
          [shownNode (collectNode [firstPlug, secondPlug]) [itemsPort] "Collect" true] = [] ↔
        Complete id [itemsPort] (collectNode [firstPlug, secondPlug]) items) := by
  have hvalid : (collectProject [firstPlug, secondPlug] [loadNode] [loadedEdge]).Valid id :=
    collectProject_valid (by decide) (by decide) (by decide)
  obtain ⟨expanded, hexpand, hinst⟩ := collectProject_instance hvalid (by decide)
  let upstream : Upstream := [(keyAt "p" (collectGraph [firstPlug, secondPlug] [loadNode]
    [loadedEdge]) [] loadNode, [("out", memberOrigin.value)])]
  have hstored : Stored upstream
      (collectInstance [firstPlug, secondPlug] [loadNode] [loadedEdge]) := by
    intro connection hconnection
    rw [List.mem_singleton.mp hconnection]
    exact ⟨_, rfl, rfl⟩
  obtain ⟨items, hitems, hagree⟩ := readiness_agrees hvalid rfl (by decide) hexpand
    List.mem_cons_self (show ([itemsPort].map InputPortSpec.name).Nodup from List.nodup_singleton _)
    (collect_targeted (by decide)) hinst hstored id "Collect" true
  refine ⟨expanded, _, items, upstream, hexpand, hinst, hitems, ?_, hagree.mpr ?_⟩
  · obtain rfl := Except.ok.inj (hitems.symm.trans
      (show incoming id _ upstream = .ok [_, incomingOrigin id memberOrigin] from rfl))
    rfl
  · rintro ⟨plug, hplug, hunfed, -⟩
    refine absurd ?_ hunfed
    rcases List.mem_pair.mp hplug with rfl | rfl
    · exact Or.inr ⟨memberOrigin, List.mem_singleton_self _, rfl, rfl, rfl⟩
    · exact Or.inl ⟨loadedEdge, List.mem_singleton_self _, rfl, rfl, rfl, rfl⟩

/-- A collection with a spare plug: the canvas reports nothing, and the runner refuses. -/
theorem spare_plug_refused : (collectProject [firstPlug, sparePlug] [] []).Valid id ∧
    Targeted (collectGraph [firstPlug, sparePlug] [] []).document
      (collectNode [firstPlug, sparePlug]) [itemsPort] ∧
    ∃ expanded inst items,
      expandGraph (collectProject [firstPlug, sparePlug] [] []) "g" "p" = .ok expanded ∧
      expanded.instances.get? (keyAt "p" (collectGraph [firstPlug, sparePlug] [] []) []
        (collectNode [firstPlug, sparePlug])) = some inst ∧
      Stored [] inst ∧ incoming id inst [] = .ok items ∧
      missingRequiredInputsFor [] [memberOrigin]
        [shownNode (collectNode [firstPlug, sparePlug]) [itemsPort] "Collect" true] = [] ∧
      ¬ Complete id [itemsPort] (collectNode [firstPlug, sparePlug]) items ∧
      validateInputPlugs id [itemsPort] (collectNode [firstPlug, sparePlug]) items =
        .error "Node collect input plug spare requires exactly one incoming connection" := by
  have hvalid : (collectProject [firstPlug, sparePlug] [] []).Valid id :=
    collectProject_valid (by decide) rfl (by decide)
  obtain ⟨expanded, hexpand, hinst⟩ := collectProject_instance hvalid (by decide)
  refine ⟨hvalid, collect_targeted (fun _ hedge => absurd hedge List.not_mem_nil), expanded, _,
    [incomingOrigin id memberOrigin], hexpand, hinst, fun _ hconnection => ?_, rfl, rfl,
    fun hcomplete => ?_, rfl⟩
  · cases hconnection
  · cases hcomplete.fed

end Example

end Grafy.InputCompleteness
