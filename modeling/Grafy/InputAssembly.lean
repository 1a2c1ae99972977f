import Grafy.Grouping
import Grafy.InputCompleteness

/-!
From the slots of a bound node to the values it runs with. Slots are gathered by
port; a port that takes plugs reads its slots in the order of the node's plugs
through a dictionary by plug, any other port in the order of the slots. What bind
has checked makes the dictionary safe: no slot is dropped, none is read twice.
-/
namespace Grafy.InputCompleteness

open ConnectionRoutes GraphDocuments Grouping Instances Loops NodeContracts OrderedDict

section Plans

/-- How one input port collects the values that feed it. -/
structure InputPortPlan where
  name : String
  variadic : Bool
  instancePlugs : Bool
  plugs : List String

/-- What `bind` hands on, as far as the inputs go. -/
structure BoundInputs where
  ports : List InputPortPlan
  slots : List InputSlot

variable (ports : List InputPortSpec) (node : GraphNode)

def portPlan (port : InputPortSpec) : InputPortPlan where
  name := port.name
  variadic := port.variadic
  instancePlugs := port.instancePlugs
  plugs := (node.inputPlugs.filter (fun plug => plug.port = port.name)).map GraphInputPlug.id

/-- `bind`, of an instance and the results upstream. -/
def bindInstance (repr : Quoting) (artifactTypes : List ArtifactTypeSpec)
    (catalogue : List ArtifactConversion) (inst : ExpandedInstance) (upstream : Upstream) :
    Except String BoundInputs := do
  let items ← incoming repr inst upstream
  let slots ← bindInputs repr ports inst.node artifactTypes catalogue items
  return ⟨ports.map (portPlan inst.node), slots⟩

end Plans

section Assembly

variable {V : Type} (repr : Quoting) (nodeId : Option String) (resolve : InputSlot → V)

/-- What one input receives. -/
inductive PortValue (V : Type)
  | one (value : V)
  | many (values : List V)

/-- `by_plug`. -/
def slotsByPlug (slots : List InputSlot) : Dict String InputSlot :=
  (slots.filterMap (fun s => s.toPlug.map (fun plug => (plug, s)))).foldl
    (fun byPlug entry => byPlug.set entry.1 entry.2) []

/-- `_in_port_order`. -/
def inPortOrder (plan : InputPortPlan) (slots : List InputSlot) : Except String (List InputSlot) :=
  if ¬ plan.instancePlugs then .ok slots
  else
    let byPlug := slotsByPlug slots
    let missing := plan.plugs.filter (fun plug => (byPlug.get? plug).isNone)
    if missing ≠ [] then
      .error ("Input " ++ repr plan.name ++ " declares plugs that carry no value: " ++
        ", ".intercalate (missing.map repr))
    else .ok (plan.plugs.filterMap byPlug.get?)

/-- The values assembled so far, and the slots resolved in the order in which they were. -/
structure Assembled (V : Type) where
  values : Dict String (PortValue V)
  resolved : List InputSlot

/-- One port of `assemble_inputs`, with the slots gathered for it. -/
def assemblePort (plans : Dict String InputPortPlan) (state : Assembled V)
    (entry : String × List InputSlot) : Except String (Assembled V) :=
  match plans.get? entry.1 with
  | none => .error ("Input " ++ repr entry.1 ++ " of node " ++ (nodeId.map repr).getD "None" ++
      " has connections but is not an input port of its operator")
  | some plan => do
    let ordered ← inPortOrder repr plan entry.2
    let resolved := state.resolved ++ ordered
    if plan.variadic ∨ plan.instancePlugs then
      .ok ⟨state.values.set entry.1 (.many (ordered.map resolve)), resolved⟩
    else
      match ordered with
      | [s] => .ok ⟨state.values.set entry.1 (.one (resolve s)), resolved⟩
      | _ => .error ("Node " ++ (nodeId.map repr).getD "None" ++ " input " ++ repr entry.1 ++
          " accepts one connection, got " ++ toString ordered.length)

/-- `assemble_inputs`. -/
def assembleInputs (bound : BoundInputs) : Except String (Assembled V) :=
  let plans := bound.ports.foldl
    (fun (plans : Dict String InputPortPlan) plan => plans.set plan.name plan) []
  (group InputSlot.toPort bound.slots).foldlM (assemblePort repr nodeId resolve plans) ⟨[], []⟩

end Assembly

/-! What bind promises of the slots -/

variable {s : InputSlot} {slots : List InputSlot} {plugs : Dict String String}

section Bound

variable {repr : Quoting} {ports : List InputPortSpec} {node : GraphNode}
  {artifactTypes : List ArtifactTypeSpec} {catalogue : List ArtifactConversion}
  {items : List Incoming} {port : InputPortSpec}

/-- A slot stands for the item it was made of. -/
structure SlotOf (item : Incoming) (s : InputSlot) : Prop where
  port : s.toPort = item.toPort
  plug : s.toPlug = item.toPlug
  value : s.value = item.value

theorem slot_slotOf {item : Incoming} (h : slot repr artifactTypes catalogue item = .ok s) :
    SlotOf item s := by
  obtain ⟨projection, -, h⟩ := bind_ok.mp h
  obtain ⟨conversions, -, h⟩ := bind_ok.mp h
  cases h
  exact ⟨rfl, rfl, rfl⟩

/-- The slots of one port. -/
def slotsAt (slots : List InputSlot) (name : String) : List InputSlot :=
  slots.filter (fun s => s.toPort = name)

/-- What the loop of bind keeps: a slot for every item, in order, at a port that is
there, and no two at a port that is not variadic. -/
structure Slotted (repr : Quoting) (ports : List InputPortSpec)
    (artifactTypes : List ArtifactTypeSpec) (catalogue : List ArtifactConversion)
    (items : List Incoming) (slots : List InputSlot) : Prop where
  made : List.Forall₂ (fun item s => slot repr artifactTypes catalogue item = .ok s) items slots
  known : ∀ s ∈ slots, ∃ port, findPort ports s.toPort = some port
  single : ∀ name port, findPort ports name = some port → port.variadic = false →
    (slotsAt slots name).length ≤ 1

theorem slotted_of_bindItem
    (h : items.foldlM (bindItem repr ports node artifactTypes catalogue) [] = .ok slots) :
    Slotted repr ports artifactTypes catalogue items slots := by
  refine foldlM_invariant (Slotted repr ports artifactTypes catalogue) h
    ⟨.nil, fun s hs => absurd hs List.not_mem_nil, fun _ _ _ _ => Nat.zero_le 1⟩ ?_
  intro done item slots next _ hslotted hturn
  unfold bindItem at hturn
  split at hturn
  · cases hturn
  · rename_i port hport
    obtain ⟨s, hslot, hturn⟩ := bind_ok.mp hturn
    obtain ⟨_, -, hturn⟩ := bind_ok.mp hturn
    have hs := slot_slotOf hslot
    dsimp only at hturn
    split_ifs at hturn with hcount
    cases hturn
    refine ⟨List.rel_append hslotted.made (.cons hslot .nil), fun other hother => ?_, ?_⟩
    · rcases mem_snoc.mp hother with hold | rfl
      · exact hslotted.known other hold
      · rw [hs.port]
        exact ⟨port, hport⟩
    · intro name port' hport' hsingle
      rw [slotsAt, List.filter_append, List.length_append]
      by_cases hname : s.toPort = name
      · have hsame : port' = port := by
          rw [← hname, hs.port, hport] at hport'
          exact (Option.some.inj hport').symm
        have hfirst : slots.countP (fun other => other.toPort = s.toPort) + 1 ≤ 1 :=
          not_lt.mp fun hmore => hcount ⟨by simpa [hsame] using hsingle, hmore⟩
        rw [List.countP_eq_length_filter, hname] at hfirst
        have hone : [s].filter (fun s => s.toPort = name) = [s] := by simp [hname]
        rw [hone]
        exact hfirst
      · have hnone : [s].filter (fun s => s.toPort = name) = [] := by simp [hname]
        rw [hnone, List.length_nil, Nat.add_zero]
        exact hslotted.single name port' hport' hsingle

/-- The plugs declared, each with its port. -/
structure Declared (ports : List InputPortSpec) (node : GraphNode) (plugs : Dict String String) :
    Prop where
  nodup : (node.inputPlugs.map GraphInputPlug.id).Nodup
  plugs : plugs = node.inputPlugs.map (fun plug => (plug.id, plug.port))

theorem declared_of_declarePlug
    (h : node.inputPlugs.foldlM (declarePlug repr ports node) [] = .ok plugs) :
    Declared ports node plugs := by
  have hinv : (node.inputPlugs.map GraphInputPlug.id).Nodup ∧
      plugs = node.inputPlugs.map (fun plug => (plug.id, plug.port)) := by
    refine foldlM_invariant (fun (done : List GraphInputPlug) (plugs : Dict String String) =>
      (done.map GraphInputPlug.id).Nodup ∧ plugs = done.map (fun plug => (plug.id, plug.port))) h
      ⟨List.nodup_nil, rfl⟩ ?_
    rintro done plug plugs next - ⟨hnodup, rfl⟩ hturn
    unfold declarePlug at hturn
    split_ifs at hturn with hfound
    split at hturn
    · cases hturn
    · split_ifs at hturn
      cases hturn
      have hnew : plug.id ∉ done.map GraphInputPlug.id := by
        intro hmem
        obtain ⟨other, hother, hid⟩ := List.mem_map.mp hmem
        refine hfound (Dict.get?_isSome_of_mem_keys ?_)
        rw [Dict.keys, List.map_map, ← hid]
        exact List.mem_map_of_mem hother
      refine ⟨?_, ?_⟩
      · rw [List.map_append, List.map_singleton]
        exact List.nodup_append.mpr ⟨hnodup, List.nodup_singleton _, fun a ha b hb heq =>
          hnew (List.mem_singleton.mp hb ▸ heq ▸ ha)⟩
      · rw [List.map_append, Dict.set_of_get?_none]
        · rfl
        · exact Option.not_isSome_iff_eq_none.mp hfound
  exact ⟨hinv.1, hinv.2⟩

theorem Declared.get?_iff (h : Declared ports node plugs) {id port : String} :
    plugs.get? id = some port ↔ ∃ plug ∈ node.inputPlugs, plug.id = id ∧ plug.port = port := by
  have hkeys : plugs.keys.Nodup := by
    rw [h.plugs, Dict.keys, List.map_map]
    exact h.nodup
  constructor
  · intro hget
    have hmem := Dict.mem_of_get? hget
    rw [h.plugs] at hmem
    obtain ⟨plug, hplug, heq⟩ := List.mem_map.mp hmem
    exact ⟨plug, hplug, (Prod.mk.inj heq).1, (Prod.mk.inj heq).2⟩
  · rintro ⟨plug, hplug, rfl, rfl⟩
    refine Dict.get?_of_mem hkeys ?_
    rw [h.plugs]
    exact List.mem_map_of_mem hplug

/-- What validation finds of an item at a port that takes plugs: it names a plug of the
port. -/
theorem plug_of_checkPlugTarget {item : Incoming} (hdeclared : Declared ports node plugs)
    (h : checkPlugTarget repr ports plugs item = .ok ())
    (hport : findPort ports item.toPort = some port) (htakes : port.instancePlugs = true) :
    ∃ plug ∈ node.inputPlugs, item.toPlug = some plug.id ∧ plug.port = item.toPort := by
  unfold checkPlugTarget at h
  simp only [hport, htakes, not_true_eq_false, if_false] at h
  split_ifs at h
  split at h
  · cases h
  · rename_i id hid
    split at h
    · cases h
    · rename_i plugPort hget
      split_ifs at h with hsame
      obtain ⟨plug, hplug, rfl, rfl⟩ := hdeclared.get?_iff.mp hget
      exact ⟨plug, hplug, hid, not_not.mp hsame⟩

/-- What bind has checked of the items and the plugs. -/
structure Validated (ports : List InputPortSpec) (node : GraphNode) (items : List Incoming) :
    Prop where
  nodup : (node.inputPlugs.map GraphInputPlug.id).Nodup
  plugs : ∀ item ∈ items, ∀ port, findPort ports item.toPort = some port →
    port.instancePlugs = true →
      ∃ plug ∈ node.inputPlugs, item.toPlug = some plug.id ∧ plug.port = item.toPort
  fed : ∀ plug ∈ node.inputPlugs, connectionsByPlug ports items plug.id = 1

theorem validated_of_validateInputPlugs (h : validateInputPlugs repr ports node items = .ok ()) :
    Validated ports node items := by
  obtain ⟨plugs, hplugs, h⟩ := bind_ok.mp h
  obtain ⟨_, -, h⟩ := bind_ok.mp h
  obtain ⟨_, htargets, h⟩ := bind_ok.mp h
  have hdeclared := declared_of_declarePlug hplugs
  refine ⟨hdeclared.nodup, fun item hitem port hport htakes => ?_, fun plug hplug => ?_⟩
  · obtain ⟨_, -, hcheck⟩ := Alignment.exists_right (mapM_ok htargets) hitem
    exact plug_of_checkPlugTarget hdeclared hcheck hport htakes
  · unfold checkPlugsFed at h
    split at h
    · rename_i hnone
      have hkey : plug.id ∈ plugs.keys := by
        rw [hdeclared.plugs, Dict.keys, List.map_map]
        exact List.mem_map_of_mem hplug
      simpa using List.find?_eq_none.mp hnone plug.id hkey
    · cases h

theorem countP_eq_of_aligned {A B : Type} {R : A → B → Prop} {p : A → Bool} {q : B → Bool}
    {l : List A} {m : List B} (h : List.Forall₂ R l m) (hpq : ∀ a b, R a b → p a = q b) :
    m.countP q = l.countP p := by
  induction h with
  | nil => rfl
  | cons hab _ ih => rw [List.countP_cons, List.countP_cons, ih, hpq _ _ hab]

/-- The slots of a port and a plug are as many as the items that arrive at the plug. -/
theorem countP_slotsAt (hvalidated : Validated ports node items)
    (hslotted : Slotted repr ports artifactTypes catalogue items slots)
    (hport : findPort ports port.name = some port) (htakes : port.instancePlugs = true)
    {plug : GraphInputPlug} (hplug : plug ∈ node.inputPlugs) (hname : plug.port = port.name) :
    (slotsAt slots port.name).countP (fun s => s.toPlug = some plug.id) = 1 := by
  have hitem : ∀ item ∈ items,
      ((findPort ports item.toPort).any (fun port => port.instancePlugs) &&
        decide (item.toPlug = some plug.id)) =
      (decide (item.toPlug = some plug.id) && decide (item.toPort = port.name)) := by
    intro item hitem
    by_cases hid : item.toPlug = some plug.id
    · simp only [hid, decide_true, Bool.and_true, Bool.true_and]
      by_cases hto : item.toPort = port.name
      · rw [hto, hport]
        simpa using htakes
      · rw [decide_eq_false hto]
        cases hfound : findPort ports item.toPort with
        | none => rfl
        | some other =>
          cases htakes' : other.instancePlugs with
          | false => simpa using htakes'
          | true =>
            obtain ⟨own, hown, hownId, hownPort⟩ := hvalidated.plugs item hitem other hfound htakes'
            have hsame : own.id = plug.id := Option.some.inj (hownId.symm.trans hid)
            obtain rfl := List.inj_on_of_nodup_map hvalidated.nodup hown hplug hsame
            exact absurd (hownPort.symm.trans hname) hto
    · simp [hid]
  rw [← hvalidated.fed plug hplug, slotsAt, List.countP_filter, connectionsByPlug]
  refine countP_eq_of_aligned (Alignment.with_mem hslotted.made) fun item s hpair => ?_
  obtain ⟨hmem, -, hslot⟩ := hpair
  have hs := slot_slotOf hslot
  rw [hitem item hmem, hs.plug, hs.port]

/-- The slots of a port that takes plugs, one for each plug of the port. -/
structure Plugged (plugs : List GraphInputPlug) (slots : List InputSlot) : Prop where
  declared : ∀ s ∈ slots, ∃ plug ∈ plugs, s.toPlug = some plug.id
  one : ∀ plug ∈ plugs, slots.countP (fun s => s.toPlug = some plug.id) = 1

theorem plugged_slotsAt (hvalidated : Validated ports node items)
    (hslotted : Slotted repr ports artifactTypes catalogue items slots)
    (hport : findPort ports port.name = some port) (htakes : port.instancePlugs = true) :
    Plugged (node.inputPlugs.filter (fun plug => plug.port = port.name))
      (slotsAt slots port.name) := by
  refine ⟨fun s hs => ?_, fun plug hplug => ?_⟩
  · obtain ⟨hmem, hto⟩ := List.mem_filter.mp hs
    obtain ⟨item, hitem, hslot⟩ := Alignment.exists_left hslotted.made hmem
    have hof := slot_slotOf hslot
    have hat : item.toPort = port.name := hof.port.symm.trans (of_decide_eq_true hto)
    obtain ⟨plug, hplug, hid, hname⟩ := hvalidated.plugs item hitem port (hat ▸ hport) htakes
    exact ⟨plug, List.mem_filter.mpr ⟨hplug, decide_eq_true (hname.trans hat)⟩, hof.plug.trans hid⟩
  · obtain ⟨hmem, hname⟩ := List.mem_filter.mp hplug
    exact countP_slotsAt hvalidated hslotted hport htakes hmem (of_decide_eq_true hname)

end Bound

/-! The dictionary by plug -/

section ByPlug

variable {plugs : List GraphInputPlug}

theorem Plugged.plugs_nodup (h : Plugged plugs slots) : (slots.map InputSlot.toPlug).Nodup := by
  rw [List.nodup_iff_count_le_one]
  intro plug
  by_cases hmem : plug ∈ slots.map InputSlot.toPlug
  · obtain ⟨s, hs, rfl⟩ := List.mem_map.mp hmem
    obtain ⟨plug, hplug, hid⟩ := h.declared s hs
    rw [hid, List.count, List.countP_map]
    refine le_of_eq ?_
    rw [← h.one plug hplug]
    refine List.countP_congr fun s _ => ?_
    simp
  · rw [List.count_eq_zero.mpr hmem]
    exact Nat.zero_le 1

/-- A slot with the plug it stands under. -/
def underPlug (s : InputSlot) : Option (String × InputSlot) := s.toPlug.map (fun plug => (plug, s))

theorem mem_underPlug {entry : String × InputSlot} :
    entry ∈ slots.filterMap underPlug ↔ entry.2 ∈ slots ∧ entry.2.toPlug = some entry.1 := by
  rw [List.mem_filterMap]
  constructor
  · rintro ⟨s, hs, hentry⟩
    obtain ⟨plug, hplug, rfl⟩ := Option.map_eq_some_iff.mp hentry
    exact ⟨hs, hplug⟩
  · rintro ⟨hs, hplug⟩
    exact ⟨entry.2, hs, by rw [underPlug, hplug]; rfl⟩

theorem Plugged.keys_nodup (h : Plugged plugs slots) :
    ((slots.filterMap underPlug).map Prod.fst).Nodup := by
  have hsame : (fun s => (underPlug s).map Prod.fst) = id ∘ InputSlot.toPlug := by
    funext s
    unfold underPlug
    rw [Option.map_map]
    exact Option.map_id_apply
  rw [List.map_filterMap, hsame, ← List.filterMap_map]
  refine h.plugs_nodup.filterMap fun plug plug' id hid hid' => ?_
  exact hid.trans hid'.symm

/-- No slot overwrites another in the dictionary. -/
theorem Plugged.get?_slotsByPlug (h : Plugged plugs slots) {id : String} :
    (slotsByPlug slots).get? id = some s ↔ s ∈ slots ∧ s.toPlug = some id := by
  have heq : slotsByPlug slots = slots.filterMap underPlug := by
    refine (Dict.foldl_set_eq_append Prod.fst Prod.snd _ [] ?_).trans ?_
    · exact h.keys_nodup
    · rw [List.nil_append]
      exact List.map_id _
  rw [heq]
  constructor
  · exact fun hget => mem_underPlug.mp (Dict.mem_of_get? hget)
  · exact fun hs => Dict.get?_of_mem h.keys_nodup (mem_underPlug.mpr hs)

theorem filterMap_aligned {A B : Type} {f : A → Option B} {l : List A}
    (h : ∀ a ∈ l, ∃ b, f a = some b) :
    List.Forall₂ (fun a b => f a = some b) l (l.filterMap f) := by
  induction l with
  | nil => exact .nil
  | cons a rest ih =>
    obtain ⟨b, hb⟩ := h a List.mem_cons_self
    rw [List.filterMap_cons_some hb]
    exact .cons hb (ih fun a ha => h a (List.mem_cons_of_mem _ ha))

/-- The slots read in the order of the plugs: one for each plug, and all of them. -/
theorem Plugged.ordered (h : Plugged plugs slots)
    (hids : (plugs.map GraphInputPlug.id).Nodup) (repr : Quoting) {plan : InputPortPlan}
    (htakes : plan.instancePlugs = true) (hplan : plan.plugs = plugs.map GraphInputPlug.id) :
    ∃ ordered, inPortOrder repr plan slots = .ok ordered ∧
      List.Forall₂ (fun plug s => s.toPlug = some plug.id) plugs ordered ∧
      ordered.Perm slots := by
  have hfound : ∀ plug ∈ plugs, ∃ s, (slotsByPlug slots).get? plug.id = some s := by
    intro plug hplug
    have hone := h.one plug hplug
    obtain ⟨s, hs, hplug'⟩ := List.countP_pos_iff.mp (hone ▸ Nat.one_pos)
    exact ⟨s, h.get?_slotsByPlug.mpr ⟨hs, of_decide_eq_true hplug'⟩⟩
  have hmissing : plan.plugs.filter (fun plug => ((slotsByPlug slots).get? plug).isNone) = [] := by
    rw [List.filter_eq_nil_iff, hplan]
    intro id hid
    obtain ⟨plug, hplug, rfl⟩ := List.mem_map.mp hid
    obtain ⟨s, hs⟩ := hfound plug hplug
    rw [hs]
    exact Bool.false_ne_true
  have haligned := filterMap_aligned hfound
  have hpairs : List.Forall₂ (fun plug s => s ∈ slots ∧ s.toPlug = some plug.id) plugs
      (plugs.filterMap (fun plug => (slotsByPlug slots).get? plug.id)) :=
    haligned.imp fun plug s hget => h.get?_slotsByPlug.mp hget
  refine ⟨plugs.filterMap (fun plug => (slotsByPlug slots).get? plug.id), ?_,
    hpairs.imp fun _ _ hpair => hpair.2, ?_⟩
  · simp only [inPortOrder, htakes, hmissing, not_true_eq_false, if_false, ne_eq]
    rw [hplan, List.filterMap_map]
    rfl
  · have hmap : (plugs.filterMap (fun plug => (slotsByPlug slots).get? plug.id)).map
        InputSlot.toPlug = plugs.map (fun plug => some plug.id) :=
      (Alignment.map_eq hpairs fun _ _ hpair => hpair.2.symm).symm
    have hnodup : (plugs.map (fun plug => some plug.id)).Nodup := by
      have := hids.map (Option.some_injective String)
      rwa [List.map_map] at this
    rw [← hmap] at hnodup
    refine (List.perm_ext_iff_of_nodup hnodup.of_map h.plugs_nodup.of_map).mpr fun s => ?_
    constructor
    · intro hs
      obtain ⟨_, _, hmem, _⟩ := Alignment.exists_left hpairs hs
      exact hmem
    · intro hs
      obtain ⟨plug, hplug, hid⟩ := h.declared s hs
      exact List.mem_filterMap.mpr ⟨plug, hplug, h.get?_slotsByPlug.mpr ⟨hs, hid⟩⟩

end ByPlug

/-! The loop over the ports -/

variable {items : List Incoming} {plans : Dict String InputPortPlan}

section Ports

variable {V : Type} {repr : Quoting} {nodeId : Option String} {resolve : InputSlot → V}
  {ports : List InputPortSpec} {node : GraphNode} {artifactTypes : List ArtifactTypeSpec}
  {catalogue : List ArtifactConversion} {name : String} {port : InputPortSpec}

/-- The plugs of one port, in the node's own order. -/
def plugsAt (node : GraphNode) (name : String) : List GraphInputPlug :=
  node.inputPlugs.filter (fun plug => plug.port = name)

/-- What a port is handed of its slots: one value for each plug in the order of the plugs,
all values in the order of the slots, or the only one. -/
inductive Handed (resolve : InputSlot → V) (port : InputPortSpec) (plugs : List GraphInputPlug)
    (slots : List InputSlot) : PortValue V → Prop
  | plugs {ordered : List InputSlot} : port.instancePlugs = true →
      List.Forall₂ (fun plug s => s.toPlug = some plug.id) plugs ordered → ordered.Perm slots →
      Handed resolve port plugs slots (.many (ordered.map resolve))
  | variadic : port.instancePlugs = false → port.variadic = true →
      Handed resolve port plugs slots (.many (slots.map resolve))
  | single {s : InputSlot} : port.instancePlugs = false → port.variadic = false → slots = [s] →
      Handed resolve port plugs slots (.one (resolve s))

/-- What one turn of the loop does. -/
structure Turn (repr : Quoting) (nodeId : Option String) (resolve : InputSlot → V)
    (plans : Dict String InputPortPlan) (entry : String × List InputSlot) (value : PortValue V)
    (ordered : List InputSlot) : Prop where
  perm : ordered.Perm entry.2
  turn : ∀ state, assemblePort repr nodeId resolve plans state entry =
    .ok ⟨state.values.set entry.1 value, state.resolved ++ ordered⟩

theorem findPort_name (h : findPort ports name = some port) : port ∈ ports ∧ port.name = name :=
  ⟨List.mem_of_find?_eq_some h, by simpa using List.find?_some h⟩

theorem exists_turn (hvalidated : Validated ports node items)
    (hslotted : Slotted repr ports artifactTypes catalogue items slots)
    (hport : findPort ports name = some port) (hplan : plans.get? name = some (portPlan node port))
    (hsome : slotsAt slots name ≠ []) :
    ∃ value ordered, Handed resolve port (plugsAt node name) (slotsAt slots name) value ∧
      Turn repr nodeId resolve plans (name, slotsAt slots name) value ordered := by
  obtain ⟨-, hname⟩ := findPort_name hport
  cases htakes : port.instancePlugs with
  | true =>
    have hplugged := plugged_slotsAt hvalidated hslotted (hname.symm ▸ hport) htakes
    rw [hname] at hplugged
    have hids : ((plugsAt node name).map GraphInputPlug.id).Nodup :=
      hvalidated.nodup.sublist (List.filter_sublist.map _)
    have htakes' : (portPlan node port).instancePlugs = true := htakes
    have hplugs : (portPlan node port).plugs = (plugsAt node name).map GraphInputPlug.id := by
      rw [portPlan, hname, plugsAt]
    obtain ⟨ordered, hordered, haligned, hperm⟩ := hplugged.ordered hids repr htakes' hplugs
    refine ⟨_, ordered, .plugs htakes haligned hperm, hperm, fun state => ?_⟩
    have hmany : (portPlan node port).variadic = true ∨
        (portPlan node port).instancePlugs = true := Or.inr htakes
    simp only [assemblePort, hplan, hordered]
    exact if_pos hmany
  | false =>
    have hordered : inPortOrder repr (portPlan node port) (slotsAt slots name) =
        .ok (slotsAt slots name) := by
      rw [inPortOrder, if_pos]
      simp [portPlan, htakes]
    cases hvariadic : port.variadic with
    | true =>
      refine ⟨_, _, .variadic htakes hvariadic, .refl _, fun state => ?_⟩
      have hmany : (portPlan node port).variadic = true ∨
          (portPlan node port).instancePlugs = true := Or.inl hvariadic
      simp only [assemblePort, hplan, hordered]
      exact if_pos hmany
    | false =>
      have hlength := hslotted.single name port hport hvariadic
      have hpos := List.length_pos_iff.mpr hsome
      obtain ⟨s, hs⟩ := List.length_eq_one_iff.mp (Nat.le_antisymm hlength hpos)
      refine ⟨_, _, .single htakes hvariadic hs, .refl _, fun state => ?_⟩
      have hone : ¬ ((portPlan node port).variadic = true ∨
          (portPlan node port).instancePlugs = true) := by
        simp [portPlan, htakes, hvariadic]
      rw [hs] at hordered
      simp only [assemblePort, hplan, hordered, hs]
      exact if_neg hone

/-- The loop over ports each of which is assembled keeps a value for each, and resolves
what the turns resolve. -/
theorem assemble_turns {plans : Dict String InputPortPlan}
    {P : String × List InputSlot → PortValue V → Prop} {entries : Dict String (List InputSlot)}
    (hturns : ∀ entry ∈ entries, ∃ value ordered, P entry value ∧
      Turn repr nodeId resolve plans entry value ordered) (state : Assembled V)
    (hkeys : (state.values.keys ++ entries.keys).Nodup) :
    ∃ (added : Dict String (PortValue V)) (resolved : List InputSlot),
      entries.foldlM (assemblePort repr nodeId resolve plans) state =
        .ok ⟨state.values ++ added, state.resolved ++ resolved⟩ ∧
      List.Forall₂ (fun entry delivered => delivered.1 = entry.1 ∧ P entry delivered.2)
        entries added ∧
      resolved.Perm (entries.flatMap Prod.snd) := by
  induction entries generalizing state with
  | nil => exact ⟨[], [], by simp [pure, Except.pure], .nil, .refl _⟩
  | cons entry rest ih =>
    obtain ⟨value, ordered, hvalue, hturn⟩ := hturns entry List.mem_cons_self
    have hfresh : entry.1 ∉ state.values.keys := fun hmem =>
      (List.nodup_append.mp hkeys).2.2 _ hmem _ List.mem_cons_self rfl
    have hset := Dict.set_of_get?_none (v := value) (Dict.get?_eq_none hfresh)
    have hrest : ((state.values.set entry.1 value).keys ++ Dict.keys rest).Nodup := by
      rw [hset]
      simpa [Dict.keys] using hkeys
    obtain ⟨added, resolved, hok, haligned, hperm⟩ := ih
      (fun other hother => hturns other (List.mem_cons_of_mem _ hother))
      ⟨state.values.set entry.1 value, state.resolved ++ ordered⟩ hrest
    refine ⟨(entry.1, value) :: added, ordered ++ resolved, ?_, .cons ⟨rfl, hvalue⟩ haligned, ?_⟩
    · rw [foldlM_cons_ok]
      refine ⟨_, hturn.turn state, hok.trans ?_⟩
      rw [hset, List.append_assoc, List.append_assoc]
      rfl
    · exact hturn.perm.append hperm

/-- A port of the slots as they are delivered: nothing for a port no slot is for, which
then has no plugs, and else what the port is handed of its slots. -/
def Delivered (resolve : InputSlot → V) (node : GraphNode) (slots : List InputSlot)
    (values : Dict String (PortValue V)) (port : InputPortSpec) : Prop :=
  (slotsAt slots port.name = [] ∧ (port.instancePlugs = true → plugsAt node port.name = []) ∧
      values.get? port.name = none) ∨
    ∃ value, values.get? port.name = some value ∧
      Handed resolve port (plugsAt node port.name) (slotsAt slots port.name) value

/-- The items of an instance: its connections in their order, then its origins by port
and plug. -/
def Arrives (repr : Quoting) (inst : ExpandedInstance) (upstream : Upstream)
    (items : List Incoming) : Prop :=
  ∃ connected, List.Forall₂ (fun connection item =>
      incomingConnection repr inst upstream connection = .ok item) inst.connections connected ∧
    items = connected ++ (Fingerprints.sortedOrigins inst.origins).map (incomingOrigin repr)

theorem get?_plans (hnames : (ports.map InputPortSpec.name).Nodup)
    (hport : findPort ports name = some port) :
    ((ports.map (portPlan node)).foldl (fun (plans : Dict String InputPortPlan) plan =>
      plans.set plan.name plan) []).get? name = some (portPlan node port) := by
  obtain ⟨hmem, hname⟩ := findPort_name hport
  have hplans : ((ports.map (portPlan node)).map InputPortPlan.name).Nodup := by
    rw [List.map_map]
    exact hnames
  exact (Dict.get?_foldl_set_iff InputPortPlan.name hplans).mpr ⟨List.mem_map_of_mem hmem, hname⟩

/-- The groups that were assembled deliver every port its own. -/
theorem delivered_of_aligned (hvalidated : Validated ports node items)
    (hslotted : Slotted repr ports artifactTypes catalogue items slots)
    (hnames : (ports.map InputPortSpec.name).Nodup) {values : Dict String (PortValue V)}
    (hkeys : values.keys = (group InputSlot.toPort slots).keys)
    (haligned : List.Forall₂ (fun entry delivered => delivered.1 = entry.1 ∧ ∃ port, findPort ports
      entry.1 = some port ∧ Handed resolve port (plugsAt node entry.1) (slotsAt slots entry.1)
      delivered.2) (group InputSlot.toPort slots) values) (hmem : port ∈ ports) :
    Delivered resolve node slots values port := by
  have hport : findPort ports port.name = some port := find?_by_key InputPortSpec.name hnames hmem
  have hgroup : (group InputSlot.toPort slots).get? port.name =
      if slotsAt slots port.name = [] then none else some (slotsAt slots port.name) :=
    get?_group InputSlot.toPort slots port.name
  by_cases hempty : slotsAt slots port.name = []
  · refine Or.inl ⟨hempty, fun htakes => ?_, ?_⟩
    · have hplugged := plugged_slotsAt hvalidated hslotted hport htakes
      rw [List.eq_nil_iff_forall_not_mem]
      intro plug hplug
      have hone := hplugged.one plug hplug
      rw [hempty] at hone
      cases hone
    · refine Dict.get?_eq_none fun hmem => ?_
      rw [hkeys] at hmem
      have hsome := Dict.get?_isSome_of_mem_keys hmem
      rw [hgroup, if_pos hempty] at hsome
      cases hsome
  · rw [if_neg hempty] at hgroup
    obtain ⟨delivered, hdelivered, hname, other, hother, hhanded⟩ :=
      Alignment.exists_right haligned (Dict.mem_of_get? hgroup)
    cases hport.symm.trans hother
    refine Or.inr ⟨delivered.2, Dict.get?_of_mem ?_ ?_, hhanded⟩
    · rw [hkeys]
      exact keys_group_nodup _ _
    · have hpair : (delivered.1, delivered.2) ∈ values := hdelivered
      rwa [hname] at hpair

/-- Whatever bind accepts is assembled without an error: every connection and every
origin has one slot, in order, every slot is resolved once, every port of the operator
is delivered the values of its own slots, and no other port is delivered anything. -/
theorem bound_inputs_delivered (hnames : (ports.map InputPortSpec.name).Nodup)
    {inst : ExpandedInstance} {upstream : Upstream} {bound : BoundInputs}
    (hbind : bindInstance ports repr artifactTypes catalogue inst upstream = .ok bound)
    (resolve : InputSlot → V) (nodeId : Option String) :
    ∃ items assembled, Arrives repr inst upstream items ∧
      List.Forall₂ (fun item s => slot repr artifactTypes catalogue item = .ok s) items
        bound.slots ∧
      assembleInputs repr nodeId resolve bound = .ok assembled ∧
      assembled.resolved.Perm bound.slots ∧
      (∀ port ∈ ports, Delivered resolve inst.node bound.slots assembled.values port) ∧
      assembled.values.keys.Nodup ∧
      ∀ name ∈ assembled.values.keys, name ∈ ports.map InputPortSpec.name := by
  obtain ⟨items, hitems, hbind⟩ := bind_ok.mp hbind
  obtain ⟨made, hslots, hbind⟩ := bind_ok.mp hbind
  cases hbind
  obtain ⟨connected, hconnected, hitems⟩ := bind_ok.mp hitems
  cases hitems
  obtain ⟨_, hvalidate, hslots⟩ := bind_ok.mp hslots
  obtain ⟨slots, hloop, hslots⟩ := bind_ok.mp hslots
  obtain ⟨_, -, hslots⟩ := bind_ok.mp hslots
  obtain rfl := Except.ok.inj hslots
  have hvalidated := validated_of_validateInputPlugs hvalidate
  have hslotted := slotted_of_bindItem hloop
  have hfound : ∀ entry ∈ group InputSlot.toPort slots,
      ∃ port, findPort ports entry.1 = some port := by
    intro entry hentry
    obtain ⟨heq, hne⟩ := mem_group hentry
    obtain ⟨s, hs⟩ := List.exists_mem_of_ne_nil _ hne
    rw [heq] at hs
    obtain ⟨hmem, hto⟩ := List.mem_filter.mp hs
    obtain ⟨port, hport⟩ := hslotted.known s hmem
    exact ⟨port, of_decide_eq_true hto ▸ hport⟩
  have hturns : ∀ entry ∈ group InputSlot.toPort slots, ∃ value ordered,
      (∃ port, findPort ports entry.1 = some port ∧ Handed resolve port
        (plugsAt inst.node entry.1) (slotsAt slots entry.1) value) ∧
      Turn repr nodeId resolve ((ports.map (portPlan inst.node)).foldl
        (fun (plans : Dict String InputPortPlan) plan => plans.set plan.name plan) []) entry value
        ordered := by
    intro entry hentry
    obtain ⟨port, hport⟩ := hfound entry hentry
    obtain ⟨heq, hne⟩ := mem_group hentry
    have hsome : slotsAt slots entry.1 ≠ [] := by
      rw [slotsAt, ← heq]
      exact hne
    obtain ⟨value, ordered, hhanded, hturn⟩ := exists_turn hvalidated hslotted hport
      (get?_plans hnames hport) hsome
    refine ⟨value, ordered, ⟨port, hport, hhanded⟩, ?_⟩
    rw [slotsAt, ← heq] at hturn
    exact hturn
  obtain ⟨values, resolved, hok, haligned, hperm⟩ := assemble_turns hturns ⟨[], []⟩
    (keys_group_nodup _ _)
  have hkeys : Dict.keys values = (group InputSlot.toPort slots).keys :=
    (Alignment.map_eq haligned fun _ _ hpair => hpair.1.symm).symm
  refine ⟨_, ⟨values, resolved⟩, ⟨connected, mapM_ok hconnected, rfl⟩, hslotted.made, hok,
    hperm.trans (group_perm _ _),
    fun port hport => delivered_of_aligned hvalidated hslotted hnames hkeys haligned hport, ?_, ?_⟩
  · exact hkeys ▸ keys_group_nodup _ _
  · intro name hname
    rw [hkeys] at hname
    obtain ⟨entry, hentry, rfl⟩ := List.mem_map.mp hname
    obtain ⟨port, hport⟩ := hfound entry hentry
    obtain ⟨hmem, hname⟩ := findPort_name hport
    exact hname ▸ List.mem_map_of_mem hmem

end Ports

/-- A port that takes plugs, each of one table. -/
def tablesPort : InputPortSpec := ⟨"tables", .concrete ⟨"table", 1⟩, [], true, true, true⟩

/-- The plugs are declared in another order than that of their names. -/
def joinNode : GraphNode :=
  ⟨.builtin, "join", "table.join", 1, [], default, none, [⟨"right", "tables"⟩, ⟨"left", "tables"⟩],
    []⟩

def tableAt (plug artifactId : String) : GraphOrigin :=
  ⟨plug, "join", "tables", some plug, .ref ⟨artifactId, "table", 1, none⟩, .direct, []⟩

def joinInstance : ExpandedInstance :=
  ⟨⟨"p", "g", [], "join", none⟩, joinNode, [], [tableAt "left" "l", tableAt "right" "r"], 0⟩

theorem joinInstance_delivered : ∃ bound assembled,
    bindInstance [tablesPort] id [] [] joinInstance [] = .ok bound ∧
    assembleInputs id none InputSlot.value bound = .ok assembled ∧
    Delivered InputSlot.value joinNode bound.slots assembled.values tablesPort := by
  have hbind : bindInstance [tablesPort] id [] [] joinInstance [] = .ok _ := rfl
  have hnames : ([tablesPort].map InputPortSpec.name).Nodup := List.nodup_singleton _
  obtain ⟨_, assembled, -, -, hok, -, hdelivered, -⟩ :=
    bound_inputs_delivered hnames hbind InputSlot.value none
  exact ⟨_, assembled, hbind, hok, hdelivered _ (List.mem_singleton_self _)⟩

end Grafy.InputCompleteness
