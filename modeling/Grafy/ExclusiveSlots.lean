import Grafy.DocumentRules

/-!
What an accepted document's edges and origins have of their own: an edge is alone at the
plug it names, whether or not it is enabled, and an origin is alone at its input position
among the origins and the enabled edges.
-/
namespace Grafy.DocumentRules

open GraphDocuments Loops OrderedDict

/-- The plug an edge ends at, if it names one. -/
def plugKey (edge : GraphEdge) : Option (String × String) :=
  edge.toPlug.map (fun plug => (edge.toNode, plug))

def edgeSlot (edge : GraphEdge) : String × String :=
  graphInputSlot edge.toNode edge.toPort edge.toPlug

def originSlot (origin : GraphOrigin) : String × String :=
  graphInputSlot origin.toNode origin.toPort origin.toPlug

/-- A plug that is named is there and belongs to the port. -/
def PortOf (document : GraphDocument) (toNode toPort : String) (toPlug : Option String) : Prop :=
  ∀ plug ∈ toPlug, ∃ target, plugOf document toNode plug = some target ∧ target.port = toPort

structure Exclusive (document : GraphDocument) : Prop where
  edgePorts : ∀ edge ∈ document.edges, PortOf document edge.toNode edge.toPort edge.toPlug
  originPorts : ∀ origin ∈ document.origins,
    PortOf document origin.toNode origin.toPort origin.toPlug
  plugs : (document.edges.filterMap plugKey).Nodup
  origins : (document.origins.map originSlot).Nodup
  apart : ∀ edge ∈ document.edges, edge.enabled → ∀ origin ∈ document.origins,
    edgeSlot edge ≠ originSlot origin

variable {document : GraphDocument}

variable {slots slots' : Slots} {edge : GraphEdge}

section Edges

/-- The slots once an enabled edge has taken its own. -/
def noted (slots : Slots) (edge : GraphEdge) : Slots :=
  if edge.enabled ∧ (slots.enabledSlots.get? (edgeSlot edge)).isNone then
    { slots with enabledSlots := slots.enabledSlots.set (edgeSlot edge) edge.id }
  else slots

theorem noted_eq (slots : Slots) (edge : GraphEdge) : noted slots edge =
    if edge.enabled ∧
      (slots.enabledSlots.get? (graphInputSlot edge.toNode edge.toPort edge.toPlug)).isNone then
      { slots with
        enabledSlots :=
          slots.enabledSlots.set (graphInputSlot edge.toNode edge.toPort edge.toPlug) edge.id }
    else slots := rfl

theorem noted_connectedPlugs (slots : Slots) (edge : GraphEdge) :
    (noted slots edge).connectedPlugs = slots.connectedPlugs := by
  unfold noted
  split <;> rfl

theorem noted_enabledSlots (slots : Slots) (edge : GraphEdge) (slot : String × String) :
    ((noted slots edge).enabledSlots.get? slot).isSome ↔
      (slots.enabledSlots.get? slot).isSome ∨ edge.enabled ∧ edgeSlot edge = slot := by
  unfold noted
  split
  · next hnew =>
    dsimp only
    rw [Dict.get?_set]
    by_cases hsame : slot = edgeSlot edge
    · simp [hsame, hnew.1]
    · simp [hsame, Ne.symm hsame]
  · next hold =>
    refine ⟨Or.inl, ?_⟩
    rintro (hsome | ⟨henabled, rfl⟩)
    · exact hsome
    · by_contra hnone
      exact hold ⟨henabled, by simpa using hnone⟩

/-- What a turn of the loop over the edges has checked and recorded. -/
theorem checkEdge_slots (h : checkEdge document slots edge = .ok slots') :
    PortOf document edge.toNode edge.toPort edge.toPlug ∧
      slots'.connectedPlugs = (plugKey edge).toList ++ slots.connectedPlugs ∧
      (∀ key ∈ plugKey edge, key ∉ slots.connectedPlugs) ∧
      slots'.enabledSlots = (noted slots edge).enabledSlots := by
  obtain ⟨hfrom, hto⟩ := checkEdge_ok h
  unfold checkEdge at h
  dsimp only at h
  rw [if_neg (not_not.mpr hfrom), if_neg (not_not.mpr hto)] at h
  rw [← noted_eq] at h
  cases hplug : edge.toPlug with
  | none =>
    rw [hplug] at h
    cases h
    refine ⟨nofun, ?_, ?_, rfl⟩
    · simpa [plugKey, hplug] using noted_connectedPlugs slots edge
    · simp [plugKey, hplug]
  | some plug =>
    have hkey : plugKey edge = some (edge.toNode, plug) := by
      rw [plugKey, hplug]
      rfl
    rw [hplug] at h
    dsimp only at h
    cases hfound : plugOf document edge.toNode plug with
    | none =>
      rw [hfound] at h
      cases h
    | some target =>
      rw [hfound] at h
      dsimp only at h
      split at h
      · cases h
      · next hport =>
        split at h
        · cases h
        · next htaken =>
          cases h
          rw [noted_connectedPlugs] at htaken
          refine ⟨?_, ?_, ?_, rfl⟩
          · rintro named hnamed
            cases hnamed
            exact ⟨target, hfound, not_not.mp hport⟩
          · rw [hkey, noted_connectedPlugs]
            rfl
          · rintro key hin
            rw [hkey] at hin
            cases hin
            exact htaken

/-- What the loop over the edges has checked and recorded after some of them. -/
structure EdgesNoted (document : GraphDocument) (done : List GraphEdge) (slots : Slots) : Prop where
  ports : ∀ edge ∈ done, PortOf document edge.toNode edge.toPort edge.toPlug
  plugs : (done.filterMap plugKey).Nodup
  connected : ∀ key, key ∈ slots.connectedPlugs ↔ key ∈ done.filterMap plugKey
  enabled : ∀ slot, (slots.enabledSlots.get? slot).isSome ↔
    ∃ edge ∈ done, edge.enabled ∧ edgeSlot edge = slot

theorem edges_noted (h : document.edges.foldlM (checkEdge document) ⟨[], []⟩ = .ok slots) :
    EdgesNoted document document.edges slots := by
  refine foldlM_invariant (EdgesNoted document) h ⟨by simp, List.nodup_nil, ?_, ?_⟩ ?_
  · simp
  · simp
  · intro done edge before after _ hnoted hturn
    obtain ⟨hport, hconnected, hfresh, henabled⟩ := checkEdge_slots hturn
    refine ⟨?_, ?_, ?_, ?_⟩
    · intro other hother
      rcases List.mem_append.mp hother with hold | hnew
      · exact hnoted.ports other hold
      · exact List.mem_singleton.mp hnew ▸ hport
    · rw [List.filterMap_append, List.nodup_append]
      refine ⟨hnoted.plugs, ?_, ?_⟩
      · cases hkey : plugKey edge <;> simp [hkey]
      · intro key hkey other hother heq
        have hnew : other ∈ plugKey edge := by simpa using hother
        exact hfresh other hnew ((hnoted.connected other).mpr (heq ▸ hkey))
    · intro key
      rw [hconnected, List.mem_append, hnoted.connected, List.filterMap_append, List.mem_append,
        or_comm]
      simp
    · intro slot
      rw [henabled, noted_enabledSlots, hnoted.enabled]
      simp [or_and_right, exists_or]

end Edges

variable {origin : GraphOrigin}

section Origins

theorem checkOriginPlug_ok {u : Unit} (h : checkOriginPlug document origin = .ok u) :
    PortOf document origin.toNode origin.toPort origin.toPlug := by
  rintro plug hplug
  have htoPlug : origin.toPlug = some plug := hplug
  rw [checkOriginPlug, htoPlug] at h
  cases hfound : plugOf document origin.toNode plug with
  | none => simp [hfound] at h
  | some target =>
    by_cases hport : target.port = origin.toPort
    · exact ⟨target, rfl, hport⟩
    · simp [hfound, hport] at h

theorem checkOrigin_slots (h : checkOrigin document slots origin = .ok slots') :
    PortOf document origin.toNode origin.toPort origin.toPlug ∧
      slots.enabledSlots.get? (originSlot origin) = none ∧
      slots'.enabledSlots = slots.enabledSlots.set (originSlot origin) origin.id := by
  have hto := checkOrigin_ok h
  unfold checkOrigin at h
  rw [if_neg (not_not.mpr hto)] at h
  cases hcheck : checkOriginPlug document origin with
  | error e =>
    rw [hcheck] at h
    cases h
  | ok u =>
    rw [hcheck] at h
    dsimp only at h
    have hslot : slots.enabledSlots.get? (originSlot origin) = none := by
      cases hget : slots.enabledSlots.get? (originSlot origin) with
      | none => rfl
      | some feed =>
        rw [originSlot] at hget
        rw [hget] at h
        cases h
    refine ⟨checkOriginPlug_ok hcheck, hslot, ?_⟩
    rw [originSlot] at hslot
    rw [hslot] at h
    cases h
    rfl

/-- What the loop over the origins has checked and recorded after some of them. -/
structure OriginsNoted (document : GraphDocument) (done : List GraphOrigin) (slots : Slots) :
    Prop where
  ports : ∀ origin ∈ done, PortOf document origin.toNode origin.toPort origin.toPlug
  origins : (done.map originSlot).Nodup
  apart : ∀ edge ∈ document.edges, edge.enabled → ∀ origin ∈ done, edgeSlot edge ≠ originSlot origin
  enabled : ∀ slot, (slots.enabledSlots.get? slot).isSome ↔
    (∃ edge ∈ document.edges, edge.enabled ∧ edgeSlot edge = slot) ∨
      ∃ origin ∈ done, originSlot origin = slot

theorem origins_noted (hedges : EdgesNoted document document.edges slots)
    (h : document.origins.foldlM (checkOrigin document) slots = .ok slots') :
    OriginsNoted document document.origins slots' := by
  refine foldlM_invariant (OriginsNoted document) h ⟨by simp, List.nodup_nil, ?_, ?_⟩ ?_
  · exact fun _ _ _ => nofun
  · intro slot
    rw [hedges.enabled]
    simp
  · intro done origin before after _ hnoted hturn
    obtain ⟨hport, hfree, hset⟩ := checkOrigin_slots hturn
    have hnew : ¬ ((∃ edge ∈ document.edges, edge.enabled ∧ edgeSlot edge = originSlot origin) ∨
        ∃ other ∈ done, originSlot other = originSlot origin) := by
      rw [← hnoted.enabled, hfree]
      simp
    refine ⟨?_, ?_, ?_, ?_⟩
    · intro other hother
      rcases List.mem_append.mp hother with hold | hlast
      · exact hnoted.ports other hold
      · exact List.mem_singleton.mp hlast ▸ hport
    · rw [List.map_append, List.nodup_append]
      refine ⟨hnoted.origins, List.nodup_singleton _, ?_⟩
      intro slot hslot other hother heq
      obtain ⟨o, ho, rfl⟩ := List.mem_map.mp hslot
      exact hnew (Or.inr ⟨o, ho, heq.trans (List.mem_singleton.mp hother)⟩)
    · intro edge hedge henabled other hother
      rcases mem_snoc.mp hother with hold | rfl
      · exact hnoted.apart edge hedge henabled other hold
      · intro hslot
        exact hnew (Or.inl ⟨edge, hedge, henabled, hslot⟩)
    · intro slot
      rw [hset, Dict.get?_set]
      by_cases hsame : slot = originSlot origin
      · simp [hsame]
      · rw [if_neg hsame, hnoted.enabled]
        simp [Ne.symm hsame]

end Origins

theorem validateStructure_exclusive (h : validateStructure document = .ok ()) :
    Exclusive document := by
  obtain ⟨slots, slots', hedges, horigins⟩ := (validateStructure_ok.mp h).wires
  have hedgesNoted := edges_noted hedges
  have horiginsNoted := origins_noted hedgesNoted horigins
  exact ⟨hedgesNoted.ports, horiginsNoted.ports, hedgesNoted.plugs, horiginsNoted.origins,
    horiginsNoted.apart⟩

section Accepting

/-- A loop whose every turn succeeds and keeps the invariant comes to its end. -/
theorem foldlM_exists {A S E : Type} {f : S → A → Except E S} (I : List A → S → Prop) {l : List A}
    {s : S} (hstart : I [] s)
    (hturn : ∀ done a rest u, l = done ++ a :: rest → I done u →
      ∃ v, f u a = .ok v ∧ I (done ++ [a]) v) : ∃ t, l.foldlM f s = .ok t ∧ I l t := by
  suffices hgen : ∀ (rest done : List A) (u : S), l = done ++ rest → I done u →
      ∃ t, rest.foldlM f u = .ok t ∧ I l t from hgen l [] s rfl hstart
  intro rest
  induction rest with
  | nil =>
    intro done u hl hI
    exact ⟨u, rfl, by simpa [hl] using hI⟩
  | cons a rest ih =>
    intro done u hl hI
    obtain ⟨v, hv, hnext⟩ := hturn done a rest u hl hI
    obtain ⟨t, ht, hlast⟩ := ih (done ++ [a]) v (by simpa using hl) hnext
    exact ⟨t, foldlM_cons_ok.mpr ⟨v, hv, ht⟩, hlast⟩

theorem checkEdge_exists (hfrom : edge.fromNode ∈ nodeIds document)
    (hto : edge.toNode ∈ nodeIds document)
    (hport : PortOf document edge.toNode edge.toPort edge.toPlug)
    (hfresh : ∀ key ∈ plugKey edge, key ∉ slots.connectedPlugs) :
    ∃ slots', checkEdge document slots edge = .ok slots' := by
  unfold checkEdge
  dsimp only
  rw [if_neg (not_not.mpr hfrom), if_neg (not_not.mpr hto), ← noted_eq]
  cases hplug : edge.toPlug with
  | none => exact ⟨_, rfl⟩
  | some plug =>
    obtain ⟨target, hfound, htarget⟩ := hport plug hplug
    have hkey : plugKey edge = some (edge.toNode, plug) := by
      rw [plugKey, hplug]
      rfl
    have hnew : (edge.toNode, plug) ∉ (noted slots edge).connectedPlugs := by
      rw [noted_connectedPlugs]
      exact hfresh _ hkey
    dsimp only
    rw [hfound]
    dsimp only
    rw [if_neg (not_not.mpr htarget), if_neg hnew]
    exact ⟨_, rfl⟩

theorem edges_accepted (hends : ∀ edge ∈ document.edges,
      edge.fromNode ∈ nodeIds document ∧ edge.toNode ∈ nodeIds document)
    (hports : ∀ edge ∈ document.edges, PortOf document edge.toNode edge.toPort edge.toPlug)
    (hplugs : (document.edges.filterMap plugKey).Nodup) :
    ∃ slots, document.edges.foldlM (checkEdge document) ⟨[], []⟩ = .ok slots := by
  obtain ⟨slots, hslots, -⟩ := foldlM_exists (f := checkEdge document)
    (fun done slots => ∀ key, key ∈ slots.connectedPlugs ↔ key ∈ done.filterMap plugKey)
    (l := document.edges) (s := ⟨[], []⟩) (by simp) (by
      intro done edge rest slots hl hconnected
      have hedge : edge ∈ document.edges := by simp [hl]
      have hfresh : ∀ key ∈ plugKey edge, key ∉ slots.connectedPlugs := by
        intro key hkey hin
        rw [hl, List.filterMap_append, List.filterMap_cons_some hkey, List.nodup_append] at hplugs
        exact hplugs.2.2 key ((hconnected key).mp hin) key (List.mem_cons_self ..) rfl
      obtain ⟨slots', hslots'⟩ := checkEdge_exists (hends edge hedge).1 (hends edge hedge).2
        (hports edge hedge) hfresh
      refine ⟨slots', hslots', ?_⟩
      intro key
      rw [(checkEdge_slots hslots').2.1, List.mem_append, hconnected, List.filterMap_append,
        List.mem_append, or_comm]
      simp)
  exact ⟨slots, hslots⟩

theorem checkOrigin_exists (hto : origin.toNode ∈ nodeIds document)
    (hport : PortOf document origin.toNode origin.toPort origin.toPlug)
    (hfree : slots.enabledSlots.get? (originSlot origin) = none) :
    ∃ slots', checkOrigin document slots origin = .ok slots' := by
  have hcheck : checkOriginPlug document origin = .ok () := by
    unfold checkOriginPlug
    cases hplug : origin.toPlug with
    | none => rfl
    | some plug =>
      obtain ⟨target, hfound, htarget⟩ := hport plug hplug
      simp [hfound, htarget]
  rw [originSlot] at hfree
  unfold checkOrigin
  rw [if_neg (not_not.mpr hto), hcheck]
  dsimp only
  rw [hfree]
  exact ⟨_, rfl⟩

theorem origins_accepted (hnoted : EdgesNoted document document.edges slots)
    (hends : ∀ origin ∈ document.origins, origin.toNode ∈ nodeIds document)
    (hports : ∀ origin ∈ document.origins, PortOf document origin.toNode origin.toPort
      origin.toPlug) (horigins : (document.origins.map originSlot).Nodup)
    (hapart : ∀ edge ∈ document.edges, edge.enabled → ∀ origin ∈ document.origins, edgeSlot edge ≠
      originSlot origin) :
    ∃ slots', document.origins.foldlM (checkOrigin document) slots = .ok slots' := by
  obtain ⟨slots', hslots', -⟩ := foldlM_exists (f := checkOrigin document)
    (fun done slots => ∀ slot, (slots.enabledSlots.get? slot).isSome ↔
      (∃ edge ∈ document.edges, edge.enabled ∧ edgeSlot edge = slot) ∨
        ∃ origin ∈ done, originSlot origin = slot)
    (l := document.origins) (s := slots) (by simpa using hnoted.enabled) (by
      intro done origin rest slots hl hused
      have horigin : origin ∈ document.origins := by simp [hl]
      have hfree : slots.enabledSlots.get? (originSlot origin) = none := by
        rw [Option.eq_none_iff_forall_ne_some]
        intro feed hfeed
        have hsome : (slots.enabledSlots.get? (originSlot origin)).isSome := by simp [hfeed]
        rcases (hused _).mp hsome with ⟨edge, hedge, henabled, hslot⟩ | ⟨other, hother, hslot⟩
        · exact hapart edge hedge henabled origin horigin hslot
        · rw [hl, List.map_append, List.map_cons, List.nodup_append] at horigins
          exact horigins.2.2 _ (List.mem_map_of_mem hother) _ (List.mem_cons_self ..) hslot
      obtain ⟨slots', hslots'⟩ := checkOrigin_exists (hends origin horigin)
        (hports origin horigin) hfree
      refine ⟨slots', hslots', ?_⟩
      intro slot
      rw [(checkOrigin_slots hslots').2.2, Dict.get?_set]
      by_cases hsame : slot = originSlot origin
      · simp [hsame]
      · rw [if_neg hsame, hused]
        simp [Ne.symm hsame])
  exact ⟨slots', hslots'⟩

/-- What the structure of a document is accepted for. -/
structure Accepted (document : GraphDocument) : Prop where
  agentIds : (document.agents.map GraphAgent.id).Nodup
  edgeIds : (document.edges.map GraphEdge.id).Nodup
  originIds : (document.origins.map GraphOrigin.id).Nodup
  plugIds : ∀ node ∈ document.nodes, (node.inputPlugs.map GraphInputPlug.id).Nodup
  anchored : Anchored document
  exclusive : Exclusive document
  links : ∀ link ∈ document.presentation.links, link.sourceNodeId ∈ nodeIds document

theorem validateStructure_iff : validateStructure document = .ok () ↔ Accepted document := by
  constructor
  · intro h
    have hstructured := validateStructure_ok.mp h
    obtain ⟨checked, hplugs⟩ := hstructured.plugs
    refine ⟨hstructured.agentIds, hstructured.edgeIds, hstructured.originIds, ?_,
      validateStructure_anchored h, validateStructure_exclusive h, validateStructure_links h⟩
    intro node hnode
    obtain ⟨_, -, hone⟩ := Alignment.exists_right (mapM_ok hplugs) hnode
    exact require_ok.mp hone
  · intro h
    obtain ⟨slots, hedges⟩ :=
      edges_accepted h.anchored.edges h.exclusive.edgePorts h.exclusive.plugs
    obtain ⟨slots', horigins⟩ := origins_accepted (edges_noted hedges) h.anchored.origins
      h.exclusive.originPorts h.exclusive.origins h.exclusive.apart
    refine validateStructure_ok.mpr ⟨h.agentIds, h.anchored.nodeIds, h.edgeIds, h.originIds, ?_,
      ⟨slots, slots', hedges, horigins⟩, ?_⟩
    · exact mapM_exists (fun node hnode => ⟨(), require_ok.mpr (h.plugIds node hnode)⟩)
    · exact mapM_exists (fun link hlink => ⟨(), require_ok.mpr (h.links link hlink)⟩)

end Accepting

end Grafy.DocumentRules
