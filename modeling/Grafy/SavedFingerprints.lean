import Grafy.JsonTexts
import Grafy.OrderedSort
import Mathlib.Data.List.Pairwise

/-!
The fingerprints that tell a changed canvas from the last checkpoint: a chosen
part of the draft, its lists in id order and its objects in key order, written
as JSON. They tell drafts apart but for their origins and their Agents, which
neither fingerprint reads.
-/
namespace Grafy.SavedFingerprints

open OrderedDict CanonicalJson JsonTexts TopologicalSort

/-- `localeCompare`: a consistent comparison, which may hold two strings for one. -/
structure Collation where
  compare : String → String → Int
  total (a b : String) : compare a b ≤ 0 ∨ compare b a ≤ 0
  trans (a b c : String) : compare a b ≤ 0 → compare b c ≤ 0 → compare a c ≤ 0

/-- No two of the strings are held for one. -/
abbrev Collation.Apart (c : Collation) (l : List String) : Prop :=
  l.Pairwise (fun a b => ¬ (c.compare a b ≤ 0 ∧ c.compare b a ≤ 0))

variable (c : Collation)

instance (A : Type) (f : A → String) : Std.Total (fun a b => c.compare (f a) (f b) ≤ 0) :=
  ⟨fun _ _ => c.total _ _⟩

instance (A : Type) (f : A → String) : IsTrans A (fun a b => c.compare (f a) (f b) ≤ 0) :=
  ⟨fun _ _ _ => c.trans _ _ _⟩

theorem eq_of_apart {A : Type} {f : A → String} {l : List A} (h : c.Apart (l.map f)) :
    ∀ a ∈ l, ∀ b ∈ l, c.compare (f a) (f b) ≤ 0 → c.compare (f b) (f a) ≤ 0 → a = b := by
  intro a ha b hb hab hba
  by_contra hne
  have _ : Std.Symm (fun a b => ¬ (c.compare (f a) (f b) ≤ 0 ∧ c.compare (f b) (f a) ≤ 0)) :=
    ⟨fun _ _ h => h ∘ And.symm⟩
  exact (List.pairwise_map.mp h).forall ha hb hne ⟨hab, hba⟩

/-- The number a key stands for where it is the index of an array. -/
def arrayIndex (key : String) : Option ℕ :=
  key.toNat?.filter (fun n => toString n = key && n < 2 ^ 32 - 1)

/-- `Object.entries`: the indices by number, then the other keys as they were set. -/
def entries (members : Dict String Json) : Dict String Json :=
  (members.filter (fun m => (arrayIndex m.1).isSome)).insertionSort
      (fun a b => (arrayIndex a.1).getD 0 ≤ (arrayIndex b.1).getD 0) ++
    members.filter (fun m => !(arrayIndex m.1).isSome)

/-- The value with the members of every object in it put in an order. -/
def rearrange (order : Dict String Json → Dict String Json) : Json → Json
  | .arr items => .arr (items.map (fun v => rearrange order v))
  | .obj members => .obj (order (members.map (fun m => (m.1, rearrange order m.2))))
  | .null => .null
  | .bool b => .bool b
  | .int i => .int i
  | .float f => .float f
  | .str s => .str s
termination_by v => sizeOf v
decreasing_by
  · decreasing_tactic
  · rename_i hm
    have hlt := List.sizeOf_lt_of_mem hm
    cases m
    simp only [Prod.mk.sizeOf_spec, Json.obj.sizeOf_spec] at hlt ⊢
    omega

/-- The members by key. Assigning to `__proto__` sets no member. -/
def sortedMembers (members : Dict String Json) : Dict String Json :=
  entries (((entries members).insertionSort (fun a b => c.compare a.1 b.1 ≤ 0)).filter
    (fun m => m.1 ≠ "__proto__"))

def sortedRecord (v : Json) : Json := rearrange (sortedMembers c) v

/-- The keys of an object that sorting neither confuses nor loses. -/
abbrev Clear (members : Dict String Json) : Prop :=
  c.Apart members.keys ∧ "__proto__" ∉ members.keys

def clearKeys : Json → Bool
  | .obj members => decide (Clear c members)
  | _ => true

section Orders

variable {c} {order order' : Dict String Json → Dict String Json} {l l' : Dict String Json}
  {v w : Json}

theorem rearrange_rearrange (horder : ∀ l l', Clear c l → l.Perm l' → order l = order l')
    (horder' : ∀ l, Clear c l → (order' l).Perm l) (hv : everywhere (clearKeys c) v) :
    rearrange order (rearrange order' v) = rearrange order v := by
  induction v using Json.induct with
  | arr items ih =>
    simp only [rearrange, List.map_map]
    exact congrArg _ (List.map_congr_left fun v hmem =>
      ih v hmem ((everywhere_arr.mp hv).2 v hmem))
  | obj members ih =>
    obtain ⟨hclear, hrest⟩ := everywhere_obj.mp hv
    have hmapped (f : Json → Json) : Clear c (members.map (fun m => (m.1, f m.2))) := by
      unfold Clear Dict.keys
      rw [List.map_map]
      exact of_decide_eq_true hclear
    simp only [rearrange, Json.obj.injEq]
    refine (horder _ _ (hmapped _) (List.Perm.symm ?_)).symm
    refine ((horder' _ (hmapped _)).map _).trans (List.Perm.of_eq ?_)
    rw [List.map_map]
    exact List.map_congr_left fun m hm => congrArg (Prod.mk m.1) (ih m hm (hrest m hm))
  | _ => simp only [rearrange]

theorem entries_perm : (entries l).Perm l :=
  ((List.perm_insertionSort _ _).append_right _).trans (List.filter_append_perm _ _)

theorem sortedMembers_perm (h : "__proto__" ∉ l.keys) : (sortedMembers c l).Perm l := by
  have hperm := (List.perm_insertionSort (fun a b => c.compare a.1 b.1 ≤ 0) (entries l)).trans
    entries_perm
  rw [sortedMembers, List.filter_eq_self.mpr]
  · exact entries_perm.trans hperm
  · intro m hm
    refine decide_eq_true fun heq => h ?_
    rw [← heq]
    exact List.mem_map_of_mem (hperm.mem_iff.mp hm)

theorem sortedMembers_eq (h : Clear c l) (hperm : l.Perm l') :
    sortedMembers c l = sortedMembers c l' := by
  have hentries : (entries l).Perm (entries l') :=
    entries_perm.trans (hperm.trans entries_perm.symm)
  rw [sortedMembers, sortedMembers, insertionSort_perm (fun a ha b hb => ?_) hentries]
  exact eq_of_apart c h.1 a (entries_perm.mem_iff.mp ha) b (entries_perm.mem_iff.mp hb)

theorem keyOrder_eq (h : Clear c l) (hperm : l.Perm l') :
    l.insertionSort (fun a b => a.1 ≤ b.1) = l'.insertionSort (fun a b => a.1 ≤ b.1) := by
  have _ : Std.Total (fun a b : String × Json => a.1 ≤ b.1) := ⟨fun _ _ => le_total _ _⟩
  have _ : IsTrans (String × Json) (fun a b => a.1 ≤ b.1) := ⟨fun _ _ _ => le_trans⟩
  refine insertionSort_perm (fun a ha b hb hab hba => ?_) hperm
  have hself : c.compare a.1 a.1 ≤ 0 := or_self_iff.mp (c.total _ _)
  have hkey : a.1 = b.1 := le_antisymm hab hba
  exact eq_of_apart c h.1 a ha b hb (hkey ▸ hself) (hkey ▸ hself)

theorem sortKeys_eq (v : Json) :
    sortKeys v = rearrange (fun l => l.insertionSort (fun a b => a.1 ≤ b.1)) v := by
  induction v using Json.induct with
  | arr items ih =>
    rw [sortKeys, rearrange, sortKeysItems_eq_map, List.map_congr_left ih]
  | obj members ih =>
    rw [sortKeys, rearrange, sortKeysMembers_eq_map,
      List.map_congr_left fun m hm => congrArg (Prod.mk m.1) (ih m hm)]
  | _ => simp only [sortKeys, rearrange]

theorem sortKeys_sortedRecord (hv : everywhere (clearKeys c) v) :
    sortKeys (sortedRecord c v) = sortKeys v := by
  rw [sortKeys_eq, sortKeys_eq]
  exact rearrange_rearrange (fun _ _ => keyOrder_eq) (fun _ h => sortedMembers_perm h.2) hv

theorem sortedRecord_sortKeys (hv : everywhere (clearKeys c) v) :
    sortedRecord c (sortKeys v) = sortedRecord c v := by
  rw [sortKeys_eq]
  exact rearrange_rearrange (fun _ _ => sortedMembers_eq)
    (fun _ _ => List.perm_insertionSort _ _) hv

end Orders

structure GraphPresentation where
  viewers : List Json
  links : List Json
  bindings : List Json
  annotations : List Json

/-- A Graph as a person authors it: every list holds JSON objects with an id. -/
structure GraphDraft where
  name : String
  schemaVersion : Int
  nodes : List Json
  edges : List Json
  origins : List Json
  agents : List Json
  presentation : Option GraphPresentation

def GraphDraft.shown (graph : GraphDraft) : GraphPresentation :=
  graph.presentation.getD ⟨[], [], [], []⟩

def idOf : Json → String
  | .obj members => match Dict.get? members "id" with
    | some (.str id) => id
    | _ => ""
  | _ => ""

def stringify (v : Json) : String := String.ofList (encodeText v)

abbrev ById (left right : Json) : Prop := c.compare (idOf left) (idOf right) ≤ 0

def byId (items : List Json) : Json :=
  .arr (items.insertionSort (ById c))

/-- What is read for the execution. -/
def executed (graph : GraphDraft) : Dict String Json :=
  [("name", .str graph.name), ("schema_version", .int graph.schemaVersion),
    ("nodes", byId c graph.nodes), ("edges", byId c graph.edges)]

def normalized (graph : GraphDraft) : Dict String Json :=
  executed c graph ++ [("presentation",
    .obj [("viewers", byId c graph.shown.viewers), ("links", byId c graph.shown.links),
      ("bindings", byId c graph.shown.bindings),
      ("annotations", byId c graph.shown.annotations)])]

def savedGraphFingerprint (graph : GraphDraft) : String :=
  stringify (sortedRecord c (.obj (normalized c graph)))

def savedGraphExecutionFingerprint (graph : GraphDraft) : String :=
  stringify (sortedRecord c (.obj (executed c graph)))

/-- `savedGraphDirtiness`: what the fingerprints decide of a canvas. -/
def isDirty (hasActiveGraph hasUnsavedDraft : Bool) (savedFingerprint : Option String)
    (currentFingerprint : String) : Bool :=
  if hasActiveGraph then savedFingerprint ≠ some currentFingerprint else hasUnsavedDraft

def canMaterializeSavedGraph (hasActiveGraph : Bool) (savedExecutionFingerprint : Option String)
    (currentExecutionFingerprint : String) : Bool :=
  hasActiveGraph && savedExecutionFingerprint = some currentExecutionFingerprint

/-- `openSavedGraph` keeps a canvas that changed while the Graph was loading. -/
def replacesCanvas (openingFingerprint currentFingerprint : String) : Bool :=
  currentFingerprint = openingFingerprint

/-- The same items, in some order. -/
def SameItems (items items' : List Json) : Prop := (items.map sortKeys).Perm (items'.map sortKeys)

def SamePresentation (shown shown' : GraphPresentation) : Prop :=
  SameItems shown.viewers shown'.viewers ∧ SameItems shown.links shown'.links ∧
    SameItems shown.bindings shown'.bindings ∧ SameItems shown.annotations shown'.annotations

/-- The same name, nodes and edges. -/
def SameRead (a b : GraphDraft) : Prop :=
  a.name = b.name ∧ SameItems a.nodes b.nodes ∧ SameItems a.edges b.edges

def SameDraft (a b : GraphDraft) : Prop :=
  SameRead a b ∧ SameItems a.origins b.origins ∧ SameItems a.agents b.agents ∧
    SamePresentation a.shown b.shown

/-- What of a node it is run with. -/
def executionFields : Json → List (Option Json)
  | .obj members => ["id", "kind", "operator_id", "operator_version", "config", "input_plugs",
      "artifact_type_bindings"].map (Dict.get? members)
  | _ => []

def SameExecution (a b : GraphDraft) : Prop :=
  ((a.nodes.map sortKeys).map executionFields).Perm ((b.nodes.map sortKeys).map executionFields) ∧
    SameItems a.edges b.edges ∧ SameItems a.origins b.origins

/-- The fingerprints of the draft `a` and of the canvas `b` do what they are there for. -/
def Distinguishes (a b : GraphDraft) : Prop :=
  (savedGraphFingerprint c a = savedGraphFingerprint c b ↔ SameDraft a b) ∧
    (savedGraphExecutionFingerprint c a = savedGraphExecutionFingerprint c b → SameExecution a b) ∧
    (∀ hasUnsavedDraft, isDirty true hasUnsavedDraft (some (savedGraphFingerprint c a))
      (savedGraphFingerprint c b) = false → SameDraft a b) ∧
    (replacesCanvas (savedGraphFingerprint c a) (savedGraphFingerprint c b) → SameDraft a b) ∧
    (canMaterializeSavedGraph true (some (savedGraphExecutionFingerprint c a))
      (savedGraphExecutionFingerprint c b) → SameExecution a b)

/-- What the fingerprints read settles what they leave out. -/
def OmitsNothing (a b : GraphDraft) : Prop :=
  (SameRead a b → SameItems a.origins b.origins) ∧
    (SameRead a b → SamePresentation a.shown b.shown → SameItems a.agents b.agents)

/-- Of what is read, the keys of every object are clear and the ids of every list apart. -/
structure Plain (graph : GraphDraft) : Prop where
  clear : everywhere (clearKeys c) (.obj (normalized c graph))
  ids : ∀ items ∈ [graph.nodes, graph.edges, graph.shown.viewers, graph.shown.links,
    graph.shown.bindings, graph.shown.annotations], c.Apart (items.map idOf)

section Fingerprints

variable {c} {m m' : Dict String Json} {v w : Json} {items items' : List Json} {a b : GraphDraft}

theorem sortedRecord_eq_iff (hv : everywhere (clearKeys c) v) (hw : everywhere (clearKeys c) w) :
    sortedRecord c v = sortedRecord c w ↔ Same v w := by
  constructor
  · intro h
    rw [Same, ← sortKeys_sortedRecord hv, h, sortKeys_sortedRecord hw]
  · intro h
    rw [← sortedRecord_sortKeys hv, h, sortedRecord_sortKeys hw]

theorem idOf_sortKeys (v : Json) : idOf (sortKeys v) = idOf v := by
  cases v with
  | obj members =>
    rw [sortKeys, idOf, get?_sortKeys, idOf]
    cases Dict.get? members "id" with
    | none => rfl
    | some v => cases v <;> rfl
  | _ => rfl

theorem same_byId_iff (h : c.Apart (items.map idOf)) :
    Same (byId c items) (byId c items') ↔ SameItems items items' := by
  have hsorted (l : List Json) :
      sortKeys (byId c l) = .arr ((l.map sortKeys).insertionSort (ById c)) := by
    rw [byId, sortKeys, sortKeysItems_eq_map, List.map_insertionSort (r := ById c) (s := ById c)]
    intro a _ b _
    rw [ById, ById, idOf_sortKeys, idOf_sortKeys]
  rw [Same, hsorted, hsorted, Json.arr.injEq]
  constructor
  · intro heq
    exact ((List.perm_insertionSort (ById c) _).symm.trans (List.Perm.of_eq heq)).trans
      (List.perm_insertionSort (ById c) _)
  · refine insertionSort_perm (eq_of_apart c ?_)
    simpa only [List.map_map, Function.comp_def, idOf_sortKeys] using h

theorem clear_executed (h : Plain c a) : everywhere (clearKeys c) (.obj (executed c a)) := by
  obtain ⟨hkeys, hmembers⟩ := everywhere_obj.mp h.clear
  obtain ⟨hapart, hproto⟩ := of_decide_eq_true hkeys
  have hsub : (executed c a).Sublist (normalized c a) := List.sublist_append_left _ _
  exact everywhere_obj.mpr ⟨decide_eq_true ⟨hapart.sublist (hsub.map _),
    fun hmem => hproto ((hsub.map _).subset hmem)⟩, fun e he => hmembers e (hsub.subset he)⟩

/-- Equal texts are texts of one value. -/
theorem stringify_iff (h : everywhere (clearKeys c) (.obj m))
    (h' : everywhere (clearKeys c) (.obj m')) :
    stringify (sortedRecord c (.obj m)) = stringify (sortedRecord c (.obj m')) ↔
      Same (.obj m) (.obj m') := by
  rw [← sortedRecord_eq_iff h h']
  exact ⟨fun heq => encodeText_injective (String.ofList_injective heq), congrArg _⟩

theorem executionFingerprint_iff (ha : Plain c a) (hb : Plain c b)
    (hversion : a.schemaVersion = b.schemaVersion) :
    savedGraphExecutionFingerprint c a = savedGraphExecutionFingerprint c b ↔ SameRead a b := by
  refine (stringify_iff (clear_executed ha) (clear_executed hb)).trans ?_
  rw [SameRead, ← same_byId_iff (ha.ids _ (by simp)), ← same_byId_iff (ha.ids a.edges (by simp))]
  constructor
  · intro h
    have hget := same_obj_get? h
    exact ⟨Json.str.inj (Option.some.inj (hget "name")), Option.some.inj (hget "nodes"),
      Option.some.inj (hget "edges")⟩
  · rintro ⟨hname, hnodes, hedges⟩
    rw [Same] at hnodes hedges ⊢
    simp only [executed, sortKeys, sortKeysMembers, hname, hversion, hnodes, hedges]

theorem savedGraphFingerprint_iff (ha : Plain c a) (hb : Plain c b)
    (hversion : a.schemaVersion = b.schemaVersion) :
    savedGraphFingerprint c a = savedGraphFingerprint c b ↔
      SameRead a b ∧ SamePresentation a.shown b.shown := by
  refine (stringify_iff ha.clear hb.clear).trans ?_
  obtain ⟨hnodes, hedges, hviewers, hlinks, hbindings, hannotations⟩ := by simpa using ha.ids
  rw [SameRead, ← same_byId_iff hnodes, ← same_byId_iff hedges, SamePresentation,
    ← same_byId_iff hviewers, ← same_byId_iff hlinks, ← same_byId_iff hbindings,
    ← same_byId_iff hannotations]
  constructor
  · intro h
    have hget := same_obj_get? h
    have hshown := same_obj_get? (Option.some.inj (hget "presentation"))
    exact ⟨⟨Json.str.inj (Option.some.inj (hget "name")), Option.some.inj (hget "nodes"),
      Option.some.inj (hget "edges")⟩,
      Option.some.inj (hshown "viewers"), Option.some.inj (hshown "links"),
      Option.some.inj (hshown "bindings"), Option.some.inj (hshown "annotations")⟩
  · rintro ⟨⟨hname, hnodes, hedges⟩, hviewers, hlinks, hbindings, hannotations⟩
    rw [Same] at *
    simp only [normalized, executed, List.cons_append, List.nil_append, sortKeys, sortKeysMembers,
      hname, hversion, hnodes, hedges, hviewers, hlinks, hbindings, hannotations]

end Fingerprints

theorem byCodePoint_le {a b : String} : (if a ≤ b then (0 : Int) else 1) ≤ 0 ↔ a ≤ b := by
  split <;> simp [*]

def byCodePoint : Collation where
  compare a b := if a ≤ b then 0 else 1
  total a b := by simpa only [byCodePoint_le] using le_total a b
  trans a b d := by simpa only [byCodePoint_le] using le_trans

/-- A draft of Agents alone. -/
def agentDraft (name : String) (agents : List Json) : GraphDraft :=
  ⟨name, 7, [], [], [], agents, none⟩

theorem agentDraft_plain (name : String) (agents : List Json) :
    Plain byCodePoint (agentDraft name agents) := by
  refine ⟨?_, by simp [agentDraft, GraphDraft.shown]⟩
  simp [everywhere, everywhereMembers, normalized, executed, agentDraft, GraphDraft.shown, byId,
    clearKeys, Clear, Collation.Apart, Dict.keys, byCodePoint]
  rfl

/-- The fingerprints tell two drafts apart exactly where no change is to origins or Agents alone. -/
theorem saved_fingerprints_distinguish_iff {c : Collation} {a b : GraphDraft} (ha : Plain c a)
    (hb : Plain c b) (hversion : a.schemaVersion = b.schemaVersion) :
    Distinguishes c a b ↔ OmitsNothing a b := by
  have hread := executionFingerprint_iff ha hb hversion
  have hshown := savedGraphFingerprint_iff ha hb hversion
  constructor
  · rintro ⟨hdraft, hexecution, -⟩
    exact ⟨fun h => (hexecution (hread.mpr h)).2.2,
      fun h hsame => (hdraft.mp (hshown.mpr ⟨h, hsame⟩)).2.2.1⟩
  · rintro ⟨horigins, hagents⟩
    have hdraft (h : savedGraphFingerprint c a = savedGraphFingerprint c b) : SameDraft a b := by
      obtain ⟨hsame, hpresentation⟩ := hshown.mp h
      exact ⟨hsame, horigins hsame, hagents hsame hpresentation, hpresentation⟩
    have hexecution (h : savedGraphExecutionFingerprint c a = savedGraphExecutionFingerprint c b) :
        SameExecution a b := by
      have hsame := hread.mp h
      exact ⟨hsame.2.1.map _, hsame.2.2, horigins hsame⟩
    refine ⟨⟨hdraft, fun h => hshown.mpr ⟨h.1, h.2.2.2⟩⟩, hexecution, ?_, ?_, ?_⟩
    · exact fun _ h => hdraft (by simpa [isDirty] using h)
    · exact fun h => hdraft (by simpa [replacesCanvas, eq_comm] using h)
    · exact fun h => hexecution (by simpa [canMaterializeSavedGraph] using h)

def stepNode (id : String) (limit : Int) : Json :=
  .obj [("id", .str id), ("operator_id", .str "table.limit"),
    ("config", .obj [("limit", .int limit), ("columns", .arr [.str "b", .str "a"])]),
    ("input_plugs", .arr [.obj [("id", .str "p"), ("port", .str "table")]])]

/-- A canvas with an edge, an origin, an Agent and an artifact card. -/
def workDraft (nodes : List Json) : GraphDraft :=
  ⟨"Draft", 7, nodes,
    [.obj [("id", .str "e"), ("from_node", .str "load"), ("to_node", .str "take"),
      ("to_plug", .str "p")]],
    [.obj [("id", .str "o"), ("to_node", .str "load"), ("to_plug", .str "p")]],
    [.obj [("id", .str "helper"), ("width", .int 360)]],
    some ⟨[.obj [("id", .str "artifact-viewer-1"), ("x", .int 40)]], [], [], []⟩⟩

theorem workDraft_plain {nodes : List Json}
    (h : nodes = [stepNode "load" 10, stepNode "take" 5] ∨
      nodes = [stepNode "take" 6, stepNode "load" 10]) : Plain byCodePoint (workDraft nodes) := by
  rcases h with rfl | rfl <;> exact ⟨by decide, by decide⟩

/-- The same nodes in another order, one of them with another config. -/
theorem edited_distinguished :
    Distinguishes byCodePoint (workDraft [stepNode "load" 10, stepNode "take" 5])
      (workDraft [stepNode "take" 6, stepNode "load" 10]) :=
  (saved_fingerprints_distinguish_iff (workDraft_plain (.inl rfl)) (workDraft_plain (.inr rfl))
    rfl).mpr ⟨fun _ => List.Perm.refl _, fun _ _ => List.Perm.refl _⟩

/-- Removing an Agent changes neither fingerprint. -/
theorem removedAgent_missed : ∃ a b, Plain byCodePoint a ∧ Plain byCodePoint b ∧
    a.schemaVersion = b.schemaVersion ∧ ¬ Distinguishes byCodePoint a b := by
  refine ⟨agentDraft "Draft" [.obj [("id", .str "helper"), ("name", .str "Helper"),
      ("instructions", .str ""), ("model", .obj [("kind", .str "deployment")]),
      ("position", .obj [("x", .int 0), ("y", .int 0)]), ("width", .int 360),
        ("height", .int 480)]],
    agentDraft "Draft" [], agentDraft_plain _ _, agentDraft_plain _ _, rfl, fun h => ?_⟩
  obtain ⟨-, -, hagents, -⟩ := h.1.mp rfl
  simp [SameItems, agentDraft] at hagents

end Grafy.SavedFingerprints
