import Grafy.Alignment
import Grafy.GraphDocuments
import Grafy.Loops

/-!
One node run once for every item of its mapped inputs. The inputs are checked
first: each a sequence of an accepted type that is not empty, all of one length,
and ordered when several advance together. Every item is then a task of its own
behind a semaphore, and the tasks start and end in any order. When all have
ended their refs are read back by index, one list for each output port, and each
list is hashed into the identity of the sequence returned.
-/
namespace Grafy.MapExecution

open GraphDocuments OrderedDict CanonicalJson Loops

inductive PortShape
  | one
  | many
  deriving DecidableEq

structure InputPort where
  acceptedTypes : List ArtifactTypeKey
  shape : PortShape

/-- A value of the inputs or of an output: an artifact, or any other object. -/
inductive Value (α : Type)
  | artifact (value : ArtifactOutputValue)
  | other (value : α)

/-- A bound node in MAP mode, with what `NodeInvocation` and `validate_invocation` have
checked. An output port has the type it produces unless that is unresolved. -/
structure BoundNode where
  operatorId : String
  mapInputs : List String
  inputPorts : Dict String InputPort
  outputPorts : Dict String (Option ArtifactTypeKey)
  mapInputs_ne_nil : mapInputs ≠ []
  mapInputs_nodup : mapInputs.Nodup
  mapInputs_known : ∀ name ∈ mapInputs, name ∈ inputPorts.keys
  outputPorts_nodup : outputPorts.keys.Nodup

/-- `NodeExecutionContext`, as far as it is compared. -/
structure Context where
  workspaceId : String
  projectId : Option String
  graphId : Option String
  nodeId : Option String
  callPath : List String
  fingerprint : Option String
  invocationIndex : Option ℕ
  invocationPath : List ℕ

/-- What `_run_mapped` raises: the `NodeComputationError`s by the data their messages
give, the group of errors of items that did not persist, and the `ValueError` of a
sequence whose item is of another type. -/
inductive MapError (α : Type)
  | notSequence (input : String) (value : Option (Value α))
  | emptySequence (input : String)
  | unresolvedInput (input : String)
  | inputType (input : String) (expected : List ArtifactTypeKey) (got : ArtifactTypeKey)
  | unordered (input : String)
  | lengths (lengths : List (String × ℕ))
  | itemFailed (index : ℕ)
  | itemGroup (raised notPersisted : List ℕ)
  | outputValue (output : String) (index : ℕ) (value : Option (Value α))
  | unresolvedOutput (output : String)
  | sequenceItem (output : String) (ref : ArtifactRef)

/-- How an invocation ends: with persisted values, with a result that was not
persisted, or with an exception. -/
inductive Outcome (α : Type)
  | persisted (values : Dict String (Value α))
  | notPersisted
  | raised

/-- One call of `run_node`: its context and its inputs. -/
structure Invocation (α : Type) where
  context : Context
  inputs : Dict String (Value α)

section Checks

variable {α : Type} (bound : BoundNode) (inputs : Dict String (Value α))

/-- The check of one mapped input. -/
def checkSequence (name : String) : Except (MapError α) ArtifactRefSequence :=
  match inputs.get? name with
  | some (.artifact (.sequence sequence)) =>
    if sequence.itemRefs = [] then .error (.emptySequence name)
    else
      let accepted := ((bound.inputPorts.get? name).map InputPort.acceptedTypes).getD []
      let key : ArtifactTypeKey := ⟨sequence.artifactType, sequence.schemaVersion⟩
      if accepted = [] then .error (.unresolvedInput name)
      else if key ∉ accepted then .error (.inputType name accepted key)
      else if 1 < bound.mapInputs.length ∧ sequence.ordered = false then
        .error (.unordered name)
      else .ok sequence
  | value => .error (.notSequence name value)

/-- The mapped sequences by input, in the order of the inputs. -/
def mappedSequences : Except (MapError α) (Dict String ArtifactRefSequence) := do
  let sequences ← bound.mapInputs.mapM
    (fun name => (checkSequence bound inputs name).map (name, ·))
  let count := ((sequences.head?).map (fun e => e.2.itemRefs.length)).getD 0
  if sequences.any (fun e => e.2.itemRefs.length ≠ count) then
    .error (.lengths (sequences.map (fun e => (e.1, e.2.itemRefs.length))))
  else .ok sequences

end Checks

section Items

variable {α : Type} (uuid5 : String → String) (bound : BoundNode)
  (inputs : Dict String (Value α)) (context : Context)
  (sequences : Dict String ArtifactRefSequence)

/-- `_single_item_sequence`. -/
def singleItemSequence (ref : ArtifactRef) : ArtifactRefSequence :=
  { sequenceId := uuid5 (canonical (.obj [("item", .str ref.artifactId)]))
    artifactType := ref.artifactType
    schemaVersion := ref.schemaVersion
    itemRefs := [ref]
    ordered := true
    indexKey := "order_index"
    metadata := [] }

/-- The number of items, the length of the first sequence. -/
def itemCount : ℕ := ((sequences.head?).map (fun e => e.2.itemRefs.length)).getD 0

/-- What an item hands to one input. -/
def itemValue (name : String) (ref : ArtifactRef) : Value α :=
  if (bound.inputPorts.get? name).map InputPort.shape = some .many then
    .artifact (.sequence (singleItemSequence uuid5 ref))
  else .artifact (.ref ref)

/-- The inputs with item `index` of one mapped input. -/
def giveItem (index : ℕ) (given : Dict String (Value α))
    (entry : String × ArtifactRefSequence) : Dict String (Value α) :=
  match entry.2.itemRefs[index]? with
  | some ref => given.set entry.1 (itemValue uuid5 bound entry.1 ref)
  | none => given

/-- `item_inputs`: the inputs with item `index` of every mapped one. -/
def itemInputs (index : ℕ) : Dict String (Value α) :=
  sequences.foldl (giveItem uuid5 bound index) inputs

def itemContext (index : ℕ) : Context :=
  { context with
    invocationIndex := some index
    invocationPath := context.invocationPath ++ [index] }

/-- The call `run_item(index)` makes. -/
def invocation (index : ℕ) : Invocation α :=
  ⟨itemContext context index, itemInputs uuid5 bound inputs sequences index⟩

/-- An item's task. -/
inductive Item (α : Type)
  | waiting
  | running
  | ended (outcome : Outcome α)
  | cancelled

/-- The tasks by index, with the calls made and the calls ended in order. -/
structure State (α : Type) where
  items : List (Item α)
  started : List (Invocation α)
  ended : List (Invocation α × Outcome α)

inductive Act (α : Type)
  | start (index : ℕ)
  | finish (index : ℕ) (outcome : Outcome α)
  | cancel (index : ℕ)

def Item.isRunning : Item α → Bool
  | .running => true
  | _ => false

/-- The task ended with an error, so that its group cancels the others. -/
def Item.isFailed : Item α → Bool
  | .ended .notPersisted => true
  | .ended .raised => true
  | _ => false

def initial : State α := ⟨List.replicate (itemCount sequences) .waiting, [], []⟩

/-- One step of the group: a task passes the semaphore and calls the node, a call ends,
or a task is cancelled because another one failed. -/
def step (limit : ℕ) (s : State α) : Act α → Option (State α)
  | .start k =>
    match s.items[k]? with
    | some .waiting =>
      if s.items.countP Item.isRunning < limit then
        some
          { s with
            items := s.items.set k .running
            started := s.started ++ [invocation uuid5 bound inputs context sequences k] }
      else none
    | _ => none
  | .finish k outcome =>
    match s.items[k]? with
    | some .running =>
      some
        { s with
          items := s.items.set k (.ended outcome)
          ended := s.ended ++ [(invocation uuid5 bound inputs context sequences k, outcome)] }
    | _ => none
  | .cancel k =>
    if s.items.any Item.isFailed then
      match s.items[k]? with
      | some .waiting => some { s with items := s.items.set k .cancelled }
      | some .running => some { s with items := s.items.set k .cancelled }
      | _ => none
    else none

/-- A run of the group. -/
def runItems (limit : ℕ) : State α → List (Act α) → Option (State α)
  | s, [] => some s
  | s, act :: acts =>
    match step uuid5 bound inputs context sequences limit s act with
    | some s' => runItems limit s' acts
    | none => none

end Items

section Results

variable {α : Type} (uuid5 : String → String) (bound : BoundNode) (context : Context)
  (sequences : Dict String ArtifactRefSequence)

/-- The ref of one item at one output port. -/
def itemEntry (index : ℕ) (values : Dict String (Value α)) (name : String) :
    Except (MapError α) (String × ArtifactRef) :=
  match values.get? name with
  | some (.artifact (.ref ref)) => .ok (name, ref)
  | value => .error (.outputValue name index value)

/-- The refs of one item by output port. -/
def itemRow (index : ℕ) (values : Dict String (Value α)) :
    Except (MapError α) (Dict String ArtifactRef) :=
  bound.outputPorts.keys.mapM (itemEntry index values)

/-- `refs_by_output[name]`. -/
def outputRefs (rows : List (Dict String ArtifactRef)) (name : String) : List ArtifactRef :=
  rows.filterMap (fun row => row.get? name)

/-- The identity of an output sequence. -/
def outputIdentity (name : String) (refs : List ArtifactRef) : Json :=
  .obj
    ([("node_id", (context.nodeId.map Json.str).getD .null),
      ("call_path", .arr (context.callPath.map .str)),
      ("output", .str name),
      ("items", .arr (refs.map (fun ref => .str ref.artifactId)))] ++
      match sequences with
      | [(_, source)] => [("source", .str source.sequenceId)]
      | _ => [("sources", .arr (sequences.map (fun e => .str e.2.sequenceId)))])

def outputMetadata : Dict String Json :=
  ("invocation_mode", .str "map") ::
    match sequences with
    | [(name, source)] =>
      [("map_input", .str name), ("source_sequence_id", .str source.sequenceId)]
    | _ =>
      [("map_inputs", .arr (bound.mapInputs.map .str)),
        ("source_sequence_ids", .arr (sequences.map (fun e => .str e.2.sequenceId)))]

/-- One output sequence, its items checked by the model's validator. -/
def outputSequence (name : String) (key : ArtifactTypeKey) (refs : List ArtifactRef) :
    Except (MapError α) ArtifactRefSequence :=
  match refs.find? (fun ref => ref.artifactType ≠ key.id ∨ ref.schemaVersion ≠ key.schemaVersion)
  with
  | some ref => .error (.sequenceItem name ref)
  | none =>
    .ok
      { sequenceId := uuid5 (canonical (outputIdentity context sequences name refs))
        artifactType := key.id
        schemaVersion := key.schemaVersion
        itemRefs := refs
        ordered := ((sequences.head?).map (fun e => e.2.ordered)).getD true
        indexKey := ((sequences.head?).map (fun e => e.2.indexKey)).getD "order_index"
        metadata := outputMetadata bound sequences }

/-- The sequence of one output port, whose type must be resolved. -/
def outputEntry (rows : List (Dict String ArtifactRef)) (port : String × Option ArtifactTypeKey) :
    Except (MapError α) (String × ArtifactRefSequence) :=
  match port.2 with
  | none => .error (.unresolvedOutput port.1)
  | some key =>
    (outputSequence uuid5 bound context sequences port.1 key (outputRefs rows port.1)).map
      (port.1, ·)

/-- The sequences of all output ports. -/
def outputSequences (rows : List (Dict String ArtifactRef)) :
    Except (MapError α) (Dict String ArtifactRefSequence) :=
  bound.outputPorts.mapM (outputEntry uuid5 bound context sequences rows)

def Item.persisted? : Item α → Option (Dict String (Value α))
  | .ended (.persisted values) => some values
  | _ => none

def Item.isRaised : Item α → Bool
  | .ended .raised => true
  | _ => false

def Item.isNotPersisted : Item α → Bool
  | .ended .notPersisted => true
  | _ => false

def indicesOf (p : Item α → Bool) (items : List (Item α)) : List ℕ :=
  (List.range items.length).filter (fun k => (items[k]?).any p)

/-- What `_run_mapped` returns or raises once the group has ended. Failed items are
explained by the smallest index, unless some result was not persisted. -/
def result (s : State α) : Except (MapError α) (Dict String ArtifactRefSequence) :=
  match s.items.mapM Item.persisted? with
  | some results => do
    let rows ← (List.range results.length).zip results |>.mapM
      (fun item => itemRow bound item.1 item.2)
    outputSequences uuid5 bound context sequences rows
  | none =>
    match indicesOf Item.isRaised s.items, indicesOf Item.isNotPersisted s.items with
    | k :: _, [] => .error (.itemFailed k)
    | raised, others => .error (.itemGroup raised others)

end Results

/-! What passed the checks -/

section Checked

variable {α : Type} {bound : BoundNode} {inputs : Dict String (Value α)}
  {sequences : Dict String ArtifactRefSequence}

theorem keys_of_mapM_checkSequence {names : List String}
    (h : names.mapM (fun name => (checkSequence bound inputs name).map (name, ·)) = .ok sequences) :
    sequences.keys = names := by
  induction names generalizing sequences with
  | nil =>
    obtain rfl : [] = sequences := by simpa [pure, Except.pure] using h
    rfl
  | cons name names ih =>
    obtain ⟨entry, rest, hentry, hrest, rfl⟩ := mapM_cons_ok.mp h
    cases hcheck : checkSequence bound inputs name with
    | error e => simp [hcheck, Except.map] at hentry
    | ok sequence =>
      obtain rfl : (name, sequence) = entry := by simpa [hcheck, Except.map] using hentry
      rw [Dict.keys, List.map_cons, ← Dict.keys, ih hrest]

/-- The sequences that passed the checks: one for each mapped input, all as long as the
first. -/
theorem mappedSequences_ok (h : mappedSequences bound inputs = .ok sequences) :
    sequences.keys = bound.mapInputs ∧
      ∀ name sequence, (name, sequence) ∈ sequences →
        sequence.itemRefs.length = itemCount sequences := by
  unfold mappedSequences at h
  cases hread : bound.mapInputs.mapM
      (fun name => (checkSequence bound inputs name).map (name, ·)) with
  | error e => simp [hread, bind, Except.bind] at h
  | ok found =>
    simp only [hread, bind, Except.bind] at h
    split at h
    · cases h
    · rename_i hlengths
      cases h
      refine ⟨keys_of_mapM_checkSequence hread, ?_⟩
      intro name sequence hmem
      by_contra hne
      refine hlengths (List.any_eq_true.mpr ⟨(name, sequence), hmem, ?_⟩)
      exact decide_eq_true hne

end Checked

/-! What an invocation receives -/

variable {name : String} {sequence : ArtifactRefSequence}

section Receiving

variable {α : Type} {uuid5 : String → String} {bound : BoundNode}
  {inputs : Dict String (Value α)} {context : Context}
  {sequences : Dict String ArtifactRefSequence} {k : ℕ}

/-- An input is handed one item: the bare ref, or a sequence of it where the port takes
many. -/
def Hands (bound : BoundNode) (name : String) (ref : ArtifactRef) : Value α → Prop
  | .artifact (.ref given) =>
    (bound.inputPorts.get? name).map InputPort.shape ≠ some .many ∧ given = ref
  | .artifact (.sequence given) =>
    (bound.inputPorts.get? name).map InputPort.shape = some .many ∧ given.itemRefs = [ref]
  | .other _ => False

/-- A call for item `k`: its index, item `k` of every mapped input, and every other
input unchanged. -/
structure Receives (bound : BoundNode) (inputs : Dict String (Value α)) (context : Context)
    (sequences : Dict String ArtifactRefSequence) (k : ℕ) (call : Invocation α) : Prop where
  context : call.context =
    { context with
      invocationIndex := some k
      invocationPath := context.invocationPath ++ [k] }
  mapped : ∀ name sequence, (name, sequence) ∈ sequences →
    ∃ ref value, sequence.itemRefs[k]? = some ref ∧ call.inputs.get? name = some value ∧
      Hands bound name ref value
  others : ∀ name, name ∉ bound.mapInputs → call.inputs.get? name = inputs.get? name

theorem hands_itemValue (name : String) (ref : ArtifactRef) :
    Hands bound name ref (itemValue (α := α) uuid5 bound name ref) := by
  unfold itemValue
  split
  · rename_i hmany
    exact ⟨hmany, rfl⟩
  · rename_i hone
    exact ⟨hone, rfl⟩

theorem get?_itemInputs_of_notMem (k : ℕ) (h : name ∉ sequences.keys) :
    (itemInputs uuid5 bound inputs sequences k).get? name = inputs.get? name := by
  unfold itemInputs
  induction sequences generalizing inputs with
  | nil => rfl
  | cons entry rest ih =>
    obtain ⟨hne, hrest⟩ : name ≠ entry.1 ∧ name ∉ Dict.keys rest := by
      simpa [Dict.keys] using h
    rw [List.foldl_cons, ih hrest, giveItem]
    split
    · exact Dict.get?_set_ne _ _ hne
    · rfl

theorem get?_itemInputs_of_mem {ref : ArtifactRef} (hkeys : sequences.keys.Nodup)
    (hmem : (name, sequence) ∈ sequences) (href : sequence.itemRefs[k]? = some ref) :
    (itemInputs uuid5 bound inputs sequences k).get? name =
      some (itemValue uuid5 bound name ref) := by
  induction sequences generalizing inputs with
  | nil => cases hmem
  | cons entry rest ih =>
    obtain ⟨hfresh, hrest⟩ : entry.1 ∉ Dict.keys rest ∧ (Dict.keys rest).Nodup := by
      simpa [Dict.keys] using hkeys
    have hfirst : itemInputs uuid5 bound inputs (entry :: rest) k =
        itemInputs uuid5 bound (giveItem uuid5 bound k inputs entry) rest k := rfl
    rw [hfirst]
    rcases List.mem_cons.mp hmem with rfl | hmem
    · rw [get?_itemInputs_of_notMem k hfresh, giveItem, href]
      exact Dict.get?_set_self _ _ _
    · exact ih hrest hmem

theorem receives_invocation (h : mappedSequences bound inputs = .ok sequences)
    (hk : k < itemCount sequences) :
    Receives bound inputs context sequences k
      (invocation uuid5 bound inputs context sequences k) := by
  obtain ⟨hkeys, hlengths⟩ := mappedSequences_ok h
  refine ⟨rfl, ?_, ?_⟩
  · intro name sequence hmem
    have hlt : k < sequence.itemRefs.length := by rw [hlengths name sequence hmem]; exact hk
    refine ⟨sequence.itemRefs[k], itemValue uuid5 bound name sequence.itemRefs[k],
      List.getElem?_eq_getElem hlt, ?_, hands_itemValue _ _⟩
    exact get?_itemInputs_of_mem (hkeys ▸ bound.mapInputs_nodup) hmem
      (List.getElem?_eq_getElem hlt)
  · intro name hname
    exact get?_itemInputs_of_notMem k (hkeys ▸ hname)

end Receiving

/-! Runs of the group -/

section Runs

variable {α : Type} {uuid5 : String → String} {bound : BoundNode}
  {inputs : Dict String (Value α)} {context : Context}
  {sequences : Dict String ArtifactRefSequence} {limit : ℕ} {s' s : State α} {act : Act α}
  {items : List (Item α)} {k : ℕ} {old : Item α} {calls : List ℕ} {ends : List (ℕ × Outcome α)}
  {t : State α} {acts : List (Act α)}

theorem step_cases (h : step uuid5 bound inputs context sequences limit s act = some s') :
    (∃ k, act = .start k ∧ s.items[k]? = some .waiting ∧
      s'.items = s.items.set k .running ∧
      s'.started = s.started ++ [invocation uuid5 bound inputs context sequences k] ∧
      s'.ended = s.ended) ∨
    (∃ k outcome, act = .finish k outcome ∧ s.items[k]? = some .running ∧
      s'.items = s.items.set k (.ended outcome) ∧ s'.started = s.started ∧
      s'.ended = s.ended ++ [(invocation uuid5 bound inputs context sequences k, outcome)]) ∨
    (∃ k, act = .cancel k ∧ (s.items[k]? = some .waiting ∨ s.items[k]? = some .running) ∧
      s'.items = s.items.set k .cancelled ∧ s'.started = s.started ∧ s'.ended = s.ended) := by
  cases act with
  | start k =>
    simp only [step] at h
    split at h
    · rename_i hitem
      split at h
      · cases h
        exact .inl ⟨k, rfl, hitem, rfl, rfl, rfl⟩
      · cases h
    · cases h
  | finish k outcome =>
    simp only [step] at h
    split at h
    · rename_i hitem
      cases h
      exact .inr (.inl ⟨k, outcome, rfl, hitem, rfl, rfl, rfl⟩)
    · cases h
  | cancel k =>
    simp only [step] at h
    split at h
    · split at h
      · rename_i hitem
        cases h
        exact .inr (.inr ⟨k, rfl, .inl hitem, rfl, rfl, rfl⟩)
      · rename_i hitem
        cases h
        exact .inr (.inr ⟨k, rfl, .inr hitem, rfl, rfl, rfl⟩)
      · cases h
    · cases h

/-- The calls made and ended, by index: each index at most once, made when the task is
no longer waiting and ended with the outcome the task has. -/
structure Tracks (uuid5 : String → String) (bound : BoundNode) (inputs : Dict String (Value α))
    (context : Context) (sequences : Dict String ArtifactRefSequence) (s : State α)
    (calls : List ℕ) (ends : List (ℕ × Outcome α)) : Prop where
  length : s.items.length = itemCount sequences
  started : s.started = calls.map (invocation uuid5 bound inputs context sequences)
  ended : s.ended = ends.map (fun e => (invocation uuid5 bound inputs context sequences e.1, e.2))
  calls_nodup : calls.Nodup
  ends_nodup : (ends.map Prod.fst).Nodup
  called : ∀ k ∈ calls, ∃ item, s.items[k]? = some item ∧ item ≠ .waiting
  made : ∀ k, s.items[k]? = some .running ∨ (∃ outcome, s.items[k]? = some (.ended outcome)) →
    k ∈ calls
  outcome_iff : ∀ k outcome, (k, outcome) ∈ ends ↔ s.items[k]? = some (.ended outcome)

theorem tracks_initial : Tracks uuid5 bound inputs context sequences
    (initial (α := α) sequences) [] [] where
  length := List.length_replicate
  started := rfl
  ended := rfl
  calls_nodup := List.nodup_nil
  ends_nodup := List.nodup_nil
  called := by simp
  made := by
    intro k h
    simp [initial, List.getElem?_replicate] at h
  outcome_iff := by
    intro k outcome
    simp [initial, List.getElem?_replicate]

theorem getElem?_set_eq (new : Item α) (h : items[k]? = some old) (j : ℕ) :
    (items.set k new)[j]? = if j = k then some new else items[j]? := by
  obtain ⟨hlt, -⟩ := List.getElem?_eq_some_iff.mp h
  rw [List.getElem?_set]
  by_cases hj : k = j
  · subst hj
    simp [hlt]
  · simp [hj, Ne.symm hj]

section

variable (htracks : Tracks uuid5 bound inputs context sequences s calls ends)
include htracks

theorem Tracks.step (h : step uuid5 bound inputs context sequences limit s act = some s') :
    ∃ calls' ends', Tracks uuid5 bound inputs context sequences s' calls' ends' := by
  rcases step_cases h with ⟨k, -, hitem, hitems, hstarted, hended⟩ |
    ⟨k, outcome, -, hitem, hitems, hstarted, hended⟩ | ⟨k, -, hitem, hitems, hstarted, hended⟩
  · have hget := getElem?_set_eq (.running) hitem
    have hfresh : k ∉ calls := by
      intro hk
      obtain ⟨item, hi, hne⟩ := htracks.called k hk
      rw [hitem] at hi
      exact hne (Option.some.inj hi).symm
    refine ⟨calls ++ [k], ends, ?_, ?_, ?_, ?_, htracks.ends_nodup, ?_, ?_, ?_⟩
    · rw [hitems, List.length_set]
      exact htracks.length
    · rw [hstarted, htracks.started, List.map_append]
      rfl
    · rw [hended, htracks.ended]
    · rw [List.nodup_append]
      refine ⟨htracks.calls_nodup, by simp, ?_⟩
      intro i hi j hj heq
      obtain rfl : j = k := by simpa using hj
      exact hfresh (heq ▸ hi)
    · intro j hj
      rw [hitems, hget]
      by_cases hjk : j = k
      · exact ⟨.running, by simp [hjk], by simp⟩
      · rw [if_neg hjk]
        rcases List.mem_append.mp hj with hj | hj
        · exact htracks.called j hj
        · exact absurd (List.mem_singleton.mp hj) hjk
    · intro j hj
      rw [hitems] at hj
      simp only [hget] at hj
      by_cases hjk : j = k
      · simp [hjk]
      · rw [if_neg hjk] at hj
        exact List.mem_append_left _ (htracks.made j hj)
    · intro j outcome
      rw [hitems, hget, htracks.outcome_iff]
      by_cases hjk : j = k
      · subst hjk
        simp [hitem]
      · rw [if_neg hjk]
  · have hget := getElem?_set_eq (.ended outcome) hitem
    have hfresh : k ∉ ends.map Prod.fst := by
      intro hk
      obtain ⟨e, he, rfl⟩ := List.mem_map.mp hk
      have hi := (htracks.outcome_iff e.1 e.2).mp he
      rw [hitem] at hi
      cases hi
    refine ⟨calls, ends ++ [(k, outcome)], ?_, ?_, ?_, htracks.calls_nodup, ?_, ?_, ?_, ?_⟩
    · rw [hitems, List.length_set]
      exact htracks.length
    · rw [hstarted, htracks.started]
    · rw [hended, htracks.ended, List.map_append]
      rfl
    · rw [List.map_append, List.nodup_append]
      refine ⟨htracks.ends_nodup, by simp, ?_⟩
      intro i hi j hj heq
      obtain rfl : j = k := by simpa using hj
      exact hfresh (heq ▸ hi)
    · intro j hj
      rw [hitems, hget]
      by_cases hjk : j = k
      · exact ⟨.ended outcome, by simp [hjk], by simp⟩
      · rw [if_neg hjk]
        exact htracks.called j hj
    · intro j hj
      rw [hitems] at hj
      simp only [hget] at hj
      by_cases hjk : j = k
      · rw [hjk]
        exact htracks.made k (.inl hitem)
      · rw [if_neg hjk] at hj
        exact htracks.made j hj
    · intro j other
      rw [hitems, hget, List.mem_append, htracks.outcome_iff]
      by_cases hjk : j = k
      · subst hjk
        simp [hitem, eq_comm]
      · simp [hjk]
  · obtain ⟨old, hold, hcannot⟩ : ∃ old, s.items[k]? = some old ∧
        ∀ outcome, old ≠ .ended outcome := by
      rcases hitem with hitem | hitem
      · exact ⟨_, hitem, by simp⟩
      · exact ⟨_, hitem, by simp⟩
    have hget := getElem?_set_eq (.cancelled) hold
    refine ⟨calls, ends, ?_, ?_, ?_, htracks.calls_nodup, htracks.ends_nodup, ?_, ?_, ?_⟩
    · rw [hitems, List.length_set]
      exact htracks.length
    · rw [hstarted, htracks.started]
    · rw [hended, htracks.ended]
    · intro j hj
      rw [hitems, hget]
      by_cases hjk : j = k
      · exact ⟨.cancelled, by simp [hjk], by simp⟩
      · rw [if_neg hjk]
        exact htracks.called j hj
    · intro j hj
      rw [hitems] at hj
      simp only [hget] at hj
      by_cases hjk : j = k
      · simp [hjk] at hj
      · rw [if_neg hjk] at hj
        exact htracks.made j hj
    · intro j outcome
      rw [hitems, hget, htracks.outcome_iff]
      by_cases hjk : j = k
      · subst hjk
        rw [hold]
        simp [hcannot outcome]
      · rw [if_neg hjk]

theorem exists_tracks (h : runItems uuid5 bound inputs context sequences limit s acts = some t) :
    ∃ calls' ends', Tracks uuid5 bound inputs context sequences t calls' ends' := by
  induction acts generalizing s calls ends with
  | nil =>
    cases h
    exact ⟨calls, ends, htracks⟩
  | cons act acts ih =>
    simp only [runItems] at h
    split at h
    · rename_i s' hstep
      obtain ⟨calls', ends', hnext⟩ := htracks.step hstep
      exact ih hnext h
    · cases h

end

/-- The steps a task can still take. -/
def Item.weight : Item α → ℕ
  | .waiting => 2
  | .running => 1
  | .ended _ => 0
  | .cancelled => 0

def weight (items : List (Item α)) : ℕ := (items.map Item.weight).sum

theorem weight_set (new : Item α) (h : items[k]? = some old) :
    weight (items.set k new) + old.weight = weight items + new.weight := by
  induction items generalizing k with
  | nil => simp at h
  | cons item items ih =>
    cases k with
    | zero =>
      obtain rfl : item = old := by simpa using h
      simp only [weight, List.set_cons_zero, List.map_cons, List.sum_cons]
      omega
    | succ k =>
      have hrest := ih (k := k) (by simpa using h)
      simp only [weight, List.set_cons_succ, List.map_cons, List.sum_cons] at hrest ⊢
      omega

theorem weight_step (h : step uuid5 bound inputs context sequences limit s act = some s') :
    weight s'.items + 1 ≤ weight s.items := by
  rcases step_cases h with ⟨k, -, hitem, hitems, -, -⟩ | ⟨k, outcome, -, hitem, hitems, -, -⟩ |
    ⟨k, -, hitem | hitem, hitems, -, -⟩
  all_goals rw [hitems]
  · have hset := weight_set (.running) hitem
    simp only [Item.weight] at hset
    omega
  · have hset := weight_set (.ended outcome) hitem
    simp only [Item.weight] at hset
    omega
  · have hset := weight_set (.cancelled) hitem
    simp only [Item.weight] at hset
    omega
  · have hset := weight_set (.cancelled) hitem
    simp only [Item.weight] at hset
    omega

/-- No run is longer than two steps for every task. -/
theorem length_add_weight_le
    (h : runItems uuid5 bound inputs context sequences limit s acts = some t) :
    acts.length + weight t.items ≤ weight s.items := by
  induction acts generalizing s with
  | nil =>
    cases h
    simp
  | cons act acts ih =>
    simp only [runItems] at h
    split at h
    · rename_i s' hstep
      have hfirst := weight_step hstep
      have hrest := ih h
      rw [List.length_cons]
      omega
    · cases h

def Item.isOver : Item α → Bool
  | .ended _ => true
  | .cancelled => true
  | _ => false

/-- A group with a task that is not over can take a step. -/
theorem exists_step (hlimit : 1 ≤ limit) (h : ¬ ∀ item ∈ s.items, item.isOver) :
    ∃ act s', step uuid5 bound inputs context sequences limit s act = some s' := by
  by_cases hrunning : ∃ k : ℕ, s.items[k]? = some Item.running
  · obtain ⟨k, hk⟩ := hrunning
    refine ⟨.finish k .raised, ?_⟩
    simp [step, hk]
  · have hnone : s.items.countP Item.isRunning = 0 := by
      rw [List.countP_eq_zero]
      intro item hitem hrun
      obtain ⟨k, hk⟩ := List.mem_iff_getElem?.mp hitem
      cases item with
      | running => exact hrunning ⟨k, hk⟩
      | _ => cases hrun
    push Not at h
    obtain ⟨item, hitem, hover⟩ := h
    obtain ⟨k, hk⟩ := List.mem_iff_getElem?.mp hitem
    cases item with
    | waiting =>
      refine ⟨.start k, ?_⟩
      simp [step, hk, hnone]
      omega
    | running => exact absurd ⟨k, hk⟩ hrunning
    | ended outcome | cancelled => exact absurd rfl hover

end Runs

/-! Reading the refs back -/

section Reading

variable {α : Type} {uuid5 : String → String} {bound : BoundNode} {context : Context}
  {sequences : Dict String ArtifactRefSequence} {s : State α}
  {rows : List (Dict String ArtifactRef)} {name : String} {values : Dict String ArtifactRefSequence}
  {index : ℕ} {key : ArtifactTypeKey} {refs : List ArtifactRef}

/-- Every invocation has returned persisted values. -/
def Succeeded (s : State α) : Prop := ∀ item ∈ s.items, ∃ values, item = .ended (.persisted values)

theorem Succeeded.exists_results (h : Succeeded s) :
    ∃ results : List (Dict String (Value α)),
      s.items = results.map (fun values => .ended (.persisted values)) := by
  unfold Succeeded at h
  generalize s.items = items at h ⊢
  induction items with
  | nil => exact ⟨[], rfl⟩
  | cons item items ih =>
    obtain ⟨values, rfl⟩ := h item List.mem_cons_self
    obtain ⟨results, rfl⟩ := ih (fun i hi => h i (List.mem_cons_of_mem _ hi))
    exact ⟨values :: results, rfl⟩

theorem result_of_results {results : List (Dict String (Value α))}
    (h : s.items = results.map (fun values => .ended (.persisted values))) :
    result uuid5 bound context sequences s =
      ((List.range results.length).zip results).mapM (fun item => itemRow bound item.1 item.2) >>=
        outputSequences uuid5 bound context sequences := by
  have hall : s.items.mapM Item.persisted? = some results := by
    rw [h, mapM_some_iff, List.forall₂_map_left_iff]
    exact List.forall₂_same.mpr (fun values _ => rfl)
  simp only [result, hall]

/-- An item's row has a ref at every output port, the one its values have there. -/
theorem itemRow_ok {values : Dict String (Value α)} {row : Dict String ArtifactRef}
    (h : itemRow bound index values = .ok row) :
    ∀ name ∈ bound.outputPorts.keys, ∃ ref,
      values.get? name = some (.artifact (.ref ref)) ∧ row.get? name = some ref := by
  unfold itemRow at h
  generalize bound.outputPorts.keys = names at h ⊢
  induction names generalizing row with
  | nil => simp
  | cons first names ih =>
    obtain ⟨entry, rest, hentry, hrest, rfl⟩ := mapM_cons_ok.mp h
    unfold itemEntry at hentry
    split at hentry
    · rename_i ref href
      cases hentry
      intro name hname
      by_cases hfirst : first = name
      · subst hfirst
        exact ⟨ref, href, by simp [Dict.get?_cons]⟩
      · have hrestname : name ∈ names := by
          rcases List.mem_cons.mp hname with heq | hmem
          · exact absurd heq.symm hfirst
          · exact hmem
        obtain ⟨other, hother, hget⟩ := ih hrest name hrestname
        exact ⟨other, hother, by rw [Dict.get?_cons, if_neg hfirst, hget]⟩
    · cases hentry

theorem exists_itemRow {values : Dict String (Value α)}
    (h : ∀ name ∈ bound.outputPorts.keys, ∃ ref, values.get? name = some (.artifact (.ref ref))) :
    ∃ row, itemRow bound index values = .ok row := by
  refine mapM_exists ?_
  intro name hname
  obtain ⟨ref, href⟩ := h name hname
  exact ⟨(name, ref), by rw [itemEntry, href]⟩

/-- Where every row has a ref, the refs of a port are as many as the rows, each in its
row's place. -/
theorem getElem?_outputRefs (h : ∀ row ∈ rows, ∃ ref, row.get? name = some ref) :
    (outputRefs rows name).length = rows.length ∧
      ∀ (k : ℕ) row ref, rows[k]? = some row → row.get? name = some ref →
        (outputRefs rows name)[k]? = some ref := by
  induction rows with
  | nil => simp [outputRefs]
  | cons row rows ih =>
    obtain ⟨first, hfirst⟩ := h row List.mem_cons_self
    obtain ⟨hlength, hget⟩ := ih (fun r hr => h r (List.mem_cons_of_mem _ hr))
    have hcons : outputRefs (row :: rows) name = first :: outputRefs rows name := by
      simp [outputRefs, hfirst]
    rw [hcons]
    refine ⟨by simp [hlength], ?_⟩
    intro k other ref hrow href
    cases k with
    | zero =>
      obtain rfl : row = other := by simpa using hrow
      rw [hfirst] at href
      simpa using href
    | succ k => simpa using hget k other ref (by simpa using hrow) href

theorem outputSequence_itemRefs
    (h : outputSequence (α := α) uuid5 bound context sequences name key refs = .ok sequence) :
    sequence.itemRefs = refs := by
  unfold outputSequence at h
  split at h
  · cases h
  · cases h
    rfl

theorem outputEntry_ok {port : String × Option ArtifactTypeKey}
    {entry : String × ArtifactRefSequence}
    (h : outputEntry (α := α) uuid5 bound context sequences rows port = .ok entry) :
    entry.1 = port.1 ∧ entry.2.itemRefs = outputRefs rows port.1 := by
  unfold outputEntry at h
  split at h
  · cases h
  · rename_i key _
    cases hsequence : outputSequence (α := α) uuid5 bound context sequences port.1 key
        (outputRefs rows port.1) with
    | error e => simp [hsequence, Except.map] at h
    | ok sequence =>
      obtain rfl : (port.1, sequence) = entry := by simpa [hsequence, Except.map] using h
      exact ⟨rfl, outputSequence_itemRefs hsequence⟩

theorem outputSequences_ok
    (h : outputSequences (α := α) uuid5 bound context sequences rows = .ok values) :
    values.keys = bound.outputPorts.keys ∧
      ∀ name sequence, (name, sequence) ∈ values → sequence.itemRefs = outputRefs rows name := by
  unfold outputSequences at h
  have hentries := mapM_ok h
  clear h
  generalize bound.outputPorts = ports at hentries
  induction hentries with
  | nil => simp [Dict.keys]
  | @cons port entry ports entries hentry _ ih =>
    obtain ⟨hname, hrefs⟩ := outputEntry_ok hentry
    obtain ⟨hkeys, hrest⟩ := ih
    refine ⟨by simpa [Dict.keys, hname] using hkeys, ?_⟩
    intro name sequence hmem
    rcases List.mem_cons.mp hmem with rfl | hmem
    · rw [← hname] at hrefs
      exact hrefs
    · exact hrest name sequence hmem

/-- Every output port has its type resolved, and every item a ref of that type there. -/
def Typed (bound : BoundNode) (s : State α) : Prop :=
  ∀ name produces, (name, produces) ∈ bound.outputPorts → ∃ key, produces = some key ∧
    ∀ values, Item.ended (.persisted values) ∈ s.items →
      ∃ ref, values.get? name = some (.artifact (.ref ref)) ∧ ref.artifactType = key.id ∧
        ref.schemaVersion = key.schemaVersion

/-- Two groups whose items returned the same refs at the output ports. -/
def SameRefs (bound : BoundNode) (s s' : State α) : Prop :=
  ∀ (k : ℕ) values values', s.items[k]? = some (.ended (.persisted values)) →
    s'.items[k]? = some (.ended (.persisted values')) →
      ∀ name ∈ bound.outputPorts.keys, ∀ ref,
        values.get? name = some (.artifact (.ref ref)) →
          values'.get? name = some (.artifact (.ref ref))

/-- What is returned has the output ports as keys, and at every place of a sequence the
ref of the item with that index. -/
theorem result_ok (hsucceeded : Succeeded s)
    (h : result uuid5 bound context sequences s = .ok values) :
    values.keys = bound.outputPorts.keys ∧
      ∀ name sequence, (name, sequence) ∈ values →
        sequence.itemRefs.length = s.items.length ∧
          ∀ k < s.items.length, ∃ outputs ref,
            s.items[k]? = some (.ended (.persisted outputs)) ∧
              outputs.get? name = some (.artifact (.ref ref)) ∧
              sequence.itemRefs[k]? = some ref := by
  obtain ⟨results, hresults⟩ := hsucceeded.exists_results
  rw [result_of_results hresults] at h
  cases hrows : ((List.range results.length).zip results).mapM
      (fun item => itemRow bound item.1 item.2) with
  | error e => simp [hrows, bind, Except.bind] at h
  | ok rows =>
    simp only [hrows, bind, Except.bind] at h
    obtain ⟨hkeys, hrefs⟩ := outputSequences_ok h
    refine ⟨hkeys, ?_⟩
    intro name sequence hmem
    have hname : name ∈ bound.outputPorts.keys := by
      rw [← hkeys]
      exact List.mem_map.mpr ⟨_, hmem, rfl⟩
    have hpairs := mapM_ok hrows
    have hlength : rows.length = results.length := by
      have hsame := hpairs.length_eq
      simpa using hsame.symm
    have hrow : ∀ (k : ℕ) row, rows[k]? = some row → ∃ outputs, results[k]? = some outputs ∧
        ∃ ref, outputs.get? name = some (.artifact (.ref ref)) ∧ row.get? name = some ref := by
      intro k row hk
      obtain ⟨hlt, hget⟩ := List.getElem?_eq_some_iff.mp hk
      have hlt' : k < results.length := by omega
      have hrel := (List.forall₂_iff_get.mp hpairs).2 k (by simp; omega) hlt
      simp only [List.get_eq_getElem, List.getElem_zip, hget] at hrel
      exact ⟨results[k], List.getElem?_eq_getElem hlt', itemRow_ok hrel name hname⟩
    have hfull : ∀ row ∈ rows, ∃ ref, row.get? name = some ref := by
      intro row hrowmem
      obtain ⟨k, hk⟩ := List.mem_iff_getElem?.mp hrowmem
      obtain ⟨outputs, -, ref, -, href⟩ := hrow k row hk
      exact ⟨ref, href⟩
    obtain ⟨hcount, hplaces⟩ := getElem?_outputRefs hfull
    have hitems : s.items.length = results.length := by rw [hresults, List.length_map]
    rw [hrefs name sequence hmem, hitems]
    refine ⟨by rw [hcount, hlength], ?_⟩
    intro k hk
    have hltrow : k < rows.length := by omega
    obtain ⟨row, hrowk⟩ : ∃ row, rows[k]? = some row := ⟨_, List.getElem?_eq_getElem hltrow⟩
    obtain ⟨outputs, houtputs, ref, href, hget⟩ := hrow k row hrowk
    refine ⟨outputs, ref, ?_, href, hplaces k row ref hrowk hget⟩
    rw [hresults, List.getElem?_map, houtputs]
    rfl

theorem exists_outputSequence
    (h : ∀ ref ∈ refs, ref.artifactType = key.id ∧ ref.schemaVersion = key.schemaVersion) :
    ∃ sequence,
      outputSequence (α := α) uuid5 bound context sequences name key refs = .ok sequence := by
  have hnone : refs.find? (fun ref =>
      ref.artifactType ≠ key.id ∨ ref.schemaVersion ≠ key.schemaVersion) = none := by
    rw [List.find?_eq_none]
    intro ref href
    simp [h ref href]
  unfold outputSequence
  rw [hnone]
  exact ⟨_, rfl⟩

/-- A group that succeeded with a ref of the right type at every output port returns. -/
theorem exists_result (hsucceeded : Succeeded s) (htyped : Typed bound s) :
    ∃ values, result uuid5 bound context sequences s = .ok values := by
  obtain ⟨results, hresults⟩ := hsucceeded.exists_results
  have hmem : ∀ values ∈ results, Item.ended (.persisted values) ∈ s.items := by
    intro values hvalues
    rw [hresults]
    exact List.mem_map.mpr ⟨values, hvalues, rfl⟩
  obtain ⟨rows, hrows⟩ : ∃ rows, ((List.range results.length).zip results).mapM
      (fun item => itemRow bound item.1 item.2) = .ok rows := by
    refine mapM_exists ?_
    rintro ⟨k, values⟩ hitem
    refine exists_itemRow ?_
    intro name hname
    obtain ⟨⟨name, produces⟩, hport, rfl⟩ := List.mem_map.mp hname
    obtain ⟨key, -, hkey⟩ := htyped name produces hport
    obtain ⟨ref, href, -⟩ := hkey values (hmem values (List.of_mem_zip hitem).2)
    exact ⟨ref, href⟩
  obtain ⟨values, hvalues⟩ :
      ∃ values, outputSequences (α := α) uuid5 bound context sequences rows = .ok values := by
    refine mapM_exists ?_
    rintro ⟨name, produces⟩ hport
    obtain ⟨key, rfl, hkey⟩ := htyped name produces hport
    have hrefs : ∀ ref ∈ outputRefs rows name,
        ref.artifactType = key.id ∧ ref.schemaVersion = key.schemaVersion := by
      intro ref href
      obtain ⟨row, hrow, hget⟩ := List.mem_filterMap.mp href
      obtain ⟨⟨k, outputs⟩, hitem, hitemRow⟩ := Alignment.exists_left (mapM_ok hrows) hrow
      have hname : name ∈ bound.outputPorts.keys := List.mem_map.mpr ⟨_, hport, rfl⟩
      obtain ⟨given, hgiven, hgivenRow⟩ := itemRow_ok hitemRow name hname
      obtain ⟨typed, htypedRef, hkeyed⟩ := hkey outputs (hmem outputs (List.of_mem_zip hitem).2)
      rw [hget] at hgivenRow
      rw [hgiven] at htypedRef
      cases hgivenRow
      cases htypedRef
      exact hkeyed
    obtain ⟨sequence, hsequence⟩ : ∃ sequence, outputSequence (α := α) uuid5 bound context
        sequences name key (outputRefs rows name) = .ok sequence := exists_outputSequence hrefs
    exact ⟨(name, sequence), by simp [outputEntry, hsequence, Except.map]⟩
  refine ⟨values, ?_⟩
  rw [result_of_results hresults, hrows]
  exact hvalues

/-- The order in which items ran leaves no trace: the same refs give the same mapping. -/
theorem result_eq_of_sameRefs {s' : State α} (hsucceeded : Succeeded s) (hsucceeded' : Succeeded s')
    (hlength : s.items.length = s'.items.length) (hsame : SameRefs bound s s')
    (h : result uuid5 bound context sequences s = .ok values) :
    result uuid5 bound context sequences s' = .ok values := by
  obtain ⟨results, hresults⟩ := hsucceeded.exists_results
  obtain ⟨results', hresults'⟩ := hsucceeded'.exists_results
  have hcount : results.length = results'.length := by
    rw [hresults, hresults', List.length_map, List.length_map] at hlength
    exact hlength
  rw [result_of_results hresults] at h
  rw [result_of_results hresults']
  cases hrows : ((List.range results.length).zip results).mapM
      (fun item => itemRow bound item.1 item.2) with
  | error e => simp [hrows, bind, Except.bind] at h
  | ok rows =>
    have hpairs := mapM_ok hrows
    rw [← h]
    congr 1
    refine mapM_congr (List.forall₂_iff_get.mpr ⟨by simp [hcount], ?_⟩)
    intro k hk' hk
    have hlt : k < results.length := by simpa using hk
    have hlt' : k < results'.length := by omega
    have hltrow : k < rows.length := by
      have hsize := hpairs.length_eq
      simp only [List.length_zip, List.length_range, min_self] at hsize
      omega
    have hrel := (List.forall₂_iff_get.mp hpairs).2 k hk hltrow
    simp only [List.get_eq_getElem, List.getElem_zip, List.getElem_range] at hrel ⊢
    refine mapM_congr (List.forall₂_same.mpr ?_)
    intro name hname
    obtain ⟨ref, href, -⟩ := itemRow_ok hrel name hname
    have hitem : s.items[k]? = some (.ended (.persisted results[k])) := by
      rw [hresults, List.getElem?_map, List.getElem?_eq_getElem hlt]
      rfl
    have hitem' : s'.items[k]? = some (.ended (.persisted results'[k])) := by
      rw [hresults', List.getElem?_map, List.getElem?_eq_getElem hlt']
      rfl
    have href' := hsame k _ _ hitem hitem' name hname ref href
    rw [itemEntry, itemEntry, href, href']

end Reading

section Order

variable {α : Type} (uuid5 : String → String) (bound : BoundNode)
  (inputs : Dict String (Value α)) (context : Context)
  (sequences : Dict String ArtifactRefSequence)

/-- A group that ran every item once, each call with its own item of every mapped input,
and returns the refs in the order of the items. -/
structure OrderPreserved (s : State α) : Prop where
  started_once :
    (s.started.map (fun call => call.context.invocationIndex)).Perm
      ((List.range (itemCount sequences)).map some)
  ended_once :
    (s.ended.map (fun e => e.1.context.invocationIndex)).Perm
      ((List.range (itemCount sequences)).map some)
  received : ∀ call ∈ s.started, ∃ k < itemCount sequences,
    Receives bound inputs context sequences k call
  ports : ∀ values, result uuid5 bound context sequences s = .ok values →
    values.keys = bound.outputPorts.keys
  lengths : ∀ values, result uuid5 bound context sequences s = .ok values →
    ∀ name output, (name, output) ∈ values → ∀ input sequence, (input, sequence) ∈ sequences →
      output.itemRefs.length = sequence.itemRefs.length
  items : ∀ values, result uuid5 bound context sequences s = .ok values →
    ∀ name output, (name, output) ∈ values → ∀ k < itemCount sequences,
      ∃ call outputs ref, (call, .persisted outputs) ∈ s.ended ∧
        Receives bound inputs context sequences k call ∧
        outputs.get? name = some (.artifact (.ref ref)) ∧ output.itemRefs[k]? = some ref
  returns : Typed bound s → ∃ values, result uuid5 bound context sequences s = .ok values

variable {uuid5 bound inputs context sequences} {limit : ℕ}

theorem perm_range_of_nodup {l : List ℕ} {n : ℕ} (hnodup : l.Nodup) (hmem : ∀ k, k ∈ l ↔ k < n) :
    l.Perm (List.range n) := by
  rw [List.perm_ext_iff_of_nodup hnodup List.nodup_range]
  intro k
  rw [hmem k, List.mem_range]

theorem orderPreserved_of_tracks (hchecked : mappedSequences bound inputs = .ok sequences)
    {s : State α} {calls : List ℕ} {ends : List (ℕ × Outcome α)}
    (htracks : Tracks uuid5 bound inputs context sequences s calls ends)
    (hsucceeded : Succeeded s) : OrderPreserved uuid5 bound inputs context sequences s := by
  have hended : ∀ k < itemCount sequences, ∃ values,
      s.items[k]? = some (.ended (.persisted values)) := by
    intro k hk
    have hlt : k < s.items.length := by rw [htracks.length]; exact hk
    obtain ⟨values, hvalues⟩ := hsucceeded s.items[k] (List.getElem_mem hlt)
    exact ⟨values, by rw [List.getElem?_eq_getElem hlt, hvalues]⟩
  have hbound : ∀ {k : ℕ} {item : Item α}, s.items[k]? = some item → k < itemCount sequences := by
    intro k item hitem
    obtain ⟨hlt, -⟩ := List.getElem?_eq_some_iff.mp hitem
    rwa [htracks.length] at hlt
  have hcalls : ∀ k, k ∈ calls ↔ k < itemCount sequences := by
    intro k
    constructor
    · intro hk
      obtain ⟨item, hitem, -⟩ := htracks.called k hk
      exact hbound hitem
    · intro hk
      obtain ⟨values, hvalues⟩ := hended k hk
      exact htracks.made k (.inr ⟨_, hvalues⟩)
  have hends : ∀ k, k ∈ ends.map Prod.fst ↔ k < itemCount sequences := by
    intro k
    constructor
    · intro hk
      obtain ⟨e, he, rfl⟩ := List.mem_map.mp hk
      exact hbound ((htracks.outcome_iff e.1 e.2).mp he)
    · intro hk
      obtain ⟨values, hvalues⟩ := hended k hk
      exact List.mem_map.mpr ⟨_, (htracks.outcome_iff k _).mpr hvalues, rfl⟩
  constructor
  · rw [htracks.started, List.map_map]
    exact (perm_range_of_nodup htracks.calls_nodup hcalls).map some
  · have hindices : s.ended.map (fun e => e.1.context.invocationIndex) =
        (ends.map Prod.fst).map some := by
      rw [htracks.ended, List.map_map, List.map_map]
      rfl
    rw [hindices]
    exact (perm_range_of_nodup htracks.ends_nodup hends).map some
  · intro call hcall
    rw [htracks.started] at hcall
    obtain ⟨k, hk, rfl⟩ := List.mem_map.mp hcall
    exact ⟨k, (hcalls k).mp hk, receives_invocation hchecked ((hcalls k).mp hk)⟩
  · intro values hvalues
    exact (result_ok hsucceeded hvalues).1
  · intro values hvalues name output houtput input sequence hsequence
    rw [((result_ok hsucceeded hvalues).2 name output houtput).1, htracks.length]
    exact ((mappedSequences_ok hchecked).2 input sequence hsequence).symm
  · intro values hvalues name output houtput k hk
    have hitems := ((result_ok hsucceeded hvalues).2 name output houtput).2
    obtain ⟨outputs, ref, hitem, href, hplace⟩ := hitems k (by rw [htracks.length]; exact hk)
    refine ⟨invocation uuid5 bound inputs context sequences k, outputs, ref, ?_,
      receives_invocation hchecked hk, href, hplace⟩
    rw [htracks.ended]
    exact List.mem_map.mpr ⟨(k, .persisted outputs), (htracks.outcome_iff k _).mpr hitem, rfl⟩
  · intro htyped
    exact exists_result hsucceeded htyped

/-- Mapped execution keeps the order of its inputs under every schedule. Each run of the
group is finite and never stuck while a task is not over; a run in which every invocation
succeeds has preserved the order; and two runs whose invocations returned the same refs
return the same mapping, whatever their schedules and limits. -/
theorem map_preserves_order (hlimit : 1 ≤ limit)
    (hchecked : mappedSequences bound inputs = .ok sequences) :
    (∀ acts s,
      runItems uuid5 bound inputs context sequences limit (initial sequences) acts = some s →
        acts.length ≤ 2 * itemCount sequences ∧
          ((∀ item ∈ s.items, item.isOver) ∨
            ∃ act s', step uuid5 bound inputs context sequences limit s act = some s')) ∧
      (∀ acts s,
        runItems uuid5 bound inputs context sequences limit (initial sequences) acts = some s →
          Succeeded s → OrderPreserved uuid5 bound inputs context sequences s) ∧
      ∀ limit' acts acts' s s',
        runItems uuid5 bound inputs context sequences limit (initial sequences) acts = some s →
        runItems uuid5 bound inputs context sequences limit' (initial sequences) acts' = some s' →
          Succeeded s → Succeeded s' → SameRefs bound s s' →
            ∀ values, result uuid5 bound context sequences s = .ok values →
              result uuid5 bound context sequences s' = .ok values := by
  refine ⟨?_, ?_, ?_⟩
  · intro acts s hrun
    refine ⟨?_, ?_⟩
    · have hle := length_add_weight_le hrun
      have hstart : weight (initial (α := α) sequences).items = 2 * itemCount sequences := by
        simp [weight, initial, Item.weight, Nat.mul_comm]
      omega
    · by_cases hover : ∀ item ∈ s.items, item.isOver
      · exact .inl hover
      · exact .inr (exists_step hlimit hover)
  · intro acts s hrun hsucceeded
    obtain ⟨calls, ends, htracks⟩ := exists_tracks tracks_initial hrun
    exact orderPreserved_of_tracks hchecked htracks hsucceeded
  · intro limit' acts acts' s s' hrun hrun' hsucceeded hsucceeded' hsame values hvalues
    obtain ⟨calls, ends, htracks⟩ := exists_tracks tracks_initial hrun
    obtain ⟨calls', ends', htracks'⟩ := exists_tracks tracks_initial hrun'
    have hlength : s.items.length = s'.items.length := by
      rw [htracks.length, htracks'.length]
    exact result_eq_of_sameRefs hsucceeded hsucceeded' hlength hsame hvalues

end Order

def pairedPorts : Dict String InputPort :=
  [("row", ⟨[⟨"table", 1⟩], .one⟩), ("label", ⟨[⟨"text", 1⟩], .many⟩)]

def labelledPorts : Dict String (Option ArtifactTypeKey) := [("labelled", some ⟨"text", 1⟩)]

theorem pairedNames_nodup : ["row", "label"].Nodup := by simp

theorem pairedNames_known : ∀ name ∈ ["row", "label"], name ∈ pairedPorts.keys := by
  simp [pairedPorts, Dict.keys]

theorem labelledPorts_nodup : labelledPorts.keys.Nodup := by
  simp [labelledPorts, Dict.keys]

/-- A table's rows and a list of labels advancing together. -/
def pairedNode : BoundNode where
  operatorId := "text.label"
  mapInputs := ["row", "label"]
  inputPorts := pairedPorts
  outputPorts := labelledPorts
  mapInputs_ne_nil := List.cons_ne_nil _ _
  mapInputs_nodup := pairedNames_nodup
  mapInputs_known := pairedNames_known
  outputPorts_nodup := labelledPorts_nodup

def sequenceOf (id artifactType : String) (items : List String) : ArtifactRefSequence :=
  { sequenceId := id
    artifactType
    schemaVersion := 1
    itemRefs := items.map (fun item => ⟨item, artifactType, 1, none⟩)
    ordered := true
    indexKey := "order_index"
    metadata := [] }

def pairedInputs : Dict String (Value Unit) :=
  [("row", .artifact (.sequence (sequenceOf "s1" "table" ["a", "b"]))),
    ("label", .artifact (.sequence (sequenceOf "s2" "text" ["x", "y"])))]

def pairedContext : Context := ⟨"w", some "p", some "main", some "n", [], none, none, []⟩

def pairedSequences : Dict String ArtifactRefSequence :=
  [("row", sequenceOf "s1" "table" ["a", "b"]), ("label", sequenceOf "s2" "text" ["x", "y"])]

theorem pairedInputs_checked : mappedSequences pairedNode pairedInputs = .ok pairedSequences := rfl

def labelled (id : String) : Outcome Unit :=
  .persisted [("labelled", .artifact (.ref ⟨id, "text", 1, none⟩))]

/-- Both items at once, the later one started and ended first. -/
def backwardActs : List (Act Unit) :=
  [.start 1, .start 0, .finish 1 (labelled "by"), .finish 0 (labelled "ax")]

theorem backward_run_preserves_order :
    ∃ s, runItems id pairedNode pairedInputs pairedContext pairedSequences 2
        (initial pairedSequences) backwardActs = some s ∧
      OrderPreserved id pairedNode pairedInputs pairedContext pairedSequences s := by
  refine ⟨_, rfl, ?_⟩
  have hlimit : 1 ≤ 2 := by decide
  refine (map_preserves_order hlimit pairedInputs_checked).2.1 backwardActs _ rfl ?_
  intro item hitem
  rcases List.mem_pair.mp hitem with rfl | rfl
  · exact ⟨_, rfl⟩
  · exact ⟨_, rfl⟩

end Grafy.MapExecution
