import Grafy.ClosedWalks
import Grafy.ExpansionInstances

/-!
Call cycles. The walk over the call relation ends with a cycle exactly when
there is one: what it finishes is finished after everything it calls, and what
it stands on is a chain of calls that cannot outgrow the Graphs that call.
-/
namespace Grafy.CallCycles

open ClosedWalks Expansion Loops OrderedDict Project

section Relation

variable (callees : Dict String (List String))

/-- What an id calls: nothing when the relation does not list it. -/
def callsOf (id : String) : List String := (callees.get? id).getD []

def Acyclic : Prop := ∀ id, ¬ Relation.TransGen (fun id callee => callee ∈ callsOf callees id) id id

/-- A path of calls that ends where it starts. -/
def CallCycle (path : List String) : Prop :=
  ∃ first rest, path = first :: (rest ++ [first]) ∧
    path.IsChain (fun id callee => callee ∈ callsOf callees id)

variable {callees} {done : List String} {id : String} {path : List String} {stop : CallWalkStop}

theorem mem_keys_of_calls {callee : String} (h : callee ∈ callsOf callees id) :
    id ∈ callees.keys := by
  cases hget : callees.get? id with
  | none => simp [callsOf, hget] at h
  | some called => exact Dict.mem_keys_of_get? hget

theorem CallCycle.not_acyclic (h : CallCycle callees path) : ¬ Acyclic callees := by
  obtain ⟨first, rest, rfl, hchain⟩ := h
  intro hacyclic
  exact hacyclic first (transGen_of_isChain rest hchain)

/-- A visit that fails has found a cycle. The path is a chain of distinct ids
that call something, so it ends before the fuel does. -/
theorem visit_error (fuel : ℕ) (hfuel : callees.length < fuel + path.length) (hnodup : path.Nodup)
    (hnew : id ∉ path) (hkeys : ∀ other ∈ path, other ∈ callees.keys)
    (hchain : (path ++ [id]).IsChain (fun id callee => callee ∈ callsOf callees id))
    (h : visit (callsOf callees) fuel id path done = .error stop) :
    ∃ cycle, stop = .cycle cycle ∧ CallCycle callees cycle := by
  induction fuel generalizing id path done with
  | zero =>
    have hle := (hnodup.subperm hkeys).length_le
    rw [show callees.keys.length = callees.length from List.length_map _] at hle
    omega
  | succ fuel ih =>
    simp only [visit] at h
    have hfails : (callsOf callees id).foldlM (fun done callee =>
        if callee ∈ path ++ [id] then
          .error (.cycle ((path ++ [id]).drop ((path ++ [id]).idxOf callee) ++ [callee]))
        else if callee ∈ done then .ok done
        else visit (callsOf callees) fuel callee (path ++ [id]) done) done = .error stop := by
      rcases bind_error.mp h with hfold | ⟨inner, -, hlast⟩
      · exact hfold
      · simp [pure, Except.pure] at hlast
    obtain ⟨before, callee, after, reached, hsplit, -, hturn⟩ := foldlM_error hfails
    have hcallee : callee ∈ callsOf callees id := by simp [hsplit]
    split_ifs at hturn with hseen hdone
    · obtain rfl := Except.error.inj hturn
      obtain ⟨rest, hdrop, hclosed⟩ := closedWalk_of_seen hseen (isChain_snoc hchain hcallee)
      exact ⟨_, rfl, callee, rest, by rw [hdrop]; rfl, hclosed⟩
    · refine ih ?_ (nodup_snoc hnodup hnew) hseen ?_ (isChain_snoc hchain hcallee) hturn
      · rw [List.length_append, List.length_singleton]
        omega
      · exact List.forall_mem_append.mpr ⟨hkeys, by simpa using mem_keys_of_calls hcallee⟩

theorem findCallCycle_error (h : findCallCycle callees = .error stop) :
    ∃ cycle, stop = .cycle cycle ∧ CallCycle callees cycle := by
  obtain ⟨_, id, _, done, -, -, hturn⟩ := foldlM_error h
  split_ifs at hturn with hdone
  exact visit_error (callees.length + 1) (by simp) List.nodup_nil (by simp) (by simp)
    (List.isChain_singleton id) hturn

theorem acyclic_of_ok (h : findCallCycle callees = .ok done) : Acyclic callees := by
  obtain ⟨hfinished, hall⟩ := @findCallCycle_ok _ _ (fun _ => True) (by simp) (by simp) h
  intro id hcycle
  have hid : id ∈ callees.keys := by
    obtain ⟨callee, hcallee, -⟩ := Relation.TransGen.head'_iff.mp hcycle
    exact mem_keys_of_calls hcallee
  exact not_transGen_of_acc (hfinished.sourced.acc (hall id hid)) hcycle.swap

end Relation

/-- A cycle of calls is found exactly when there is one, and what is reported
is a cycle. On an accepted document the walk through the calls of a Graph ends
without an unknown Graph and visits every chain of calls once. -/
theorem call_cycles_found_and_visits_end (callees : Dict String (List String)) :
    ((∃ done, findCallCycle callees = .ok done) ↔ Acyclic callees) ∧
      (¬ Acyclic callees → ∃ path, findCallCycle callees = .error (.cycle path) ∧
        CallCycle callees path) ∧
      ∀ (casefold : String → String) (project : ProjectDocument) (target : GraphDefinition)
        (callPath : List String), project.Valid casefold → target ∈ project.graphs →
        ∃ found, visits project project.graphs.length target callPath = .ok found ∧
          (found.map Visit.callPath).Nodup ∧
          ∀ visit, visit ∈ found ↔ ∃ path, visit.callPath = callPath ++ path ∧
            Calls project target path visit.graph := by
  have hcyclic : (¬ ∃ done, findCallCycle callees = .ok done) → ∃ path,
      findCallCycle callees = .error (.cycle path) ∧ CallCycle callees path := by
    intro hnone
    cases hwalk : findCallCycle callees with
    | ok done => exact absurd ⟨done, hwalk⟩ hnone
    | error stop =>
      obtain ⟨path, rfl, hpath⟩ := findCallCycle_error hwalk
      exact ⟨path, rfl, hpath⟩
  have hiff : (∃ done, findCallCycle callees = .ok done) ↔ Acyclic callees := by
    constructor
    · rintro ⟨done, hdone⟩
      exact acyclic_of_ok hdone
    · intro hacyclic
      by_contra hnone
      obtain ⟨path, -, hpath⟩ := hcyclic hnone
      exact hpath.not_acyclic hacyclic
  refine ⟨hiff, fun h => hcyclic (fun hok => h (hiff.mp hok)), ?_⟩
  intro casefold project target callPath hvalid htarget
  have hwf := hvalid.wellFormed
  obtain ⟨rank, hbound, hlower⟩ := hwf.ranked
  obtain ⟨found, hfound⟩ := visits_exists hwf hlower project.graphs.length callPath htarget
    (hbound target htarget)
  refine ⟨found, hfound, visits_nodup hwf _ htarget hfound, ?_⟩
  intro visit
  constructor
  · exact calls_of_mem_visits _ hfound visit
  · rintro ⟨path, hpath, hcalls⟩
    have hmem := mem_visits_of_calls _ hfound hcalls
    rwa [← hpath] at hmem

/-- Two Graphs that call each other are reported, and the calls of a document
without such are all visited. -/
theorem mutual_calls_reported_and_call_visited :
    (∃ path, findCallCycle [("a", ["b"]), ("b", ["a"])] = .error (.cycle path) ∧
      CallCycle [("a", ["b"]), ("b", ["a"])] path) ∧
    ∃ found, visits (callProject "a" "b") 2 (callProject "a" "b").graphs[1] [] = .ok found ∧
      (found.map Visit.callPath).Nodup := by
  obtain ⟨-, hcycle, hvisits⟩ := call_cycles_found_and_visits_end [("a", ["b"]), ("b", ["a"])]
  refine ⟨hcycle ?_, ?_⟩
  · have hmutual : CallCycle [("a", ["b"]), ("b", ["a"])] ["a", "b", "a"] :=
      ⟨"a", ["b"], rfl, by simp [callsOf, Dict.get?]⟩
    exact hmutual.not_acyclic
  · obtain ⟨found, hfound, hnodup, -⟩ := hvisits id (callProject "a" "b")
      (callProject "a" "b").graphs[1] [] callProject_valid (List.getElem_mem _)
    exact ⟨found, hfound, hnodup⟩

end Grafy.CallCycles
