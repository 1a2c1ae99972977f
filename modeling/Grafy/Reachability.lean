import Mathlib.Tactic.SplitIfs

/-!
Labelled transition systems given by a partial step function, and the states
reachable by steps that all meet a side condition. The invariant rules reduce
a statement about every reachable state to one about a single step; executing
a list of labels shows that a state is reachable.
-/
namespace Grafy.Reachability

variable {S A : Type*} (step : S → A → Option S) (meets : S → A → Prop)

/-- The states reached from s0 by steps that each meet the condition in the
state they are taken in. -/
inductive Reachable (s0 : S) : S → Prop
  | start : Reachable s0 s0
  | next {s s' : S} {a : A} :
      Reachable s0 s → meets s a → step s a = some s' → Reachable s0 s'

/-- Executing a list of labels, failing at the first one that is not enabled
or does not pass the check. -/
def execute (check : S → A → Bool) (s : S) : List A → Option S
  | [] => some s
  | a :: rest =>
    if check s a then (step s a).bind (fun s' => execute check s' rest) else none

variable {step meets} {s0 : S}

theorem Reachable.invariant {s : S} {I : S → Prop} (h : Reachable step meets s0 s) (hstart : I s0)
    (hstep : ∀ s a s', I s → meets s a → step s a = some s' → I s') : I s := by
  induction h with
  | start => exact hstart
  | next _ hmeets hs ih => exact hstep _ _ _ ih hmeets hs

theorem Reachable.mono {meets' : S → A → Prop} {s : S} (himp : ∀ s a, meets s a → meets' s a)
    (h : Reachable step meets s0 s) : Reachable step meets' s0 s := by
  induction h with
  | start => exact .start
  | next _ hmeets hs ih => exact .next ih (himp _ _ hmeets) hs

theorem Reachable.trans {s1 s2 : S} (h1 : Reachable step meets s0 s1)
    (h2 : Reachable step meets s1 s2) : Reachable step meets s0 s2 := by
  induction h2 with
  | start => exact h1
  | next _ hmeets hs ih => exact .next ih hmeets hs

/-- An executed list of labels is a run, when the check implies the condition. -/
theorem Reachable.of_execute {check : S → A → Bool} {s0 s1 : S} {labels : List A}
    (hmeets : ∀ a ∈ labels, ∀ s, check s a → meets s a)
    (h : execute step check s0 labels = some s1) : Reachable step meets s0 s1 := by
  induction labels generalizing s0 with
  | nil =>
    obtain rfl : s0 = s1 := by simpa [execute] using h
    exact .start
  | cons a rest ih =>
    simp only [execute] at h
    split_ifs at h with hcheck
    obtain ⟨s', hs', hrest⟩ := Option.bind_eq_some_iff.mp h
    have hfirst : Reachable step meets s0 s' :=
      .next .start (hmeets a (List.mem_cons_self ..) s0 hcheck) hs'
    exact hfirst.trans (ih (fun b hb => hmeets b (List.mem_cons_of_mem _ hb)) hrest)

/-- A test that passes after executing some labels holds of a reachable state. -/
theorem exists_reachable (step : S → A → Option S) (meets : S → A → Prop)
    (check : S → A → Bool) (s0 : S) (labels : List A) (test : S → Bool)
    (hmeets : ∀ a ∈ labels, ∀ s, check s a → meets s a)
    (h : (execute step check s0 labels).any test) :
    ∃ s, Reachable step meets s0 s ∧ test s := by
  cases hrun : execute step check s0 labels with
  | none => simp [hrun] at h
  | some s =>
    rw [hrun] at h
    exact ⟨s, Reachable.of_execute hmeets hrun, h⟩

end Grafy.Reachability
