import Mathlib.Data.List.Perm.Subperm

/-!
Forests given by the parent of each node. A node is rooted where following the parents
reaches one without a parent; giving a node another parent keeps every node rooted unless
that parent is at or below the node. Climbing with a visited set decides whether it is, also
where the parents lead around.
-/
namespace Grafy.Forests

variable {A : Type*}

/-- Following the parents from the first node leads to the second. -/
inductive Below (parent : A → Option A) : A → A → Prop
  | refl (a : A) : Below parent a a
  | up {a b c : A} : parent a = some b → Below parent b c → Below parent a c

inductive Rooted (parent : A → Option A) : A → Prop
  | root {a : A} : parent a = none → Rooted parent a
  | up {a b : A} : parent a = some b → Rooted parent b → Rooted parent a

def Forest (parent : A → Option A) : Prop := ∀ a, Rooted parent a

variable {parent : A → Option A} {b : A}

theorem Below.snoc {a c : A} (h : Below parent a b) (hparent : parent b = some c) :
    Below parent a c := by
  induction h with
  | refl a => exact .up hparent (.refl c)
  | up hstep _ ih => exact .up hstep (ih hparent)

/-- A node on a cycle is not rooted. -/
theorem not_rooted {a : A} (hparent : parent a = some b) (h : Below parent b a) :
    ¬ Rooted parent a := by
  intro hrooted
  induction hrooted generalizing b with
  | root hnone =>
    rw [hnone] at hparent
    cases hparent
  | @up a c hstep _ ih =>
    rw [hstep] at hparent
    cases hparent
    cases h with
    | refl => exact ih hstep (.refl _)
    | up hnext hrest => exact ih hnext (hrest.snoc hstep)

/-- What is closed under parents and leaves the goal out is not below the goal. -/
theorem not_below_of_closed {P : A → Prop} {goal : A}
    (hclosed : ∀ a, P a → a ≠ goal ∧ ∀ b, parent a = some b → P b) {a : A} (ha : P a) :
    ¬ Below parent a goal := by
  intro h
  induction h with
  | refl a => exact (hclosed a ha).1 rfl
  | up hstep _ ih => exact ih hclosed ((hclosed _ ha).2 _ hstep)

section Update
variable [DecidableEq A] {a : A} {p : Option A} {b : A}

/-- A node whose climb does not pass another one does not see its parent change. -/
theorem Rooted.update_of_not_below (h : Rooted parent b) (hbelow : ¬ Below parent b a) :
    Rooted (Function.update parent a p) b := by
  induction h with
  | @root b hnone =>
    have hne : b ≠ a := by
      rintro rfl
      exact hbelow (.refl b)
    exact .root (by rw [Function.update_of_ne hne, hnone])
  | @up b c hstep _ ih =>
    have hne : b ≠ a := by
      rintro rfl
      exact hbelow (.refl b)
    refine .up (by rw [Function.update_of_ne hne, hstep]) (ih ?_)
    exact fun h => hbelow (.up hstep h)

theorem Forest.update (h : Forest parent) (hp : Rooted (Function.update parent a p) a) :
    Forest (Function.update parent a p) := by
  intro b
  induction h b with
  | @root b hnone =>
    by_cases hne : b = a
    · rw [hne]
      exact hp
    · exact .root (by rw [Function.update_of_ne hne, hnone])
  | @up b c hstep _ ih =>
    by_cases hne : b = a
    · rw [hne]
      exact hp
    · exact .up (by rw [Function.update_of_ne hne, hstep]) ih

/-- A node moves under another one that is not at or below it. -/
theorem Forest.move (h : Forest parent) (hbelow : ¬ Below parent b a) :
    Forest (Function.update parent a (some b)) :=
  h.update (.up (Function.update_self a (some b) parent) ((h b).update_of_not_below hbelow))

theorem Forest.detach (h : Forest parent) : Forest (Function.update parent a none) :=
  h.update (.root (Function.update_self a none parent))

end Update

section Climb
variable [DecidableEq A] {goal : A} {fuel : ℕ} {seen : List A} {known : List A}

/-- Climbing from a node until the goal is met, a node is seen again or there is no parent. -/
def climb (parent : A → Option A) (goal : A) : ℕ → List A → Option A → Bool
  | _, _, none => false
  | 0, _, some _ => false
  | fuel + 1, seen, some a =>
    if a ∈ seen then false
    else if a = goal then true
    else climb parent goal fuel (a :: seen) (parent a)

theorem below_of_climb {a : A} (h : climb parent goal fuel seen (some a) = true) :
    Below parent a goal := by
  induction fuel generalizing seen a with
  | zero => cases h
  | succ fuel ih =>
    unfold climb at h
    split at h
    · cases h
    · split at h
      · next heq =>
        rw [heq]
        exact .refl goal
      · cases hparent : parent a with
        | none =>
          rw [hparent] at h
          cases fuel <;> cases h
        | some b =>
          rw [hparent] at h
          exact .up hparent (ih h)

/-- Every node seen has its parent among those seen or at hand, so a climb that fails has
closed what it saw. The fuel lasts since no node with a parent is seen twice. -/
theorem not_below_of_climb (hknown : ∀ a b, parent a = some b → a ∈ known) {current : Option A}
    (hnodup : seen.Nodup) (hseen : current ≠ none → seen ⊆ known)
    (hfuel : known.length < fuel + seen.length)
    (hclosed : ∀ a ∈ seen, a ≠ goal ∧ ∀ b, parent a = some b → b ∈ seen ∨ current = some b)
    (h : climb parent goal fuel seen current = false) {a : A} (ha : a ∈ seen ∨ current = some a) :
    ¬ Below parent a goal := by
  induction fuel generalizing seen current with
  | zero =>
    cases current with
    | none =>
      refine not_below_of_closed (P := fun a => a ∈ seen) ?_ (ha.resolve_right nofun)
      intro b hb
      exact ⟨(hclosed b hb).1, fun c hc => ((hclosed b hb).2 c hc).resolve_right nofun⟩
    | some b =>
      have hlength := (hnodup.subperm (hseen nofun)).length_le
      omega
  | succ fuel ih =>
    cases current with
    | none =>
      refine not_below_of_closed (P := fun a => a ∈ seen) ?_ (ha.resolve_right nofun)
      intro b hb
      exact ⟨(hclosed b hb).1, fun c hc => ((hclosed b hb).2 c hc).resolve_right nofun⟩
    | some b =>
      unfold climb at h
      split at h
      · next hmem =>
        have hback : ∀ c, c ∈ seen ∨ some b = some c → c ∈ seen := by
          rintro c (hc | hc)
          · exact hc
          · exact Option.some.inj hc ▸ hmem
        refine not_below_of_closed (P := fun a => a ∈ seen) ?_ (hback a ha)
        intro c hc
        exact ⟨(hclosed c hc).1, fun d hd => hback d ((hclosed c hc).2 d hd)⟩
      · next hnew =>
        split at h
        · cases h
        · next hgoal =>
          refine ih (List.nodup_cons.mpr ⟨hnew, hnodup⟩) ?_ ?_ ?_ h ?_
          · intro hparent
            obtain ⟨c, hc⟩ := Option.ne_none_iff_exists'.mp hparent
            exact List.cons_subset.mpr ⟨hknown b c hc, hseen nofun⟩
          · rw [List.length_cons]
            omega
          · intro c hc
            rcases List.mem_cons.mp hc with rfl | hc
            · exact ⟨hgoal, fun d hd => Or.inr hd⟩
            · refine ⟨(hclosed c hc).1, fun d hd => Or.inl ?_⟩
              rcases (hclosed c hc).2 d hd with hd | hd
              · exact List.mem_cons_of_mem _ hd
              · rw [Option.some.inj hd]
                exact List.mem_cons_self
          · rcases ha with ha | ha
            · exact Or.inl (List.mem_cons_of_mem _ ha)
            · rw [Option.some.inj ha]
              exact Or.inl List.mem_cons_self

/-- With fuel for every node that has a parent, climbing decides what is below. -/
theorem climb_iff (hknown : ∀ a b, parent a = some b → a ∈ known) {a : A} :
    climb parent goal (known.length + 1) [] (some a) = true ↔ Below parent a goal := by
  refine ⟨below_of_climb, ?_⟩
  intro hbelow
  by_contra hclimb
  have hfalse := (Bool.not_eq_true _).mp hclimb
  refine not_below_of_climb hknown List.nodup_nil (fun _ => List.nil_subset _) ?_ ?_ hfalse
    (Or.inr rfl) hbelow
  · simp
  · intro b hb
    cases hb

end Climb

end Grafy.Forests
