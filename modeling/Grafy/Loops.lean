import Mathlib.Data.List.Forall2

/-!
Programs that may stop with an error. A sequence succeeds when its parts do. A loop
that succeeds carries an invariant over the elements it has read, and a loop whose
every turn succeeds is the plain fold of what its turns do. A traversal that succeeds
is its body, element by element.
-/
namespace Grafy.Loops

universe u

variable {E S : Type*} {A B : Type u} {e : E} {f : A → Except E B} {a : A} {s t : S} {l : List A}
  {r : List B} {p : Prop} {x : Except E A} {rest : List A} {C : Type*} {g : A → B}

/-- Stops with the error unless the condition holds. -/
def require (p : Prop) [Decidable p] (e : E) : Except E Unit := if p then .ok () else .error e

theorem require_ok [Decidable p] {u : Unit} : require p e = .ok u ↔ p := by
  by_cases h : p <;> simp [require, h]

theorem bind_ok {b : B} : (x >>= f) = .ok b ↔ ∃ a, x = .ok a ∧ f a = .ok b := by
  cases x with
  | error e | ok a => simp [bind, Except.bind]

theorem bind_error : x >>= f = .error e ↔ x = .error e ∨ ∃ a, x = .ok a ∧ f a = .error e := by
  cases x with
  | error e' | ok a => simp [bind, Except.bind]

theorem require_error [Decidable p] {e' : E} : require p e = .error e' ↔ ¬ p ∧ e = e' := by
  unfold require
  split_ifs with h <;> simp [h]

theorem mapError_ok {F : Type*} {result : Except E A} {wrap : E → F} :
    result.mapError wrap = .ok a ↔ result = .ok a := by
  cases result <;> simp [Except.mapError]

theorem foldlM_cons_ok {f : S → A → Except E S} :
    (a :: rest).foldlM f s = .ok t ↔ ∃ u, f s a = .ok u ∧ rest.foldlM f u = .ok t := by
  rw [List.foldlM_cons]
  cases h : f s a with
  | error e | ok u => simp [bind, Except.bind]

/-- A loop whose turns succeed where those of another do ends where that does. -/
theorem foldlM_imp {f g : S → A → Except E S} (hturn : ∀ s a t, f s a = .ok t → g s a = .ok t)
    (h : l.foldlM f s = .ok t) : l.foldlM g s = .ok t := by
  induction l generalizing s with
  | nil => exact h
  | cons a rest ih =>
    obtain ⟨u, hu, hrest⟩ := foldlM_cons_ok.mp h
    exact foldlM_cons_ok.mpr ⟨u, hturn s a u hu, ih hrest⟩

/-- The invariant speaks of the elements read so far and the state. -/
theorem foldlM_invariant {f : S → A → Except E S} (I : List A → S → Prop) (h : l.foldlM f s = .ok t)
    (hstart : I [] s) (hturn : ∀ done a u v, a ∈ l → I done u → f u a = .ok v → I (done ++ [a]) v) :
    I l t := by
  suffices hgen : ∀ (rest done : List A) (u : S), (∀ a ∈ rest, a ∈ l) → I done u →
      rest.foldlM f u = .ok t → I (done ++ rest) t by
    simpa using hgen l [] s (fun a ha => ha) hstart h
  intro rest
  induction rest with
  | nil =>
    intro done u _ hI hrun
    obtain rfl : u = t := by simpa [pure, Except.pure] using hrun
    simpa using hI
  | cons a rest ih =>
    intro done u hmem hI hrun
    obtain ⟨v, hv, hrest⟩ := foldlM_cons_ok.mp hrun
    have hnext := hturn done a u v (hmem a (List.mem_cons_self ..)) hI hv
    have hlast := ih (done ++ [a]) v (fun b hb => hmem b (List.mem_cons_of_mem _ hb)) hnext hrest
    simpa using hlast

/-- Every element has been read by a turn that succeeded. -/
theorem exists_turn_of_foldlM {f : S → A → Except E S} (h : l.foldlM f s = .ok t) :
    ∀ a ∈ l, ∃ u v, f u a = .ok v := by
  refine foldlM_invariant (fun done _ => ∀ a ∈ done, ∃ u v, f u a = .ok v) h (by simp) ?_
  intro done a u v _ hdone hturn b hb
  rcases List.mem_append.mp hb with hb | hb
  · exact hdone b hb
  · obtain rfl := List.mem_singleton.mp hb
    exact ⟨u, v, hturn⟩

/-- When every turn succeeds from the states met, the loop is a fold. -/
theorem foldlM_eq_foldl {f : S → A → Except E S} {g : S → A → S} (P : S → Prop) (hs : P s)
    (hturn : ∀ a ∈ l, ∀ u, P u → f u a = .ok (g u a) ∧ P (g u a)) :
    l.foldlM f s = .ok (l.foldl g s) ∧ P (l.foldl g s) := by
  induction l generalizing s with
  | nil => exact ⟨rfl, hs⟩
  | cons a rest ih =>
    obtain ⟨hok, hP⟩ := hturn a (List.mem_cons_self ..) s hs
    obtain ⟨hrest, hlast⟩ := ih hP (fun b hb => hturn b (List.mem_cons_of_mem _ hb))
    exact ⟨foldlM_cons_ok.mpr ⟨_, hok, hrest⟩, hlast⟩

theorem mapM_cons_ok :
    (a :: rest).mapM f = .ok r ↔ ∃ b bs, f a = .ok b ∧ rest.mapM f = .ok bs ∧ r = b :: bs := by
  rw [List.mapM_cons]
  cases h : f a with
  | error e => simp [bind, Except.bind]
  | ok b =>
    cases hrest : rest.mapM f with
    | error e => simp [bind, Except.bind]
    | ok bs => simp [bind, Except.bind, pure, Except.pure, eq_comm]

theorem mapM_ok (h : l.mapM f = .ok r) : List.Forall₂ (fun a b => f a = .ok b) l r := by
  induction l generalizing r with
  | nil =>
    obtain rfl : [] = r := by simpa [pure, Except.pure] using h
    exact .nil
  | cons a rest ih =>
    obtain ⟨b, bs, hb, hbs, rfl⟩ := mapM_cons_ok.mp h
    exact .cons hb (ih hbs)

/-- A loop that stops does so at one element, once those before it have been read. -/
theorem foldlM_error {f : S → A → Except E S} (h : l.foldlM f s = .error e) :
    ∃ before a after u, l = before ++ a :: after ∧
      before.foldlM f s = .ok u ∧ f u a = .error e := by
  induction l generalizing s with
  | nil => simp [pure, Except.pure] at h
  | cons a rest ih =>
    rw [List.foldlM_cons] at h
    rcases bind_error.mp h with hturn | ⟨u, hturn, h⟩
    · exact ⟨[], a, rest, s, rfl, rfl, hturn⟩
    · obtain ⟨before, b, after, v, rfl, hbefore, hb⟩ := ih h
      exact ⟨a :: before, b, after, v, rfl, foldlM_cons_ok.mpr ⟨u, hturn, hbefore⟩, hb⟩

theorem mapM_error (h : l.mapM f = .error e) : ∃ a ∈ l, f a = .error e := by
  by_contra hnone
  push Not at hnone
  induction l with
  | nil => simp [pure, Except.pure] at h
  | cons a rest ih =>
    rw [List.mapM_cons] at h
    rcases bind_error.mp h with hturn | ⟨b, -, h⟩
    · exact hnone a List.mem_cons_self hturn
    · rcases bind_error.mp h with hrest | ⟨bs, -, h⟩
      · exact ih hrest (fun c hc => hnone c (List.mem_cons_of_mem _ hc))
      · simp [pure, Except.pure] at h

/-- Two traversals that agree at every place have the same result. -/
theorem mapM_congr {g : C → Except E B} {m : List C} (h : List.Forall₂ (fun a c => f a = g c) l m) :
    l.mapM f = m.mapM g := by
  induction h with
  | nil => rfl
  | cons hac _ ih => rw [List.mapM_cons, List.mapM_cons, hac, ih]

theorem mapM_eq_map (h : ∀ a ∈ l, f a = .ok (g a)) : l.mapM f = .ok (l.map g) := by
  induction l with
  | nil => rfl
  | cons a rest ih =>
    exact mapM_cons_ok.mpr ⟨g a, rest.map g, h a (List.mem_cons_self ..),
      ih (fun b hb => h b (List.mem_cons_of_mem _ hb)), rfl⟩

theorem mapM_some {f : A → Option B} (h : List.Forall₂ (fun a b => f a = some b) l r) :
    l.mapM f = some r := by
  induction h with
  | nil => rfl
  | cons hab _ ih =>
    rw [List.mapM_cons, hab, ih]
    rfl

theorem mapM_some_iff {f : A → Option B} :
    l.mapM f = some r ↔ List.Forall₂ (fun a b => f a = some b) l r := by
  constructor
  · intro h
    induction l generalizing r with
    | nil =>
      obtain rfl : [] = r := by simpa using h
      exact .nil
    | cons a rest ih =>
      rw [List.mapM_cons] at h
      obtain ⟨b, hb, h⟩ := Option.bind_eq_some_iff.mp h
      obtain ⟨bs, hbs, h⟩ := Option.bind_eq_some_iff.mp h
      cases h
      exact .cons hb (ih hbs)
  · exact mapM_some

/-- A traversal that throws nowhere is a map. -/
theorem mapM_some_eq_map {f : A → Option B} (h : ∀ a ∈ l, f a = some (g a)) :
    l.mapM f = some (l.map g) := by
  refine mapM_some ?_
  rw [List.forall₂_map_right_iff]
  exact List.forall₂_same.mpr h

theorem mapM_exists (h : ∀ a ∈ l, ∃ b, f a = .ok b) : ∃ r, l.mapM f = .ok r := by
  induction l with
  | nil => exact ⟨[], rfl⟩
  | cons a rest ih =>
    obtain ⟨b, hb⟩ := h a (List.mem_cons_self ..)
    obtain ⟨r, hr⟩ := ih (fun c hc => h c (List.mem_cons_of_mem _ hc))
    exact ⟨b :: r, mapM_cons_ok.mpr ⟨b, r, hb, hr, rfl⟩⟩

/-- With distinct keys a search by an element's key finds the element. -/
theorem find?_by_key {K : Type*} [DecidableEq K] (key : C → K) {l : List C} (h : (l.map key).Nodup)
    {a : C} (ha : a ∈ l) : l.find? (fun x => key x = key a) = some a := by
  induction l with
  | nil => cases ha
  | cons x rest ih =>
    rw [List.map_cons, List.nodup_cons] at h
    rcases List.mem_cons.mp ha with rfl | hrest
    · simp
    · have hne : key x ≠ key a := by
        intro heq
        exact h.1 (heq ▸ List.mem_map_of_mem hrest)
      rw [List.find?_cons_of_neg (by simpa using hne), ih h.2 hrest]

end Grafy.Loops
