import Grafy.MapExecution
import Grafy.Reachability

/-!
Which item a failed MAP computation names. The group cancels the other tasks as
soon as one fails, and of the failures collected the one with the smallest index
is named. Another item may fail first and have the smallest one cancelled. A
result that was not persisted ends the group without naming an item.
-/
namespace Grafy.MapExecution

open Loops OrderedDict Reachability GraphDocuments

section Schedules

variable {α : Type}

/-- How each item's invocation always ends. -/
abbrev Invocations (α : Type) := ℕ → Outcome α

/-- Invocations end as they always do. -/
def Obeys (given : Invocations α) : Act α → Prop
  | .finish k outcome => outcome = given k
  | _ => True

/-- The semaphore serves the tasks in the order in which they came, which is
that of the items. -/
def FirstCome (s : State α) : Act α → Prop
  | .start k => ∀ j < k, s.items[j]? ≠ some .waiting
  | _ => True

/-- The item's task ends with an error. -/
def Fails (given : Invocations α) (k : ℕ) : Prop := (Item.ended (given k)).isFailed

/-- The smallest of the indices that fail. -/
structure FirstFailure (given : Invocations α) (count first : ℕ) : Prop where
  lt : first < count
  fails : Fails given first
  least : ∀ k < first, ¬ Fails given k

def OnlyFailure (given : Invocations α) (count first : ℕ) : Prop :=
  ∀ k < count, Fails given k → k = first

/-- The invocations that fail raise; none returns a result that was not persisted. -/
def AllRaise (given : Invocations α) (count : ℕ) : Prop := ∀ k < count, given k ≠ .notPersisted

end Schedules

variable {uuid5 : String → String} {bound : BoundNode} {context : Context} {limit first : ℕ}

section Named

variable {α : Type} {inputs : Dict String (Value α)} {sequences : Dict String ArtifactRefSequence}
  {given : Invocations α} {s' s : State α} {act : Act α} {k : ℕ} {items : List (Item α)}
  {item : Item α}

/-- Every task that has ended did what its invocation always does. -/
def EndsGiven (given : Invocations α) (s : State α) : Prop :=
  ∀ (k : ℕ) outcome, s.items[k]? = some (.ended outcome) → outcome = given k

theorem EndsGiven.step (h : EndsGiven given s) (hobeys : Obeys given act)
    (hstep : step uuid5 bound inputs context sequences limit s act = some s') :
    EndsGiven given s' := by
  intro k outcome hk
  rcases step_cases hstep with ⟨j, -, hitem, hitems, -⟩ | ⟨j, ended, rfl, hitem, hitems, -⟩ |
    ⟨j, -, hitem, hitems, -⟩
  · rw [hitems, getElem?_set_eq _ hitem] at hk
    split_ifs at hk
    · cases hk
    · exact h k outcome hk
  · rw [hitems, getElem?_set_eq _ hitem] at hk
    split_ifs at hk with hkj
    · obtain rfl := Item.ended.inj (Option.some.inj hk)
      exact hkj ▸ hobeys
    · exact h k outcome hk
  · obtain ⟨old, hold⟩ : ∃ old, s.items[j]? = some old := by
      rcases hitem with hitem | hitem <;> exact ⟨_, hitem⟩
    rw [hitems, getElem?_set_eq _ hold] at hk
    split_ifs at hk
    · cases hk
    · exact h k outcome hk

/-- A failed item is one that has ended as its invocation always does. -/
theorem EndsGiven.of_failed (h : EndsGiven given s) (hitem : s.items[k]? = some item)
    (hfailed : item.isFailed) : item = .ended (given k) ∧ Fails given k := by
  cases item with
  | ended outcome =>
    obtain rfl := h k outcome hitem
    exact ⟨rfl, hfailed⟩
  | waiting | running | cancelled => cases hfailed

theorem indicesOf_mem {p : Item α → Bool} :
    k ∈ indicesOf p items ↔ ∃ item, items[k]? = some item ∧ p item := by
  unfold indicesOf
  rw [List.mem_filter, List.mem_range, Option.any_eq_true]
  constructor
  · exact fun h => h.2
  · rintro ⟨item, hitem, hp⟩
    exact ⟨(List.getElem?_eq_some_iff.mp hitem).1, item, hitem, hp⟩

theorem indicesOf_sorted (p : Item α → Bool) (items : List (Item α)) :
    (indicesOf p items).Pairwise (· < ·) :=
  List.pairwise_lt_range.filter _

theorem mem_isRaised : k ∈ indicesOf Item.isRaised items ↔ items[k]? = some (.ended .raised) := by
  rw [indicesOf_mem]
  constructor
  · rintro ⟨item, hitem, hp⟩
    cases item with
    | ended outcome =>
      cases outcome with
      | raised => exact hitem
      | persisted | notPersisted => cases hp
    | waiting | running | cancelled => cases hp
  · exact fun hitem => ⟨_, hitem, rfl⟩

theorem mem_isNotPersisted :
    k ∈ indicesOf Item.isNotPersisted items ↔ items[k]? = some (.ended .notPersisted) := by
  rw [indicesOf_mem]
  constructor
  · rintro ⟨item, hitem, hp⟩
    cases item with
    | ended outcome =>
      cases outcome with
      | notPersisted => exact hitem
      | persisted | raised => cases hp
    | waiting | running | cancelled => cases hp
  · exact fun hitem => ⟨_, hitem, rfl⟩

/-- An item that failed leaves no results to read. -/
theorem mapM_persisted_none (hitem : s.items[k]? = some item) (hfailed : item.isFailed) :
    s.items.mapM Item.persisted? = none := by
  cases hall : s.items.mapM Item.persisted? with
  | none => rfl
  | some results =>
    obtain ⟨values, -, hvalues⟩ :=
      Alignment.exists_right (mapM_some_iff.mp hall) (List.mem_of_getElem? hitem)
    cases item with
    | ended outcome =>
      cases outcome with
      | persisted => cases hfailed
      | notPersisted | raised => cases hvalues
    | waiting | running | cancelled => cases hfailed

/-- The index named is the first of the failures collected. -/
theorem result_of_raised (hraised : s.items[k]? = some (.ended .raised))
    (hfirst : ∀ j < k, s.items[j]? ≠ some (.ended .raised))
    (hothers : ∀ j : ℕ, s.items[j]? ≠ some (.ended .notPersisted)) :
    result uuid5 bound context sequences s = .error (.itemFailed k) := by
  have hnone := mapM_persisted_none hraised rfl
  have hempty : indicesOf Item.isNotPersisted s.items = [] :=
    List.eq_nil_iff_forall_not_mem.mpr fun j hj => hothers j (mem_isNotPersisted.mp hj)
  have hmem := mem_isRaised.mpr hraised
  have hsorted := indicesOf_sorted Item.isRaised s.items
  cases hindices : indicesOf Item.isRaised s.items with
  | nil =>
    rw [hindices] at hmem
    cases hmem
  | cons j rest =>
    rw [hindices] at hmem hsorted
    have hjk : j = k := by
      rcases List.mem_cons.mp hmem with hkj | hrest
      · exact hkj.symm
      · have hlt := List.rel_of_pairwise_cons hsorted hrest
        exact absurd (mem_isRaised.mp (hindices ▸ List.mem_cons_self)) (hfirst j hlt)
    simp only [result, hnone, hindices, hempty, hjk]

/-- With a result that was not persisted no item is named. -/
theorem result_ne_itemFailed (hitem : s.items[k]? = some (.ended .notPersisted)) (j : ℕ) :
    result uuid5 bound context sequences s ≠ .error (.itemFailed j) := by
  have hnone := mapM_persisted_none hitem rfl
  have hmem := mem_isNotPersisted.mpr hitem
  intro hresult
  simp only [result, hnone] at hresult
  split at hresult
  · rename_i hempty
    rw [hempty] at hmem
    cases hmem
  · cases hresult

/-- What keeps the first failing item from being cancelled. -/
structure Guarded (given : Invocations α) (first : ℕ) (s : State α) : Prop where
  ends : EndsGiven given s
  kept : s.items[first]? ≠ some .cancelled

/-- A task is cancelled only when another one has failed. -/
theorem cancel_failed
    (hstep : step uuid5 bound inputs context sequences limit s (.cancel k) = some s') :
    ∃ (j : ℕ) (item : Item α), s.items[j]? = some item ∧ item.isFailed := by
  simp only [step] at hstep
  split at hstep
  · rename_i hany
    obtain ⟨item, hmem, hfailed⟩ := List.any_eq_true.mp hany
    obtain ⟨j, hj⟩ := List.mem_iff_getElem?.mp hmem
    exact ⟨j, item, hj, hfailed⟩
  · cases hstep

/-- The first failing item is not cancelled by a step unless another has failed before it. -/
theorem Guarded.step (h : Guarded given first s) (hobeys : Obeys given act)
    (hfailed : ∀ k : ℕ, s.items[k]? = some (.ended (given k)) → Fails given k → s.items[first]? =
      some (.ended (given first)))
    (hstep : step uuid5 bound inputs context sequences limit s act = some s') :
    Guarded given first s' := by
  refine ⟨h.ends.step hobeys hstep, fun hcancelled => ?_⟩
  rcases step_cases hstep with ⟨j, -, hitem, hitems, -⟩ | ⟨j, ended, -, hitem, hitems, -⟩ |
    ⟨j, rfl, hitem, hitems, -⟩
  · rw [hitems, getElem?_set_eq _ hitem] at hcancelled
    split_ifs at hcancelled
    · cases hcancelled
    · exact h.kept hcancelled
  · rw [hitems, getElem?_set_eq _ hitem] at hcancelled
    split_ifs at hcancelled
    · cases hcancelled
    · exact h.kept hcancelled
  · obtain ⟨k, item, hk, hf⟩ := cancel_failed hstep
    obtain ⟨rfl, hfails⟩ := h.ends.of_failed hk hf
    have hended := hfailed k hk hfails
    obtain ⟨old, hold, hnot⟩ : ∃ old, s.items[j]? = some old ∧ old ≠ Item.ended (given first) := by
      rcases hitem with hitem | hitem <;> exact ⟨_, hitem, by simp⟩
    rw [hitems, getElem?_set_eq _ hold] at hcancelled
    split_ifs at hcancelled with hj
    · subst hj
      rw [hended] at hold
      exact hnot (Option.some.inj hold).symm
    · exact h.kept hcancelled

/-- An item that neither waits nor runs and was not cancelled has ended. -/
theorem EndsGiven.ended (h : EndsGiven given s) (hlt : k < s.items.length)
    (hkept : s.items[k]? ≠ some .cancelled) (hwaits : s.items[k]? ≠ some .waiting)
    (hruns : s.items[k]? ≠ some .running) :
    s.items[k]? = some (.ended (given k)) := by
  have hget := List.getElem?_eq_getElem hlt
  cases hitem : s.items[k] with
  | waiting => exact absurd (hget.trans (congrArg some hitem)) hwaits
  | running => exact absurd (hget.trans (congrArg some hitem)) hruns
  | cancelled => exact absurd (hget.trans (congrArg some hitem)) hkept
  | ended outcome =>
    rw [hitem] at hget
    rw [hget, h k outcome hget]

/-- Once all tasks are over, the first failing item that was not cancelled is named. -/
theorem Guarded.named (h : Guarded given first s) (hfirst : FirstFailure given s.items.length first)
    (hraise : AllRaise given s.items.length) (hover : ∀ item ∈ s.items, item.isOver) :
    result uuid5 bound context sequences s = .error (.itemFailed first) := by
  have hended := h.ends.ended hfirst.lt h.kept
    (fun hwaits => Bool.false_ne_true (hover _ (List.mem_of_getElem? hwaits)))
    (fun hruns => Bool.false_ne_true (hover _ (List.mem_of_getElem? hruns)))
  have hraised : given first = .raised := by
    cases hgiven : given first with
    | raised => rfl
    | notPersisted => exact absurd hgiven (hraise first hfirst.lt)
    | persisted values =>
      have hfails := hfirst.fails
      rw [Fails, hgiven] at hfails
      cases hfails
  rw [hraised] at hended
  refine result_of_raised hended (fun j hj hfailed => ?_) (fun j hother => ?_)
  · exact hfirst.least j hj (h.ends.of_failed hfailed rfl).2
  · have hlt := (List.getElem?_eq_some_iff.mp hother).1
    exact hraise j hlt (h.ends j _ hother).symm

theorem length_step (hstep : step uuid5 bound inputs context sequences limit s act = some s') :
    s'.items.length = s.items.length := by
  rcases step_cases hstep with ⟨k, -, -, hitems, -⟩ | ⟨k, _, -, -, hitems, -⟩ |
    ⟨k, -, -, hitems, -⟩ <;> rw [hitems, List.length_set]

/-- With only one failing item nothing else can have failed. -/
theorem Guarded.step_only (h : Guarded given first s)
    (honly : OnlyFailure given s.items.length first) (hobeys : Obeys given act)
    (hstep : MapExecution.step uuid5 bound inputs context sequences limit s act = some s') :
    Guarded given first s' := by
  refine h.step hobeys (fun k hk hfails => ?_) hstep
  have hfirst := honly k (List.getElem?_eq_some_iff.mp hk).1 hfails
  exact hfirst ▸ hk

/-- One task at a time, in the order of the items: behind the first failing item
nothing has started before that item failed. -/
structure OneByOne (given : Invocations α) (first : ℕ) (s : State α) : Prop where
  guarded : Guarded given first s
  behind : ∀ j : ℕ, first < j → s.items[j]? = some .running ∨
    (∃ outcome, s.items[j]? = some (.ended outcome)) → s.items[first]? = some (.ended (given first))

theorem OneByOne.started (h : OneByOne given first s) (hlt : first < s.items.length)
    (hone : limit = 1) {j : ℕ} (hj : first < j) (hcome : FirstCome s (.start j))
    (hstep : MapExecution.step uuid5 bound inputs context sequences limit s (.start j) = some s') :
    s.items[first]? = some (.ended (given first)) := by
  have hcount : s.items.countP Item.isRunning = 0 := by
    simp only [MapExecution.step] at hstep
    split at hstep
    · split_ifs at hstep with hroom
      omega
    · cases hstep
  exact h.guarded.ends.ended hlt h.guarded.kept (hcome first hj)
    (fun hruns => List.countP_eq_zero.mp hcount _ (List.mem_of_getElem? hruns) rfl)

/-- A task that has ended stays so. -/
theorem ended_kept
    (hstep : MapExecution.step uuid5 bound inputs context sequences limit s act = some s')
    {outcome : Outcome α} (hended : s.items[k]? = some (.ended outcome)) :
    s'.items[k]? = some (.ended outcome) := by
  have hset : ∀ (j : ℕ) (new : Item α),
      (s.items[j]? = some .waiting ∨ s.items[j]? = some .running) →
      (s.items.set j new)[k]? = some (.ended outcome) := by
    intro j new hj
    obtain ⟨old, hold, hnot⟩ : ∃ old, s.items[j]? = some old ∧ old ≠ Item.ended outcome := by
      rcases hj with hj | hj <;> exact ⟨_, hj, by simp⟩
    rw [getElem?_set_eq _ hold]
    split_ifs with hkj
    · subst hkj
      exact absurd (Option.some.inj (hold.symm.trans hended)) hnot
    · exact hended
  rcases step_cases hstep with ⟨j, -, hitem, hitems, -⟩ | ⟨j, ended, -, hitem, hitems, -⟩ |
    ⟨j, -, hitem, hitems, -⟩
  · exact hitems ▸ hset j _ (Or.inl hitem)
  · exact hitems ▸ hset j _ (Or.inr hitem)
  · exact hitems ▸ hset j _ hitem

theorem OneByOne.step (h : OneByOne given first s)
    (hfirst : FirstFailure given s.items.length first) (hone : limit = 1) (hcome : FirstCome s act)
    (hobeys : Obeys given act)
    (hstep : MapExecution.step uuid5 bound inputs context sequences limit s act = some s') :
    OneByOne given first s' := by
  have hguarded : Guarded given first s' := by
    refine h.guarded.step hobeys (fun k hk hfails => ?_) hstep
    rcases Nat.lt_trichotomy k first with hlt | rfl | hgt
    · exact absurd hfails (hfirst.least k hlt)
    · exact hk
    · exact h.behind k hgt (Or.inr ⟨_, hk⟩)
  refine ⟨hguarded, fun j hj hmoved => ended_kept hstep ?_⟩
  rcases step_cases hstep with ⟨k, rfl, hitem, hitems, -⟩ | ⟨k, outcome, -, hitem, hitems, -⟩ |
    ⟨k, -, hitem, hitems, -⟩
  · rw [hitems, getElem?_set_eq _ hitem] at hmoved
    split_ifs at hmoved with hjk
    · exact h.started hfirst.lt hone (hjk ▸ hj) hcome hstep
    · exact h.behind j hj hmoved
  · rw [hitems, getElem?_set_eq _ hitem] at hmoved
    split_ifs at hmoved with hjk
    · exact h.behind k (hjk ▸ hj) (Or.inl hitem)
    · exact h.behind j hj hmoved
  · obtain ⟨old, hold⟩ : ∃ old, s.items[k]? = some old := by
      rcases hitem with hitem | hitem <;> exact ⟨_, hitem⟩
    rw [hitems, getElem?_set_eq _ hold] at hmoved
    split_ifs at hmoved with hjk
    · simp at hmoved
    · exact h.behind j hj hmoved

theorem initial_items (k : ℕ) (item : Item α)
    (h : (initial sequences : State α).items[k]? = some item) : item = .waiting := by
  simp only [initial, List.getElem?_replicate] at h
  split_ifs at h
  exact (Option.some.inj h).symm

theorem Guarded.initial (given : Invocations α) (first : ℕ) :
    Guarded given first (MapExecution.initial sequences : State α) := by
  refine ⟨fun k outcome hk => ?_, fun hcancelled => ?_⟩
  · cases initial_items k _ hk
  · cases initial_items first _ hcancelled

theorem OneByOne.initial (given : Invocations α) (first : ℕ) :
    OneByOne given first (MapExecution.initial sequences : State α) := by
  refine ⟨Guarded.initial given first, fun j _ hmoved => ?_⟩
  rcases hmoved with hrunning | ⟨outcome, hended⟩
  · cases initial_items j _ hrunning
  · cases initial_items j _ hended

end Named

variable {k : ℕ}

section Schedule

variable {α : Type} {inputs : Dict String (Value α)} {sequences : Dict String ArtifactRefSequence}
  {given : Invocations α} {meets : State α → Act α → Prop} {f : ℕ → Item α} {s : State α} {j : ℕ}
  {held : ℕ} {item : Item α} {n : ℕ}

/-- The tasks of a state, each by its index. -/
def Shows (sequences : Dict String ArtifactRefSequence) (f : ℕ → Item α) (s : State α) : Prop :=
  s.items = (List.range (itemCount sequences)).map f

theorem Shows.get (h : Shows sequences f s) (hk : k < itemCount sequences) :
    s.items[k]? = some (f k) := by
  rw [h, List.getElem?_map, List.getElem?_range hk]
  rfl

theorem Shows.set {s' : State α} (h : Shows sequences f s) {item : Item α}
    (hitems : s'.items = s.items.set k item) : Shows sequences (Function.update f k item) s' := by
  rw [Shows, hitems, h]
  refine List.ext_getElem? fun j => ?_
  rw [List.getElem?_set, List.getElem?_map, List.getElem?_map, List.length_map, List.length_range]
  rcases Nat.lt_or_ge j (itemCount sequences) with hj | hj
  · rw [List.getElem?_range hj, Option.map_some, Option.map_some]
    by_cases hkj : k = j
    · subst hkj
      rw [if_pos rfl, if_pos hj, Function.update_self]
    · rw [if_neg hkj, Function.update_of_ne (Ne.symm hkj)]
  · have hnone : (List.range (itemCount sequences))[j]? = none :=
      List.getElem?_eq_none (by rwa [List.length_range])
    rw [hnone, Option.map_none, Option.map_none]
    split_ifs with hkj hk
    · omega
    · rfl
    · rfl

theorem Shows.congr {g : ℕ → Item α} (h : Shows sequences f s)
    (hfg : ∀ i < itemCount sequences, f i = g i) : Shows sequences g s := by
  rw [Shows, h]
  exact List.map_congr_left fun i hi => hfg i (List.mem_range.mp hi)

theorem shows_initial : Shows sequences (fun _ => .waiting) (initial sequences : State α) := by
  rw [Shows, initial, List.map_const', List.length_range]

theorem Shows.start (h : Shows sequences f s) (hk : k < itemCount sequences)
    (hwaits : f k = .waiting)
    (hroom : (List.range (itemCount sequences)).countP (fun j => (f j).isRunning) < limit) :
    ∃ s', step uuid5 bound inputs context sequences limit s (.start k) = some s' ∧
      Shows sequences (Function.update f k .running) s' := by
  have hitem := h.get hk
  have hcount : s.items.countP Item.isRunning < limit := by
    rw [h, List.countP_map]
    exact hroom
  rw [hwaits] at hitem
  have hstep : ∃ s', step uuid5 bound inputs context sequences limit s (.start k) = some s' ∧
      s'.items = s.items.set k .running := by
    simp [step, hitem, hcount]
  obtain ⟨s', hs', hitems⟩ := hstep
  exact ⟨s', hs', h.set hitems⟩

theorem Shows.finish (h : Shows sequences f s) (hk : k < itemCount sequences)
    (hruns : f k = .running) (outcome : Outcome α) :
    ∃ s', step uuid5 bound inputs context sequences limit s (.finish k outcome) = some s' ∧
      Shows sequences (Function.update f k (.ended outcome)) s' := by
  have hitem := h.get hk
  rw [hruns] at hitem
  have hstep : ∃ s', step uuid5 bound inputs context sequences limit s (.finish k outcome) =
      some s' ∧ s'.items = s.items.set k (.ended outcome) := by
    simp [step, hitem]
  obtain ⟨s', hs', hitems⟩ := hstep
  exact ⟨s', hs', h.set hitems⟩

theorem Shows.cancel (h : Shows sequences f s) (hj : j < itemCount sequences)
    (hfailed : (f j).isFailed) (hk : k < itemCount sequences) (hover : (f k).isOver = false) :
    ∃ s', step uuid5 bound inputs context sequences limit s (.cancel k) = some s' ∧
      Shows sequences (Function.update f k .cancelled) s' := by
  have hany : s.items.any Item.isFailed = true := by
    exact List.any_eq_true.mpr ⟨_, List.mem_of_getElem? (h.get hj), hfailed⟩
  have hitem := h.get hk
  have hstep : ∃ s', step uuid5 bound inputs context sequences limit s (.cancel k) = some s' ∧
      s'.items = s.items.set k .cancelled := by
    cases hat : f k with
    | waiting | running =>
      rw [hat] at hitem
      simp [step, hany, hitem]
    | ended | cancelled =>
      rw [hat] at hover
      cases hover
  obtain ⟨s', hs', hitems⟩ := hstep
  exact ⟨s', hs', h.set hitems⟩

/-- Everything that is not over is cancelled. -/
def stopped (f : ℕ → Item α) (j : ℕ) : Item α := if (f j).isOver then f j else .cancelled

theorem stopped_isOver (f : ℕ → Item α) (j : ℕ) : (stopped f j).isOver := by
  unfold stopped
  split_ifs with hover
  · exact hover
  · rfl

theorem isOver_of_isFailed (h : item.isFailed) : item.isOver := by
  cases item with
  | ended outcome => rfl
  | waiting | running | cancelled => cases h

/-- Once a task has failed, the group can cancel all that are not over. -/
theorem exists_stopped (hmeets : ∀ s k, meets s (.cancel k))
    (hs : Reachable (step uuid5 bound inputs context sequences limit) meets (initial sequences) s)
    (h : Shows sequences f s) (hj : j < itemCount sequences) (hfailed : (f j).isFailed) :
    ∃ s', Reachable (step uuid5 bound inputs context sequences limit) meets (initial sequences) s' ∧
      Shows sequences (stopped f) s' := by
  have hupto : ∀ n ≤ itemCount sequences, ∃ s',
      Reachable (step uuid5 bound inputs context sequences limit) meets (initial sequences) s' ∧
      Shows sequences (fun i => if i < n then stopped f i else f i) s' := by
    intro n
    induction n with
    | zero => exact fun _ => ⟨s, hs, h⟩
    | succ n ih =>
      intro hn
      obtain ⟨s', hs', hshows⟩ := ih (by omega)
      cases hover : (f n).isOver with
      | true =>
        refine ⟨s', hs', hshows.congr fun i _ => ?_⟩
        rcases Nat.lt_trichotomy i n with hi | rfl | hi
        · rw [if_pos hi, if_pos (by omega)]
        · rw [if_neg (by omega), if_pos (by omega), stopped, if_pos hover]
        · rw [if_neg (by omega), if_neg (by omega)]
      | false =>
        have hfailed' : (if j < n then stopped f j else f j).isFailed := by
          split_ifs
          · rwa [stopped, if_pos (isOver_of_isFailed hfailed)]
          · exact hfailed
        have hnot : (if n < n then stopped f n else f n).isOver = false := by
          rw [if_neg (Nat.lt_irrefl n)]
          exact hover
        obtain ⟨t, ht, hnext⟩ := hshows.cancel hj hfailed' hn hnot
        refine ⟨t, hs'.next (hmeets s' n) ht, hnext.congr fun i _ => ?_⟩
        rcases Nat.lt_trichotomy i n with hi | rfl | hi
        · rw [Function.update_of_ne (Nat.ne_of_lt hi), if_pos hi, if_pos (by omega)]
        · rw [Function.update_self, if_pos (by omega), stopped, hover]
          rfl
        · rw [Function.update_of_ne (Nat.ne_of_gt hi), if_neg (by omega), if_neg (by omega)]
  obtain ⟨s', hs', hshows⟩ := hupto _ le_rfl
  exact ⟨s', hs', hshows.congr fun i hi => if_pos hi⟩

/-- The tasks before `n` have ended, but for one that is held up. -/
def heldUp (given : Invocations α) (held n j : ℕ) : Item α :=
  if j < n then if j = held then .running else .ended (given j) else .waiting

theorem heldUp_of_lt (given : Invocations α) (hlt : j < n) (hne : j ≠ held) :
    heldUp given held n j = .ended (given j) := by
  rw [heldUp, if_pos hlt, if_neg hne]

theorem heldUp_succ (hne : j ≠ n) : heldUp given held n j = heldUp given held (n + 1) j := by
  unfold heldUp
  by_cases hlt : j < n
  · rw [if_pos hlt, if_pos (Nat.lt_succ_of_lt hlt)]
  · rw [if_neg hlt, if_neg (fun hj : j < n + 1 => hne (by omega))]

theorem countP_heldUp (given : Invocations α) (held n count : ℕ) :
    (List.range count).countP (fun j => (heldUp given held n j).isRunning) ≤
      (List.range n).count held := by
  by_cases hlt : held < n
  · have hone : (List.range count).count held ≤ 1 :=
      List.nodup_iff_count_le_one.mp List.nodup_range held
    have hmem : 0 < (List.range n).count held := List.count_pos_iff.mpr (List.mem_range.mpr hlt)
    refine le_trans (List.countP_mono_left fun j _ hruns => ?_) (le_trans hone hmem)
    unfold heldUp at hruns
    split_ifs at hruns with hj hheld
    · simpa using hheld
    · cases hruns
    · cases hruns
  · refine le_of_eq_of_le (List.countP_eq_zero.mpr fun j _ hruns => ?_) (Nat.zero_le _)
    unfold heldUp at hruns
    split_ifs at hruns with hj hheld
    · exact hlt (hheld ▸ hj)
    · cases hruns
    · cases hruns

/-- While one task is held up, the others get through in the order of the items. -/
theorem exists_heldUp (given : Invocations α) (hlimit : 1 ≤ limit)
    (htwo : held < itemCount sequences → 2 ≤ limit) : ∀ n ≤ itemCount sequences, ∃ s,
    Reachable (step uuid5 bound inputs context sequences limit)
      (fun s act => FirstCome s act ∧ Obeys given act) (initial sequences) s ∧
    Shows sequences (heldUp given held n) s := by
  intro n
  induction n with
  | zero => exact fun _ => ⟨_, .start, shows_initial⟩
  | succ n ih =>
    intro hn
    obtain ⟨s, hs, hshows⟩ := ih (by omega)
    have hwaits : heldUp given held n n = .waiting := if_neg (Nat.lt_irrefl n)
    have hroom : (List.range (itemCount sequences)).countP
        (fun j => (heldUp given held n j).isRunning) < limit := by
      refine lt_of_le_of_lt (countP_heldUp given held n _) ?_
      by_cases hlt : held < n
      · have hcount := List.nodup_iff_count_le_one.mp (List.nodup_range (n := n)) held
        have := htwo (by omega)
        omega
      · rw [List.count_eq_zero.mpr (by rwa [List.mem_range])]
        exact hlimit
    have hcome : FirstCome s (.start n) := by
      intro j hj hwaiting
      rw [hshows.get (by omega), heldUp, if_pos hj] at hwaiting
      split_ifs at hwaiting <;> cases hwaiting
    obtain ⟨t, ht, hstarted⟩ := hshows.start hn hwaits hroom
    have hreached := hs.next ⟨hcome, trivial⟩ ht
    by_cases hheld : n = held
    · refine ⟨t, hreached, hstarted.congr fun j _ => ?_⟩
      by_cases hj : j = n
      · subst hj
        rw [Function.update_self, heldUp, if_pos (Nat.lt_succ_self j), if_pos hheld]
      · rw [Function.update_of_ne hj, heldUp_succ hj]
    · obtain ⟨u, hu, hended⟩ := hstarted.finish hn (Function.update_self ..) (given n)
      have hmeets : FirstCome t (.finish n (given n)) ∧ Obeys given (.finish n (given n)) :=
        ⟨trivial, rfl⟩
      refine ⟨u, hreached.next hmeets hu, hended.congr fun j _ => ?_⟩
      by_cases hj : j = n
      · subst hj
        rw [Function.update_self, heldUp_of_lt given (Nat.lt_succ_self j) hheld]
      · rw [Function.update_of_ne hj, Function.update_of_ne hj, heldUp_succ hj]

end Schedule

section Blame

variable {α : Type} {uuid5 : String → String} {bound : BoundNode} {inputs : Dict String (Value α)}
  {context : Context} {sequences : Dict String ArtifactRefSequence} {limit : ℕ}
  {given : Invocations α} {meets : State α → Act α → Prop} {first : ℕ} {f : ℕ → Item α}
  {s : State α}

/-- Whatever the schedule, a computation whose tasks are over names the item. -/
def Names (uuid5 : String → String) (bound : BoundNode) (inputs : Dict String (Value α))
    (context : Context) (sequences : Dict String ArtifactRefSequence) (limit : ℕ)
    (meets : State α → Act α → Prop) (first : ℕ) : Prop :=
  ∀ s, Reachable (step uuid5 bound inputs context sequences limit) meets (initial sequences) s →
    (∀ item ∈ s.items, item.isOver) →
      result uuid5 bound context sequences s = .error (.itemFailed first)

theorem Names.mono {meets' : State α → Act α → Prop} (himp : ∀ s act, meets' s act → meets s act)
    (h : Names uuid5 bound inputs context sequences limit meets first) :
    Names uuid5 bound inputs context sequences limit meets' first :=
  fun s hs => h s (hs.mono himp)

section

variable (hfirst : FirstFailure given (itemCount sequences) first)
  (hraise : AllRaise given (itemCount sequences))
include hfirst hraise

/-- In any order of starts, with one failing item. -/
theorem names_of_only (honly : OnlyFailure given (itemCount sequences) first) :
    Names uuid5 bound inputs context sequences limit (fun _ => Obeys given) first := by
  intro s hs hover
  have hinv : Guarded given first s ∧ s.items.length = itemCount sequences := by
    refine hs.invariant (I := fun s => Guarded given first s ∧
      s.items.length = itemCount sequences) ⟨Guarded.initial given first, List.length_replicate⟩ ?_
    intro s act s' hheld hobeys hstep
    exact ⟨hheld.1.step_only (hheld.2.symm ▸ honly) hobeys hstep, (length_step hstep).trans hheld.2⟩
  obtain ⟨hguarded, hlength⟩ := hinv
  rw [← hlength] at hfirst hraise
  exact hguarded.named hfirst hraise hover

/-- One task at a time in the order of the items. -/
theorem names_of_one (hone : limit = 1) :
    Names uuid5 bound inputs context sequences limit
      (fun s act => FirstCome s act ∧ Obeys given act) first := by
  intro s hs hover
  have hinv : OneByOne given first s ∧ s.items.length = itemCount sequences := by
    refine hs.invariant (I := fun s => OneByOne given first s ∧
      s.items.length = itemCount sequences)
      ⟨OneByOne.initial given first, List.length_replicate⟩ ?_
    intro s act s' hheld hmeets hstep
    exact ⟨hheld.1.step (hheld.2.symm ▸ hfirst) hone hmeets.1 hmeets.2 hstep,
      (length_step hstep).trans hheld.2⟩
  obtain ⟨hinv, hlength⟩ := hinv
  rw [← hlength] at hfirst hraise
  exact hinv.guarded.named hfirst hraise hover

end

section

variable (hcancels : ∀ s k, meets s (.cancel k))
  (hs : Reachable (step uuid5 bound inputs context sequences limit) meets (initial sequences) s)
  (hshows : Shows sequences f s) (hk : k < itemCount sequences)
include hcancels hs hshows hk

/-- Once an item has failed, the group can come to its end without another one. -/
theorem exists_over (hfailed : (f k).isFailed) :
    ∃ t, Reachable (step uuid5 bound inputs context sequences limit) meets (initial sequences) t ∧
      (∀ item ∈ t.items, item.isOver) ∧ Shows sequences (stopped f) t := by
  obtain ⟨t, ht, hstopped⟩ := exists_stopped hcancels hs hshows hk hfailed
  refine ⟨t, ht, fun item hitem => ?_, hstopped⟩
  rw [hstopped] at hitem
  obtain ⟨j, -, rfl⟩ := List.mem_map.mp hitem
  exact stopped_isOver f j

/-- A schedule in which another item fails alone names that item. -/
theorem not_names_of_alone (hfailed : (f k).isFailed)
    (halone : ∀ j < itemCount sequences, (f j).isFailed → j = k) (hne : k ≠ first) :
    ¬ Names uuid5 bound inputs context sequences limit meets first := by
  intro hnames
  obtain ⟨t, ht, hover, hstopped⟩ := exists_over hcancels hs hshows hk hfailed
  have honly : ∀ (j : ℕ) (item : Item α), t.items[j]? = some item → item.isFailed → j = k := by
    intro j item hitem hj
    have hlt : j < itemCount sequences := by
      have := (List.getElem?_eq_some_iff.mp hitem).1
      rwa [hstopped, List.length_map, List.length_range] at this
    rw [hstopped.get hlt] at hitem
    cases hitem
    unfold stopped at hj
    split_ifs at hj
    · exact halone j hlt hj
    · cases hj
  have hitem : t.items[k]? = some (f k) := by
    rw [hstopped.get hk, stopped, if_pos (isOver_of_isFailed hfailed)]
  cases hat : f k with
  | waiting | running | cancelled =>
    rw [hat] at hfailed
    cases hfailed
  | ended outcome =>
    rw [hat] at hitem hfailed
    cases outcome with
    | persisted values => cases hfailed
    | notPersisted => exact result_ne_itemFailed hitem first (hnames t ht hover)
    | raised =>
      have hresult : result uuid5 bound context sequences t = .error (.itemFailed k) := by
        refine result_of_raised hitem (fun j hj hcollected => ?_) (fun j hother => ?_)
        · exact absurd (honly j _ hcollected rfl) (Nat.ne_of_lt hj)
        · obtain rfl := honly j _ hother rfl
          rw [hitem] at hother
          simp at hother
      rw [hnames t ht hover] at hresult
      exact hne (MapError.itemFailed.inj (Except.error.inj hresult)).symm

/-- A schedule in which a result was not persisted names no item. -/
theorem not_names_of_notPersisted (hother : f k = .ended .notPersisted) :
    ¬ Names uuid5 bound inputs context sequences limit meets first := by
  intro hnames
  have hfailed : (f k).isFailed := by
    rw [hother]
    rfl
  obtain ⟨t, ht, hover, hstopped⟩ := exists_over hcancels hs hshows hk hfailed
  have hitem : t.items[k]? = some (.ended .notPersisted) := by
    rw [hstopped.get hk, stopped, hother]
    rfl
  exact result_ne_itemFailed hitem first (hnames t ht hover)

end

/-- All tasks can end one after the other. -/
theorem exists_ended (given : Invocations α) (hlimit : 1 ≤ limit) : ∃ s,
    Reachable (step uuid5 bound inputs context sequences limit)
      (fun s act => FirstCome s act ∧ Obeys given act) (initial sequences) s ∧
    Shows sequences (fun j => .ended (given j)) s := by
  obtain ⟨s, hs, hshows⟩ := exists_heldUp given hlimit
    (fun hlt => absurd hlt (Nat.lt_irrefl (itemCount sequences))) _ le_rfl
  exact ⟨s, hs, hshows.congr fun j hj => heldUp_of_lt given hj (Nat.ne_of_lt hj)⟩

theorem allRaise_of_names (hlimit : 1 ≤ limit)
    (hnames : Names uuid5 bound inputs context sequences limit
      (fun s act => FirstCome s act ∧ Obeys given act) first) :
    AllRaise given (itemCount sequences) := by
  intro k hk hother
  obtain ⟨s, hs, hshows⟩ := exists_ended given hlimit
  exact not_names_of_notPersisted (fun _ _ => ⟨trivial, trivial⟩) hs hshows hk
    (congrArg Item.ended hother) hnames

/-- With room for two, the first failing item is held up until the next one has failed. -/
theorem only_of_names (hlimit : 2 ≤ limit)
    (hfirst : FirstFailure given (itemCount sequences) first)
    (hnames : Names uuid5 bound inputs context sequences limit
      (fun s act => FirstCome s act ∧ Obeys given act) first) :
    OnlyFailure given (itemCount sequences) first := by
  classical
  by_contra honly
  have hother : ∃ k, k < itemCount sequences ∧ Fails given k ∧ k ≠ first := by
    simpa only [OnlyFailure, not_forall, exists_prop] using honly
  obtain ⟨hk, hfails, hne⟩ := Nat.find_spec hother
  have hafter : first < Nat.find hother :=
    lt_of_le_of_ne (not_lt.mp fun hlt => hfirst.least _ hlt hfails) hne.symm
  obtain ⟨s, hs, hshows⟩ := exists_heldUp given (by omega)
    (fun _ : first < itemCount sequences => hlimit) (Nat.find hother + 1) hk
  have hended := heldUp_of_lt given (Nat.lt_succ_self _) hne
  refine not_names_of_alone (fun _ _ => ⟨trivial, trivial⟩) hs hshows hk (hended ▸ hfails) ?_ hne
    hnames
  intro j hj hfailed
  unfold heldUp at hfailed
  split_ifs at hfailed with hlt hheld
  · cases hfailed
  · by_contra hjk
    exact Nat.find_min hother (by omega) ⟨hj, hfailed, hheld⟩
  · cases hfailed

/-- In any order of starts another failing item can be the first to run. -/
theorem only_of_names_any (hlimit : 1 ≤ limit)
    (hnames : Names uuid5 bound inputs context sequences limit (fun _ => Obeys given) first) :
    OnlyFailure given (itemCount sequences) first := by
  intro k hk hfails
  by_contra hne
  have hroom : (List.range (itemCount sequences)).countP
      (fun _ => (Item.waiting : Item α).isRunning) < limit := by
    refine lt_of_eq_of_lt (List.countP_eq_zero.mpr fun _ _ hruns => ?_) hlimit
    cases hruns
  obtain ⟨s, hs, hstarted⟩ := (shows_initial (α := α)).start hk rfl hroom
  obtain ⟨t, ht, hended⟩ := hstarted.finish hk (Function.update_self ..) (given k)
  have hobeys : Obeys given (.finish k (given k)) := rfl
  have hreached : Reachable (step uuid5 bound inputs context sequences limit)
      (fun _ => Obeys given) (initial sequences) t :=
    (Reachable.start.next trivial hs).next hobeys ht
  refine not_names_of_alone (fun _ _ => trivial) hreached hended hk ?_ ?_ hne hnames
  · rw [Function.update_self]
    exact hfails
  · intro j _ hfailed
    by_contra hjk
    rw [Function.update_of_ne hjk, Function.update_of_ne hjk] at hfailed
    cases hfailed

/-- The first failing item is the one named, whatever the timing, exactly when every
failure is an exception of the invocation and either only one item fails or the tasks
run one at a time in the order of the items. -/
theorem named_first_iff (hlimit : 1 ≤ limit)
    (hfirst : FirstFailure given (itemCount sequences) first) :
    (Names uuid5 bound inputs context sequences limit
        (fun s act => FirstCome s act ∧ Obeys given act) first ↔
      AllRaise given (itemCount sequences) ∧
        (limit = 1 ∨ OnlyFailure given (itemCount sequences) first)) ∧
      (Names uuid5 bound inputs context sequences limit (fun _ => Obeys given) first ↔
        AllRaise given (itemCount sequences) ∧ OnlyFailure given (itemCount sequences) first) := by
  refine ⟨⟨fun hnames => ?_, fun hcond => ?_⟩, ⟨fun hnames => ?_, fun hcond => ?_⟩⟩
  · refine ⟨allRaise_of_names hlimit hnames, ?_⟩
    rcases Nat.eq_or_lt_of_le hlimit with hone | htwo
    · exact Or.inl hone.symm
    · exact Or.inr (only_of_names htwo hfirst hnames)
  · obtain ⟨hraise, hone | honly⟩ := hcond
    · exact names_of_one hfirst hraise hone
    · exact (names_of_only hfirst hraise honly).mono fun _ _ hmeets => hmeets.2
  · exact ⟨allRaise_of_names hlimit (hnames.mono fun _ _ hmeets => hmeets.2),
      only_of_names_any hlimit hnames⟩
  · exact names_of_only hfirst hcond.1 hcond.2

end Blame

/-- Every item fails. -/
def hopeless : Invocations Unit := fun _ => .raised

theorem hopeless_first : FirstFailure hopeless (itemCount pairedSequences) 0 where
  lt := by decide
  fails := rfl
  least := fun k hk => absurd hk (Nat.not_lt_zero k)

theorem hopeless_names_first :
    Names id pairedNode pairedInputs pairedContext pairedSequences 1
      (fun s act => FirstCome s act ∧ Obeys hopeless act) 0 := by
  have hraise : AllRaise hopeless (itemCount pairedSequences) := by
    intro k _ hother
    cases hother
  exact (named_first_iff Nat.one_pos hopeless_first).1.mpr ⟨hraise, Or.inl rfl⟩

def Item.isWaiting : Item Unit → Bool
  | .waiting => true
  | _ => false

/-- Tasks come in order and invocations raise. -/
def passes (s : State Unit) : Act Unit → Bool
  | .start k => (s.items.take k).all (fun item => !item.isWaiting)
  | .finish _ .raised => true
  | .finish _ _ => false
  | .cancel _ => true

theorem passes_meets (s : State Unit) (act : Act Unit) (h : passes s act) :
    FirstCome s act ∧ Obeys hopeless act := by
  cases act with
  | start k =>
    refine ⟨fun j hj hwaiting => ?_, trivial⟩
    have htaken : (s.items.take k)[j]? = some .waiting := by
      rw [List.getElem?_take_of_lt hj, hwaiting]
    exact Bool.false_ne_true (List.all_eq_true.mp h _ (List.mem_of_getElem? htaken))
  | finish k outcome =>
    cases outcome with
    | raised => exact ⟨trivial, rfl⟩
    | persisted | notPersisted => cases h
  | cancel k => exact ⟨trivial, trivial⟩

/-- A run with room for two, started in order. -/
def runOfTwo (acts : List (Act Unit)) : Option (State Unit) :=
  execute (step id pairedNode pairedInputs pairedContext pairedSequences 2) passes
    (initial pairedSequences) acts

/-- With room for two, either item can fail first, and then it is the one named. -/
theorem hopeless_blames_either :
    ∃ s t : State Unit,
      Reachable (step id pairedNode pairedInputs pairedContext pairedSequences 2)
        (fun s act => FirstCome s act ∧ Obeys hopeless act) (initial pairedSequences) s ∧
      (∀ item ∈ s.items, item.isOver) ∧
      result id pairedNode pairedContext pairedSequences s = .error (.itemFailed 0) ∧
      Reachable (step id pairedNode pairedInputs pairedContext pairedSequences 2)
        (fun s act => FirstCome s act ∧ Obeys hopeless act) (initial pairedSequences) t ∧
      (∀ item ∈ t.items, item.isOver) ∧
      result id pairedNode pairedContext pairedSequences t = .error (.itemFailed 1) := by
  have hs : runOfTwo [.start 0, .start 1, .finish 0 .raised, .cancel 1] = some _ := rfl
  have ht : runOfTwo [.start 0, .start 1, .finish 1 .raised, .cancel 0] = some _ := rfl
  refine ⟨_, _, Reachable.of_execute (fun a _ s => passes_meets s a) hs, ?_, rfl,
    Reachable.of_execute (fun a _ s => passes_meets s a) ht, ?_, rfl⟩
  · exact List.all_eq_true.mp rfl
  · exact List.all_eq_true.mp rfl

end Grafy.MapExecution
