import Mathlib.Data.List.Basic

/-!
Transactions under READ COMMITTED isolation. A transaction is a program: it queries
the rows that are committed at that moment, takes row locks it holds to its end, and
commits what it writes as one set, which the constraints of the schema may refuse.
Between any two of its statements other transactions may do the same, or be lost with
everything they have not committed.

A discipline says what a transaction may rely on while it holds its locks, and what its
own commits do. Where every commit of one transaction is something that every other may
rely on, the discipline holds along every run.
-/
namespace Grafy.Transactions

variable {S K A R Op : Type}

/-- The rest of a transaction: its next statement, and how it goes on with what it reads.
A lock is named by the row that is found, and none is taken where no row is. -/
inductive Program (S K A R : Type) : Type
  | query (next : S → Program S K A R)
  | lock (key : S → Option K) (next : S → Program S K A R)
  | commit (writes : A) (next : Bool → Program S K A R)
  | finished (result : Option R)

/-- The operations of a program, what a set of writes does to the rows if the constraints
allow it, and the rows it has to share with whoever holds them. -/
structure Machine (S K A R Op : Type) where
  program : Op → Program S K A R
  write : A → S → Option S
  shares : A → List K

structure Tx (S K A R Op : Type) where
  op : Op
  held : List K
  program : Program S K A R

structure State (S K A R Op : Type) where
  store : S
  txs : List (Tx S K A R Op)

inductive Act (Op : Type)
  | start (op : Op)
  | go (tx : ℕ)
  | lose (tx : ℕ)

/-- A transaction that is over holds nothing. -/
def Tx.settled (tx : Tx S K A R Op) : Tx S K A R Op :=
  match tx.program with
  | .finished _ => { tx with held := [] }
  | _ => tx

@[simp] theorem Tx.settled_op (tx : Tx S K A R Op) : tx.settled.op = tx.op := by
  unfold settled
  split <;> rfl

@[simp] theorem Tx.settled_program (tx : Tx S K A R Op) : tx.settled.program = tx.program := by
  unfold settled
  split <;> rfl

theorem Tx.settled_held_subset (tx : Tx S K A R Op) : tx.settled.held ⊆ tx.held := by
  unfold settled
  split
  · exact List.nil_subset _
  · exact List.Subset.refl _

theorem Tx.settled_settled (tx : Tx S K A R Op) : tx.settled.settled = tx.settled := by
  obtain ⟨op, held, program⟩ := tx
  cases program <;> rfl

/-- What a transaction that is over has answered. -/
def Tx.answer (tx : Tx S K A R Op) : Option R :=
  match tx.program with
  | .finished result => result
  | _ => none

variable {tx : Tx S K A R Op} {result : R}

theorem Tx.program_of_answer (h : tx.answer = some result) :
    tx.program = .finished (some result) := by
  unfold answer at h
  split at h
  · next hprogram => rw [hprogram, h]
  · cases h

theorem Tx.held_of_over (h : tx.settled = tx) {result : Option R}
    (hover : tx.program = .finished result) : tx.held = [] := by
  rw [← h]
  unfold settled
  rw [hover]

/-- What the transactions of a machine may rely on: what holds of the committed rows, what
others leave alone while one holds some rows, what a commit does, and what an answer says. -/
structure Discipline (m : Machine S K A R Op) where
  holds : S → Prop
  rely : List K → S → S → Prop
  guarantee : Op → List K → A → S → S → Prop
  answers : Op → R → S → Prop
  refl : ∀ held s, rely held s s
  trans : ∀ held s s' s'', rely held s s' → rely held s' s'' → rely held s s''
  keeps : ∀ op held writes s s', holds s → guarantee op held writes s s' → holds s'
  compatible : ∀ op other held writes s s', holds s → guarantee op other writes s s' →
    (∀ k ∈ held, k ∉ other ∧ k ∉ m.shares writes) → rely held s s'
  stable : ∀ op result s s', rely [] s s' → answers op result s → answers op result s'

variable {s : State S K A R Op}

namespace Discipline

variable {m : Machine S K A R Op} (d : Discipline m) {tx : Tx S K A R Op} {store : S} {op : Op}

/-- A program that keeps the discipline from here on, whatever others do that it may rely
on: its commits do what they should, and its answers are right. -/
def Sound (op : Op) : Program S K A R → List K → S → Prop
  | .query next, held, s => ∀ s', d.rely held s s' → d.holds s' → Sound op (next s') held s'
  | .lock key next, held, s => ∀ s', d.rely held s s' → d.holds s' →
      Sound op (next s') ((key s').toList ++ held) s'
  | .commit writes next, held, s => ∀ s', d.rely held s s' → d.holds s' →
      match m.write writes s' with
      | some s'' => d.guarantee op held writes s' s'' ∧ Sound op (next true) [] s''
      | none => Sound op (next false) [] s'
  | .finished result, _, s => ∀ r, result = some r → d.answers op r s

theorem Sound.rely {program : Program S K A R} {held : List K} {s s' : S}
    (h : d.Sound op program held s) (hrely : d.rely held s s')
    (hover : ∀ result, program = .finished result → held = []) : d.Sound op program held s' := by
  cases program with
  | query next | lock key next | commit writes next =>
    intro t ht hholds
    exact h t (d.trans held s s' t hrely ht) hholds
  | finished result =>
    intro r hr
    rw [hover result rfl] at hrely
    exact d.stable op r s s' hrely (h r hr)

theorem Sound.settled (h : d.Sound op tx.program tx.held store) :
    d.Sound op tx.settled.program tx.settled.held store := by
  obtain ⟨txop, held, program⟩ := tx
  cases program <;> exact h

/-- Every transaction keeps the discipline, holds nothing when it is over, and no two hold
the same row. -/
structure Disciplined (s : State S K A R Op) : Prop where
  holds : d.holds s.store
  sound : ∀ (i : ℕ) (tx : Tx S K A R Op), s.txs[i]? = some tx →
    d.Sound tx.op tx.program tx.held s.store
  settled : ∀ (i : ℕ) (tx : Tx S K A R Op), s.txs[i]? = some tx → tx.settled = tx
  apart : ∀ (i j : ℕ) (tx other : Tx S K A R Op), s.txs[i]? = some tx →
    s.txs[j]? = some other → i ≠ j → ∀ k ∈ tx.held, k ∉ other.held

variable {d} {i : ℕ}

/-- One transaction goes on; the others find the rows as they were, or changed in a way they
may rely on. -/
theorem Disciplined.become (h : d.Disciplined s) {next : Tx S K A R Op} (htx : s.txs[i]? = some tx)
    (hholds : d.holds store) (hsound : d.Sound next.op next.program next.held store)
    (hheld : ∀ k ∈ next.held, ∀ (j : ℕ) (other : Tx S K A R Op), s.txs[j]? = some other → j ≠ i → k
      ∉ other.held)
    (hothers : ∀ (j : ℕ) (other : Tx S K A R Op), s.txs[j]? = some other → j ≠ i → d.rely other.held
      s.store store) :
    d.Disciplined ⟨store, s.txs.set i next.settled⟩ := by
  have hi := (List.getElem?_eq_some_iff.mp htx).1
  have hcases : ∀ (j : ℕ) (found : Tx S K A R Op), (s.txs.set i next.settled)[j]? = some found →
      j = i ∧ found = next.settled ∨ j ≠ i ∧ s.txs[j]? = some found := by
    intro j found hfound
    by_cases hji : j = i
    · subst hji
      rw [List.getElem?_set_self hi] at hfound
      exact Or.inl ⟨rfl, (Option.some.inj hfound).symm⟩
    · rw [List.getElem?_set_ne (Ne.symm hji)] at hfound
      exact Or.inr ⟨hji, hfound⟩
  refine ⟨hholds, ?_, ?_, ?_⟩
  · intro j found hfound
    rcases hcases j found hfound with ⟨_, rfl⟩ | ⟨hji, hfound⟩
    · rw [Tx.settled_op]
      exact hsound.settled d
    · refine (h.sound j found hfound).rely d (hothers j found hfound hji) ?_
      intro result hover
      exact Tx.held_of_over (h.settled j found hfound) hover
  · intro j found hfound
    rcases hcases j found hfound with ⟨_, rfl⟩ | ⟨_, hfound⟩
    · exact next.settled_settled
    · exact h.settled j found hfound
  · intro j l one two hone htwo hne k hk
    rcases hcases j one hone with ⟨rfl, rfl⟩ | ⟨hj, hold⟩
    · rcases hcases l two htwo with ⟨rfl, _⟩ | ⟨hl, htwo⟩
      · exact absurd rfl hne
      · exact hheld k (next.settled_held_subset hk) l two htwo hl
    · rcases hcases l two htwo with ⟨rfl, rfl⟩ | ⟨_, htwo⟩
      · intro hmem
        exact hheld k (next.settled_held_subset hmem) j one hold hj hk
      · exact h.apart j l one two hold htwo hne k hk

theorem disciplined_start (hholds : d.holds store) :
    d.Disciplined (⟨store, []⟩ : State S K A R Op) := by
  refine ⟨hholds, ?_, ?_, ?_⟩
  · intro i tx htx
    cases htx
  · intro i tx htx
    cases htx
  · intro i j tx other htx
    cases htx

/-- An answer a transaction has given is right in the state reached. -/
theorem Disciplined.answer (h : d.Disciplined s) (htx : s.txs[i]? = some tx)
    (hover : tx.program = .finished (some result)) : d.answers tx.op result s.store := by
  have hsound := h.sound i tx htx
  rw [hover] at hsound
  exact hsound result rfl

end Discipline

variable [DecidableEq K] {meets : Op → A → S → Prop} {i : ℕ}

/-- No other transaction holds the row. -/
def State.free (s : State S K A R Op) (i : ℕ) (key : K) : Bool :=
  (List.range s.txs.length).all (fun j => j = i || (s.txs[j]?).all (fun tx => key ∉ tx.held))

namespace Machine

variable (m : Machine S K A R Op)

/-- The next statement of a transaction. A row that another one holds is waited for. -/
def goTx (s : State S K A R Op) (i : ℕ) (tx : Tx S K A R Op) : Option (State S K A R Op) :=
  let become (next : Tx S K A R Op) : State S K A R Op := { s with txs := s.txs.set i next.settled }
  match tx.program with
  | .query next => some (become { tx with program := next s.store })
  | .lock key next =>
    match key s.store with
    | none => some (become { tx with program := next s.store })
    | some k =>
      if s.free i k then
        some (become { tx with held := k :: tx.held, program := next s.store })
      else none
  | .commit writes next =>
    if (m.shares writes).all (s.free i) then
      match m.write writes s.store with
      | some store => some { become { tx with held := [], program := next true } with store }
      | none => some (become { tx with held := [], program := next false })
    else none
  | .finished _ => none

def step (s : State S K A R Op) : Act Op → Option (State S K A R Op)
  | .start op => some { s with txs := s.txs ++ [(⟨op, [], m.program op⟩ : Tx S K A R Op).settled] }
  | .go i => (s.txs[i]?).bind (m.goTx s i)
  | .lose i => (s.txs[i]?).map (fun tx =>
      { s with txs := s.txs.set i { tx with held := [], program := .finished none } })

/-- What an act commits: the operation and its writes, if the constraints allow them. -/
def commits (s : State S K A R Op) : Act Op → Option (Op × A)
  | .go i =>
    match s.txs[i]? with
    | some ⟨op, _, .commit writes _⟩ =>
      if (m.write writes s.store).isSome then some (op, writes) else none
    | _ => none
  | _ => none

/-- The states that a run reaches whose commits all meet a condition on the rows before. -/
inductive Reached (meets : Op → A → S → Prop) (start : State S K A R Op) :
    State S K A R Op → Prop
  | refl : Reached meets start start
  | step {s s' act} : Reached meets start s → m.step s act = some s' →
      (∀ op writes, m.commits s act = some (op, writes) → meets op writes s.store) →
      Reached meets start s'

/-- The state that given acts reach, if each can be taken and every commit meets the
condition. -/
def runIf (meets : Op → A → S → Prop) [∀ op writes s, Decidable (meets op writes s)]
    (s : State S K A R Op) : List (Act Op) → Option (State S K A R Op)
  | [] => some s
  | act :: acts =>
    if (m.commits s act).all (fun committed => meets committed.1 committed.2 s.store) then
      (m.step s act).bind (fun s' => runIf meets s' acts)
    else none

end Machine

variable {m : Machine S K A R Op}

theorem Machine.Reached.trans {a b c : State S K A R Op} (hab : m.Reached meets a b)
    (hbc : m.Reached meets b c) : m.Reached meets a c := by
  induction hbc with
  | refl => exact hab
  | step _ hstep hmeets ih => exact .step ih hstep hmeets

variable {s' : State S K A R Op}

theorem Machine.Reached.mono {meets' : Op → A → S → Prop} (h : m.Reached meets s s')
    (hmeets : ∀ op writes store, meets op writes store → meets' op writes store) :
    m.Reached meets' s s' := by
  induction h with
  | refl => exact .refl
  | step _ hstep hcommits ih =>
    exact .step ih hstep (fun op writes h => hmeets op writes _ (hcommits op writes h))

theorem Machine.reached_of_runIf [∀ op writes s, Decidable (meets op writes s)]
    {acts : List (Act Op)} (h : m.runIf meets s acts = some s') : m.Reached meets s s' := by
  induction acts generalizing s with
  | nil =>
    cases h
    exact .refl
  | cons act acts ih =>
    unfold runIf at h
    split at h
    · next hall =>
      obtain ⟨mid, hstep, hrest⟩ := Option.bind_eq_some_iff.mp h
      refine Reached.trans (.step .refl hstep ?_) (ih hrest)
      intro op writes hcommits
      rw [hcommits] at hall
      simpa using hall
    · cases h

theorem State.free_iff {key : K} :
    s.free i key = true ↔ ∀ (j : ℕ) (tx : Tx S K A R Op), s.txs[j]? = some tx → j ≠ i →
      key ∉ tx.held := by
  unfold free
  rw [List.all_eq_true]
  constructor
  · intro h j tx htx hne
    have hj := (List.getElem?_eq_some_iff.mp htx).1
    have hfree := h j (List.mem_range.mpr hj)
    rw [htx] at hfree
    simpa [hne] using hfree
  · intro h j hj
    have hj := List.mem_range.mp hj
    by_cases hne : j = i
    · simp [hne]
    · have hfree := h j s.txs[j] (List.getElem?_eq_getElem hj) hne
      simp [List.getElem?_eq_getElem hj, hfree]

theorem getElem?_concat {A : Type} {l : List A} {a b : A} (h : (l ++ [a])[i]? = some b) :
    l[i]? = some b ∨ b = a := by
  rw [List.getElem?_append] at h
  split at h
  · exact Or.inl h
  · rw [List.getElem?_singleton] at h
    split at h
    · exact Or.inr (Option.some.inj h).symm
    · cases h

variable {act : Act Op}

namespace Discipline

variable {d : Discipline m}

/-- What a step does to the rows: nothing, or a commit that does what the discipline says. -/
theorem Disciplined.step (h : d.Disciplined s)
    (hprogram : ∀ op store, d.holds store → d.Sound op (m.program op) [] store)
    (hstep : m.step s act = some s') :
    d.Disciplined s' ∧
      ((m.commits s act = none ∧ s'.store = s.store) ∨
        ∃ op held writes, m.commits s act = some (op, writes) ∧
          d.guarantee op held writes s.store s'.store) := by
  cases act with
  | start op =>
    cases hstep
    refine ⟨⟨h.holds, ?_, ?_, ?_⟩, Or.inl ⟨rfl, rfl⟩⟩
    · intro i tx htx
      rcases getElem?_concat htx with htx | rfl
      · exact h.sound i tx htx
      · rw [Tx.settled_op]
        exact Sound.settled d (hprogram op s.store h.holds)
    · intro i tx htx
      rcases getElem?_concat htx with htx | rfl
      · exact h.settled i tx htx
      · exact Tx.settled_settled _
    · intro i j one two hone htwo hne k hk
      rcases getElem?_concat hone with hone | rfl
      · rcases getElem?_concat htwo with htwo | rfl
        · exact h.apart i j one two hone htwo hne k hk
        · intro hmem
          exact absurd (Tx.settled_held_subset _ hmem) (List.not_mem_nil)
      · exact absurd (Tx.settled_held_subset _ hk) (List.not_mem_nil)
  | go i =>
    obtain ⟨tx, htx, hgo⟩ := Option.bind_eq_some_iff.mp hstep
    have hsound := h.sound i tx htx
    have hquiet : ∀ (j : ℕ) (other : Tx S K A R Op), s.txs[j]? = some other → j ≠ i →
        d.rely other.held s.store s.store := fun _ other _ _ => d.refl other.held s.store
    have hapart : ∀ k ∈ tx.held, ∀ (j : ℕ) (other : Tx S K A R Op), s.txs[j]? = some other →
        j ≠ i → k ∉ other.held := fun k hk j other hother hne =>
      h.apart i j tx other htx hother (Ne.symm hne) k hk
    unfold Machine.goTx at hgo
    obtain ⟨op, held, program⟩ := tx
    cases program with
    | query next =>
      cases hgo
      refine ⟨h.become htx h.holds (hsound _ (d.refl held s.store) h.holds) hapart hquiet, ?_⟩
      exact Or.inl ⟨by rw [Machine.commits, htx], rfl⟩
    | lock key next =>
      have hnext := hsound _ (d.refl held s.store) h.holds
      have hcommits : m.commits s (.go i) = none := by rw [Machine.commits, htx]
      simp only at hgo
      split at hgo
      · next hkey =>
        rw [hkey] at hnext
        cases hgo
        exact ⟨h.become htx h.holds hnext hapart hquiet, Or.inl ⟨hcommits, rfl⟩⟩
      · next k hkey =>
        rw [hkey] at hnext
        split at hgo
        · next hfree =>
          cases hgo
          refine ⟨h.become htx h.holds hnext ?_ hquiet, Or.inl ⟨hcommits, rfl⟩⟩
          intro k' hk' j other hother hne
          rcases List.mem_cons.mp hk' with rfl | hk'
          · exact State.free_iff.mp hfree j other hother hne
          · exact hapart k' hk' j other hother hne
        · cases hgo
    | commit writes next =>
      have hcommit := hsound _ (d.refl held s.store) h.holds
      simp only at hgo
      split at hgo
      · next hshares =>
        have hnone : ∀ k ∈ ([] : List K), ∀ (j : ℕ) (other : Tx S K A R Op),
            s.txs[j]? = some other → j ≠ i → k ∉ other.held := fun k hk => nomatch hk
        cases hwrite : m.write writes s.store with
        | some store =>
          rw [hwrite] at hgo hcommit
          obtain ⟨hguarantee, hnext⟩ := hcommit
          cases hgo
          refine ⟨h.become htx (d.keeps op held writes _ _ h.holds hguarantee) hnext hnone ?_, ?_⟩
          · intro j other hother hne
            refine d.compatible op held other.held writes _ _ h.holds hguarantee ?_
            intro k hk
            refine ⟨h.apart j i other _ hother htx hne k hk, ?_⟩
            intro hshare
            have hfree := List.all_eq_true.mp hshares k hshare
            exact State.free_iff.mp hfree j other hother hne hk
          · refine Or.inr ⟨op, held, writes, ?_, hguarantee⟩
            rw [Machine.commits, htx]
            simp [hwrite]
        | none =>
          rw [hwrite] at hgo hcommit
          cases hgo
          refine ⟨h.become htx h.holds hcommit hnone hquiet, Or.inl ⟨?_, rfl⟩⟩
          rw [Machine.commits, htx]
          simp [hwrite]
      · cases hgo
    | finished result => cases hgo
  | lose i =>
    obtain ⟨tx, htx, hlose⟩ := Option.map_eq_some_iff.mp hstep
    rw [← hlose]
    have hlost : ({ tx with held := [], program := .finished none } : Tx S K A R Op).settled =
        { tx with held := [], program := .finished none } := rfl
    rw [← hlost]
    refine ⟨h.become htx h.holds ?_ (fun k hk => nomatch hk) ?_, Or.inl ⟨rfl, rfl⟩⟩
    · intro r hr
      cases hr
    · exact fun _ other _ _ => d.refl other.held s.store

/-- Along a run the discipline holds, and whatever its commits keep holds as well. -/
theorem Disciplined.run {meets : Op → A → S → Prop} {J : S → Prop}
    (hprogram : ∀ op store, d.holds store → d.Sound op (m.program op) [] store)
    (hkeeps : ∀ op held writes store store', d.holds store → meets op writes store →
      d.guarantee op held writes store store' → J store → J store')
    (hrun : m.Reached meets s s') (h : d.Disciplined s) (hJ : J s.store) :
    d.Disciplined s' ∧ J s'.store := by
  induction hrun with
  | refl => exact ⟨h, hJ⟩
  | @step mid last act _ hstep hmeets ih =>
    obtain ⟨hmid, hJ⟩ := ih
    obtain ⟨hlast, ⟨_, hsame⟩ | ⟨op, held, writes, hcommits, hguarantee⟩⟩ :=
      hmid.step hprogram hstep
    · rw [hsame]
      exact ⟨hlast, hJ⟩
    · exact ⟨hlast, hkeeps op held writes _ _ hmid.holds (hmeets op writes hcommits)
        hguarantee hJ⟩

end Discipline

section Writing

/-- Whatever a program reads, what it commits satisfies the condition. -/
def Program.Writing (P : A → Prop) : Program S K A R → Prop
  | .query next => ∀ s, (next s).Writing P
  | .lock _ next => ∀ s, (next s).Writing P
  | .commit writes next => P writes ∧ ∀ ok, (next ok).Writing P
  | .finished _ => True

variable {m : Machine S K A R Op} {P : Op → A → Prop} {s s' : State S K A R Op}

omit [DecidableEq K] in
theorem Program.writing_of_all {P : A → Prop} (h : ∀ writes, P writes)
    (program : Program S K A R) : program.Writing P := by
  induction program with
  | query next ih | lock key next ih => exact ih
  | commit writes next ih => exact ⟨h writes, ih⟩
  | finished result => trivial

omit [DecidableEq K] in
theorem Program.Writing.mono {P Q : A → Prop} (hPQ : ∀ writes, P writes → Q writes)
    {program : Program S K A R} (h : program.Writing P) : program.Writing Q := by
  induction program with
  | query next ih | lock key next ih => exact fun s => ih s (h s)
  | commit writes next ih => exact ⟨hPQ writes h.1, fun ok => ih ok (h.2 ok)⟩
  | finished result => trivial

/-- A step begins a transaction or takes one on. What that one is to write is left of what it
was to write before, and the rows stay or it has committed some of it. -/
theorem Machine.step_cases (hstep : m.step s act = some s') :
    (∃ op, s'.txs = s.txs ++ [(⟨op, [], m.program op⟩ : Tx S K A R Op).settled] ∧
      m.commits s act = none ∧ s'.store = s.store) ∨
    ∃ (j : ℕ) (tx next : Tx S K A R Op), s.txs[j]? = some tx ∧ s'.txs = s.txs.set j next ∧
      next.op = tx.op ∧ (∀ P : A → Prop, tx.program.Writing P → next.program.Writing P) ∧
      ((m.commits s act = none ∧ s'.store = s.store) ∨
        ∃ writes, m.commits s act = some (tx.op, writes) ∧
          (∀ P : A → Prop, tx.program.Writing P → P writes) ∧
          m.write writes s.store = some s'.store) := by
  cases act with
  | start op =>
    cases hstep
    exact Or.inl ⟨op, rfl, rfl, rfl⟩
  | lose j =>
    obtain ⟨tx, htx, rfl⟩ := Option.map_eq_some_iff.mp hstep
    exact Or.inr ⟨j, tx, _, htx, rfl, rfl, fun _ _ => trivial, Or.inl ⟨rfl, rfl⟩⟩
  | go j =>
    obtain ⟨⟨op, held, program⟩, htx, hgo⟩ := Option.bind_eq_some_iff.mp hstep
    refine Or.inr ⟨j, ⟨op, held, program⟩, ?_⟩
    cases program with
    | query next =>
      cases hgo
      exact ⟨_, htx, rfl, Tx.settled_op _, fun P h => by simpa using h s.store,
        Or.inl ⟨by rw [Machine.commits, htx], rfl⟩⟩
    | lock key next =>
      have hcommits : m.commits s (.go j) = none := by rw [Machine.commits, htx]
      simp only [Machine.goTx] at hgo
      split at hgo
      · cases hgo
        exact ⟨_, htx, rfl, Tx.settled_op _, fun P h => by simpa using h s.store,
          Or.inl ⟨hcommits, rfl⟩⟩
      · split at hgo
        · cases hgo
          exact ⟨_, htx, rfl, Tx.settled_op _, fun P h => by simpa using h s.store,
            Or.inl ⟨hcommits, rfl⟩⟩
        · cases hgo
    | commit writes next =>
      simp only [Machine.goTx] at hgo
      split at hgo
      · cases hwrite : m.write writes s.store with
        | none =>
          simp only [hwrite] at hgo
          cases hgo
          exact ⟨_, htx, rfl, Tx.settled_op _, fun P h => by simpa using h.2 false,
            Or.inl ⟨by simp [Machine.commits, htx, hwrite], rfl⟩⟩
        | some store =>
          simp only [hwrite] at hgo
          cases hgo
          exact ⟨_, htx, rfl, Tx.settled_op _, fun P h => by simpa using h.2 true,
            Or.inr ⟨writes, by simp [Machine.commits, htx, hwrite], fun _ h => h.1, hwrite⟩⟩
      · cases hgo
    | finished result => cases hgo

/-- A step commits nothing and leaves the rows, or it commits writes that its operation makes. -/
theorem Machine.step_writing (hprogram : ∀ op, (m.program op).Writing (P op))
    (h : ∀ tx ∈ s.txs, tx.program.Writing (P tx.op)) (hstep : m.step s act = some s') :
    (∀ tx ∈ s'.txs, tx.program.Writing (P tx.op)) ∧
      ((m.commits s act = none ∧ s'.store = s.store) ∨
        ∃ op writes, m.commits s act = some (op, writes) ∧ P op writes ∧
          m.write writes s.store = some s'.store) := by
  rcases step_cases hstep with
    ⟨op, htxs, hquiet⟩ | ⟨j, tx, next, htx, htxs, hop, hnext, hrows⟩
  · refine ⟨?_, Or.inl hquiet⟩
    intro tx htx
    rw [htxs] at htx
    rcases List.mem_append.mp htx with htx | htx
    · exact h tx htx
    · rw [List.mem_singleton.mp htx, Tx.settled_op, Tx.settled_program]
      exact hprogram op
  · have hwriting := h tx (List.mem_of_getElem? htx)
    refine ⟨?_, hrows.imp_right ?_⟩
    · intro other hother
      rw [htxs] at hother
      rcases List.mem_or_eq_of_mem_set hother with hother | rfl
      · exact h other hother
      · rw [hop]
        exact hnext _ hwriting
    · rintro ⟨writes, hcommits, hwrites, hwrite⟩
      exact ⟨tx.op, writes, hcommits, hwrites _ hwriting, hwrite⟩

/-- What a transaction is to write keeps a property that no commit of the run takes away. -/
theorem Machine.Reached.writing {Q : S → A → Prop} {tx : Tx S K A R Op}
    (hprogram : ∀ op, (m.program op).Writing (P op))
    (hstart : ∀ tx ∈ s.txs, tx.program.Writing (P tx.op)) (hrun : m.Reached meets s s')
    (hkeeps : ∀ op writes store store', P op writes → meets op writes store →
      m.write writes store = some store' → ∀ planned, Q store planned → Q store' planned)
    (htx : s.txs[i]? = some tx) (h : tx.program.Writing (Q s.store)) :
    (∀ tx ∈ s'.txs, tx.program.Writing (P tx.op)) ∧
      ∃ tx', s'.txs[i]? = some tx' ∧ tx'.op = tx.op ∧ tx'.program.Writing (Q s'.store) := by
  induction hrun with
  | refl => exact ⟨hstart, tx, htx, rfl, h⟩
  | @step mid last act _ hstep hmeets ih =>
    obtain ⟨hall, tx', htx', hop, hwriting⟩ := ih
    obtain ⟨hnext, hrows⟩ := step_writing hprogram hall hstep
    refine ⟨hnext, ?_⟩
    have hmono : ∀ {program : Program S K A R}, program.Writing (Q mid.store) →
        program.Writing (Q last.store) := by
      intro program hplanned
      rcases hrows with ⟨-, hsame⟩ | ⟨op, writes, hcommits, hP, hwrite⟩
      · rwa [hsame]
      · exact hplanned.mono (hkeeps op writes _ _ hP (hmeets op writes hcommits) hwrite)
    rcases step_cases hstep with ⟨op, htxs, -⟩ | ⟨j, old, next, hold, htxs, hsame, hleft, -⟩
    · have hlt := (List.getElem?_eq_some_iff.mp htx').1
      exact ⟨tx', by rw [htxs, List.getElem?_append_left hlt, htx'], hop, hmono hwriting⟩
    · by_cases hj : j = i
      · subst hj
        cases htx'.symm.trans hold
        exact ⟨next, by rw [htxs, List.getElem?_set_self (List.getElem?_eq_some_iff.mp htx').1],
          hsame.trans hop, hmono (hleft _ hwriting)⟩
      · exact ⟨tx', by rw [htxs, List.getElem?_set_ne hj, htx'], hop, hmono hwriting⟩

omit [DecidableEq K] in
theorem Machine.writing_of_commits {tx : Tx S K A R Op} {P : A → Prop} {op : Op} {writes : A}
    (hcommits : m.commits s (.go i) = some (op, writes)) (htx : s.txs[i]? = some tx)
    (h : tx.program.Writing P) : op = tx.op ∧ P writes := by
  obtain ⟨own, held, program⟩ := tx
  cases program with
  | commit planned next =>
    simp only [Machine.commits, htx, Option.ite_none_right_eq_some, Option.some.injEq,
      Prod.mk.injEq] at hcommits
    obtain ⟨-, rfl, rfl⟩ := hcommits
    exact ⟨rfl, h.1⟩
  | query | lock | finished => simp [Machine.commits, htx] at hcommits

/-- What given acts commit, one after the other, and the state they lead to, if each can be
taken and every commit meets the condition. -/
def Machine.history (m : Machine S K A R Op) (meets : Op → A → S → Prop)
    [∀ op writes s, Decidable (meets op writes s)] (s : State S K A R Op) :
    List (Act Op) → Option (List Op × State S K A R Op)
  | [] => some ([], s)
  | act :: acts =>
    if (m.commits s act).all (fun committed => meets committed.1 committed.2 s.store) then
      (m.step s act).bind fun s' => (m.history meets s' acts).map fun rest =>
        ((m.commits s act).toList.map Prod.fst ++ rest.1, rest.2)
    else none

end Writing

end Grafy.Transactions
