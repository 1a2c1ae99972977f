import Grafy.Worklist
import Mathlib.Logic.Relation

/-!
A worklist over names all of which count, whether or not they lead anywhere.
Names are taken from the front of a list, and those a new name leads to are put
in with the others in any order. Only finitely many names lead anywhere, so the
loop ends, and it has seen exactly the names reached from those it began with. A loop
may instead mark names as it puts them in, so that each is put in once.
-/
namespace Grafy.Traversal

open Worklist Relation

variable {A : Type*} [DecidableEq A] {nodes : List A} {next : A → List A}
  {push : List A → List A → List A}

/-- The loop: the names seen, and the names to look at. -/
def visits (hnodes : ∀ a, next a ≠ [] → a ∈ nodes)
    (hpush : ∀ new rest, (push new rest).Perm (new ++ rest)) (seen : List A) : List A → List A
  | [] => seen
  | a :: rest =>
    if _hseen : a ∈ seen then visits hnodes hpush seen rest
    else visits hnodes hpush (a :: seen) (push (next a) rest)
termination_by rest => (unseen nodes seen, rest.length)
decreasing_by
  · exact Prod.Lex.right _ (Nat.lt_succ_self _)
  · by_cases hnext : next a = []
    · have hlength : (push (next a) rest).length = rest.length := by
        rw [(hpush _ _).length_eq, hnext, List.nil_append]
      rcases Nat.lt_or_ge (unseen nodes (a :: seen)) (unseen nodes seen) with h | h
      · exact Prod.Lex.left _ _ h
      · rw [Nat.le_antisymm (unseen_cons_le nodes seen a) h, hlength]
        exact Prod.Lex.right _ (Nat.lt_succ_self _)
    · exact Prod.Lex.left _ _ (unseen_cons_lt (hnodes a hnext) _hseen)

variable (hnodes : ∀ a, next a ≠ [] → a ∈ nodes)
  (hpush : ∀ new rest, (push new rest).Perm (new ++ rest)) {seen : List A} {rest : List A}
  {names : List A} {c : A} {a : A} {b : A} {state : List A × List A}

theorem visits_seen (hseen : a ∈ seen) (rest : List A) :
    visits hnodes hpush seen (a :: rest) = visits hnodes hpush seen rest := by
  rw [visits, dif_pos hseen]

theorem visits_new (hnew : a ∉ seen) (rest : List A) :
    visits hnodes hpush seen (a :: rest) =
      visits hnodes hpush (a :: seen) (push (next a) rest) := by
  rw [visits, dif_neg hnew]

theorem seen_subset_visits (seen rest : List A) : seen ⊆ visits hnodes hpush seen rest := by
  fun_induction visits hnodes hpush seen rest with
  | case1 seen => exact List.Subset.refl seen
  | case2 seen a rest hseen ih => exact ih
  | case3 seen a rest hnew ih => exact List.Subset.trans (List.subset_cons_self a seen) ih

theorem rest_subset_visits (seen rest : List A) : rest ⊆ visits hnodes hpush seen rest := by
  fun_induction visits hnodes hpush seen rest with
  | case1 seen => exact List.nil_subset _
  | case2 seen a rest hseen ih =>
    exact List.cons_subset.mpr ⟨seen_subset_visits hnodes hpush seen rest hseen, ih⟩
  | case3 seen a rest hnew ih =>
    have hpushed : rest ⊆ push (next a) rest := fun b hb =>
      (hpush _ _).symm.subset (List.mem_append_right _ hb)
    refine List.cons_subset.mpr ⟨?_, List.Subset.trans hpushed ih⟩
    exact seen_subset_visits hnodes hpush _ _ List.mem_cons_self

/-- What was seen leads to names that are seen or still to be looked at. -/
def Follows (next : A → List A) (seen rest : List A) : Prop :=
  ∀ a ∈ seen, ∀ b ∈ next a, b ∈ seen ∨ b ∈ rest

theorem visits_closed (h : Follows next seen rest) :
    Follows next (visits hnodes hpush seen rest) [] := by
  fun_induction visits hnodes hpush seen rest with
  | case1 seen => exact h
  | case2 seen a rest hseen ih =>
    refine ih fun b hb c hc => ?_
    rcases h b hb c hc with hold | hold
    · exact Or.inl hold
    · rcases List.mem_cons.mp hold with rfl | hold
      · exact Or.inl hseen
      · exact Or.inr hold
  | case3 seen a rest hnew ih =>
    refine ih fun b hb c hc => ?_
    rcases List.mem_cons.mp hb with rfl | hb
    · exact Or.inr ((hpush _ _).symm.subset (List.mem_append_left _ hc))
    · rcases h b hb c hc with hold | hold
      · exact Or.inl (List.mem_cons_of_mem _ hold)
      · rcases List.mem_cons.mp hold with rfl | hold
        · exact Or.inl List.mem_cons_self
        · exact Or.inr ((hpush _ _).symm.subset (List.mem_append_right _ hold))

/-- Every name seen at the end was seen at the start or is reached from one to look at. -/
theorem reached_of_mem_visits (hb : b ∈ visits hnodes hpush seen rest) :
    b ∈ seen ∨ ∃ a ∈ rest, ReflTransGen (fun a b => b ∈ next a) a b := by
  fun_induction visits hnodes hpush seen rest with
  | case1 seen => exact Or.inl hb
  | case2 seen a rest hseen ih =>
    rcases ih hb with hold | ⟨c, hc, hreach⟩
    · exact Or.inl hold
    · exact Or.inr ⟨c, List.mem_cons_of_mem _ hc, hreach⟩
  | case3 seen a rest hnew ih =>
    rcases ih hb with hold | ⟨c, hc, hreach⟩
    · rcases List.mem_cons.mp hold with rfl | hold
      · exact Or.inr ⟨b, List.mem_cons_self, .refl⟩
      · exact Or.inl hold
    · rcases List.mem_append.mp ((hpush _ _).subset hc) with hc | hc
      · exact Or.inr ⟨a, List.mem_cons_self, .head hc hreach⟩
      · exact Or.inr ⟨c, List.mem_cons_of_mem _ hc, hreach⟩

/-- The loop sees exactly the names reached from those it began with. -/
theorem mem_visits {start : List A} :
    b ∈ visits hnodes hpush [] start ↔ ∃ a ∈ start, ReflTransGen (fun a b => b ∈ next a) a b := by
  constructor
  · intro hb
    exact (reached_of_mem_visits hnodes hpush hb).resolve_left List.not_mem_nil
  · rintro ⟨a, ha, hreach⟩
    have hclosed : Follows next (visits hnodes hpush [] start) [] :=
      visits_closed hnodes hpush fun a ha => absurd ha List.not_mem_nil
    induction hreach with
    | refl => exact rest_subset_visits hnodes hpush [] start ha
    | tail _ hstep ih => exact (hclosed _ ih _ hstep).resolve_right List.not_mem_nil

/-! Marking names as they are put in -/

/-- A name that is not marked is marked and put in at the end: what is marked, and what
is to be looked at. -/
def mark (state : List A × List A) (b : A) : List A × List A :=
  if b ∈ state.1 then state else (state.1 ++ [b], state.2 ++ [b])

theorem unseen_snoc (nodes seen : List A) (a : A) :
    unseen nodes (seen ++ [a]) = unseen nodes (a :: seen) := by
  unfold unseen
  refine congrArg List.length (List.filter_congr fun b _ => ?_)
  simp [or_comm]

/-- Marking names of the nodes marks some new one or does nothing. -/
theorem foldl_mark (hnames : ∀ b ∈ names, b ∈ nodes) (state : List A × List A) :
    names.foldl mark state = state ∨
      unseen nodes (names.foldl mark state).1 < unseen nodes state.1 := by
  induction names generalizing state with
  | nil => exact Or.inl rfl
  | cons b rest ih =>
    have hrest := ih (fun c hc => hnames c (List.mem_cons_of_mem _ hc)) (mark state b)
    rw [List.foldl_cons]
    by_cases hmarked : b ∈ state.1
    · rw [mark, if_pos hmarked] at hrest ⊢
      exact hrest
    · have hless : unseen nodes (mark state b).1 < unseen nodes state.1 := by
        rw [mark, if_neg hmarked, unseen_snoc]
        exact unseen_cons_lt (hnames b List.mem_cons_self) hmarked
      rcases hrest with hsame | hlt
      · rw [hsame]
        exact Or.inr hless
      · exact Or.inr (Nat.lt_trans hlt hless)

/-- The loop: the names marked, and of these the ones to look at, the first in front. -/
def flood (hnext : ∀ a, ∀ b ∈ next a, b ∈ nodes) (marked : List A) : List A → List A
  | [] => marked
  | a :: rest =>
    flood hnext ((next a).foldl mark (marked, rest)).1 ((next a).foldl mark (marked, rest)).2
termination_by rest => (unseen nodes marked, rest.length)
decreasing_by
  rcases foldl_mark (hnext a) (marked, rest) with hsame | hlt
  · rw [hsame]
    exact Prod.Lex.right _ (Nat.lt_succ_self _)
  · exact Prod.Lex.left _ _ hlt

theorem mem_foldl_mark : c ∈ (names.foldl mark state).1 ↔ c ∈ state.1 ∨ c ∈ names := by
  induction names generalizing state with
  | nil => simp
  | cons b rest ih =>
    rw [List.foldl_cons, ih, List.mem_cons, ← or_assoc]
    refine or_congr_left ?_
    unfold mark
    split_ifs with hmarked
    · exact ⟨Or.inl, fun h => h.elim id fun hc => hc ▸ hmarked⟩
    · rw [List.mem_append, List.mem_singleton]

/-- What is to be looked at grows by what is newly marked. -/
theorem mem_foldl_mark_rest :
    c ∈ (names.foldl mark state).2 ↔ c ∈ state.2 ∨ c ∈ names ∧ c ∉ state.1 := by
  induction names generalizing state with
  | nil => simp
  | cons b rest ih =>
    rw [List.foldl_cons, ih, List.mem_cons]
    unfold mark
    split_ifs with hmarked
    · constructor
      · rintro (hc | ⟨hc, hnew⟩)
        · exact Or.inl hc
        · exact Or.inr ⟨Or.inr hc, hnew⟩
      · rintro (hc | ⟨rfl | hc, hnew⟩)
        · exact Or.inl hc
        · exact absurd hmarked hnew
        · exact Or.inr ⟨hc, hnew⟩
    · simp only [List.mem_append, List.mem_singleton, not_or]
      constructor
      · rintro ((hc | rfl) | ⟨hc, hnew, -⟩)
        · exact Or.inl hc
        · exact Or.inr ⟨Or.inl rfl, hmarked⟩
        · exact Or.inr ⟨Or.inr hc, hnew⟩
      · rintro (hc | ⟨rfl | hc, hnew⟩)
        · exact Or.inl (Or.inl hc)
        · exact Or.inl (Or.inr rfl)
        · by_cases hcb : c = b
          · exact Or.inl (Or.inr hcb)
          · exact Or.inr ⟨hc, hnew, hcb⟩

/-- The loop marks exactly the names reached from those it was given to look at, when
everything else that is marked leads to marked names only. -/
theorem mem_flood (hnext : ∀ a, ∀ b ∈ next a, b ∈ nodes) {marked : List A} (hrest : rest ⊆ marked)
    (hclosed : ∀ a ∈ marked, a ∉ rest → ∀ b ∈ next a, b ∈ marked) :
    c ∈ flood hnext marked rest ↔ ∃ a ∈ marked, ReflTransGen (fun a b => b ∈ next a) a c := by
  fun_induction flood hnext marked rest with
  | case1 marked =>
    constructor
    · exact fun hc => ⟨c, hc, .refl⟩
    · rintro ⟨a, ha, hreach⟩
      induction hreach with
      | refl => exact ha
      | tail _ hstep ih => exact hclosed _ ih List.not_mem_nil _ hstep
  | case2 marked a rest ih =>
    have hmarked : a ∈ marked := hrest List.mem_cons_self
    rw [ih]
    · constructor
      · rintro ⟨b, hb, hreach⟩
        rcases mem_foldl_mark.mp hb with hb | hb
        · exact ⟨b, hb, hreach⟩
        · exact ⟨a, hmarked, .head hb hreach⟩
      · rintro ⟨b, hb, hreach⟩
        exact ⟨b, mem_foldl_mark.mpr (Or.inl hb), hreach⟩
    · intro b hb
      rcases mem_foldl_mark_rest.mp hb with hb | ⟨hb, -⟩
      · exact mem_foldl_mark.mpr (Or.inl (hrest (List.mem_cons_of_mem _ hb)))
      · exact mem_foldl_mark.mpr (Or.inr hb)
    · intro b hb hnot c hc
      rw [mem_foldl_mark]
      by_cases hba : b = a
      · exact Or.inr (hba ▸ hc)
      · rw [mem_foldl_mark_rest, not_or, not_and_not_right] at hnot
        have hold : b ∈ marked := (mem_foldl_mark.mp hb).elim id hnot.2
        refine Or.inl (hclosed b hold (fun hmem => ?_) c hc)
        exact (List.mem_cons.mp hmem).elim hba hnot.1

end Grafy.Traversal
