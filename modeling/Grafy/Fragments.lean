import Mathlib.Data.List.Infix

/-!
A sequence sent in fragments. A fragment says at which position it starts; some
fragments may be lost, and a reader may be given one again. A reader that goes by
positions appends a fragment that starts where its text ends, passes over one that
starts before, and marks a gap at one that starts after. What it holds is right, or
marked, as long as no fragment starts before and ends after the text it began with.
-/
namespace Grafy.Fragments

variable {α : Type*} {start : ℕ}

structure Fragment (α : Type*) where
  offset : ℕ
  letters : List α
deriving DecidableEq, Repr

variable {whole part : List α} {f : Fragment α}

namespace Fragment

/-- The position after the fragment. -/
def stop (f : Fragment α) : ℕ := f.offset + f.letters.length

/-- A fragment that is a piece of a sequence. -/
structure Of (whole : List α) (f : Fragment α) : Prop where
  nonempty : f.letters ≠ []
  within : f.stop ≤ whole.length
  piece : f.letters = (whole.drop f.offset).take f.letters.length

theorem Of.offset_lt (hf : f.Of whole) : f.offset < f.stop := by
  have hlen : 0 < f.letters.length := List.length_pos_iff.mpr hf.nonempty
  unfold stop
  omega

theorem Of.take_append (hf : f.Of whole) :
    whole.take f.offset ++ f.letters = whole.take f.stop := by
  rw [stop, List.take_add, ← hf.piece]

theorem Of.mono (hpart : part <+: whole) (hf : f.Of part) : f.Of whole := by
  obtain ⟨more, rfl⟩ := hpart
  have hwithin := hf.within
  have hpiece := hf.piece
  unfold stop at hwithin
  refine ⟨hf.nonempty, ?_, ?_⟩
  · rw [stop, List.length_append]
    omega
  · rw [List.drop_append_of_le_length (by omega), List.take_append_of_le_length
      (by rw [List.length_drop]; omega)]
    exact hpiece

end Fragment

open Fragment

/-- Pieces of a sequence from a position on, one after the other. Where one starts later
than the last one ended, what was between is lost. -/
def Cut (whole : List α) : ℕ → List (Fragment α) → Prop
  | _, [] => True
  | start, f :: fs => start ≤ f.offset ∧ f.Of whole ∧ Cut whole f.stop fs

variable {fs : List (Fragment α)}

theorem Cut.mono (hpart : part <+: whole) (h : Cut part start fs) : Cut whole start fs := by
  induction fs generalizing start with
  | nil => trivial
  | cons f fs ih => exact ⟨h.1, h.2.1.mono hpart, ih h.2.2⟩

theorem Cut.of_le {before : ℕ} (hle : before ≤ start) (h : Cut whole start fs) :
    Cut whole before fs := by
  cases fs with
  | nil => trivial
  | cons f fs => exact ⟨hle.trans h.1, h.2⟩

theorem Cut.mem (h : Cut whole start fs) (hf : f ∈ fs) : start ≤ f.offset ∧ f.Of whole := by
  induction fs generalizing start with
  | nil => cases hf
  | cons g fs ih =>
    rcases List.mem_cons.mp hf with rfl | hf
    · exact ⟨h.1, h.2.1⟩
    · obtain ⟨hle, hof⟩ := ih h.2.2 hf
      have hg := h.2.1.offset_lt
      have hstart := h.1
      exact ⟨by omega, hof⟩

theorem Cut.append {middle : ℕ} {gs : List (Fragment α)} (hfs : Cut whole start fs)
    (hstop : ∀ f ∈ fs, f.stop ≤ middle) (hle : start ≤ middle) (hgs : Cut whole middle gs) :
    Cut whole start (fs ++ gs) := by
  induction fs generalizing start with
  | nil => exact hgs.of_le hle
  | cons f fs ih =>
    refine ⟨hfs.1, hfs.2.1, ih hfs.2.2 ?_ (hstop f List.mem_cons_self)⟩
    intro g hg
    exact hstop g (List.mem_cons_of_mem f hg)

/-- What a reader is given: what it has not seen, in order, and anything that it has seen,
again. -/
inductive Delivered : List α → List α → List α → Prop
  | done {seen rest} : Delivered seen rest []
  | next {seen rest f ds} : Delivered (f :: seen) rest ds → Delivered seen (f :: rest) (f :: ds)
  | again {seen rest f ds} : f ∈ seen → Delivered seen rest ds → Delivered seen rest (f :: ds)

theorem Delivered.all (seen rest : List α) : Delivered seen rest rest := by
  induction rest generalizing seen with
  | nil => exact .done
  | cons f rest ih => exact .next (ih (f :: seen))

variable {ds : List α}

theorem Delivered.mem {seen rest : List α} (h : Delivered seen rest ds) {f : α} (hf : f ∈ ds) :
    f ∈ seen ∨ f ∈ rest := by
  induction h with
  | done => cases hf
  | next _ ih =>
    rcases List.mem_cons.mp hf with rfl | hf
    · exact Or.inr List.mem_cons_self
    · rcases ih hf with hseen | hrest
      · rcases List.mem_cons.mp hseen with rfl | hseen
        · exact Or.inr List.mem_cons_self
        · exact Or.inl hseen
      · exact Or.inr (List.mem_cons_of_mem _ hrest)
  | again hg _ ih =>
    rcases List.mem_cons.mp hf with rfl | hf
    · exact Or.inl hg
    · exact ih hf

theorem Delivered.map {β : Type*} (g : α → β) {seen rest : List α} (h : Delivered seen rest ds) :
    Delivered (seen.map g) (rest.map g) (ds.map g) := by
  induction h with
  | done => exact .done
  | next _ ih => exact .next ih
  | again hf _ ih => exact .again (List.mem_map_of_mem hf) ih

/-- What a reader holds, and whether it knows that something is missing. -/
structure Reading (α : Type*) where
  text : List α
  gap : Bool
deriving DecidableEq, Repr

/-- The reader's step. -/
def Reading.take (r : Reading α) (f : Fragment α) : Reading α :=
  if r.gap then r
  else if f.offset < r.text.length then r
  else if f.offset ≠ r.text.length then { r with gap := true }
  else { r with text := r.text ++ f.letters }

/-- The reader's text is the sequence up to a position, or it is marked. -/
def Reading.ExactTo (whole : List α) (reach : ℕ) (r : Reading α) : Prop :=
  r.gap = true ∨ r.text = whole.take reach

/-- After every fragment the reader's text is exact up to the largest position it was
brought to, or it is marked. -/
def ExactAfterEach (whole : List α) : ℕ → Reading α → List (Fragment α) → Prop
  | _, _, [] => True
  | reach, r, f :: fs => (r.take f).ExactTo whole (max reach f.stop) ∧
      ExactAfterEach whole (max reach f.stop) (r.take f) fs

/-- A fragment that starts before a position and ends after it. -/
def Fragment.Straddles (position : ℕ) (f : Fragment α) : Prop :=
  f.offset < position ∧ position < f.stop

instance (position : ℕ) (f : Fragment α) : Decidable (f.Straddles position) :=
  inferInstanceAs (Decidable (_ ∧ _))

/-- What holds between two fragments: the reader began with a text of some length, its reach
is that length or the end of a fragment it saw, and where it marked a gap it saw a fragment
from beyond the text it began with. -/
structure Following (whole : List α) (began : ℕ) (seen rest : List (Fragment α)) (reach : ℕ)
    (r : Reading α) : Prop where
  seen_of : ∀ f ∈ seen, f.Of whole
  seen_stop : ∀ f ∈ seen, f.stop ≤ reach
  rest_after : ∀ f ∈ seen, ∀ g ∈ rest, f.stop ≤ g.offset
  rest_cut : ∃ start, Cut whole start rest
  began_le : began ≤ reach
  reach_le : reach ≤ whole.length
  reached : reach = began ∨ ∃ f ∈ seen, f.stop = reach
  exact : r.ExactTo whole reach
  marked : r.gap = true → ∃ f ∈ seen, began < f.offset

variable {began reach : ℕ}

variable {seen rest : List (Fragment α)} {r : Reading α}

namespace Following

section

variable (h : Following whole began seen rest reach r)
include h

theorem text_eq (hgap : r.gap = false) : r.text = whole.take reach := by
  rcases h.exact with hmark | htext
  · rw [hgap] at hmark
    cases hmark
  · exact htext

theorem length_text (hgap : r.gap = false) : r.text.length = reach := by
  rw [h.text_eq hgap, List.length_take, Nat.min_eq_left h.reach_le]

/-- A fragment that was seen before changes nothing. -/
theorem take_seen (hf : f ∈ seen) : r.take f = r := by
  unfold Reading.take
  cases hgap : r.gap with
  | true => rfl
  | false =>
    have hlen := h.length_text hgap
    have hstop := h.seen_stop f hf
    have hlt := (h.seen_of f hf).offset_lt
    rw [if_neg (by decide), if_pos (by omega)]

theorem again (hf : f ∈ seen) : Following whole began seen rest (max reach f.stop) (r.take f) := by
  rw [h.take_seen hf, Nat.max_eq_left (h.seen_stop f hf)]
  exact h

end

section

variable (h : Following whole began seen (f :: rest) reach r)
include h

/-- The next fragment starts at the reach or after it, where it does not start inside the
text the reader began with. -/
theorem reach_le_offset (hf : began ≤ f.offset) : reach ≤ f.offset := by
  rcases h.reached with hreach | ⟨g, hg, hstop⟩
  · rw [hreach]
    exact hf
  · rw [← hstop]
    exact h.rest_after g hg f List.mem_cons_self

/-- Before a fragment that starts inside the text the reader began with, it has only seen
such fragments. -/
theorem of_offset_lt (hf : f.offset < began) : reach = began ∧ r.gap = false := by
  constructor
  · rcases h.reached with hreach | ⟨g, hg, hstop⟩
    · exact hreach
    · have hafter := h.rest_after g hg f List.mem_cons_self
      have hbegan := h.began_le
      omega
  · cases hgap : r.gap with
    | false => rfl
    | true =>
      obtain ⟨g, hg, hbeyond⟩ := h.marked hgap
      have hafter := h.rest_after g hg f List.mem_cons_self
      have hlt := (h.seen_of g hg).offset_lt
      omega

/-- The reader's step on a new fragment that lies inside the text the reader began with or
after it. -/
theorem next (hf : ¬ f.Straddles began) :
    Following whole began (f :: seen) rest (max reach f.stop) (r.take f) := by
  obtain ⟨start, hcut⟩ := h.rest_cut
  have hof := hcut.2.1
  have hlt := hof.offset_lt
  have hwithin := hof.within
  have hreach := h.reach_le
  have hbegan := h.began_le
  refine ⟨?_, ?_, ?_, ⟨f.stop, hcut.2.2⟩, by omega, by omega, ?_, ?_, ?_⟩
  · intro g hg
    rcases List.mem_cons.mp hg with rfl | hg
    · exact hof
    · exact h.seen_of g hg
  · intro g hg
    rcases List.mem_cons.mp hg with rfl | hg
    · exact Nat.le_max_right _ _
    · exact (h.seen_stop g hg).trans (Nat.le_max_left _ _)
  · intro g hg later hlater
    rcases List.mem_cons.mp hg with rfl | hg
    · exact (hcut.2.2.mem hlater).1
    · exact h.rest_after g hg later (List.mem_cons_of_mem f hlater)
  · rcases Nat.le_total f.stop reach with hle | hle
    · rw [Nat.max_eq_left hle]
      rcases h.reached with heq | ⟨g, hg, hstop⟩
      · exact Or.inl heq
      · exact Or.inr ⟨g, List.mem_cons_of_mem f hg, hstop⟩
    · exact Or.inr ⟨f, List.mem_cons_self, (Nat.max_eq_right hle).symm⟩
  · unfold Reading.take
    cases hgap : r.gap with
    | true => exact Or.inl (by simpa using hgap)
    | false =>
      have hlen := h.length_text hgap
      have htext := h.text_eq hgap
      rw [if_neg (by decide), hlen]
      by_cases hinside : f.offset < began
      · -- The whole fragment lies inside the text the reader began with.
        have hstop : f.stop ≤ began := by
          by_contra hover
          exact hf ⟨hinside, by omega⟩
        rw [if_pos (by omega), Nat.max_eq_left (by omega)]
        exact Or.inr htext
      · have hle := h.reach_le_offset (Nat.le_of_not_lt hinside)
        rw [if_neg (by omega), Nat.max_eq_right (by omega)]
        by_cases hat : f.offset = reach
        · rw [if_neg (by simpa using hat)]
          refine Or.inr ?_
          rw [← hof.take_append, hat, ← htext]
        · rw [if_pos hat]
          exact Or.inl rfl
  · intro hmark
    cases hgap : r.gap with
    | true =>
      obtain ⟨g, hg, hbeyond⟩ := h.marked hgap
      exact ⟨g, List.mem_cons_of_mem f hg, hbeyond⟩
    | false =>
      have hlen := h.length_text hgap
      refine ⟨f, List.mem_cons_self, ?_⟩
      unfold Reading.take at hmark
      rw [hgap, if_neg (by decide), hlen] at hmark
      by_contra hbeyond
      split at hmark
      · rw [hgap] at hmark
        cases hmark
      · split at hmark
        · omega
        · cases hmark

/-- A new fragment that straddles the end of the text the reader began with is passed over,
and the text is short of its end. -/
theorem not_exactTo (hf : f.Straddles began) : ¬ (r.take f).ExactTo whole (max reach f.stop) := by
  obtain ⟨hinside, hover⟩ := hf
  obtain ⟨hreach, hgap⟩ := h.of_offset_lt hinside
  obtain ⟨start, hcut⟩ := h.rest_cut
  have hwithin := hcut.2.1.within
  have hlen := h.length_text hgap
  have htake : r.take f = r := by
    unfold Reading.take
    rw [hgap, if_neg (by decide), if_pos (by omega)]
  rw [htake, Nat.max_eq_right (by omega)]
  rintro (hmark | htext)
  · rw [hgap] at hmark
    cases hmark
  · have hshort := congrArg List.length htext
    rw [hlen, List.length_take, Nat.min_eq_left hwithin] at hshort
    omega

end

end Following

/-- The reader's text stays exact or marked through a whole delivery exactly where no
fragment it is given straddles the end of the text it began with. -/
theorem Following.exactAfterEach_iff {ds : List (Fragment α)}
    (h : Following whole began seen rest reach r) (hseen : ∀ f ∈ seen, ¬ f.Straddles began)
    (hds : Delivered seen rest ds) :
    ExactAfterEach whole reach r ds ↔ ∀ f ∈ ds, ¬ f.Straddles began := by
  induction hds generalizing reach r with
  | done => simp [ExactAfterEach]
  | @next seen rest f ds hds ih =>
    by_cases hf : f.Straddles began
    · constructor
      · intro hexact
        exact absurd hexact.1 (h.not_exactTo hf)
      · intro hno
        exact absurd hf (hno f List.mem_cons_self)
    · have hnext := h.next hf
      have hrest := ih hnext (by
        intro g hg
        rcases List.mem_cons.mp hg with rfl | hg
        · exact hf
        · exact hseen g hg)
      rw [ExactAfterEach, hrest, List.forall_mem_cons]
      exact and_congr_left (fun _ => iff_of_true hnext.exact hf)
  | @again seen rest f ds hf hds ih =>
    have hnext := h.again hf
    rw [ExactAfterEach, ih hnext hseen, List.forall_mem_cons]
    exact and_congr_left (fun _ => iff_of_true hnext.exact (hseen f hf))

/-- A reader that begins with the sequence up to a position. -/
theorem following_start {sent : ℕ} (hbegan : began ≤ whole.length) (hseen : Cut whole 0 seen)
    (hstop : ∀ f ∈ seen, f.stop ≤ began) (hsent : ∀ f ∈ seen, f.stop ≤ sent)
    (hrest : Cut whole sent rest) :
    Following whole began seen rest began ⟨whole.take began, false⟩ := by
  refine ⟨?_, hstop, ?_, ⟨sent, hrest⟩, le_rfl, hbegan, Or.inl rfl, Or.inr rfl, ?_⟩
  · intro f hf
    exact (hseen.mem hf).2
  · intro f hf g hg
    exact (hsent f hf).trans (hrest.mem hg).1
  · intro hmark
    cases hmark

end Grafy.Fragments
