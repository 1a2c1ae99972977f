import Mathlib.Data.List.DropRight
import Mathlib.Data.String.Basic

/-!
Surrounding whitespace. The field constraints trim what Unicode calls
whitespace; Python's own `str.strip` also drops the four information
separators. Trimming leaves a text alone once it neither starts nor ends with
a dropped character, and the stricter of the two leaves nothing for the other.
-/
namespace Grafy.Texts

/-- The code points of the Unicode property White_Space. -/
def isWhiteSpace (c : Char) : Bool :=
  let n := c.toNat
  (9 ≤ n && n ≤ 13) || n = 32 || n = 133 || n = 160 || n = 5760 || (8192 ≤ n && n ≤ 8202) ||
    n = 8232 || n = 8233 || n = 8239 || n = 8287 || n = 12288

/-- The code points `str.isspace` accepts. -/
def isSpace (c : Char) : Bool := isWhiteSpace c || (28 ≤ c.toNat && c.toNat ≤ 31)

def trimChars (p : Char → Bool) (l : List Char) : List Char := (l.rdropWhile p).dropWhile p

/-- What `strip_whitespace` makes of a text. -/
def trim (s : String) : String := String.ofList (trimChars isWhiteSpace s.toList)

/-- What `str.strip` makes of a text. -/
def strip (s : String) : String := String.ofList (trimChars isSpace s.toList)

section Trimming

variable {p q : Char → Bool} {l : List Char}

def Trimmed (p : Char → Bool) (l : List Char) : Prop :=
  (∀ h : l ≠ [], ¬ p (l.head h)) ∧ ∀ h : l ≠ [], ¬ p (l.getLast h)

theorem trimChars_eq_self_iff : trimChars p l = l ↔ Trimmed p l := by
  constructor
  · intro h
    have hright : l.rdropWhile p = l := by
      refine List.Sublist.eq_of_length_le (List.rdropWhile_prefix p l).sublist ?_
      calc l.length = ((l.rdropWhile p).dropWhile p).length := by rw [← trimChars, h]
        _ ≤ (l.rdropWhile p).length := (List.dropWhile_sublist p).length_le
    have hleft : l.dropWhile p = l := by rw [trimChars, hright] at h; exact h
    refine ⟨?_, List.rdropWhile_eq_self_iff.mp hright⟩
    intro hne hhead
    have hlength : 0 < l.length := List.length_pos_iff.mpr hne
    have hnot := List.dropWhile_eq_self_iff.mp hleft hlength
    rw [List.head_eq_getElem] at hhead
    exact hnot hhead
  · rintro ⟨hhead, hlast⟩
    rw [trimChars, List.rdropWhile_eq_self_iff.mpr hlast, List.dropWhile_eq_self_iff]
    intro hlength hp
    refine hhead (List.length_pos_iff.mp hlength) ?_
    rw [List.head_eq_getElem]
    exact hp

theorem trimmed_trimChars (p : Char → Bool) (l : List Char) : Trimmed p (trimChars p l) := by
  rw [← trimChars_eq_self_iff]
  have hlast : ∀ h : trimChars p l ≠ [], ¬ p ((trimChars p l).getLast h) := by
    intro h
    obtain ⟨before, hsplit⟩ := List.dropWhile_suffix (l := l.rdropWhile p) p
    have hne : l.rdropWhile p ≠ [] := by
      intro hnil
      simp [trimChars, hnil] at h
    have hsame : (trimChars p l).getLast h = (l.rdropWhile p).getLast hne := by
      simp only [trimChars] at h ⊢
      rw [← List.getLast_append_right (l := before) h]
      congr 1
    rw [hsame]
    exact List.rdropWhile_last_not p l hne
  nth_rewrite 1 [trimChars]
  rw [List.rdropWhile_eq_self_iff.mpr hlast]
  simp only [trimChars]
  exact List.dropWhile_idempotent _ _

theorem Trimmed.imp (h : Trimmed p l) (hpq : ∀ c, q c → p c) : Trimmed q l :=
  ⟨fun hne hq => h.1 hne (hpq _ hq), fun hne hq => h.2 hne (hpq _ hq)⟩

end Trimming

@[simp] theorem trim_trim (s : String) : trim (trim s) = trim s := by
  simp [trim, trimChars_eq_self_iff.mpr (trimmed_trimChars isWhiteSpace s.toList)]

@[simp] theorem strip_strip (s : String) : strip (strip s) = strip s := by
  simp [strip, trimChars_eq_self_iff.mpr (trimmed_trimChars isSpace s.toList)]

@[simp] theorem trim_strip (s : String) : trim (strip s) = strip s := by
  have htrimmed : Trimmed isWhiteSpace (trimChars isSpace s.toList) :=
    (trimmed_trimChars isSpace s.toList).imp (fun c hc => by simp [isSpace, hc])
  simp [strip, trim, trimChars_eq_self_iff.mpr htrimmed]

end Grafy.Texts
