import Grafy.OrderedDict
import Mathlib.Data.List.Sort
import Mathlib.Data.String.Basic
import Mathlib.Tactic.IntervalCases

/-!
JSON values and the canonical text `json.dumps(value, sort_keys=True,
separators=(",", ":"), ensure_ascii=True)` writes for them. The text is built
in two steps: every object is put in key order, then the tree is written out.
Writing out is injective: a value's text followed by a delimiter determines
the value and what follows. A float is carried by the text its repr gives: for
a finite one a decimal that names it uniquely and shows a point or an exponent,
otherwise NaN, Infinity or -Infinity, which `json.dumps` writes as they are.
-/
namespace Grafy.CanonicalJson

def isNumberChar (c : Char) : Bool :=
  c.isDigit || c ∈ ['-', '+', '.', 'e', 'N', 'a', 'I', 'n', 'f', 'i', 't', 'y']

/-- The characters that tell a float from an integer. -/
def isFloatMark (c : Char) : Bool := c ∈ ['.', 'e', 'N', 'I']

def startsNumber (c : Char) : Bool := c.isDigit || c ∈ ['-', 'N', 'I']

structure FloatLiteral where
  text : List Char
  numeric : ∀ c ∈ text, isNumberChar c
  marked : ∃ c ∈ text, isFloatMark c
  start : ∃ c rest, text = c :: rest ∧ startsNumber c

def FloatLiteral.isFinite (f : FloatLiteral) : Bool := f.text.all (fun c => c ∉ ['N', 'I'])

inductive Json
  | null
  | bool (value : Bool)
  | int (value : Int)
  | float (value : FloatLiteral)
  | str (value : String)
  | arr (items : List Json)
  | obj (members : List (String × Json))

/-- A fact about a value may use it for the values in it. -/
theorem Json.induct {P : Json → Prop} (null : P .null) (bool : ∀ b, P (.bool b))
    (int : ∀ i, P (.int i)) (float : ∀ f, P (.float f)) (str : ∀ s, P (.str s))
    (arr : ∀ items, (∀ v ∈ items, P v) → P (.arr items))
    (obj : ∀ members, (∀ m ∈ members, P m.2) → P (.obj members)) (v : Json) : P v :=
  @Json.rec P (fun items => ∀ v ∈ items, P v) (fun members => ∀ m ∈ members, P m.2)
    (fun m => P m.2) null bool int float str arr obj (fun _ hv => absurd hv List.not_mem_nil)
    (fun _ _ hv hrest => List.forall_mem_cons.mpr ⟨hv, hrest⟩)
    (fun _ hm => absurd hm List.not_mem_nil)
    (fun _ _ hm hrest => List.forall_mem_cons.mpr ⟨hm, hrest⟩) (fun _ _ hv => hv) v

def hexDigits (n : ℕ) : List Char :=
  [Nat.digitChar (n / 4096 % 16), Nat.digitChar (n / 256 % 16),
    Nat.digitChar (n / 16 % 16), Nat.digitChar (n % 16)]

def unicodeEscape (n : ℕ) : List Char := '\\' :: 'u' :: hexDigits n

/-- The escapes of ensure_ascii: a code point outside the printable ASCII
range becomes one \uXXXX, or a surrogate pair of them beyond the BMP. -/
def escapeChar (c : Char) : List Char :=
  if c = '"' then ['\\', '"']
  else if c = '\\' then ['\\', '\\']
  else if c = '\n' then ['\\', 'n']
  else if c = '\r' then ['\\', 'r']
  else if c = '\t' then ['\\', 't']
  else if c = '\x0c' then ['\\', 'f']
  else if c = '\x08' then ['\\', 'b']
  else if 32 ≤ c.toNat ∧ c.toNat ≤ 126 then [c]
  else if c.toNat < 65536 then unicodeEscape c.toNat
  else unicodeEscape (55296 + (c.toNat - 65536) / 1024) ++
    unicodeEscape (56320 + (c.toNat - 65536) % 1024)

def encodeString (s : String) : List Char := '"' :: (s.toList.flatMap escapeChar ++ ['"'])

def intText : Int → List Char
  | .ofNat n => Nat.toDigits 10 n
  | .negSucc n => '-' :: Nat.toDigits 10 (n + 1)

mutual

def encode : Json → List Char
  | .null => ['n', 'u', 'l', 'l']
  | .bool true => ['t', 'r', 'u', 'e']
  | .bool false => ['f', 'a', 'l', 's', 'e']
  | .int i => intText i
  | .float f => f.text
  | .str s => encodeString s
  | .arr [] => ['[', ']']
  | .arr (v :: rest) => '[' :: (encode v ++ encodeItems rest)
  | .obj [] => ['{', '}']
  | .obj ((k, v) :: rest) =>
      '{' :: (encodeString k ++ ':' :: (encode v ++ encodeMembers rest))

def encodeItems : List Json → List Char
  | [] => [']']
  | v :: rest => ',' :: (encode v ++ encodeItems rest)

def encodeMembers : List (String × Json) → List Char
  | [] => ['}']
  | (k, v) :: rest =>
      ',' :: (encodeString k ++ ':' :: (encode v ++ encodeMembers rest))

end

mutual

/-- The value with every object, at any depth, in key order. -/
@[simp] def sortKeys : Json → Json
  | .null => .null
  | .bool b => .bool b
  | .int i => .int i
  | .float f => .float f
  | .str s => .str s
  | .arr items => .arr (sortKeysItems items)
  | .obj members =>
      .obj ((sortKeysMembers members).insertionSort (fun a b => a.1 ≤ b.1))

@[simp] def sortKeysItems : List Json → List Json
  | [] => []
  | v :: rest => sortKeys v :: sortKeysItems rest

@[simp] def sortKeysMembers : List (String × Json) → List (String × Json)
  | [] => []
  | (k, v) :: rest => (k, sortKeys v) :: sortKeysMembers rest

end

def canonical (v : Json) : String := String.ofList (encode (sortKeys v))

/-- Equality of JSON values: the order of an object's members is no part of
the value, so two values are the same when their key-sorted forms are. -/
def Same (v w : Json) : Prop := sortKeys v = sortKeys w

theorem sortKeysItems_eq_map (items : List Json) : sortKeysItems items = items.map sortKeys := by
  induction items with
  | nil => rfl
  | cons v rest ih => simp [sortKeysItems, ih]

theorem sortKeysMembers_eq_map (members : List (String × Json)) :
    sortKeysMembers members = members.map (fun m => (m.1, sortKeys m.2)) := by
  induction members with
  | nil => rfl
  | cons m rest ih =>
    obtain ⟨k, v⟩ := m
    simp [sortKeysMembers, ih]

section Members

open OrderedDict

theorem get?_orderedInsert (entry : String × Json) (l : Dict String Json) (key : String) :
    Dict.get? (l.orderedInsert (fun a b => a.1 ≤ b.1) entry) key = Dict.get? (entry :: l) key := by
  induction l with
  | nil => rfl
  | cons first rest ih =>
    obtain ⟨k, v⟩ := entry
    obtain ⟨k', v'⟩ := first
    by_cases hle : k ≤ k'
    · simp [hle]
    · -- a key that is passed over is smaller than the inserted one
      have hne : k ≠ k' := fun heq => hle (heq ▸ le_refl k)
      simp only [List.orderedInsert, hle, if_false, Dict.get?_cons, ih]
      by_cases hk : k = key
      · subst hk
        simp [hne.symm]
      · simp [hk]

/-- Sorting the members of an object does not change what a key stands for. -/
theorem get?_sortKeys (config : Dict String Json) (key : String) :
    Dict.get? ((sortKeysMembers config).insertionSort (fun a b => a.1 ≤ b.1)) key =
      (config.get? key).map sortKeys := by
  induction config with
  | nil => rfl
  | cons entry rest ih =>
    obtain ⟨k, v⟩ := entry
    rw [sortKeysMembers, List.insertionSort_cons, get?_orderedInsert, Dict.get?_cons, ih,
      Dict.get?_cons]
    split_ifs <;> rfl

theorem same_obj_get? {config config' : Dict String Json} (h : Same (.obj config) (.obj config'))
    (key : String) : (config.get? key).map sortKeys = (config'.get? key).map sortKeys := by
  have hsorted : (sortKeysMembers config).insertionSort (fun a b => a.1 ≤ b.1) =
      (sortKeysMembers config').insertionSort (fun a b => a.1 ≤ b.1) := Json.obj.inj h
  rw [← get?_sortKeys, ← get?_sortKeys, hsorted]

end Members

variable {c : Char} {x y : List Char} {s t : String}

section Strings

def hexValue (c : Char) : ℕ := if c.isDigit then c.toNat - 48 else c.toNat - 87

private theorem hexValue_digitChar (d : ℕ) (hd : d < 16) : hexValue (Nat.digitChar d) = d := by
  interval_cases d <;> decide

def hexNumber (a b c d : Char) : ℕ :=
  hexValue a * 4096 + hexValue b * 256 + hexValue c * 16 + hexValue d

theorem hexNumber_hexDigits (n : ℕ) (hn : n < 65536) :
    hexNumber (Nat.digitChar (n / 4096 % 16)) (Nat.digitChar (n / 256 % 16))
      (Nat.digitChar (n / 16 % 16)) (Nat.digitChar (n % 16)) = n := by
  simp only [hexNumber]
  rw [hexValue_digitChar _ (Nat.mod_lt _ (by omega)),
    hexValue_digitChar _ (Nat.mod_lt _ (by omega)),
    hexValue_digitChar _ (Nat.mod_lt _ (by omega)),
    hexValue_digitChar _ (Nat.mod_lt _ (by omega))]
  omega

/-- Reads back one escaped character. It serves as the left inverse that
makes escaping injective; a low surrogate is only read after a high one. -/
def unescape : List Char → Option (Char × List Char)
  | '\\' :: 'u' :: a :: b :: c :: d :: rest =>
      let n := hexNumber a b c d
      if 55296 ≤ n ∧ n < 56320 then
        match rest with
        | '\\' :: 'u' :: a' :: b' :: c' :: d' :: rest' =>
            some (Char.ofNat (65536 + (n - 55296) * 1024 + (hexNumber a' b' c' d' - 56320)), rest')
        | _ => none
      else some (Char.ofNat n, rest)
  | '\\' :: '"' :: rest => some ('"', rest)
  | '\\' :: '\\' :: rest => some ('\\', rest)
  | '\\' :: 'n' :: rest => some ('\n', rest)
  | '\\' :: 'r' :: rest => some ('\r', rest)
  | '\\' :: 't' :: rest => some ('\t', rest)
  | '\\' :: 'f' :: rest => some ('\x0c', rest)
  | '\\' :: 'b' :: rest => some ('\x08', rest)
  | '\\' :: _ => none
  | c :: rest => some (c, rest)
  | [] => none

private theorem toNat_not_surrogate (c : Char) :
    c.toNat < 55296 ∨ (57343 < c.toNat ∧ c.toNat < 1114112) := c.valid

private theorem unescape_unicodeEscape (n : ℕ) (rest : List Char) (hn : n < 65536)
    (hs : ¬ (55296 ≤ n ∧ n < 56320)) :
    unescape (unicodeEscape n ++ rest) = some (Char.ofNat n, rest) := by
  simp only [unicodeEscape, hexDigits, List.cons_append, List.nil_append, unescape,
    hexNumber_hexDigits n hn, hs, ↓reduceIte]

private theorem unescape_surrogatePair (h l : ℕ) (rest : List Char)
    (hh : h < 1024) (hl : l < 1024) :
    unescape (unicodeEscape (55296 + h) ++ unicodeEscape (56320 + l) ++ rest) =
      some (Char.ofNat (65536 + h * 1024 + l), rest) := by
  have hhigh : 55296 ≤ 55296 + h ∧ 55296 + h < 56320 := by omega
  simp only [unicodeEscape, hexDigits, List.cons_append, List.nil_append, unescape,
    hexNumber_hexDigits (55296 + h) (by omega), hhigh, and_self, ↓reduceIte,
    hexNumber_hexDigits (56320 + l) (by omega)]
  have hsum : 65536 + (55296 + h - 55296) * 1024 + (56320 + l - 56320) =
      65536 + h * 1024 + l := by omega
  rw [hsum]

theorem unescape_escapeChar (c : Char) (rest : List Char) :
    unescape (escapeChar c ++ rest) = some (c, rest) := by
  unfold escapeChar
  split_ifs with h1 h2 h3 h4 h5 h6 h7 h8 h9
  · subst c; rfl
  · subst c; rfl
  · subst c; rfl
  · subst c; rfl
  · subst c; rfl
  · subst c; rfl
  · subst c; rfl
  · simp only [List.cons_append, List.nil_append]
    unfold unescape
    split <;> simp_all
  · have hs := toNat_not_surrogate c
    rw [unescape_unicodeEscape c.toNat rest h9 (by omega), Char.ofNat_toNat]
  · have hs := toNat_not_surrogate c
    rw [unescape_surrogatePair _ _ rest (by omega) (by omega)]
    have hsum : 65536 + (c.toNat - 65536) / 1024 * 1024 + (c.toNat - 65536) % 1024 =
        c.toNat := by omega
    rw [hsum, Char.ofNat_toNat]

theorem escapeChar_append_injective {d : Char} (h : escapeChar c ++ x = escapeChar d ++ y) :
    c = d ∧ x = y := by
  have hc := unescape_escapeChar c x
  rw [h, unescape_escapeChar d y] at hc
  simpa [eq_comm] using hc

theorem escapeChar_head_ne_quote (c : Char) (x y : List Char) : escapeChar c ++ x ≠ '"' :: y := by
  unfold escapeChar
  split_ifs with h1 <;> simp [unicodeEscape, h1]

private theorem flatMap_escapeChar_injective (l m : List Char) (x y : List Char)
    (h : l.flatMap escapeChar ++ '"' :: x = m.flatMap escapeChar ++ '"' :: y) : l = m ∧ x = y := by
  induction l generalizing m with
  | nil =>
    cases m with
    | nil => simpa using h
    | cons d m =>
      simp only [List.flatMap_nil, List.nil_append, List.flatMap_cons, List.append_assoc] at h
      exact absurd h.symm (escapeChar_head_ne_quote d _ _)
  | cons c l ih =>
    cases m with
    | nil =>
      simp only [List.flatMap_nil, List.nil_append, List.flatMap_cons, List.append_assoc] at h
      exact absurd h (escapeChar_head_ne_quote c _ _)
    | cons d m =>
      simp only [List.flatMap_cons, List.append_assoc] at h
      obtain ⟨rfl, htail⟩ := escapeChar_append_injective h
      obtain ⟨rfl, hxy⟩ := ih m htail
      exact ⟨rfl, hxy⟩

/-- A quoted string ends at its closing quote, whatever follows. -/
theorem encodeString_append_injective (h : encodeString s ++ x = encodeString t ++ y) :
    s = t ∧ x = y := by
  simp only [encodeString, List.cons_append, List.append_assoc, List.nil_append,
    List.cons.injEq, true_and] at h
  obtain ⟨hst, hxy⟩ := flatMap_escapeChar_injective _ _ _ _ h
  exact ⟨String.toList_injective hst, hxy⟩

end Strings

variable {i j : Int}

section Numbers

theorem intText_numeric (i : Int) : ∀ c ∈ intText i, isNumberChar c ∧ isFloatMark c = false := by
  have hdigits : ∀ n : ℕ, ∀ c ∈ Nat.toDigits 10 n, isNumberChar c ∧ isFloatMark c = false := by
    intro n c hc
    have hd : c.isDigit := Nat.isDigit_of_mem_toDigits (by omega) (by omega) hc
    refine ⟨by simp [isNumberChar, hd], ?_⟩
    by_contra hmark
    simp only [isFloatMark, List.mem_cons, List.not_mem_nil, or_false, decide_eq_false_iff_not,
      not_not] at hmark
    rcases hmark with rfl | rfl | rfl | rfl <;> simp at hd
  cases i with
  | ofNat n => exact hdigits n
  | negSucc n =>
    intro c hc
    rcases List.mem_cons.mp hc with rfl | hc
    · simp [isNumberChar, isFloatMark]
    · exact hdigits (n + 1) c hc

private theorem toDigits_injective {m n : ℕ} (h : Nat.toDigits 10 m = Nat.toDigits 10 n) :
    m = n := by
  rw [← Nat.ofDigitChars_ten_toDigits (n := m), h, Nat.ofDigitChars_ten_toDigits]

private theorem minus_notMem_toDigits (n : ℕ) (rest : List Char) :
    Nat.toDigits 10 n ≠ '-' :: rest := by
  intro h
  have hd : ('-' : Char).isDigit :=
    Nat.isDigit_of_mem_toDigits (b := 10) (n := n) (by omega) (by omega) (by simp [h])
  simp at hd

theorem intText_injective (h : intText i = intText j) : i = j := by
  cases i with
  | ofNat m =>
    cases j with
    | ofNat n => exact congrArg Int.ofNat (toDigits_injective h)
    | negSucc n => exact absurd h (minus_notMem_toDigits m _)
  | negSucc m =>
    cases j with
    | ofNat n => exact absurd h.symm (minus_notMem_toDigits n _)
    | negSucc n =>
      have hmn := toDigits_injective (List.cons.inj h).2
      have : m = n := by omega
      rw [this]

theorem intText_ne_floatText (i : Int) (f : FloatLiteral) : intText i ≠ f.text := by
  intro h
  have hi := intText_numeric i
  rw [h] at hi
  obtain ⟨c, hc, hmark⟩ := f.marked
  rw [(hi c hc).2] at hmark
  simp at hmark

theorem intText_head (i : Int) : ∃ c rest, intText i = c :: rest ∧ startsNumber c := by
  cases i with
  | ofNat n =>
    cases hd : Nat.toDigits 10 n with
    | nil => exact absurd hd Nat.toDigits_ne_nil
    | cons c rest =>
      have hdigit : c.isDigit :=
        Nat.isDigit_of_mem_toDigits (b := 10) (n := n) (by omega) (by omega) (by simp [hd])
      exact ⟨c, rest, hd, by simp [startsNumber, hdigit]⟩
  | negSucc n => exact ⟨'-', _, rfl, by simp [startsNumber]⟩

end Numbers

/-- What can follow a complete value inside a text. -/
def Delimited (rest : List Char) : Prop :=
  rest = [] ∨ ∃ c tail, rest = c :: tail ∧ c ∈ [',', ']', '}']

private theorem delimited_head {rest : List Char} (h : Delimited (c :: rest)) :
    isNumberChar c = false := by
  rcases h with h | ⟨d, tail, heq, hd⟩
  · simp at h
  · obtain ⟨rfl, rfl⟩ := List.cons.inj heq
    simp only [List.mem_cons, List.not_mem_nil, or_false] at hd
    rcases hd with rfl | rfl | rfl <;> decide

/-- A number token runs up to the delimiter. -/
theorem numberToken_unique {t u : List Char} (ht : ∀ c ∈ t, isNumberChar c)
    (hu : ∀ c ∈ u, isNumberChar c) (hx : Delimited x) (hy : Delimited y) (h : t ++ x = u ++ y) :
    t = u ∧ x = y := by
  induction t generalizing u with
  | nil =>
    cases u with
    | nil => simpa using h
    | cons d u =>
      simp only [List.nil_append, List.cons_append] at h
      have hd := hu d (List.mem_cons_self ..)
      rw [delimited_head (h ▸ hx)] at hd
      simp at hd
  | cons c t ih =>
    cases u with
    | nil =>
      simp only [List.nil_append, List.cons_append] at h
      have hc := ht c (List.mem_cons_self ..)
      rw [delimited_head (h ▸ hy)] at hc
      simp at hc
    | cons d u =>
      obtain ⟨rfl, htail⟩ := List.cons.inj h
      obtain ⟨rfl, hxy⟩ := ih (fun e he => ht e (List.mem_cons_of_mem _ he))
        (fun e he => hu e (List.mem_cons_of_mem _ he)) htail
      exact ⟨rfl, hxy⟩

/-- The syntactic class a value's first character announces. -/
def shape : Json → ℕ
  | .null => 0
  | .bool true => 1
  | .bool false => 2
  | .int _ => 3
  | .float _ => 3
  | .str _ => 4
  | .arr _ => 5
  | .obj _ => 6

def headShape (c : Char) : ℕ :=
  if c = 'n' then 0 else if c = 't' then 1 else if c = 'f' then 2
  else if c = '"' then 4 else if c = '[' then 5 else if c = '{' then 6
  else if c = ']' then 7 else 3

private theorem headShape_number (h : startsNumber c) : headShape c = 3 := by
  unfold headShape
  split_ifs <;> simp_all [startsNumber]

theorem encode_head (v : Json) : ∃ c rest, encode v = c :: rest ∧ headShape c = shape v := by
  cases v with
  | null => exact ⟨_, _, rfl, rfl⟩
  | bool b => cases b <;> exact ⟨_, _, rfl, rfl⟩
  | int i =>
    obtain ⟨c, rest, heq, hc⟩ := intText_head i
    exact ⟨c, rest, by simpa [encode] using heq, headShape_number hc⟩
  | float f =>
    obtain ⟨c, rest, heq, hc⟩ := f.start
    exact ⟨c, rest, by simpa [encode] using heq, headShape_number hc⟩
  | str s => exact ⟨'"', _, by rw [encode, encodeString], rfl⟩
  | arr items => cases items <;> exact ⟨'[', _, by rw [encode], rfl⟩
  | obj members =>
    cases members with
    | nil => exact ⟨'{', _, by rw [encode], rfl⟩
    | cons m rest =>
      obtain ⟨k, v⟩ := m
      exact ⟨'{', _, by rw [encode], rfl⟩

variable {v w : Json}

theorem shape_eq_of_append_eq (h : encode v ++ x = encode w ++ y) : shape v = shape w := by
  obtain ⟨c, rest, hv, hc⟩ := encode_head v
  obtain ⟨d, rest', hw, hd⟩ := encode_head w
  rw [hv, hw] at h
  obtain ⟨rfl, -⟩ := List.cons.inj h
  rw [← hc, ← hd]

private theorem encode_head_ne_bracket (v : Json) (x y : List Char) : encode v ++ x ≠ ']' :: y := by
  intro h
  obtain ⟨c, rest, hv, hc⟩ := encode_head v
  rw [hv] at h
  cases h
  have hle : shape v ≤ 6 := by
    unfold shape
    split <;> omega
  have hbracket : headShape ']' = 7 := by decide
  omega

theorem delimited_items (items : List Json) (x : List Char) :
    Delimited (encodeItems items ++ x) := by
  cases items with
  | nil => exact Or.inr ⟨']', x, rfl, by simp⟩
  | cons v rest =>
    exact Or.inr ⟨',', _, by rw [encodeItems]; exact List.cons_append .., by simp⟩

theorem delimited_members (members : List (String × Json)) (x : List Char) :
    Delimited (encodeMembers members ++ x) := by
  cases members with
  | nil => exact Or.inr ⟨'}', x, rfl, by simp⟩
  | cons m rest =>
    obtain ⟨k, v⟩ := m
    exact Or.inr ⟨',', _, by rw [encodeMembers]; exact List.cons_append .., by simp⟩

mutual

/-- The text of a value and its delimiter determine the value and the rest.
Induction on the value; lists are closed by their bracket and need no
delimiter of their own. -/
theorem encode_append_injective (v w : Json) (x y : List Char)
    (hx : Delimited x) (hy : Delimited y) (h : encode v ++ x = encode w ++ y) : v = w ∧ x = y := by
  have hshape := shape_eq_of_append_eq h
  match v, w with
  | .null, .null => simpa [encode] using h
  | .bool true, .bool true => simpa [encode] using h
  | .bool false, .bool false => simpa [encode] using h
  | .int i, .int j =>
    simp only [encode] at h
    obtain ⟨hij, hxy⟩ := numberToken_unique (fun c hc => (intText_numeric i c hc).1)
      (fun c hc => (intText_numeric j c hc).1) hx hy h
    exact ⟨congrArg Json.int (intText_injective hij), hxy⟩
  | .int i, .float f =>
    simp only [encode] at h
    obtain ⟨hif, -⟩ := numberToken_unique (fun c hc => (intText_numeric i c hc).1)
      f.numeric hx hy h
    exact absurd hif (intText_ne_floatText i f)
  | .float f, .int i =>
    simp only [encode] at h
    obtain ⟨hif, -⟩ := numberToken_unique f.numeric
      (fun c hc => (intText_numeric i c hc).1) hx hy h
    exact absurd hif.symm (intText_ne_floatText i f)
  | .float f, .float g =>
    simp only [encode] at h
    obtain ⟨hfg, hxy⟩ := numberToken_unique f.numeric g.numeric hx hy h
    cases f
    cases g
    simp only at hfg
    subst hfg
    exact ⟨rfl, hxy⟩
  | .str s, .str t =>
    simp only [encode] at h
    obtain ⟨rfl, hxy⟩ := encodeString_append_injective h
    exact ⟨rfl, hxy⟩
  | .arr [], .arr [] => simpa [encode] using h
  | .arr [], .arr (w :: rest) =>
    simp only [encode, List.cons_append, List.nil_append, List.append_assoc,
      List.cons.injEq, true_and] at h
    exact absurd h.symm (encode_head_ne_bracket w _ _)
  | .arr (v :: rest), .arr [] =>
    simp only [encode, List.cons_append, List.nil_append, List.append_assoc,
      List.cons.injEq, true_and] at h
    exact absurd h (encode_head_ne_bracket v _ _)
  | .arr (v :: items), .arr (w :: items') =>
    simp only [encode, List.cons_append, List.append_assoc, List.cons.injEq, true_and] at h
    obtain ⟨rfl, htail⟩ := encode_append_injective v w _ _
      (delimited_items items x) (delimited_items items' y) h
    obtain ⟨rfl, hxy⟩ := encodeItems_append_injective items items' x y htail
    exact ⟨rfl, hxy⟩
  | .obj [], .obj [] => simpa [encode] using h
  | .obj [], .obj ((k, w) :: rest) => simp [encode, encodeString] at h
  | .obj ((k, v) :: rest), .obj [] => simp [encode, encodeString] at h
  | .obj ((k, v) :: members), .obj ((l, w) :: members') =>
    simp only [encode, List.cons_append, List.append_assoc, List.cons.injEq, true_and] at h
    obtain ⟨rfl, hvalue⟩ := encodeString_append_injective h
    simp only [List.cons.injEq, true_and] at hvalue
    obtain ⟨rfl, htail⟩ := encode_append_injective v w _ _
      (delimited_members members x) (delimited_members members' y) hvalue
    obtain ⟨rfl, hxy⟩ := encodeMembers_append_injective members members' x y htail
    exact ⟨rfl, hxy⟩

theorem encodeItems_append_injective (items items' : List Json) (x y : List Char)
    (h : encodeItems items ++ x = encodeItems items' ++ y) : items = items' ∧ x = y := by
  match items, items' with
  | [], [] => simpa [encodeItems] using h
  | [], w :: rest => simp [encodeItems] at h
  | v :: rest, [] => simp [encodeItems] at h
  | v :: rest, w :: rest' =>
    simp only [encodeItems, List.cons_append, List.append_assoc, List.cons.injEq, true_and] at h
    obtain ⟨rfl, htail⟩ := encode_append_injective v w _ _
      (delimited_items rest x) (delimited_items rest' y) h
    obtain ⟨rfl, hxy⟩ := encodeItems_append_injective rest rest' x y htail
    exact ⟨rfl, hxy⟩

theorem encodeMembers_append_injective (members members' : List (String × Json))
    (x y : List Char) (h : encodeMembers members ++ x = encodeMembers members' ++ y) :
    members = members' ∧ x = y := by
  match members, members' with
  | [], [] => simpa [encodeMembers] using h
  | [], (k, w) :: rest => simp [encodeMembers] at h
  | (k, v) :: rest, [] => simp [encodeMembers] at h
  | (k, v) :: rest, (l, w) :: rest' =>
    simp only [encodeMembers, List.cons_append, List.append_assoc, List.cons.injEq, true_and] at h
    obtain ⟨rfl, hvalue⟩ := encodeString_append_injective h
    simp only [List.cons.injEq, true_and] at hvalue
    obtain ⟨rfl, htail⟩ := encode_append_injective v w _ _
      (delimited_members rest x) (delimited_members rest' y) hvalue
    obtain ⟨rfl, hxy⟩ := encodeMembers_append_injective rest rest' x y htail
    exact ⟨rfl, hxy⟩

end

theorem encode_injective (h : encode v = encode w) : v = w :=
  (encode_append_injective v w [] [] (Or.inl rfl) (Or.inl rfl) (by simpa using h)).1

theorem same_of_canonical_eq (h : canonical v = canonical w) : Same v w :=
  encode_injective (String.ofList_injective h)

variable {m m' : List (String × Json)}

section Sameness

theorem same_str : Same (.str s) (.str t) ↔ s = t := by simp [Same, sortKeys]

theorem same_int : Same (.int i) (.int j) ↔ i = j := by simp [Same, sortKeys]

theorem same_bool {a b : Bool} : Same (.bool a) (.bool b) ↔ a = b := by simp [Same, sortKeys]

theorem same_arr {xs ys : List Json} : Same (.arr xs) (.arr ys) ↔ List.Forall₂ Same xs ys := by
  simp only [Same, sortKeys, Json.arr.injEq, sortKeysItems_eq_map]
  rw [← List.forall₂_eq_eq_eq, List.forall₂_map_left_iff, List.forall₂_map_right_iff]
  rfl

/-- The members of one object, in some order, are those of the other. -/
theorem same_obj_perm (h : Same (.obj m) (.obj m')) :
    (m.map (fun e => (e.1, sortKeys e.2))).Perm (m'.map (fun e => (e.1, sortKeys e.2))) := by
  simp only [Same, sortKeys, Json.obj.injEq, sortKeysMembers_eq_map] at h
  have hleft := List.perm_insertionSort (fun a b : String × Json => a.1 ≤ b.1)
    (m.map (fun e => (e.1, sortKeys e.2)))
  have hright := List.perm_insertionSort (fun a b : String × Json => a.1 ≤ b.1)
    (m'.map (fun e => (e.1, sortKeys e.2)))
  exact hleft.symm.trans (h ▸ hright)

theorem same_obj_member (h : Same (.obj m) (.obj m')) {k : String} {v : Json} (hv : (k, v) ∈ m) :
    ∃ v', (k, v') ∈ m' ∧ Same v v' := by
  have hmem : (k, sortKeys v) ∈ m'.map (fun e => (e.1, sortKeys e.2)) :=
    (same_obj_perm h).mem_iff.mp (List.mem_map.mpr ⟨(k, v), hv, rfl⟩)
  obtain ⟨⟨k', v'⟩, hv', heq⟩ := List.mem_map.mp hmem
  obtain ⟨rfl, hsame⟩ := Prod.mk.inj heq
  exact ⟨v', hv', hsame.symm⟩

theorem Same.symm {v w : Json} (h : Same v w) : Same w v := Eq.symm h

end Sameness

end Grafy.CanonicalJson
