import Grafy.CanonicalJson

/-!
The JSON text in which only quotes, backslashes and control characters are
escaped, and the values it is written for. Turning every other character of it
into its escape gives the canonical writing, so this text too determines its
value. A value is looked at node by node: a property holds everywhere in it, its
floats are exchanged, its nesting is counted.
-/
namespace Grafy.JsonTexts

open CanonicalJson

def escapeText (c : Char) : List Char :=
  if c = '"' then ['\\', '"']
  else if c = '\\' then ['\\', '\\']
  else if c = '\n' then ['\\', 'n']
  else if c = '\r' then ['\\', 'r']
  else if c = '\t' then ['\\', 't']
  else if c = '\x0c' then ['\\', 'f']
  else if c = '\x08' then ['\\', 'b']
  else if c.toNat < 32 then unicodeEscape c.toNat
  else [c]

def textString (s : String) : List Char := '"' :: (s.toList.flatMap escapeText ++ ['"'])

mutual

/-- The text, with compact separators. -/
def encodeText : Json → List Char
  | .null => ['n', 'u', 'l', 'l']
  | .bool true => ['t', 'r', 'u', 'e']
  | .bool false => ['f', 'a', 'l', 's', 'e']
  | .int i => intText i
  | .float f => f.text
  | .str s => textString s
  | .arr [] => ['[', ']']
  | .arr (v :: rest) => '[' :: (encodeText v ++ encodeTextItems rest)
  | .obj [] => ['{', '}']
  | .obj ((k, v) :: rest) =>
      '{' :: (textString k ++ ':' :: (encodeText v ++ encodeTextMembers rest))

def encodeTextItems : List Json → List Char
  | [] => [']']
  | v :: rest => ',' :: (encodeText v ++ encodeTextItems rest)

def encodeTextMembers : List (String × Json) → List Char
  | [] => ['}']
  | (k, v) :: rest =>
      ',' :: (textString k ++ ':' :: (encodeText v ++ encodeTextMembers rest))

end

section Ascii

/-- What is left to escape: a character outside ASCII, and the delete character. -/
def asciiChar (c : Char) : List Char :=
  if c.toNat ≤ 126 then [c]
  else if c.toNat < 65536 then unicodeEscape c.toNat
  else unicodeEscape (55296 + (c.toNat - 65536) / 1024) ++
    unicodeEscape (56320 + (c.toNat - 65536) % 1024)

theorem asciiChar_ascii {c : Char} (h : c.toNat ≤ 126) : asciiChar c = [c] := if_pos h

theorem flatMap_asciiChar {l : List Char} (h : ∀ c ∈ l, c.toNat ≤ 126) :
    l.flatMap asciiChar = l := by
  induction l with
  | nil => rfl
  | cons c l ih =>
    rw [List.flatMap_cons, asciiChar_ascii (h c List.mem_cons_self),
      ih (fun d hd => h d (List.mem_cons_of_mem _ hd))]
    rfl

theorem digitChar_ascii (n : ℕ) : (Nat.digitChar (n % 16)).toNat ≤ 126 := by
  have hdigits : ∀ k < 16, (Nat.digitChar k).toNat ≤ 126 := by decide
  exact hdigits _ (Nat.mod_lt _ (by omega))

theorem unicodeEscape_ascii (n : ℕ) : ∀ c ∈ unicodeEscape n, c.toNat ≤ 126 := by
  intro c hc
  simp only [unicodeEscape, hexDigits, List.mem_cons, List.not_mem_nil, or_false] at hc
  rcases hc with rfl | rfl | rfl | rfl | rfl | rfl
  · decide
  · decide
  all_goals exact digitChar_ascii _

theorem isNumberChar_ascii {c : Char} (h : isNumberChar c) : c.toNat ≤ 126 := by
  simp only [isNumberChar, Bool.or_eq_true, List.mem_cons, List.not_mem_nil, or_false,
    decide_eq_true_eq] at h
  rcases h with hdigit | h
  · have hle : c.toNat ≤ 57 := (Char.isDigit_iff_toNat.mp hdigit).2
    exact hle.trans (by decide)
  · rcases h with rfl | rfl | rfl | rfl | rfl | rfl | rfl | rfl | rfl | rfl | rfl | rfl <;> decide

theorem escapeText_ascii (c : Char) : (escapeText c).flatMap asciiChar = escapeChar c := by
  by_cases hspecial : c ∈ ['"', '\\', '\n', '\r', '\t', '\x0c', '\x08']
  · simp only [List.mem_cons, List.not_mem_nil, or_false] at hspecial
    rcases hspecial with rfl | rfl | rfl | rfl | rfl | rfl | rfl <;> rfl
  · simp only [List.mem_cons, List.not_mem_nil, or_false, not_or] at hspecial
    obtain ⟨hquote, hback, hline, hreturn, htab, hfeed, hbell⟩ := hspecial
    have hcases : escapeText c = if c.toNat < 32 then unicodeEscape c.toNat else [c] := by
      simp only [escapeText, hquote, hback, hline, hreturn, htab, hfeed, hbell, if_false]
    rw [hcases]
    simp only [escapeChar, hquote, hback, hline, hreturn, htab, hfeed, hbell, if_false]
    by_cases hcontrol : c.toNat < 32
    · rw [if_pos hcontrol, flatMap_asciiChar (unicodeEscape_ascii _), if_neg (by omega),
        if_pos (by omega)]
    · rw [if_neg hcontrol, List.flatMap_singleton]
      unfold asciiChar
      by_cases hascii : c.toNat ≤ 126
      · rw [if_pos hascii, if_pos ⟨by omega, hascii⟩]
      · simp only [hascii, and_false, if_false]

theorem flatMap_escapeText_ascii (l : List Char) :
    (l.flatMap escapeText).flatMap asciiChar = l.flatMap escapeChar := by
  induction l with
  | nil => rfl
  | cons c l ih =>
    rw [List.flatMap_cons, List.flatMap_append, escapeText_ascii, ih, List.flatMap_cons]

theorem textString_ascii (s : String) : (textString s).flatMap asciiChar = encodeString s := by
  have hquote : asciiChar '"' = ['"'] := rfl
  simp only [textString, encodeString, List.flatMap_cons, List.flatMap_append, List.flatMap_nil,
    flatMap_escapeText_ascii, hquote, List.singleton_append, List.append_nil]

theorem intText_ascii (i : Int) : (intText i).flatMap asciiChar = intText i :=
  flatMap_asciiChar (fun c hc => isNumberChar_ascii (intText_numeric i c hc).1)

theorem floatText_ascii (f : FloatLiteral) : f.text.flatMap asciiChar = f.text :=
  flatMap_asciiChar (fun c hc => isNumberChar_ascii (f.numeric c hc))

mutual

/-- Escaping what is left gives the writing with every character outside ASCII escaped. -/
theorem encodeText_ascii (v : Json) : (encodeText v).flatMap asciiChar = encode v := by
  match v with
  | .null => rfl
  | .bool true => rfl
  | .bool false => rfl
  | .int i => rw [encodeText, encode, intText_ascii]
  | .float f => rw [encodeText, encode, floatText_ascii]
  | .str s => rw [encodeText, encode, textString_ascii]
  | .arr [] => rfl
  | .arr (v :: rest) =>
    have hbracket : asciiChar '[' = ['['] := rfl
    simp only [encodeText, encode, List.flatMap_cons, List.flatMap_append, hbracket,
      List.singleton_append, encodeText_ascii v, encodeTextItems_ascii rest]
  | .obj [] => rfl
  | .obj ((k, v) :: rest) =>
    have hbrace : asciiChar '{' = ['{'] := rfl
    have hcolon : asciiChar ':' = [':'] := rfl
    simp only [encodeText, encode, List.flatMap_cons, List.flatMap_append, hbrace, hcolon,
      List.singleton_append, textString_ascii, encodeText_ascii v, encodeTextMembers_ascii rest]

theorem encodeTextItems_ascii (items : List Json) :
    (encodeTextItems items).flatMap asciiChar = encodeItems items := by
  match items with
  | [] => rfl
  | v :: rest =>
    have hcomma : asciiChar ',' = [','] := rfl
    simp only [encodeTextItems, encodeItems, List.flatMap_cons, List.flatMap_append, hcomma,
      List.singleton_append, encodeText_ascii v, encodeTextItems_ascii rest]

theorem encodeTextMembers_ascii (members : List (String × Json)) :
    (encodeTextMembers members).flatMap asciiChar = encodeMembers members := by
  match members with
  | [] => rfl
  | (k, v) :: rest =>
    have hcomma : asciiChar ',' = [','] := rfl
    have hcolon : asciiChar ':' = [':'] := rfl
    simp only [encodeTextMembers, encodeMembers, List.flatMap_cons, List.flatMap_append, hcomma,
      hcolon, List.singleton_append, textString_ascii, encodeText_ascii v,
      encodeTextMembers_ascii rest]

end

theorem encodeText_injective : Function.Injective encodeText := by
  intro v w h
  apply encode_injective
  rw [← encodeText_ascii, ← encodeText_ascii, h]

end Ascii

section Nodes

mutual

/-- The property holds of the value and of every value in it. -/
@[simp] def everywhere (p : Json → Bool) : Json → Bool
  | .null => p .null
  | .bool b => p (.bool b)
  | .int i => p (.int i)
  | .float f => p (.float f)
  | .str s => p (.str s)
  | .arr items => p (.arr items) && everywhereItems p items
  | .obj members => p (.obj members) && everywhereMembers p members

@[simp] def everywhereItems (p : Json → Bool) : List Json → Bool
  | [] => true
  | v :: rest => everywhere p v && everywhereItems p rest

@[simp] def everywhereMembers (p : Json → Bool) : List (String × Json) → Bool
  | [] => true
  | (_, v) :: rest => everywhere p v && everywhereMembers p rest

end

mutual

/-- How deep arrays and objects lie in each other. A reader does not go into an empty one. -/
@[simp] def nesting : Json → ℕ
  | .arr [] => 0
  | .arr (v :: rest) => max (nesting v) (nestingItems rest) + 1
  | .obj [] => 0
  | .obj ((_, v) :: rest) => max (nesting v) (nestingMembers rest) + 1
  | _ => 0

@[simp] def nestingItems : List Json → ℕ
  | [] => 0
  | v :: rest => max (nesting v) (nestingItems rest)

@[simp] def nestingMembers : List (String × Json) → ℕ
  | [] => 0
  | (_, v) :: rest => max (nesting v) (nestingMembers rest)

end

mutual

/-- The value with every float exchanged. -/
@[simp] def mapFloats (g : FloatLiteral → Json) : Json → Json
  | .null => .null
  | .bool b => .bool b
  | .int i => .int i
  | .float f => g f
  | .str s => .str s
  | .arr items => .arr (mapFloatsItems g items)
  | .obj members => .obj (mapFloatsMembers g members)

@[simp] def mapFloatsItems (g : FloatLiteral → Json) : List Json → List Json
  | [] => []
  | v :: rest => mapFloats g v :: mapFloatsItems g rest

@[simp] def mapFloatsMembers (g : FloatLiteral → Json) : List (String × Json) → List (String × Json)
  | [] => []
  | (k, v) :: rest => (k, mapFloats g v) :: mapFloatsMembers g rest

end

variable (g h : FloatLiteral → Json)

theorem mapFloatsMembers_eq_map (members : List (String × Json)) :
    mapFloatsMembers g members = members.map (fun m => (m.1, mapFloats g m.2)) := by
  induction members with
  | nil => rfl
  | cons m rest ih =>
    obtain ⟨k, v⟩ := m
    rw [mapFloatsMembers, ih, List.map_cons]

theorem keys_mapFloatsMembers (members : List (String × Json)) :
    (mapFloatsMembers g members).map Prod.fst = members.map Prod.fst := by
  rw [mapFloatsMembers_eq_map, List.map_map]
  rfl

theorem mapFloatsItems_eq_map (items : List Json) :
    mapFloatsItems g items = items.map (mapFloats g) := by
  induction items with
  | nil => rfl
  | cons v rest ih => rw [mapFloatsItems, ih, List.map_cons]

theorem mapFloats_comp (v : Json) :
    mapFloats g (mapFloats h v) = mapFloats (fun f => mapFloats g (h f)) v := by
  induction v using Json.induct with
  | arr items ih =>
    simp only [mapFloats, mapFloatsItems_eq_map, List.map_map]
    exact congrArg _ (List.map_congr_left ih)
  | obj members ih =>
    simp only [mapFloats, mapFloatsMembers_eq_map, List.map_map]
    exact congrArg _ (List.map_congr_left fun m hm => congrArg (Prod.mk m.1) (ih m hm))
  | _ => rfl

section

variable {p : Json → Bool}

theorem everywhere_arr {items : List Json} :
    everywhere p (.arr items) ↔ p (.arr items) ∧ ∀ v ∈ items, everywhere p v := by
  rw [everywhere, Bool.and_eq_true]
  refine and_congr Iff.rfl ?_
  induction items with
  | nil => simp [everywhereItems]
  | cons v rest ih => rw [everywhereItems, Bool.and_eq_true, ih, List.forall_mem_cons]

theorem everywhere_obj {members : List (String × Json)} :
    everywhere p (.obj members) ↔ p (.obj members) ∧ ∀ m ∈ members, everywhere p m.2 := by
  rw [everywhere, Bool.and_eq_true]
  refine and_congr Iff.rfl ?_
  induction members with
  | nil => simp [everywhereMembers]
  | cons m rest ih => rw [everywhereMembers, Bool.and_eq_true, ih, List.forall_mem_cons]

theorem everywhere_mono {q : Json → Bool} (h : ∀ v, p v → q v) {v : Json}
    (hv : everywhere p v) : everywhere q v := by
  induction v using Json.induct with
  | arr items ih =>
    obtain ⟨hself, hitems⟩ := everywhere_arr.mp hv
    exact everywhere_arr.mpr ⟨h _ hself, fun v hmem => ih v hmem (hitems v hmem)⟩
  | obj members ih =>
    obtain ⟨hself, hmembers⟩ := everywhere_obj.mp hv
    exact everywhere_obj.mpr ⟨h _ hself, fun m hmem => ih m hmem (hmembers m hmem)⟩
  | _ => exact h _ hv

/-- A property that is about neither floats nor the floats in arrays and objects. -/
theorem everywhere_mapFloats {g : FloatLiteral → Json}
    (hfloat : ∀ f, everywhere p (g f) = p (.float f))
    (harr : ∀ items, p (.arr (mapFloatsItems g items)) = p (.arr items))
    (hobj : ∀ members, p (.obj (mapFloatsMembers g members)) = p (.obj members)) (v : Json) :
    everywhere p (mapFloats g v) = everywhere p v := by
  induction v using Json.induct with
  | float f => exact hfloat f
  | arr items ih =>
    rw [mapFloats, Bool.eq_iff_iff, everywhere_arr, everywhere_arr, harr, mapFloatsItems_eq_map,
      List.forall_mem_map]
    exact and_congr_right fun _ => forall₂_congr fun v hv => by rw [ih v hv]
  | obj members ih =>
    rw [mapFloats, Bool.eq_iff_iff, everywhere_obj, everywhere_obj, hobj, mapFloatsMembers_eq_map,
      List.forall_mem_map]
    exact and_congr_right fun _ => forall₂_congr fun m hm => by rw [ih m hm]
  | _ => rfl

end

/-- A dict names each of its keys once. -/
def distinctKeys : Json → Bool
  | .obj members => decide (members.map Prod.fst).Nodup
  | _ => true

def finiteFloat : Json → Bool
  | .float f => f.isFinite
  | _ => true

/-- What JSON keeps of a float. -/
def plainFloat (f : FloatLiteral) : Json := if f.isFinite then .float f else .null

/-- The value with null for every infinity and NaN in it. -/
def plain (v : Json) : Json := mapFloats plainFloat v

theorem plainFloat_eq_iff (f : FloatLiteral) : plainFloat f = .float f ↔ f.isFinite := by
  unfold plainFloat
  split
  · rename_i hfinite
    simp [hfinite]
  · rename_i hfinite
    simp [hfinite]

/-- Nothing is lost exactly where every float is finite. -/
theorem plain_eq_iff (v : Json) : mapFloats plainFloat v = v ↔ everywhere finiteFloat v := by
  induction v using Json.induct with
  | float f => exact plainFloat_eq_iff f
  | arr items ih =>
    have hself := @List.map_eq_map_iff _ _ (mapFloats plainFloat) items id
    rw [List.map_id] at hself
    rw [everywhere_arr, mapFloats, Json.arr.injEq, mapFloatsItems_eq_map, hself]
    exact (forall₂_congr ih).trans (and_iff_right rfl).symm
  | obj members ih =>
    have hself := @List.map_eq_map_iff _ _ (fun m => (m.1, mapFloats plainFloat m.2)) members id
    rw [List.map_id] at hself
    rw [everywhere_obj, mapFloats, Json.obj.injEq, mapFloatsMembers_eq_map, hself]
    refine (forall₂_congr fun m hm => ?_).trans (and_iff_right rfl).symm
    rw [← ih m hm]
    simp [Prod.ext_iff]
  | _ => simp [mapFloats, everywhere, finiteFloat]

theorem nesting_plainFloat (f : FloatLiteral) : nesting (plainFloat f) = 0 := by
  unfold plainFloat
  split <;> rfl

mutual

theorem nesting_plain (v : Json) : nesting (mapFloats plainFloat v) = nesting v := by
  match v with
  | .null => rfl
  | .bool b => rfl
  | .int i => rfl
  | .float f => exact nesting_plainFloat f
  | .str s => rfl
  | .arr [] => rfl
  | .arr (v :: rest) =>
    rw [mapFloats, mapFloatsItems, nesting, nesting, nesting_plain v, nestingItems_plain rest]
  | .obj [] => rfl
  | .obj ((k, v) :: rest) =>
    rw [mapFloats, mapFloatsMembers, nesting, nesting, nesting_plain v, nestingMembers_plain rest]

theorem nestingItems_plain (items : List Json) :
    nestingItems (mapFloatsItems plainFloat items) = nestingItems items := by
  match items with
  | [] => rfl
  | v :: rest =>
    rw [mapFloatsItems, nestingItems, nestingItems, nesting_plain v, nestingItems_plain rest]

theorem nestingMembers_plain (members : List (String × Json)) :
    nestingMembers (mapFloatsMembers plainFloat members) = nestingMembers members := by
  match members with
  | [] => rfl
  | (k, v) :: rest =>
    rw [mapFloatsMembers, nestingMembers, nestingMembers, nesting_plain v,
      nestingMembers_plain rest]

end

theorem keyed_plain {v : Json} (h : everywhere distinctKeys v) :
    everywhere distinctKeys (plain v) := by
  unfold plain
  rw [everywhere_mapFloats]
  · exact h
  · intro f
    unfold plainFloat
    split <;> rfl
  · intro items
    rfl
  · intro members
    simp only [distinctKeys, keys_mapFloatsMembers]

end Nodes

end Grafy.JsonTexts
