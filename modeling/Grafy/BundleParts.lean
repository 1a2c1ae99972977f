import Grafy.TableBundles

/-!
The parts of a bundle. A chunk's path tells its index, and is well formed as
long as six digits are enough. The logical digest, streamed row by row over any
cut into chunks, is that of the JSON text of the whole table. A table keeps its
columns' types when the infinities and NaN in it become null.
-/
namespace Grafy.Tables

open CanonicalJson JsonTexts

/-! Paths -/

section Paths

def indexDigits (index : ℕ) : List Char := (Nat.toDigits 10 index).leftpad 6 '0'

theorem toList_chunkPath (index : ℕ) :
    (chunkPath index).toList = "chunks/".toList ++ indexDigits index ++ ".json".toList := by
  unfold chunkPath indexDigits
  rw [String.toList_ofList]

theorem length_indexDigits (index : ℕ) :
    (indexDigits index).length = max 6 (Nat.toDigits 10 index).length :=
  List.length_leftpad

theorem length_indexDigits_iff (index : ℕ) : (indexDigits index).length = 6 ↔ index < 1000000 := by
  have hlength := Nat.length_toDigits_le_iff (b := 10) (n := index) (k := 6) (by omega) (by omega)
  rw [length_indexDigits]
  omega

theorem isDigit_indexDigits {index : ℕ} {c : Char} (h : c ∈ indexDigits index) : c.isDigit := by
  unfold indexDigits List.leftpad at h
  rcases List.mem_append.mp h with hzero | hdigit
  · rw [(List.mem_replicate.mp hzero).2]
    rfl
  · exact Nat.isDigit_of_mem_toDigits (by omega) (by omega) hdigit

theorem indexDigits_injective : Function.Injective indexDigits := by
  intro index index' h
  have hvalue (n : ℕ) : Nat.ofDigitChars 10 (indexDigits n) 0 = n := by
    unfold indexDigits List.leftpad
    rw [Nat.ofDigitChars_append, Nat.ofDigitChars_replicate_zero, Nat.mul_zero,
      Nat.ofDigitChars_ten_toDigits]
  rw [← hvalue index, h, hvalue]

theorem chunkPath_injective : Function.Injective chunkPath := by
  intro index index' h
  have hlist := congrArg String.toList h
  rw [toList_chunkPath, toList_chunkPath, List.append_assoc, List.append_assoc] at hlist
  exact indexDigits_injective (List.append_left_injective _ (List.append_right_injective _ hlist))

theorem chunkPath_ne_manifestPath (index : ℕ) : chunkPath index ≠ manifestPath := by
  intro h
  have hlist := congrArg String.toList h
  rw [toList_chunkPath] at hlist
  exact absurd (List.cons.inj hlist).1 (by decide)

theorem pathParts_chunkPath (index : ℕ) :
    pathParts (chunkPath index).toList =
      ["chunks".toList, indexDigits index ++ ".json".toList] := by
  have hjoined : (chunkPath index).toList =
      ['/'].intercalate ["chunks".toList, indexDigits index ++ ".json".toList] := by
    rw [toList_chunkPath]
    simp [List.intercalate]
  have hslash : ∀ part ∈ ["chunks".toList, indexDigits index ++ ".json".toList], '/' ∉ part := by
    intro part hpart hmem
    rcases List.mem_cons.mp hpart with rfl | hpart
    · exact absurd hmem (by decide)
    rw [List.mem_singleton.mp hpart] at hmem
    rcases List.mem_append.mp hmem with hdigit | hjson
    · exact absurd (isDigit_indexDigits hdigit) (by decide)
    · exact absurd hjson (by decide)
  have hsuffix (part : List Char) (hpart : part.length ≤ 1) :
      indexDigits index ++ ".json".toList ≠ part := by
    intro h
    have hlength := congrArg List.length h
    have hjson : (".json" : String).toList.length = 5 := rfl
    rw [List.length_append, hjson] at hlength
    omega
  unfold pathParts
  rw [hjoined, List.splitOn_intercalate _ hslash (by simp)]
  have hdot := hsuffix ['.'] (Nat.le_refl 1)
  simp at hdot ⊢
  exact hdot

theorem isChunkName_chunkPath (index : ℕ) :
    isChunkName (chunkPath index).toList = true ↔ index < 1000000 := by
  rw [← length_indexDigits_iff, toList_chunkPath, List.append_assoc]
  have hchunks : ("chunks/" : String).toList.length = 7 := rfl
  have hjson : (".json" : String).toList.length = 5 := rfl
  unfold isChunkName
  rw [List.take_left' hchunks, List.drop_left' hchunks]
  simp only [Bool.and_eq_true, decide_eq_true_eq, List.length_append, hchunks, hjson,
    List.all_eq_true]
  constructor
  · rintro ⟨⟨⟨hlength, -⟩, -⟩, -⟩
    omega
  · intro hlength
    refine ⟨⟨⟨by omega, trivial⟩, ?_⟩, ?_⟩
    · rw [List.take_left' hlength]
      intro c hc
      exact isDigit_indexDigits hc
    · rw [← List.append_assoc]
      exact List.drop_left' (by rw [List.length_append, hchunks, hlength])

/-- Six digits are enough for the first million chunks, and for no other. -/
theorem chunkPathOk_iff (index : ℕ) : chunkPathOk (chunkPath index) = true ↔ index < 1000000 := by
  rw [← isChunkName_chunkPath]
  unfold chunkPathOk
  rw [Bool.and_eq_true]
  refine ⟨fun h => h.2, fun hname => ⟨?_, hname⟩⟩
  have hlength : (chunkPath index).length = 18 := by
    have hindex := (length_indexDigits_iff index).mpr ((isChunkName_chunkPath index).mp hname)
    rw [← String.length_toList, toList_chunkPath, List.length_append, List.length_append, hindex]
    rfl
  have hhead : (chunkPath index).toList.head? = some 'c' := by
    rw [toList_chunkPath]
    rfl
  have hlong : indexDigits index ++ ".json".toList ∉ [[], ['.'], ['.', '.']] := by
    intro h
    have hjson : (".json" : String).toList.length = 5 := rfl
    have hshort : (indexDigits index ++ ".json".toList).length ≤ 2 := by
      simp only [List.mem_cons, List.not_mem_nil, or_false] at h
      rcases h with h | h | h <;> rw [h] <;> decide
    rw [List.length_append, hjson] at hshort
    omega
  rw [hlength, hhead, pathParts_chunkPath]
  simp only [List.all_cons, List.all_nil, Bool.and_true, Bool.and_eq_true, decide_eq_true_eq]
  exact ⟨⟨⟨by omega, by omega⟩, by decide⟩, by decide, hlong⟩

end Paths

/-! The logical digest -/

section Logical

variable (p : Platform)

/-- The JSON text of the whole table. -/
def logicalContent (columns : List TableColumn) (rows : List Row) : Bytes :=
  dumpJson p (.obj [("columns", columnsJson columns), ("rows", rowsJson rows)])

theorem utf8_append (l l' : List Char) : utf8 l ++ utf8 l' = utf8 (l ++ l') := by
  unfold utf8
  rw [String.ofList_append, String.toByteArray_append]

theorem utf8_injective : Function.Injective utf8 := by
  intro l l' h
  exact String.ofList_injective (String.toByteArray_inj.mp h)

def rowText (row : Row) : List Char := encodeText (mapFloats (wireFloat p) (.obj row))

/-- The digest has taken in a text with so many rows. -/
def Streamed (logical : LogicalTableDigest) (text : List Char) (count : ℕ) : Prop :=
  logical.content = utf8 text ∧ logical.byteSize = (utf8 text).size ∧ logical.rowCount = count

variable {p} {logical : LogicalTableDigest} {text : List Char} {count : ℕ}

theorem Streamed.write (h : Streamed logical text count) (more : List Char) :
    Streamed (logical.write (utf8 more)) (text ++ more) count := by
  obtain ⟨hcontent, hsize, hcount⟩ := h
  unfold LogicalTableDigest.write
  refine ⟨?_, ?_, hcount⟩
  · simp only [hcontent, utf8_append]
  · simp only [hsize, ← utf8_append, ByteArray.size_append]

theorem Streamed.addRow (h : Streamed logical text count) (row : Row) :
    Streamed (logical.addRow p row)
      (text ++ (if count = 0 then [] else [',']) ++ rowText p row) (count + 1) := by
  unfold LogicalTableDigest.addRow
  by_cases hzero : count = 0
  · have hfirst := h.write (rowText p row)
    simp only [h.2.2, hzero, ne_eq, not_true_eq_false, if_false, if_true, List.append_nil]
    rw [hzero] at hfirst
    exact ⟨hfirst.1, hfirst.2.1, congrArg Nat.succ hfirst.2.2⟩
  · have hnext := (h.write [',']).write (rowText p row)
    simp only [h.2.2, hzero, ne_eq, not_false_eq_true, if_true, if_false]
    exact ⟨hnext.1, hnext.2.1, congrArg Nat.succ hnext.2.2⟩

theorem Streamed.addRows (h : Streamed logical text (count + 1)) (rows : List Row) :
    Streamed (logical.addRows p rows) (text ++ rows.flatMap (fun row => ',' :: rowText p row))
      (count + 1 + rows.length) := by
  induction rows generalizing logical text count with
  | nil => simpa [LogicalTableDigest.addRows] using h
  | cons row rows ih =>
    have hrest := ih (h.addRow (p := p) row)
    simp only [Nat.add_one_ne_zero, if_false, List.append_assoc] at hrest
    rw [List.flatMap_cons, List.length_cons]
    have hcount : count + 1 + 1 + rows.length = count + 1 + (rows.length + 1) := by omega
    rw [hcount] at hrest
    simpa only [LogicalTableDigest.addRows, List.foldl_cons, List.cons_append, List.nil_append,
      List.append_assoc] using hrest

/-- The text between the brackets of the rows. -/
def rowsText (p : Platform) : List Row → List Char
  | [] => []
  | row :: rows => rowText p row ++ rows.flatMap (fun row => ',' :: rowText p row)

theorem Streamed.allRows (h : Streamed logical text 0) (rows : List Row) :
    Streamed (logical.addRows p rows) (text ++ rowsText p rows) rows.length := by
  cases rows with
  | nil => simpa [LogicalTableDigest.addRows, rowsText] using h
  | cons row rows =>
    have hrest := (h.addRow (p := p) row).addRows (p := p) rows
    simp only [if_true, List.append_nil, List.append_assoc] at hrest
    rw [List.length_cons]
    have hcount : 0 + 1 + rows.length = rows.length + 1 := by omega
    rw [hcount] at hrest
    exact hrest

theorem addRows_append (logical : LogicalTableDigest) (rows rows' : List Row) :
    (logical.addRows p rows).addRows p rows' = logical.addRows p (rows ++ rows') := by
  unfold LogicalTableDigest.addRows
  rw [List.foldl_append]

theorem encodeTextItems_rows (rows : List Row) :
    encodeTextItems (mapFloatsItems (wireFloat p) (rows.map Json.obj)) =
      rows.flatMap (fun row => ',' :: rowText p row) ++ [']'] := by
  induction rows with
  | nil => rfl
  | cons row rows ih =>
    rw [List.map_cons, mapFloatsItems, encodeTextItems, ih, List.flatMap_cons]
    simp only [rowText, List.cons_append, List.append_assoc]

theorem encodeText_rows (rows : List Row) :
    encodeText (mapFloats (wireFloat p) (rowsJson rows)) = '[' :: (rowsText p rows ++ [']']) := by
  unfold rowsJson
  cases rows with
  | nil => rfl
  | cons row rows =>
    rw [List.map_cons, mapFloats, mapFloatsItems, encodeText, encodeTextItems_rows]
    simp only [rowsText, rowText, List.append_assoc]

/-- The text before the first row. -/
def openingText (p : Platform) (columns : List TableColumn) : List Char :=
  '{' :: (textString "columns" ++ [':']) ++
    encodeText (mapFloats (wireFloat p) (columnsJson columns)) ++
    ',' :: (textString "rows" ++ [':', '['])

theorem streamed_start (columns : List TableColumn) :
    Streamed (LogicalTableDigest.start p columns) (openingText p columns) 0 := by
  have hempty : Streamed ⟨ByteArray.empty, 0, 0⟩ [] 0 := ⟨rfl, rfl, rfl⟩
  exact ((hempty.write ('{' :: (textString "columns" ++ [':']))).write
    (encodeText (mapFloats (wireFloat p) (columnsJson columns)))).write
    (',' :: (textString "rows" ++ [':', '[']))

/-- The digest streamed over all rows is that of the text of the table. -/
theorem finish_start (columns : List TableColumn) (rows : List Row) :
    ((LogicalTableDigest.start p columns).addRows p rows).finish p =
      ⟨(logicalContent p columns rows).size, p.sha256 (logicalContent p columns rows)⟩ := by
  obtain ⟨hcontent, hsize, -⟩ := (((streamed_start columns).allRows (p := p) rows).write [']', '}'])
  have htext : logicalContent p columns rows =
      utf8 (openingText p columns ++ rowsText p rows ++ [']', '}']) := by
    unfold logicalContent dumpJson openingText
    simp only [mapFloats, mapFloatsMembers, encodeText, encodeTextMembers, encodeText_rows,
      List.nil_append, List.cons_append, List.append_assoc]
  rw [← htext] at hcontent hsize
  rw [← hsize, ← hcontent]
  rfl

theorem rowCount_addRows (columns : List TableColumn) (rows : List Row) :
    ((LogicalTableDigest.start p columns).addRows p rows).rowCount = rows.length :=
  ((streamed_start columns).allRows (p := p) rows).2.2

end Logical

/-! Plain tables -/

section Plain

/-- The row with null for every infinity and NaN in it. -/
def plainRow (row : Row) : Row := mapFloatsMembers plainFloat row

variable {rows : List Row}

theorem keyed_plainRows (h : Keyed rows) : Keyed (rows.map plainRow) := by
  intro row hrow
  obtain ⟨original, horiginal, rfl⟩ := List.mem_map.mp hrow
  exact keyed_plain (h original horiginal)

def TableChunk.plain (chunk : TableChunk) : TableChunk :=
  ⟨chunk.offset, chunk.rows.map plainRow, keyed_plainRows chunk.keyed⟩

theorem plainRow_eq_iff (row : Row) : plainRow row = row ↔ everywhere finiteFloat (.obj row) := by
  rw [← plain_eq_iff, mapFloats, Json.obj.injEq, plainRow]

theorem map_plainRow_eq_iff (rows : List Row) :
    rows.map plainRow = rows ↔ ∀ row ∈ rows, everywhere finiteFloat (.obj row) := by
  induction rows with
  | nil => simp
  | cons row rows ih =>
    rw [List.map_cons, List.cons.injEq, ih, plainRow_eq_iff, List.forall_mem_cons]

theorem keys_plainRow (row : Row) : (plainRow row).keys = row.keys := keys_mapFloatsMembers _ row

variable {formats : TextFormats} {columns : List TableColumn}

/-- A cell of a column's type keeps it, or becomes null. -/
theorem cellOk_plain {cell : String × TableValue} (h : cellOk formats columns cell) :
    cellOk formats columns (cell.1, mapFloats plainFloat cell.2) := by
  obtain ⟨id, value⟩ := cell
  unfold cellOk at h ⊢
  cases hfind : columns.find? (fun column => column.id = id) with
  | none => simp [hfind] at h
  | some column =>
    simp only [hfind, Bool.or_eq_true] at h ⊢
    cases value with
    | float f =>
      unfold mapFloats plainFloat
      by_cases hfinite : f.isFinite
      · rw [if_pos hfinite]
        exact h
      · rw [if_neg hfinite]
        exact .inl rfl
    | arr items | obj members =>
      cases htype : column.valueType <;> simp_all [mapFloats, matchesType, isNull]
    | _ => exact h

theorem rowOk_plain {row : Row} (h : rowOk formats columns row) :
    rowOk formats columns (plainRow row) := by
  unfold rowOk at h ⊢
  rw [keys_plainRow]
  rw [Bool.and_eq_true] at h ⊢
  refine ⟨h.1, ?_⟩
  unfold plainRow
  rw [mapFloatsMembers_eq_map, List.all_map, List.all_eq_true]
  intro cell hcell
  exact cellOk_plain (List.all_eq_true.mp h.2 cell hcell)

theorem tableOk_plain (h : tableOk formats columns rows) :
    tableOk formats columns (rows.map plainRow) := by
  unfold tableOk at h ⊢
  rw [Bool.and_eq_true] at h ⊢
  refine ⟨h.1, ?_⟩
  rw [List.all_map, List.all_eq_true]
  intro row hrow
  exact rowOk_plain (List.all_eq_true.mp h.2 row hrow)

theorem tableOk_iff :
    tableOk formats columns rows ↔ columns.length ≤ 10000 ∧ (columnIds columns).Nodup ∧
      ∀ row ∈ rows, rowOk formats columns row := by
  unfold tableOk
  rw [Bool.and_eq_true, Bool.and_eq_true, List.all_eq_true, decide_eq_true_eq, decide_eq_true_eq,
    and_assoc]

variable {p : Platform}

theorem mapFloats_wire_plain (v : Json) :
    mapFloats (wireFloat p) (mapFloats plainFloat v) = mapFloats (wireFloat p) v := by
  rw [mapFloats_comp]
  congr 1
  funext f
  unfold plainFloat
  by_cases hfinite : f.isFinite
  · rw [if_pos hfinite]
    rfl
  · rw [if_neg hfinite, wireFloat, if_neg hfinite]
    rfl

theorem mapFloats_rowsJson (rows : List Row) :
    mapFloats plainFloat (rowsJson rows) = rowsJson (rows.map plainRow) := by
  unfold rowsJson
  rw [mapFloats, Json.arr.injEq]
  induction rows with
  | nil => rfl
  | cons row rows ih =>
    rw [List.map_cons, mapFloatsItems, ih]
    rfl

theorem chunkContent_plain (chunk : TableChunk) :
    chunkContent p chunk.plain = chunkContent p chunk := by
  have hjson : chunkJson chunk.plain = mapFloats plainFloat (chunkJson chunk) := by
    simp only [chunkJson, TableChunk.plain, mapFloats, mapFloatsMembers, mapFloats_rowsJson]
  unfold chunkContent dumpJson
  rw [hjson, mapFloats_wire_plain]

/-- What the platform's float texts are read back as. -/
noncomputable def readFloat (p : Platform) (g : FloatLiteral) : Json :=
  have : Nonempty FloatLiteral := ⟨g⟩
  .float (Function.invFunOn p.floatText {f | f.isFinite = true} g)

theorem mapFloats_read_wire (hfloats : Set.InjOn p.floatText {f | f.isFinite = true}) (v : Json) :
    mapFloats (readFloat p) (mapFloats (wireFloat p) v) = mapFloats plainFloat v := by
  rw [mapFloats_comp]
  congr 1
  funext f
  unfold plainFloat wireFloat
  by_cases hfinite : f.isFinite
  · rw [if_pos hfinite, if_pos hfinite, mapFloats, readFloat]
    have : Nonempty FloatLiteral := ⟨f⟩
    rw [hfloats.leftInvOn_invFunOn hfinite]
  · rw [if_neg hfinite, if_neg hfinite]
    rfl

theorem mapFloats_columnsJson (g : FloatLiteral → Json) (columns : List TableColumn) :
    mapFloats g (columnsJson columns) = columnsJson columns := by
  unfold columnsJson
  rw [mapFloats, Json.arr.injEq]
  induction columns with
  | nil => rfl
  | cons column columns ih =>
    rw [List.map_cons, mapFloatsItems, ih]
    rfl

theorem TableValueType.value_injective : Function.Injective TableValueType.value := by
  intro t t' h
  cases t <;> cases t' <;> simp [TableValueType.value] at h ⊢

theorem columnsJson_injective : Function.Injective columnsJson := by
  intro columns columns' h
  refine List.map_injective_iff.mpr ?_ (Json.arr.inj h)
  intro column column' hcolumn
  simp only [columnJson, Json.obj.injEq, List.cons.injEq, Prod.mk.injEq, Json.str.injEq, true_and,
    and_true] at hcolumn
  obtain ⟨hid, htitle, htype⟩ := hcolumn
  have hvalue := TableValueType.value_injective htype
  cases column
  cases column'
  simp only at hid htitle hvalue
  subst hid htitle hvalue
  rfl

/-- The text of a table determines its columns and its rows, but for infinities and NaN. -/
theorem logicalContent_inj (hfloats : Set.InjOn p.floatText {f | f.isFinite = true})
    {columns' : List TableColumn} {rows' : List Row}
    (h : logicalContent p columns rows = logicalContent p columns' rows') :
    columns = columns' ∧ rows.map plainRow = rows'.map plainRow := by
  have hwire := congrArg (mapFloats (readFloat p)) (encodeText_injective (utf8_injective h))
  rw [mapFloats_read_wire hfloats, mapFloats_read_wire hfloats] at hwire
  simp only [mapFloats, mapFloatsMembers, Json.obj.injEq, List.cons.injEq, Prod.mk.injEq, true_and,
    and_true, mapFloats_columnsJson] at hwire
  refine ⟨columnsJson_injective hwire.1, ?_⟩
  rw [mapFloats_rowsJson, mapFloats_rowsJson] at hwire
  exact List.map_injective_iff.mpr (fun _ _ => Json.obj.inj) (Json.arr.inj hwire.2)

end Plain

end Grafy.Tables
