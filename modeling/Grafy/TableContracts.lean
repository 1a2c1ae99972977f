import Grafy.JsonTexts
import Grafy.Texts

/-!
Tables and their chunks. A cell is any JSON value, with the infinities and NaN
among its floats; a row is a dict with a cell for every column; a cell other
than null has the type its column declares. The chunks of a table are cut one
after the other, each as long as a count of rows and an estimate of its bytes
allow and never empty, so they make up the rows again.
-/
namespace Grafy.Tables

open CanonicalJson JsonTexts OrderedDict Texts

abbrev TableValue := Json

abbrev Row := Dict String TableValue

inductive TableValueType
  | text
  | integer
  | number
  | decimal
  | boolean
  | date
  | datetime
  | json
  | binary
  | unknown
  | mixed
deriving DecidableEq

def TableValueType.value : TableValueType → String
  | .text => "text"
  | .integer => "integer"
  | .number => "number"
  | .decimal => "decimal"
  | .boolean => "boolean"
  | .date => "date"
  | .datetime => "datetime"
  | .json => "json"
  | .binary => "binary"
  | .unknown => "unknown"
  | .mixed => "mixed"

/-- The texts that `Decimal`, the two `fromisoformat` and `b64decode` take. -/
structure TextFormats where
  decimal : String → Bool
  date : String → Bool
  datetime : String → Bool
  base64 : String → Bool

def matchesType (formats : TextFormats) : TableValueType → TableValue → Bool
  | .unknown, _ => true
  | .mixed, _ => true
  | .text, .str _ => true
  | .integer, .int _ => true
  | .number, .int _ => true
  | .number, .float _ => true
  | .boolean, .bool _ => true
  | .json, .arr _ => true
  | .json, .obj _ => true
  | .decimal, .str s => formats.decimal s
  | .date, .str s => formats.date s
  | .datetime, .str s => formats.datetime s
  | .binary, .str s => formats.base64 s
  | _, _ => false

structure TableColumn where
  id : String
  title : String
  valueType : TableValueType
  id_length : 1 ≤ id.length ∧ id.length ≤ 255
  title_length : title.length ≤ 1024
  id_stripped : strip id = id
deriving DecidableEq

def columnIds (columns : List TableColumn) : List String := columns.map TableColumn.id

def isNull : TableValue → Bool
  | .null => true
  | _ => false

/-- A cell of the column with the id. -/
def cellOk (formats : TextFormats) (columns : List TableColumn) (cell : String × TableValue) :
    Bool :=
  match columns.find? (fun column => column.id = cell.1) with
  | none => false
  | some column => isNull cell.2 || matchesType formats column.valueType cell.2

/-- A row with a cell for every column and no other, each of its column's type. -/
def rowOk (formats : TextFormats) (columns : List TableColumn) (row : Row) : Bool :=
  (columnIds columns).all (fun id => id ∈ row.keys) &&
    row.keys.all (fun id => id ∈ columnIds columns) && row.all (cellOk formats columns)

/-- `validate_shape_and_values`, and the bound on the number of columns. -/
def tableOk (formats : TextFormats) (columns : List TableColumn) (rows : List Row) : Bool :=
  decide (columns.length ≤ 10000) && decide (columnIds columns).Nodup &&
    rows.all (rowOk formats columns)

/-- The rows are dicts, and so are the objects in their cells. -/
def Keyed (rows : List Row) : Prop := ∀ row ∈ rows, everywhere distinctKeys (.obj row) = true

@[ext]
structure Table (formats : TextFormats) where
  columns : List TableColumn
  rows : List Row
  keyed : Keyed rows
  ok : tableOk formats columns rows = true

@[ext]
structure TableChunk where
  offset : ℕ
  rows : List Row
  keyed : Keyed rows

/-! Chunks -/

def tableChunkRowCount : ℕ := 100

def tableChunkTargetByteSize : ℕ := 1024 * 1024

/-- The bytes of a text in UTF-8. -/
def utf8 (text : List Char) : ByteArray := (String.ofList text).toByteArray

/-- An integer that Python writes: it has at most so many digits. -/
def writableInt (maxDigits : ℕ) : Json → Bool
  | .int i => decide ((Nat.toDigits 10 i.natAbs).length ≤ maxDigits)
  | _ => true

/-- An integer that the JSON reader takes: its text, with the sign, is no longer than that. -/
def readableInt (maxDigits : ℕ) : Json → Bool
  | .int i => decide ((intText i).length ≤ maxDigits)
  | _ => true

theorem writable_of_readable {maxDigits : ℕ} {v : Json}
    (h : everywhere (readableInt maxDigits) v) : everywhere (writableInt maxDigits) v := by
  refine everywhere_mono (fun v hv => ?_) h
  cases v with
  | int i =>
    have hlength : (intText i).length ≤ maxDigits := of_decide_eq_true hv
    refine decide_eq_true (le_trans ?_ hlength)
    cases i with
    | ofNat n => exact Nat.le_refl _
    | negSucc n => exact Nat.le_succ _
  | _ => rfl

/-- The bytes of what `json.dumps` writes for a row; it raises at an integer that is too long. -/
def rowByteSize (maxDigits : ℕ) (row : Row) : Option ℕ :=
  if everywhere (writableInt maxDigits) (.obj row) then some (utf8 (encodeText (.obj row))).size
  else none

/-- The inner loop: the rows that go into the chunk and those that are left. -/
def takeChunk (maxDigits : ℕ) (count estimated : ℕ) : List Row → Option (List Row × List Row)
  | [] => some ([], [])
  | row :: rest =>
    if tableChunkRowCount ≤ count then some ([], row :: rest)
    else
      match rowByteSize maxDigits row with
      | none => none
      | some size =>
        if 0 < count ∧ tableChunkTargetByteSize < estimated + size then some ([], row :: rest)
        else (takeChunk maxDigits (count + 1) (estimated + (size + 1)) rest).map
          (fun cut => (row :: cut.1, cut.2))

variable {estimated : ℕ} {rest rows taken : List Row}

variable {maxDigits count : ℕ}

theorem takeChunk_append (h : takeChunk maxDigits count estimated rows = some (taken, rest)) :
    rows = taken ++ rest := by
  induction rows generalizing count estimated taken with
  | nil =>
    cases h
    rfl
  | cons row rows ih =>
    unfold takeChunk at h
    split at h
    · cases h
      rfl
    split at h
    · cases h
    split at h
    · cases h
      rfl
    · obtain ⟨cut, hcut, heq⟩ := Option.map_eq_some_iff.mp h
      cases heq
      rw [ih hcut, List.cons_append]

variable {row : Row}

section

variable (h : takeChunk maxDigits 0 estimated (row :: rows) = some (taken, rest))
include h

/-- The first row is taken whatever its size. -/
theorem takeChunk_ne_nil : taken ≠ [] := by
  unfold takeChunk at h
  rw [if_neg (by decide)] at h
  split at h
  · cases h
  rw [if_neg (by simp)] at h
  obtain ⟨cut, hcut, heq⟩ := Option.map_eq_some_iff.mp h
  cases heq
  exact List.cons_ne_nil _ _

theorem takeChunk_rest_length : rest.length < (row :: rows).length := by
  have hpos := List.length_pos_iff.mpr (takeChunk_ne_nil h)
  rw [takeChunk_append h, List.length_append]
  omega

end

theorem Keyed.sub {rows' : List Row} (h : Keyed rows) (hsub : ∀ row ∈ rows', row ∈ rows) :
    Keyed rows' := fun row hrow => h row (hsub row hrow)

/-- `iter_table_chunks`, from an offset on: the chunks, up to the first row that raises. -/
def iterTableChunks (maxDigits offset : ℕ) (rows : List Row) (h : Keyed rows) :
    List (Option TableChunk) :=
  match rows, h with
  | [], _ => []
  | row :: rows, h =>
    match _hcut : takeChunk maxDigits 0 32 (row :: rows) with
    | none => [none]
    | some (taken, rest) =>
      some ⟨offset, taken,
        h.sub (fun r hr => takeChunk_append _hcut ▸ List.mem_append_left _ hr)⟩ ::
        iterTableChunks maxDigits (offset + taken.length) rest
          (h.sub (fun r hr => takeChunk_append _hcut ▸ List.mem_append_right _ hr))
termination_by rows.length
decreasing_by exact takeChunk_rest_length _hcut

section Cutting

variable {rows : List Row} {offset : ℕ} {hkeyed : Keyed rows}

theorem rowByteSize_isSome :
    (rowByteSize maxDigits row).isSome ↔ everywhere (writableInt maxDigits) (.obj row) := by
  unfold rowByteSize
  split <;> simp_all

theorem takeChunk_isSome {estimated : ℕ}
    (h : ∀ row ∈ rows, everywhere (writableInt maxDigits) (.obj row)) :
    ∃ cut, takeChunk maxDigits count estimated rows = some cut := by
  induction rows generalizing count estimated with
  | nil => exact ⟨_, rfl⟩
  | cons row rows ih =>
    obtain ⟨size, hsize⟩ :=
      Option.isSome_iff_exists.mp (rowByteSize_isSome.mpr (h row List.mem_cons_self))
    unfold takeChunk
    split
    · exact ⟨_, rfl⟩
    simp only [hsize]
    split
    · exact ⟨_, rfl⟩
    · obtain ⟨cut, hcut⟩ : ∃ cut, takeChunk maxDigits (count + 1) (estimated + (size + 1)) rows =
          some cut := ih (fun r hr => h r (List.mem_cons_of_mem _ hr))
      exact ⟨_, by rw [hcut]; rfl⟩

theorem takeChunk_writable {estimated : ℕ} {taken rest : List Row}
    (h : takeChunk maxDigits count estimated rows = some (taken, rest)) :
    ∀ row ∈ taken, everywhere (writableInt maxDigits) (.obj row) := by
  induction rows generalizing count estimated taken with
  | nil =>
    cases h
    nofun
  | cons row rows ih =>
    unfold takeChunk at h
    split at h
    · cases h
      nofun
    split at h
    · cases h
    rename_i size hsize
    split at h
    · cases h
      nofun
    · obtain ⟨cut, hcut, heq⟩ := Option.map_eq_some_iff.mp h
      cases heq
      intro r hr
      rcases List.mem_cons.mp hr with rfl | hr
      · exact rowByteSize_isSome.mp (by rw [hsize]; rfl)
      · exact ih hcut r hr

/-- The chunks follow each other from an offset on. -/
def Consecutive : ℕ → List TableChunk → Prop
  | _, [] => True
  | offset, chunk :: rest =>
    chunk.offset = offset ∧ chunk.rows ≠ [] ∧ Consecutive (offset + chunk.rows.length) rest

/-- The chunks are the rows again, cut at consecutive places. -/
theorem iterTableChunks_ok (h : ∀ row ∈ rows, everywhere (writableInt maxDigits) (.obj row)) :
    ∃ chunks, iterTableChunks maxDigits offset rows hkeyed = chunks.map some ∧
      chunks.flatMap TableChunk.rows = rows ∧ Consecutive offset chunks := by
  fun_induction iterTableChunks maxDigits offset rows hkeyed with
  | case1 => exact ⟨[], rfl, rfl, trivial⟩
  | case2 offset row rows hkeyed hcut =>
    obtain ⟨cut, hsome⟩ : ∃ cut, takeChunk maxDigits 0 32 (row :: rows) = some cut :=
      takeChunk_isSome h
    rw [hsome] at hcut
    cases hcut
  | case3 offset row rows hkeyed taken rest hcut _ ih =>
    have happend := takeChunk_append hcut
    obtain ⟨chunks, hchunks, hrows, hconsecutive⟩ := ih
      (fun r hr => h r (happend ▸ List.mem_append_right _ hr))
    have htaken : Keyed taken := hkeyed.sub (fun r hr => happend ▸ List.mem_append_left _ hr)
    refine ⟨⟨offset, taken, htaken⟩ :: chunks, ?_, ?_, rfl, takeChunk_ne_nil hcut, hconsecutive⟩
    · rw [hchunks, List.map_cons]
    · rw [List.flatMap_cons, hrows, happend]

/-- No chunk is empty, so there are no more of them than rows. -/
theorem length_iterTableChunks_le (offset : ℕ) (rows : List Row) (hkeyed : Keyed rows) :
    (iterTableChunks maxDigits offset rows hkeyed).length ≤ rows.length := by
  fun_induction iterTableChunks maxDigits offset rows hkeyed with
  | case1 => exact Nat.le_refl _
  | case2 offset row rows hkeyed hcut => exact Nat.le_add_left 1 _
  | case3 offset row rows hkeyed taken rest hcut _ ih =>
    have hrest := takeChunk_rest_length hcut
    rw [List.length_cons]
    omega

theorem writable_of_iterTableChunks (h : none ∉ iterTableChunks maxDigits offset rows hkeyed) :
    ∀ row ∈ rows, everywhere (writableInt maxDigits) (.obj row) := by
  fun_induction iterTableChunks maxDigits offset rows hkeyed with
  | case1 => nofun
  | case2 offset row rows hkeyed hcut => exact absurd (List.mem_singleton_self _) h
  | case3 offset row rows hkeyed taken rest hcut _ ih =>
    intro r hr
    rw [takeChunk_append hcut] at hr
    rcases List.mem_append.mp hr with hr | hr
    · exact takeChunk_writable hcut r hr
    · exact ih (fun hmem => h (List.mem_cons_of_mem _ hmem)) r hr

end Cutting

end Grafy.Tables
