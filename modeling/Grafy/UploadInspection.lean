import Grafy.GraphDocuments
import Grafy.Loops

/-!
The inspection of stored upload bytes. They are read in chunks, counted and hashed as they
come, and confirmed against the format that the file's extension claims. What an inspection
that succeeds reports is the size and the digest of all the bytes, however they were cut.
-/
namespace Grafy.Inspection

open GraphDocuments Loops

abbrev Bytes := List UInt8

structure MagicSegment where
  offset : ℕ
  value : Bytes

def MagicSegment.matches (segment : MagicSegment) (content : Bytes) : Bool :=
  (content.drop segment.offset).take segment.value.length = segment.value

/-- How ingest confirms that bytes agree with a declared file format. -/
inductive ConfirmationRule
  | none
  | magic (signatures : List (List MagicSegment))
  | json
  | jsonDocument

namespace ConfirmationRule

def needsJson : ConfirmationRule → Bool
  | json | jsonDocument => true
  | _ => false

/-- `_prefix_needed`. -/
def prefixNeeded : Option ConfirmationRule → ℕ
  | some (magic signatures) => (signatures.flatten.map
      (fun segment => segment.offset + segment.value.length)).foldl max 0
  | _ => 0

end ConfirmationRule

def blobFile : ArtifactTypeKey := ⟨"file.blob", 1⟩

inductive InspectionError
  | undeclaredType (extension : String) (key : ArtifactTypeKey)
  | exceedsLimit (filename : String) (maxUploadBytes : ℕ)
  | metadataDiffers (filename : String) (reported read : ℕ)
  | sizeDiffers (filename : String) (declared stored : ℕ)
  | formatMismatch (filename expected : String)

/-- The message of an error, where `repr` writes a text in quotes. -/
def InspectionError.message (repr : String → String) : InspectionError → String
  | undeclaredType extension key => "Upload extension " ++ repr extension ++
      " maps to artifact type " ++ key.id ++ "@" ++ toString key.schemaVersion ++
      ", which this deployment does not declare"
  | exceedsLimit filename maxUploadBytes => "Upload " ++ repr filename ++
      " exceeds the upload limit of " ++ toString maxUploadBytes ++ " bytes"
  | metadataDiffers filename reported read => "Upload " ++ repr filename ++
      " storage metadata reported " ++ toString reported ++ " bytes but " ++ toString read ++
      " were read"
  | sizeDiffers filename declared stored => "Upload " ++ repr filename ++ " declared " ++
      toString declared ++ " bytes but " ++ toString stored ++ " were stored"
  | formatMismatch filename expected => repr filename ++ " does not look like a " ++ expected ++
      " file. Rename it or convert it, then try again."

structure UploadInspection where
  byteSize : ℕ
  sha256 : String
  artifactType : ArtifactTypeKey

/-- `Path(filename).suffix`, without its dot. -/
def fileExtension (filename : String) : String :=
  let parts := (filename.toList.splitOn '/').filter (fun part => part ≠ [] ∧ part ≠ ['.'])
  let name := parts.getLast?.getD []
  let extension := (name.reverse.takeWhile (· ≠ '.')).reverse
  let stem := name.take (name.length - extension.length - 1)
  if stem.any (· ≠ '.') then String.ofList extension else ""

/-- What the deployment declares, and what it takes from the standard library and a JSON
parser: SHA-256, the folding and quoting of texts, and whether the chunks of a file confirm a
JSON rule. -/
structure Inspector where
  extensionClaims : String → Option ArtifactTypeKey
  artifactTypes : ArtifactTypeKey → Option ConfirmationRule
  sha256 : Bytes → String
  casefold : String → String
  upper : String → String
  repr : String → String
  confirmsJson : ConfirmationRule → List Bytes → Bool

/-- What has been read of the bytes so far. -/
structure Reading where
  byteSize : ℕ
  digested : Bytes
  start : Bytes
  fed : List Bytes

namespace Inspector

variable (inspector : Inspector) {filename : String} {maxUploadBytes : ℕ} {chunks : List Bytes}

/-- The loop of `_inspect_chunks`. -/
def readChunks (filename : String) (maxUploadBytes needed : ℕ) (json : Bool) :
    List Bytes → Reading → Except InspectionError Reading
  | [], reading => .ok reading
  | chunk :: rest, reading =>
    let byteSize := reading.byteSize + chunk.length
    if byteSize > maxUploadBytes then .error (.exceedsLimit filename maxUploadBytes)
    else readChunks filename maxUploadBytes needed json rest
      { byteSize
        digested := reading.digested ++ chunk
        start := if reading.start.length < needed then
          reading.start ++ chunk.take (needed - reading.start.length) else reading.start
        fed := if json then reading.fed ++ [chunk] else reading.fed }

/-- `confirms` where the rule is about the bytes themselves. -/
def confirms (reading : Reading) : Option ConfirmationRule → Bool
  | none | some .none => true
  | some (.magic signatures) => signatures.any
      (fun segments => segments.all (fun segment => segment.matches reading.start))
  | some rule => inspector.confirmsJson rule reading.fed

def expectedFormat (key : ArtifactTypeKey) : String :=
  inspector.upper (if key.id.startsWith "file." then (key.id.drop 5).toString else key.id)

/-- The confirmation rule of the format that an extension claims. -/
def ruleFor (extension : String) (key : ArtifactTypeKey) :
    Except InspectionError (Option ConfirmationRule) :=
  if key = blobFile then .ok none
  else match inspector.artifactTypes key with
    | none => .error (.undeclaredType extension key)
    | some rule => .ok (some rule)

/-- `_inspect_chunks`. -/
def inspectChunks (filename : String) (expectedSize maxUploadBytes : ℕ)
    (declaredByteSize : Option ℕ) (chunks : List Bytes) :
    Except InspectionError UploadInspection := do
  let extension := inspector.casefold (fileExtension filename)
  let key := (inspector.extensionClaims extension).getD blobFile
  let rule ← inspector.ruleFor extension key
  let reading ← readChunks filename maxUploadBytes (ConfirmationRule.prefixNeeded rule)
    (rule.any ConfirmationRule.needsJson) chunks ⟨0, [], [], []⟩
  require (∀ declared ∈ declaredByteSize, reading.byteSize = declared)
    (.metadataDiffers filename (declaredByteSize.getD 0) reading.byteSize)
  require (reading.byteSize = expectedSize)
    (.sizeDiffers filename expectedSize reading.byteSize)
  require (inspector.confirms reading rule)
    (.formatMismatch filename (inspector.expectedFormat key))
  return ⟨reading.byteSize, inspector.sha256 reading.digested, key⟩

/-- The bytes that are kept for the signatures are the first ones, after every chunk. -/
theorem take_append_chunk (needed : ℕ) (read chunk : Bytes) :
    (if (read.take needed).length < needed then
      read.take needed ++ chunk.take (needed - (read.take needed).length)
    else read.take needed) = (read ++ chunk).take needed := by
  rw [List.take_append, List.length_take]
  by_cases hlt : read.length < needed
  · rw [min_eq_right hlt.le, if_pos hlt]
  · rw [min_eq_left (Nat.le_of_not_lt hlt), if_neg (lt_irrefl _),
      Nat.sub_eq_zero_of_le (Nat.le_of_not_lt hlt), List.take_zero, List.append_nil]

/-- However the bytes are cut, the loop counts and hashes all of them, keeps the first ones,
and goes on to the end only within the limit. -/
theorem readChunks_ok {needed : ℕ} {json : Bool} {reading result : Reading} {b : Bytes}
    (h : readChunks filename maxUploadBytes needed json chunks reading = .ok result)
    (hsize : reading.byteSize = b.length) (hdigested : reading.digested = b)
    (hstart : reading.start = b.take needed) (hlimit : b.length ≤ maxUploadBytes) :
    result.byteSize = (b ++ chunks.flatten).length ∧
      result.digested = b ++ chunks.flatten ∧
      result.start = (b ++ chunks.flatten).take needed ∧
      (b ++ chunks.flatten).length ≤ maxUploadBytes := by
  induction chunks generalizing reading b with
  | nil =>
    cases h
    simpa using ⟨hsize, hdigested, hstart, hlimit⟩
  | cons chunk rest ih =>
    rw [readChunks] at h
    split at h
    · cases h
    · next hwithin =>
      rw [List.flatten_cons, ← List.append_assoc]
      refine ih (b := b ++ chunk) h ?_ ?_ ?_ ?_
      · rw [List.length_append, ← hsize]
      · rw [← hdigested]
      · rw [← take_append_chunk, ← hstart]
      · rw [List.length_append, ← hsize]
        exact Nat.le_of_not_lt hwithin

/-- An inspection that succeeds reports all the bytes: their number, which is the number
that the client declared, and their digest. -/
theorem inspectChunks_ok {expectedSize : ℕ} {declaredByteSize : Option ℕ}
    {inspection : UploadInspection}
    (h : inspector.inspectChunks filename expectedSize maxUploadBytes declaredByteSize chunks = .ok
      inspection) :
    inspection.byteSize = chunks.flatten.length ∧
      inspection.sha256 = inspector.sha256 chunks.flatten ∧
      chunks.flatten.length = expectedSize ∧ chunks.flatten.length ≤ maxUploadBytes := by
  unfold inspectChunks at h
  obtain ⟨rule, _, h⟩ := bind_ok.mp h
  obtain ⟨reading, hread, h⟩ := bind_ok.mp h
  obtain ⟨_, _, h⟩ := bind_ok.mp h
  obtain ⟨_, hexpected, h⟩ := bind_ok.mp h
  obtain ⟨_, _, h⟩ := bind_ok.mp h
  cases h
  obtain ⟨hsize, hdigested, _, hmax⟩ :=
    readChunks_ok (b := []) hread rfl rfl List.take_nil.symm (Nat.zero_le _)
  rw [List.nil_append] at hsize hdigested hmax
  refine ⟨hsize, by rw [hdigested], ?_, hmax⟩
  rw [← hsize]
  exact require_ok.mp hexpected

end Inspector

end Grafy.Inspection
