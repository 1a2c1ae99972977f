import Grafy.UploadInspection

/-!
The inspection of chunks against one of the whole file. The JSON confirmer looks at the
events of an incremental parser as they come and folds them; where the events of a file do
not depend on how it is cut, neither does what is confirmed, and a root that the fold ends
with is the root of the document that the file spells.
-/
namespace Grafy.Inspection

open CanonicalJson GraphDocuments Loops

section Events

/-- What is looked at of the value of an event: the bytes of its text, if it is of a kind that
is measured and has a text. -/
inductive Token
  | unmeasured
  | bytes (length : ℕ)
  | unencodable
deriving DecidableEq

inductive JsonEvent
  | startMap
  | startArray
  | endMap
  | endArray
  | mapKey (key : Token)
  | string (value : Token)
  | number (value : Token)
  | boolean
  | null
deriving DecidableEq

inductive Root
  | dict
  | list
  | scalar
deriving DecidableEq

/-- What became of a coroutine that some bytes were sent to. -/
inductive Sent (S : Type)
  | waits (state : S)
  | stopped
  | raised

/-- An incremental parser: the events that it emits for the bytes it is sent, and whether
closing it raises. -/
structure JsonParser where
  State : Type
  start : State
  send : State → Bytes → List JsonEvent × Sent State
  closeRaises : State → Bool

/-- The events of a file that is sent in chunks, if its stream ends without an error. -/
def JsonParser.stream (parser : JsonParser) :
    parser.State → List Bytes → Option (List JsonEvent)
  | coro, [] =>
    match parser.send coro [] with
    | (events, .waits coro) => if parser.closeRaises coro then none else some events
    | (events, .stopped) => some events
    | (_, .raised) => none
  | coro, chunk :: rest =>
    match parser.send coro chunk with
    | (events, .waits coro) => (parser.stream coro rest).map (events ++ ·)
    | (events, .stopped) => some events
    | (_, .raised) => none

mutual

/-- The events of a document, given what is looked at of its texts and numbers. -/
def eventsOf (text : String → Token) (number : Json → Token) : Json → List JsonEvent
  | .null => [.null]
  | .bool _ => [.boolean]
  | .int i => [.number (number (.int i))]
  | .float f => [.number (number (.float f))]
  | .str s => [.string (text s)]
  | .arr items => .startArray :: (eventsOfItems text number items ++ [.endArray])
  | .obj members => .startMap :: (eventsOfMembers text number members ++ [.endMap])

def eventsOfItems (text : String → Token) (number : Json → Token) : List Json → List JsonEvent
  | [] => []
  | v :: rest => eventsOf text number v ++ eventsOfItems text number rest

def eventsOfMembers (text : String → Token) (number : Json → Token) :
    List (String × Json) → List JsonEvent
  | [] => []
  | (k, v) :: rest =>
    .mapKey (text k) :: (eventsOf text number v ++ eventsOfMembers text number rest)

end

end Events

section Confirmer

def jsonMaxDepth : ℤ := 64

def jsonMaxTokenBytes : ℕ := 1024 * 1024

/-- `_check_token`. -/
def Token.fits : Token → Bool
  | unmeasured => true
  | bytes length => length ≤ jsonMaxTokenBytes
  | unencodable => false

structure Scan where
  depth : ℤ
  root : Option Root

namespace Scan

/-- `_enter`. -/
def enter (scan : Scan) (root : Root) : Option Scan :=
  if scan.depth + 1 > jsonMaxDepth then none
  else some ⟨scan.depth + 1, if scan.depth = 0 then some root else scan.root⟩

def scalar (scan : Scan) (value : Token) : Option Scan :=
  if value.fits then
    some (if scan.depth = 0 ∧ scan.root = none then { scan with root := some .scalar } else scan)
  else none

def event (scan : Scan) : JsonEvent → Option Scan
  | .startMap => scan.enter .dict
  | .startArray => scan.enter .list
  | .endMap | .endArray => some { scan with depth := scan.depth - 1 }
  | .mapKey key => if key.fits then some scan else none
  | .string value | .number value => scan.scalar value
  | .boolean | .null => scan.scalar .unmeasured

/-- `_consume_events`. -/
def consume (scan : Scan) (events : List JsonEvent) : Option Scan := events.foldlM event scan

end Scan

structure Confirmer (parser : JsonParser) where
  coro : parser.State
  scan : Scan
  failed : Bool
  finished : Bool

variable {parser : JsonParser} {c : Confirmer parser}

namespace Confirmer

/-- The events that come with the end of the parsing are consumed outside the handler: a limit
they exceed is raised, which the inspection does not survive either. -/
def feed (c : Confirmer parser) (chunk : Bytes) : Confirmer parser :=
  if c.failed || c.finished then c
  else match parser.send c.coro chunk with
    | (events, .waits coro) =>
      match c.scan.consume events with
      | some scan => { c with coro, scan }
      | none => { c with failed := true }
    | (events, .stopped) =>
      match c.scan.consume events with
      | some scan => { c with scan, finished := true }
      | none => { c with failed := true }
    | (_, .raised) => { c with failed := true }

/-- The end of the bytes is told to the parser, which is closed if it waits for more. -/
def ended (c : Confirmer parser) : Confirmer parser :=
  let c := c.feed []
  if c.failed || c.finished then c
  else { c with failed := parser.closeRaises c.coro, finished := true }

def acceptsRoot (rule : ConfirmationRule) (root : Option Root) : Bool :=
  match rule with
  | .json => root = some .dict
  | _ => root = some .dict || root = some .list

def finish (rule : ConfirmationRule) (c : Confirmer parser) : Bool :=
  !c.ended.failed && acceptsRoot rule c.ended.scan.root

end Confirmer

def JsonParser.confirms (parser : JsonParser) (rule : ConfirmationRule) (chunks : List Bytes) :
    Bool :=
  (chunks.foldl Confirmer.feed ⟨parser.start, ⟨0, none⟩, false, false⟩).finish rule

/-- What the events of a whole file confirm. -/
def eventsConfirm (rule : ConfirmationRule) (scan : Scan) (events : Option (List JsonEvent)) :
    Bool :=
  (events.bind scan.consume).any (fun scan => Confirmer.acceptsRoot rule scan.root)

theorem foldl_feed_settled (h : (c.failed || c.finished) = true) (chunks : List Bytes) :
    chunks.foldl Confirmer.feed c = c := by
  induction chunks with
  | nil => rfl
  | cons chunk rest ih => rw [List.foldl_cons, Confirmer.feed, if_pos h, ih]

theorem finish_settled (h : (c.failed || c.finished) = true) (rule : ConfirmationRule) :
    c.finish rule = (!c.failed && Confirmer.acceptsRoot rule c.scan.root) := by
  rw [Confirmer.finish, Confirmer.ended, Confirmer.feed, if_pos h, if_pos h]

theorem eventsConfirm_append (rule : ConfirmationRule) (scan : Scan) (events : List JsonEvent)
    (rest : Option (List JsonEvent)) :
    eventsConfirm rule scan (rest.map (events ++ ·)) =
      (scan.consume events).any (fun scan => eventsConfirm rule scan rest) := by
  cases rest with
  | none => cases hscan : scan.consume events <;> rfl
  | some more =>
    have happend : scan.consume (events ++ more) = (scan.consume events).bind (·.consume more) :=
      List.foldlM_append
    cases hscan : scan.consume events <;>
      simp [eventsConfirm, happend, hscan]

/-- The confirmer decides by the events of the stream, wherever they are cut. -/
theorem finish_foldl (rule : ConfirmationRule) (chunks : List Bytes) (coro : parser.State)
    (scan : Scan) :
    (chunks.foldl Confirmer.feed ⟨coro, scan, false, false⟩).finish rule =
      eventsConfirm rule scan (parser.stream coro chunks) := by
  induction chunks generalizing coro scan with
  | nil =>
    rw [List.foldl_nil, Confirmer.finish, Confirmer.ended, Confirmer.feed, JsonParser.stream]
    obtain ⟨events, sent⟩ := parser.send coro []
    cases sent with
    | waits next =>
      cases hscan : scan.consume events <;> cases hclose : parser.closeRaises next <;>
        simp [eventsConfirm, hscan, hclose]
    | stopped => cases hscan : scan.consume events <;> simp [eventsConfirm, hscan]
    | raised => simp [eventsConfirm]
  | cons chunk rest ih =>
    rw [List.foldl_cons, Confirmer.feed, JsonParser.stream]
    obtain ⟨events, sent⟩ := parser.send coro chunk
    cases sent with
    | waits next =>
      rw [eventsConfirm_append]
      cases hscan : scan.consume events with
      | none =>
        simp only [hscan, Bool.or_self, Bool.false_eq_true, if_false]
        rw [foldl_feed_settled rfl, finish_settled rfl]
        rfl
      | some scan' =>
        simp only [hscan, Bool.or_self, Bool.false_eq_true, if_false]
        exact ih next scan'
    | stopped =>
      cases hscan : scan.consume events <;>
        simp only [hscan, Bool.or_self, Bool.false_eq_true, if_false] <;>
        rw [foldl_feed_settled rfl, finish_settled rfl] <;>
        simp [eventsConfirm, hscan]
    | raised =>
      simp only [Bool.or_self, Bool.false_eq_true, if_false]
      rw [foldl_feed_settled rfl, finish_settled rfl]
      rfl

end Confirmer

variable {text : String → Token} {number : Json → Token} {rest : List JsonEvent}

section Roots

variable {scan scan' : Scan}

def rootOf : Json → Root
  | .obj _ => .dict
  | .arr _ => .list
  | _ => .scalar

theorem consume_cons {e : JsonEvent} :
    scan.consume (e :: rest) = some scan' ↔
      ∃ mid, scan.event e = some mid ∧ mid.consume rest = some scan' := by
  rw [Scan.consume, List.foldlM_cons]
  exact Option.bind_eq_some_iff

theorem consume_append {events : List JsonEvent} :
    scan.consume (events ++ rest) = some scan' ↔
      ∃ mid, scan.consume events = some mid ∧ mid.consume rest = some scan' := by
  rw [Scan.consume, List.foldlM_append]
  exact Option.bind_eq_some_iff

theorem consume_nil (h : scan.consume [] = some scan') : scan' = scan := by
  cases h
  rfl

theorem scalar_inside {value : Token} (hdepth : 0 < scan.depth)
    (h : scan.scalar value = some scan') : scan' = scan := by
  unfold Scan.scalar at h
  split at h
  · rw [if_neg (fun hzero => hdepth.ne' hzero.1)] at h
    cases h
    rfl
  · cases h

/-- What a map or an array leaves, if what is in it leaves no trace. -/
theorem enclosed {inner : List JsonEvent} {root : Root} {last : JsonEvent}
    (hlast : ∀ scan : Scan, scan.event last = some { scan with depth := scan.depth - 1 })
    (hinner : ∀ scan scan' : Scan, 0 < scan.depth → scan.consume inner = some scan' →
      scan' = scan) {mid : Scan} (hdepth : 0 ≤ scan.depth) (henter : scan.enter root = some mid)
    (h : mid.consume (inner ++ [last]) = some scan') :
    scan' = ⟨scan.depth, if scan.depth = 0 then some root else scan.root⟩ := by
  unfold Scan.enter at henter
  split at henter <;> cases henter
  obtain ⟨same, hsame, h⟩ := consume_append.mp h
  obtain rfl := hinner _ _ (by change 0 < scan.depth + 1; omega) hsame
  obtain ⟨left, hleft, h⟩ := consume_cons.mp h
  rw [hlast] at hleft
  cases hleft
  rw [consume_nil h, Int.add_sub_cancel]

mutual

/-- Inside of a map or an array a document leaves no trace. -/
theorem consume_eventsOf (v : Json) {scan scan' : Scan} (hdepth : 0 < scan.depth)
    (h : scan.consume (eventsOf text number v) = some scan') : scan' = scan := by
  cases v with
  | arr items =>
    obtain ⟨mid, henter, h⟩ := consume_cons.mp h
    have henclosed :=
      enclosed (fun _ => rfl) (fun _ _ => consume_eventsOfItems items) hdepth.le henter h
    rwa [if_neg hdepth.ne'] at henclosed
  | obj members =>
    obtain ⟨mid, henter, h⟩ := consume_cons.mp h
    have henclosed :=
      enclosed (fun _ => rfl) (fun _ _ => consume_eventsOfMembers members) hdepth.le henter h
    rwa [if_neg hdepth.ne'] at henclosed
  | null | bool _ | int i | float f | str s =>
    obtain ⟨mid, hscalar, h⟩ := consume_cons.mp h
    rw [consume_nil h]
    exact scalar_inside hdepth hscalar

theorem consume_eventsOfItems (items : List Json) {scan scan' : Scan} (hdepth : 0 < scan.depth)
    (h : scan.consume (eventsOfItems text number items) = some scan') : scan' = scan := by
  cases items with
  | nil => exact consume_nil h
  | cons v rest =>
    obtain ⟨mid, hv, h⟩ := consume_append.mp h
    rw [consume_eventsOf v hdepth hv] at h
    exact consume_eventsOfItems rest hdepth h

theorem consume_eventsOfMembers (members : List (String × Json)) {scan scan' : Scan}
    (hdepth : 0 < scan.depth)
    (h : scan.consume (eventsOfMembers text number members) = some scan') : scan' = scan := by
  cases members with
  | nil => exact consume_nil h
  | cons entry rest =>
    obtain ⟨mid, hkey, h⟩ := consume_cons.mp h
    obtain rfl : scan = mid := by
      simp only [Scan.event] at hkey
      split at hkey <;> cases hkey
      rfl
    obtain ⟨mid, hv, h⟩ := consume_append.mp h
    rw [consume_eventsOf entry.2 hdepth hv] at h
    exact consume_eventsOfMembers rest hdepth h

end

/-- The root that is confirmed is the root of the document. -/
theorem root_eq (v : Json)
    (h : Scan.consume ⟨0, none⟩ (eventsOf text number v) = some scan') :
    scan'.root = some (rootOf v) := by
  cases v with
  | arr items =>
    obtain ⟨mid, henter, h⟩ := consume_cons.mp h
    rw [enclosed (fun _ => rfl) (fun _ _ => consume_eventsOfItems items) le_rfl henter h]
    rfl
  | obj members =>
    obtain ⟨mid, henter, h⟩ := consume_cons.mp h
    rw [enclosed (fun _ => rfl) (fun _ _ => consume_eventsOfMembers members) le_rfl henter h]
    rfl
  | null | bool _ | int i | float f | str s =>
    obtain ⟨mid, hscalar, h⟩ := consume_cons.mp h
    rw [consume_nil h]
    simp only [Scan.event, Scan.scalar] at hscalar
    split at hscalar <;> cases hscalar
    rfl

end Roots

variable {chunks : List Bytes}

section WholeFile

/-- `ArtifactConfirmationRule.confirms`, where `loads` is the document that the bytes decode and
parse to. -/
def ConfirmationRule.confirms (loads : Bytes → Option Json) : ConfirmationRule → Bytes → Bool
  | none, _ => true
  | magic signatures, content => signatures.any
      (fun segments => segments.all (fun segment => segment.matches content))
  | json, content => (loads content).any (fun document => rootOf document = .dict)
  | jsonDocument, content => (loads content).any (fun document =>
      rootOf document = .dict || rootOf document = .list)

/-- What the inspection demands of a whole file, given the events of its bytes. -/
def ConfirmationRule.accepts (loads : Bytes → Option Json)
    (whole : Bytes → Option (List JsonEvent)) (rule : ConfirmationRule) (content : Bytes) : Bool :=
  if rule.needsJson then eventsConfirm rule ⟨0, Option.none⟩ (whole content)
  else rule.confirms loads content

variable {loads : Bytes → Option Json} {whole : Bytes → Option (List JsonEvent)}

theorem accepts_confirms
    (hwhole : ∀ content events, whole content = some events → ∃ document, loads content = some
      document ∧ events = eventsOf text number document) {rule : ConfirmationRule} {content : Bytes}
    (h : rule.accepts loads whole content) :
    rule.confirms loads content := by
  unfold ConfirmationRule.accepts at h
  split at h
  · next hjson =>
    obtain ⟨scan, hscan, haccepted⟩ := Option.any_eq_true _ _ |>.mp h
    obtain ⟨events, hevents, hscan⟩ := Option.bind_eq_some_iff.mp hscan
    obtain ⟨document, hloads, rfl⟩ := hwhole content events hevents
    rw [root_eq document hscan] at haccepted
    cases rule with
    | json | jsonDocument =>
      simpa [ConfirmationRule.confirms, hloads, Confirmer.acceptsRoot] using haccepted
    | _ => cases hjson
  · exact h

theorem matches_take {segment : MagicSegment} {needed : ℕ} (content : Bytes)
    (h : segment.offset + segment.value.length ≤ needed) :
    segment.matches (content.take needed) = segment.matches content := by
  unfold MagicSegment.matches
  rw [List.drop_take, List.take_take, min_eq_left (by omega)]

theorem le_foldl_max {l : List ℕ} {n : ℕ} (first : ℕ) (h : n ∈ l ∨ n ≤ first) :
    n ≤ l.foldl max first := by
  induction l generalizing first with
  | nil => exact h.resolve_left List.not_mem_nil
  | cons m rest ih =>
    refine ih (max first m) ?_
    rcases h with hmem | hle
    · rcases List.mem_cons.mp hmem with rfl | hrest
      · exact .inr (le_max_right _ _)
      · exact .inl hrest
    · exact .inr (hle.trans (le_max_left _ _))

/-- The first bytes that are kept are enough for every signature. -/
theorem confirms_take (loads : Bytes → Option Json) (signatures : List (List MagicSegment))
    (content : Bytes) :
    signatures.any (fun segments => segments.all (fun segment => segment.matches
      (content.take (ConfirmationRule.prefixNeeded (some (.magic signatures)))))) =
      (ConfirmationRule.magic signatures).confirms loads content := by
  rw [Bool.eq_iff_iff, ConfirmationRule.confirms]
  simp only [List.any_eq_true, List.all_eq_true]
  refine exists_congr fun segments => and_congr_right fun hsegments =>
    forall₂_congr fun segment hsegment => ?_
  rw [matches_take]
  exact le_foldl_max 0 (.inl (List.mem_map.mpr
    ⟨segment, List.mem_flatten.mpr ⟨segments, hsegments, hsegment⟩, rfl⟩))

namespace Inspector

variable (inspector : Inspector)

/-- The format that a file's extension claims. -/
def claimed (filename : String) : ArtifactTypeKey :=
  (inspector.extensionClaims (inspector.casefold (fileExtension filename))).getD blobFile

theorem readChunks_within {filename : String} {maxUploadBytes : ℕ} (needed : ℕ) (json : Bool)
    (fed : List Bytes) {b : Bytes} (h : (b ++ chunks.flatten).length ≤ maxUploadBytes) :
    readChunks filename maxUploadBytes needed json chunks ⟨b.length, b, b.take needed, fed⟩ =
      .ok ⟨(b ++ chunks.flatten).length, b ++ chunks.flatten,
        (b ++ chunks.flatten).take needed, if json then fed ++ chunks else fed⟩ := by
  induction chunks generalizing b fed with
  | nil => simp [readChunks]
  | cons chunk rest ih =>
    rw [List.flatten_cons, ← List.append_assoc] at h ⊢
    have hwithin : ¬ b.length + chunk.length > maxUploadBytes := by
      rw [List.length_append, List.length_append] at h
      omega
    rw [readChunks, if_neg hwithin, take_append_chunk, ← List.length_append, ih _ h]
    cases json <;> simp

/-- For bytes in whatever chunks, the rule decides what it would of the whole file. -/
theorem confirms_whole {parser : JsonParser}
    (hchunks : parser.stream parser.start chunks = whole chunks.flatten)
    (rule : Option ConfirmationRule) :
    { inspector with confirmsJson := parser.confirms }.confirms
      ⟨chunks.flatten.length, chunks.flatten,
        chunks.flatten.take (ConfirmationRule.prefixNeeded rule),
        if rule.any ConfirmationRule.needsJson then chunks else []⟩ rule =
      rule.all (fun rule => rule.accepts loads whole chunks.flatten) := by
  cases rule with
  | none => rfl
  | some rule =>
    cases rule with
    | none => rfl
    | magic signatures => exact confirms_take loads signatures chunks.flatten
    | json | jsonDocument =>
      refine (finish_foldl _ chunks parser.start ⟨0, none⟩).trans ?_
      rw [hchunks]
      rfl

end Inspector

/-- Where the events of an incremental parser do not depend on how the bytes are cut, and end
without an error only for the events of one document: an inspection of chunks succeeds exactly
where the whole content has the expected and the declared size, is within the limit and is
accepted by the rule of its format, and reports the size and the digest of the whole content.
For the rules other than the two of JSON, to be accepted is to be confirmed; for these two,
what is accepted is confirmed. -/
theorem chunks_decide_whole_file (inspector : Inspector) (parser : JsonParser)
    {text : String → Token} {number : Json → Token}
    (hchunks : ∀ chunks, [] ∉ chunks → parser.stream parser.start chunks = whole chunks.flatten)
    (hwhole : ∀ content events, whole content = some events → ∃ document,
      loads content = some document ∧ events = eventsOf text number document) :
    (∀ filename expectedSize maxUploadBytes declaredByteSize chunks inspection, [] ∉ chunks →
      ({ inspector with confirmsJson := parser.confirms }.inspectChunks filename expectedSize
          maxUploadBytes declaredByteSize chunks = .ok inspection ↔
        chunks.flatten.length = expectedSize ∧
        (∀ declared ∈ declaredByteSize, chunks.flatten.length = declared) ∧
        chunks.flatten.length ≤ maxUploadBytes ∧
        ∃ rule, inspector.ruleFor (inspector.casefold (fileExtension filename))
            (inspector.claimed filename) = .ok rule ∧
          rule.all (fun rule => rule.accepts loads whole chunks.flatten) ∧
          inspection = ⟨chunks.flatten.length, inspector.sha256 chunks.flatten,
            inspector.claimed filename⟩)) ∧
    (∀ (rule : ConfirmationRule) content, rule.needsJson = false →
      rule.accepts loads whole content = rule.confirms loads content) ∧
    ∀ (rule : ConfirmationRule) content, rule.accepts loads whole content →
      rule.confirms loads content := by
  refine ⟨fun filename expectedSize maxUploadBytes declaredByteSize chunks inspection hcut => ?_,
    fun rule content hrule => ?_, fun _ _ => accepts_confirms hwhole⟩
  · by_cases hlimit : chunks.flatten.length ≤ maxUploadBytes
    · have hread : ∀ needed json, Inspector.readChunks filename maxUploadBytes needed json chunks
          ⟨0, [], [], []⟩ = .ok ⟨chunks.flatten.length, chunks.flatten,
            chunks.flatten.take needed, if json then chunks else []⟩ := by
        intro needed json
        simpa using Inspector.readChunks_within needed json [] (b := []) hlimit
      simp only [Inspector.inspectChunks, bind_ok, require_ok, hread, Except.ok.injEq]
      constructor
      · rintro ⟨rule, hrule, _, rfl, _, hdeclared, _, hexpected, _, hconfirms, hdone⟩
        rw [Inspector.confirms_whole inspector (hchunks chunks hcut)] at hconfirms
        exact ⟨hexpected, hdeclared, hlimit, rule, hrule, hconfirms, (Except.ok.inj hdone).symm⟩
      · rintro ⟨hexpected, hdeclared, -, rule, hrule, haccepts, rfl⟩
        rw [← Inspector.confirms_whole inspector (hchunks chunks hcut)] at haccepts
        exact ⟨rule, hrule, _, rfl, (), hdeclared, (), hexpected, (), haccepts, rfl⟩
    · refine ⟨fun h => absurd (Inspector.inspectChunks_ok _ h).2.2.2 hlimit,
        fun h => absurd h.2.2.1 hlimit⟩
  · unfold ConfirmationRule.accepts
    rw [hrule]
    rfl

/-- The text of an object with one member. -/
def memberText : Bytes := [123, 34, 97, 34, 58, 110, 117, 108, 108, 125]

/-- The events that end after one byte of it and up to another. -/
def memberEvents (after upTo : ℕ) : List JsonEvent :=
  ([(1, .startMap), (4, .mapKey .unmeasured), (9, .null), (10, .endMap)].filter
    (fun ending : ℕ × JsonEvent => after < ending.1 ∧ ending.1 ≤ upTo)).map Prod.snd

/-- A parser of this text alone. It gives an event as soon as it has read the last byte of it. -/
def memberParser : JsonParser where
  State := Bytes
  start := []
  send kept chunk :=
    if chunk = [] then ([], if kept = memberText then .stopped else .raised)
    else if kept ++ chunk <+: memberText then
      (memberEvents kept.length (kept ++ chunk).length, .waits (kept ++ chunk))
    else ([], .raised)
  closeRaises _ := false

theorem memberEvents_append : ∀ upTo < 11, ∀ after ≤ upTo,
    memberEvents after upTo ++ memberEvents upTo 10 = memberEvents after 10 := by decide

theorem member_stream (chunks : List Bytes) (kept : Bytes) (h : [] ∉ chunks) :
    memberParser.stream kept chunks =
      if kept ++ chunks.flatten = memberText then some (memberEvents kept.length 10) else none := by
  induction chunks generalizing kept with
  | nil =>
    by_cases hkept : kept = memberText
    · subst hkept
      rfl
    · simp [JsonParser.stream, memberParser, hkept]
  | cons chunk rest ih =>
    have hchunk : chunk ≠ [] := fun hempty => h (hempty ▸ List.mem_cons_self)
    have hrest := ih (kept ++ chunk) (fun hmem => h (List.mem_cons_of_mem _ hmem))
    rw [List.flatten_cons, ← List.append_assoc]
    by_cases hprefix : kept ++ chunk <+: memberText
    · have hsend : memberParser.send kept chunk =
          (memberEvents kept.length (kept ++ chunk).length, .waits (kept ++ chunk)) :=
        (if_neg hchunk).trans (if_pos hprefix)
      have happend := memberEvents_append _ (Nat.lt_succ_of_le hprefix.length_le) kept.length
        (by simp)
      simp only [JsonParser.stream, hsend, hrest, ← happend]
      split_ifs <;> rfl
    · have hsend : memberParser.send kept chunk = ([], .raised) :=
        (if_neg hchunk).trans (if_neg hprefix)
      rw [if_neg (fun heq => hprefix ⟨_, heq⟩)]
      simp only [JsonParser.stream, hsend]

def jsonInspector : Inspector where
  extensionClaims _ := some ⟨"file.json", 1⟩
  artifactTypes _ := some .json
  sha256 _ := ""
  casefold := id
  upper := id
  repr := id
  confirmsJson _ _ := false

theorem member_inspected : ∃ inspection,
    { jsonInspector with confirmsJson := memberParser.confirms }.inspectChunks "a.json" 10 10
      (some 10) [[123, 34, 97], [34, 58, 110, 117], [108, 108, 125]] = .ok inspection := by
  have hdecides := @chunks_decide_whole_file
    (fun content => if content = memberText then some (.obj [("a", .null)]) else none)
    (fun content => if content = memberText then some (memberEvents 0 10) else none)
    jsonInspector memberParser (fun _ => .unmeasured) (fun _ => .unmeasured)
    (fun chunks hcut => member_stream chunks [] hcut) ?_
  · exact ⟨_, (hdecides.1 "a.json" 10 10 (some 10) [[123, 34, 97], [34, 58, 110, 117],
      [108, 108, 125]] _ (by simp)).mpr ⟨rfl, by simp, by decide, some .json, rfl, by decide, rfl⟩⟩
  · intro content events hevents
    split at hevents
    · next hcontent =>
      cases hevents
      exact ⟨.obj [("a", .null)], if_pos hcontent, rfl⟩
    · cases hevents

end WholeFile

end Grafy.Inspection
