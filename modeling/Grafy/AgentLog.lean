import Grafy.OrderedDict
import Grafy.AgentConversations
import Mathlib.Data.List.Range

/-!
What the stored conversations look like. The events of a conversation carry the
sequences from one on, its receipts but the last are terminal, and its events
are the blocks of its receipts in the order of admission, behind the copied
events where it is a fork. Every transaction that commits is one of four
effects, and each effect keeps this shape.
-/
namespace Grafy.Agents

def Database.eventsOf (db : Database) (conversation : ℕ) : List Event :=
  db.events.filter (fun e => e.conversation = conversation)

def Database.receiptsOf (db : Database) (conversation : ℕ) : List Receipt :=
  db.receipts.filter (fun r => r.conversation = conversation)

/-- Events placed on a conversation at consecutive sequences. -/
def place (conversation next : ℕ) : List (ℕ × Payload) → List Event
  | [] => []
  | entry :: rest => ⟨conversation, next, entry.1, entry.2⟩ :: place conversation (next + 1) rest

/-- The conversations with one of them moved on. -/
def bump (id count : ℕ) (conversations : List Conversation) : List Conversation :=
  conversations.map (fun c =>
    if c.id = id then { c with nextSequence := c.nextSequence + count } else c)

/-- The events of an ending, the answer if one arrived. -/
def ending (turn : ℕ) (answer : Option String) (outcome : Outcome) (detail : Option String) :
    List (ℕ × Payload) :=
  (answer.toList.map (fun text => (turn, .assistantMessage text))) ++
    [(turn, .turnOutcome outcome detail)]

/-- A receipt after its turn ended. -/
def Receipt.ended (r : Receipt) (outcome : Outcome) (detail : Option String) : Receipt :=
  { r with status := outcome.status, outcomeDetail := detail }

/-- The receipts with one of them ended. -/
def endReceipt (turn : ℕ) (outcome : Outcome) (detail : Option String)
    (receipts : List Receipt) : List Receipt :=
  receipts.map (fun r => if r.id = turn then r.ended outcome detail else r)

/-- What a committed transaction does to the rows. -/
inductive Effect (digest : String → String) (db : Database) : Database → Prop
  | start (conversation : Conversation) : (∀ c ∈ db.conversations, c.id ≠ conversation.id) →
      conversation.source = none → conversation.nextSequence = 1 →
      Effect digest db { db with conversations := db.conversations ++ [conversation] }
  | admitTurn (conversation : Conversation) (receipt : Receipt) (text : String) :
      conversation ∈ db.conversations →
      (∀ r ∈ db.receipts, r.id ≠ receipt.id) →
      (∀ r ∈ db.receipts, r.conversation = conversation.id →
        r.clientTurnId ≠ receipt.clientTurnId ∧ r.status ≠ .running) →
      receipt.conversation = conversation.id → receipt.status = .running →
      receipt.requestDigest = digest text →
      Effect digest db
        { conversations := bump conversation.id 1 db.conversations
          events := db.events ++
            place conversation.id conversation.nextSequence [(receipt.id, .userMessage text)]
          receipts := db.receipts ++ [receipt] }
  | finish (conversation : Conversation) (receipt : Receipt) (answer : Option String)
      (outcome : Outcome) (detail : Option String) :
      receipt ∈ db.receipts → receipt.status = .running →
      conversation ∈ db.conversations → conversation.id = receipt.conversation →
      Effect digest db
        { conversations :=
            bump conversation.id (ending receipt.id answer outcome detail).length
              db.conversations
          events := db.events ++ place conversation.id conversation.nextSequence
            (ending receipt.id answer outcome detail)
          receipts := endReceipt receipt.id outcome detail db.receipts }
  | fork (source fork : Conversation) (count : ℕ) :
      source ∈ db.conversations → 1 ≤ count → count < source.nextSequence →
      (∀ c ∈ db.conversations, c.id ≠ fork.id) → fork.source = some (source.id, count) →
      fork.nextSequence = count + 1 →
      Effect digest db
        { db with
          conversations := db.conversations ++ [fork]
          events := db.events ++ place fork.id 1
            (((db.eventsOf source.id).take count).map (fun e => (e.turnId, e.payload))) }

/-! The shape of a conversation -/

/-- The events of one receipt: its user message, and once it is terminal the answer, if
there is one, and the outcome of the same status. -/
inductive Block (r : Receipt) : List Event → Prop
  | pending {user text} : r.status = .running → user.turnId = r.id →
      user.payload = .userMessage text → Block r [user]
  | closed {user last text outcome detail} : user.turnId = r.id →
      user.payload = .userMessage text → last.turnId = r.id →
      last.payload = .turnOutcome outcome detail → r.status = outcome.status →
      Block r [user, last]
  | answered {user answer last text reply outcome detail} : user.turnId = r.id →
      user.payload = .userMessage text → answer.turnId = r.id →
      answer.payload = .assistantMessage reply → last.turnId = r.id →
      last.payload = .turnOutcome outcome detail → r.status = outcome.status →
      Block r [user, answer, last]

/-- The blocks of a list of receipts, in their order. -/
inductive Blocks : List Receipt → List Event → Prop
  | nil : Blocks [] []
  | cons {r receipts block rest} : Block r block → Blocks receipts rest →
      Blocks (r :: receipts) (block ++ rest)

/-- What a conversation's rows are. -/
structure ConversationOk (db : Database) (c : Conversation) : Prop where
  positive : 1 ≤ c.nextSequence
  sequences : (db.eventsOf c.id).map Event.sequence = List.range' 1 (c.nextSequence - 1)
  log : ∃ copied own, db.eventsOf c.id = copied ++ own ∧
    Blocks (db.receiptsOf c.id) own ∧
    (∀ e ∈ copied, ∀ r ∈ db.receiptsOf c.id, e.turnId ≠ r.id) ∧
    (c.source = none → copied = []) ∧
    ∀ source count, c.source = some (source, count) →
      copied.length = count ∧
        copied.map (fun e => (e.turnId, e.payload)) =
          ((db.eventsOf source).take count).map (fun e => (e.turnId, e.payload))

structure LogOk (db : Database) : Prop where
  ids : (db.conversations.map Conversation.id).Nodup
  receipt_ids : (db.receipts.map Receipt.id).Nodup
  receipt_conversation : ∀ r ∈ db.receipts, ∃ c ∈ db.conversations, c.id = r.conversation
  event_conversation : ∀ e ∈ db.events, ∃ c ∈ db.conversations, c.id = e.conversation
  event_turn : ∀ e ∈ db.events, ∃ r ∈ db.receipts, r.id = e.turnId
  source : ∀ c ∈ db.conversations, ∀ source count, c.source = some (source, count) →
    ∃ s ∈ db.conversations, s.id = source ∧ count < s.nextSequence
  clients : db.receipts.Pairwise
    (fun r r' => ¬ (r.conversation = r'.conversation ∧ r.clientTurnId = r'.clientTurnId))
  running_last : ∀ id, ∀ r ∈ (db.receiptsOf id).dropLast, r.status ≠ .running
  conversations : ∀ c ∈ db.conversations, ConversationOk db c

def Database.empty : Database := ⟨[], [], []⟩

theorem logOk_empty : LogOk Database.empty := by
  constructor <;> simp [Database.empty, Database.receiptsOf]

/-! Small facts -/

variable {db db' : Database} {c c' : Conversation} {id next other : ℕ}
  {entries : List (ℕ × Payload)} {events : List Event} {e : Event} {r : Receipt}

section Rows

variable {conversations : List Conversation}

@[simp]
theorem length_place (id next : ℕ) (entries : List (ℕ × Payload)) :
    (place id next entries).length = entries.length := by
  induction entries generalizing next with
  | nil => rfl
  | cons entry rest ih => simp [place, ih]

theorem map_sequence_place (id next : ℕ) (entries : List (ℕ × Payload)) :
    (place id next entries).map Event.sequence = List.range' next entries.length := by
  induction entries generalizing next with
  | nil => rfl
  | cons entry rest ih => simp [place, ih, List.range'_succ]

/-- Events from one on, and then the events placed at the next sequence. -/
theorem map_sequence_append (hpositive : 1 ≤ next)
    (h : events.map Event.sequence = List.range' 1 (next - 1)) (entries : List (ℕ × Payload)) :
    (events ++ place id next entries).map Event.sequence =
      List.range' 1 (next + entries.length - 1) := by
  have happend : List.range' 1 (next - 1) ++ List.range' (1 + (next - 1)) entries.length =
      List.range' 1 (next - 1 + entries.length) := List.range'_append_1
  have hstart : 1 + (next - 1) = next := by omega
  have hcount : next - 1 + entries.length = next + entries.length - 1 := by omega
  rw [hstart, hcount] at happend
  rw [List.map_append, h, map_sequence_place, happend]

theorem map_entry_place (id next : ℕ) (entries : List (ℕ × Payload)) :
    (place id next entries).map (fun e => (e.turnId, e.payload)) = entries := by
  induction entries generalizing next with
  | nil => rfl
  | cons entry rest ih => simp [place, ih]

theorem mem_place (h : e ∈ place id next entries) :
    e.conversation = id ∧ (e.turnId, e.payload) ∈ entries := by
  induction entries generalizing next with
  | nil => cases h
  | cons entry rest ih =>
    rcases List.mem_cons.mp h with rfl | h
    · exact ⟨rfl, List.mem_cons_self⟩
    · obtain ⟨hid, hmem⟩ := ih h
      exact ⟨hid, List.mem_cons_of_mem _ hmem⟩

theorem filter_place_self (id next : ℕ) (entries : List (ℕ × Payload)) :
    (place id next entries).filter (fun e => e.conversation = id) = place id next entries := by
  rw [List.filter_eq_self]
  intro e he
  exact decide_eq_true (mem_place he).1

theorem filter_place_ne (next : ℕ) (entries : List (ℕ × Payload)) (h : other ≠ id) :
    (place id next entries).filter (fun e => e.conversation = other) = [] := by
  rw [List.filter_eq_nil_iff]
  intro e he hother
  exact h ((of_decide_eq_true hother).symm.trans (mem_place he).1)

theorem eventsOf_append_self (h : db'.events = db.events ++ place id next entries) :
    db'.eventsOf id = db.eventsOf id ++ place id next entries := by
  rw [Database.eventsOf, h, List.filter_append, filter_place_self]
  rfl

theorem eventsOf_append_ne {other : ℕ} (h : db'.events = db.events ++ place id next entries)
    (hne : other ≠ id) : db'.eventsOf other = db.eventsOf other := by
  rw [Database.eventsOf, h, List.filter_append, filter_place_ne _ _ hne, List.append_nil]
  rfl

theorem map_id_bump (id count : ℕ) (conversations : List Conversation) :
    (bump id count conversations).map Conversation.id = conversations.map Conversation.id := by
  rw [bump, List.map_map]
  refine List.map_congr_left ?_
  intro c _
  by_cases h : c.id = id <;> simp [h]

/-- A conversation of the moved list: one as it was, or the one moved. -/
theorem mem_bump {count : ℕ} (h : c ∈ bump id count conversations) :
    (c ∈ conversations ∧ c.id ≠ id) ∨
      ∃ old ∈ conversations, old.id = id ∧
        c = { old with nextSequence := old.nextSequence + count } := by
  obtain ⟨old, hold, rfl⟩ := List.mem_map.mp h
  by_cases hid : old.id = id
  · exact .inr ⟨old, hold, hid, if_pos hid⟩
  · rw [if_neg hid]
    exact .inl ⟨hold, hid⟩

theorem exists_mem_bump (id count : ℕ) {old : Conversation} (h : old ∈ conversations) :
    ∃ c ∈ bump id count conversations, c.id = old.id ∧ old.nextSequence ≤ c.nextSequence := by
  refine ⟨_, List.mem_map.mpr ⟨old, h, rfl⟩, ?_⟩
  by_cases hid : old.id = id <;> simp [hid]

theorem LogOk.conversation_unique (h : LogOk db) (hc : c ∈ db.conversations)
    (hc' : c' ∈ db.conversations) (hid : c.id = c'.id) : c = c' :=
  List.inj_on_of_nodup_map h.ids hc hc' hid

theorem LogOk.receipt_unique (h : LogOk db) {r' : Receipt} (hr : r ∈ db.receipts)
    (hr' : r' ∈ db.receipts) (hid : r.id = r'.id) : r = r' :=
  List.inj_on_of_nodup_map h.receipt_ids hr hr' hid

theorem ConversationOk.length_events (h : ConversationOk db c) :
    (db.eventsOf c.id).length = c.nextSequence - 1 := by
  have hlength := congrArg List.length h.sequences
  simpa using hlength

end Rows

/-! Blocks -/

variable {receipts : List Receipt}

section Blocks

theorem Blocks.append {receipts' : List Receipt} {events' : List Event} (h : Blocks receipts events)
    (h' : Blocks receipts' events') : Blocks (receipts ++ receipts') (events ++ events') := by
  induction h with
  | nil => exact h'
  | cons hblock _ ih =>
    rw [List.append_assoc]
    exact .cons hblock ih

variable {block : List Event}

theorem Blocks.singleton (h : Block r block) : Blocks [r] block := by
  have hblocks := Blocks.cons h .nil
  rwa [List.append_nil] at hblocks

theorem Blocks.split_last (h : Blocks (receipts ++ [r]) events) :
    ∃ front block, events = front ++ block ∧ Blocks receipts front ∧ Block r block := by
  induction receipts generalizing events with
  | nil =>
    cases h with
    | cons hblock hrest =>
      cases hrest
      exact ⟨[], _, by simp, .nil, hblock⟩
  | cons first receipts ih =>
    cases h with
    | cons hblock hrest =>
      obtain ⟨front, block, rfl, hfront, hlast⟩ := ih hrest
      exact ⟨_ ++ front, block, by simp, .cons hblock hfront, hlast⟩

theorem Block.open_of_running (h : Block r block) (hrunning : r.status = .running) :
    ∃ user text, block = [user] ∧ user.turnId = r.id ∧ user.payload = .userMessage text := by
  cases h with
  | @pending user text _ hturn hpayload => exact ⟨user, text, rfl, hturn, hpayload⟩
  | @closed _ _ _ outcome _ _ _ _ _ hstatus | @answered _ _ _ _ _ outcome _ _ _ _ _ _ _ hstatus =>
    rw [hrunning] at hstatus
    cases outcome <;> cases hstatus

theorem Block.ended (h : Block r block) (hrunning : r.status = .running) (id next : ℕ)
    (answer : Option String) (outcome : Outcome) (detail : Option String) :
    Block (r.ended outcome detail)
      (block ++ place id next (ending r.id answer outcome detail)) := by
  obtain ⟨user, text, rfl, hturn, hpayload⟩ := h.open_of_running hrunning
  cases answer with
  | none => exact Block.closed hturn hpayload rfl rfl rfl
  | some reply => exact Block.answered hturn hpayload rfl rfl rfl rfl rfl

theorem Block.mem_turnId (h : Block r block) (he : e ∈ block) : e.turnId = r.id := by
  cases h with
  | pending _ hturn _ =>
    rw [List.mem_singleton.mp he]
    exact hturn
  | closed hturn _ hlast _ _ =>
    rcases List.mem_pair.mp he with rfl | rfl
    · exact hturn
    · exact hlast
  | answered hturn _ hanswer _ hlast _ _ =>
    simp only [List.mem_cons, List.not_mem_nil, or_false] at he
    rcases he with rfl | rfl | rfl
    · exact hturn
    · exact hanswer
    · exact hlast

end Blocks

/-! The effects keep the shape -/

section Effects

variable {digest : String → String} {turn : ℕ} {outcome : Outcome} {detail : Option String}

/-- A conversation whose own rows are untouched, in a log that only grew. -/
theorem ConversationOk.frame (h : ConversationOk db c)
    (hevents : db'.eventsOf c.id = db.eventsOf c.id)
    (hreceipts : db'.receiptsOf c.id = db.receiptsOf c.id)
    (hsource : ∀ source count, c.source = some (source, count) →
      (db'.eventsOf source).take count = (db.eventsOf source).take count) :
    ConversationOk db' c := by
  obtain ⟨copied, own, hsplit, hblocks, hforeign, hfresh, hcopied⟩ := h.log
  refine ⟨h.positive, by rw [hevents, h.sequences],
    ⟨copied, own, by rw [hevents, hsplit], by rw [hreceipts]; exact hblocks,
      by rw [hreceipts]; exact hforeign, hfresh, ?_⟩⟩
  intro source count heq
  rw [hsource source count heq]
  exact hcopied source count heq

/-- A conversation that took new events of its own. -/
theorem ConversationOk.extend (h : ConversationOk db c) (hid : c'.id = c.id)
    (hcsource : c'.source = c.source) (hnext : c'.nextSequence = c.nextSequence + entries.length)
    (hevents : db'.eventsOf c.id = db.eventsOf c.id ++ place c.id c.nextSequence entries)
    (hblocks : ∀ own, Blocks (db.receiptsOf c.id) own → Blocks (db'.receiptsOf c.id) (own ++ place
      c.id c.nextSequence entries))
    (hforeign : ∀ e ∈ db.eventsOf c.id, ∀ r' ∈ db'.receiptsOf c.id, e.turnId = r'.id → ∃ r ∈
      db.receiptsOf c.id, e.turnId = r.id)
    (hsource : ∀ source count, c.source = some (source, count) → (db'.eventsOf source).take count =
      (db.eventsOf source).take count) :
    ConversationOk db' c' := by
  obtain ⟨copied, own, hsplit, hown, hcopies, hfresh, hcopied⟩ := h.log
  have hpositive := h.positive
  refine ⟨by omega, ?_, ⟨copied, own ++ place c.id c.nextSequence entries, ?_, ?_, ?_, ?_, ?_⟩⟩
  · rw [hid, hnext, hevents]
    exact map_sequence_append hpositive h.sequences entries
  · rw [hid, hevents, hsplit, List.append_assoc]
  · rw [hid]
    exact hblocks own hown
  · rw [hid]
    intro e he r' hr' heq
    obtain ⟨r, hr, hrid⟩ := hforeign e (by rw [hsplit]; exact List.mem_append_left _ he) r' hr' heq
    exact hcopies e he r hr hrid
  · intro hnone
    exact hfresh (hcsource ▸ hnone)
  · intro source count heq
    rw [hcsource] at heq
    rw [hsource source count heq]
    exact hcopied source count heq

/-- The copied part of a source stays as it was when events are added. -/
theorem LogOk.take_source (h : LogOk db) (hc : c ∈ db.conversations)
    (hevents : db'.events = db.events ++ place id next entries) (source count : ℕ)
    (hsource : c.source = some (source, count)) :
    (db'.eventsOf source).take count = (db.eventsOf source).take count := by
  by_cases hid : source = id
  · subst hid
    obtain ⟨s, hs, rfl, hcount⟩ := h.source c hc source count hsource
    have hlength := (h.conversations s hs).length_events
    rw [eventsOf_append_self hevents, List.take_append_of_le_length (by omega)]
  · rw [eventsOf_append_ne hevents hid]

theorem eventsOf_eq_nil (h : LogOk db) (hfresh : ∀ c ∈ db.conversations, c.id ≠ id) :
    db.eventsOf id = [] := by
  rw [Database.eventsOf, List.filter_eq_nil_iff]
  intro e he hid
  obtain ⟨c, hc, hcid⟩ := h.event_conversation e he
  exact hfresh c hc (hcid.trans (of_decide_eq_true hid))

theorem receiptsOf_eq_nil (h : LogOk db) (hfresh : ∀ c ∈ db.conversations, c.id ≠ id) :
    db.receiptsOf id = [] := by
  rw [Database.receiptsOf, List.filter_eq_nil_iff]
  intro r hr hid
  obtain ⟨c, hc, hcid⟩ := h.receipt_conversation r hr
  exact hfresh c hc (hcid.trans (of_decide_eq_true hid))

theorem nodup_map_append {A : Type} {f : A → ℕ} {l : List A} {a : A} (h : (l.map f).Nodup)
    (hfresh : ∀ b ∈ l, f b ≠ f a) : ((l ++ [a]).map f).Nodup := by
  rw [List.map_append, List.nodup_append]
  refine ⟨h, by simp, ?_⟩
  intro x hx y hy heq
  obtain ⟨b, hb, rfl⟩ := List.mem_map.mp hx
  obtain rfl : y = f a := by simpa using hy
  exact hfresh b hb heq

theorem LogOk.start (h : LogOk db) (conversation : Conversation)
    (hfresh : ∀ c ∈ db.conversations, c.id ≠ conversation.id)
    (hsource : conversation.source = none) (hnext : conversation.nextSequence = 1) :
    LogOk { db with conversations := db.conversations ++ [conversation] } := by
  constructor
  · exact nodup_map_append h.ids hfresh
  · exact h.receipt_ids
  · intro r hr
    obtain ⟨c, hc, hid⟩ := h.receipt_conversation r hr
    exact ⟨c, List.mem_append_left _ hc, hid⟩
  · intro e he
    obtain ⟨c, hc, hid⟩ := h.event_conversation e he
    exact ⟨c, List.mem_append_left _ hc, hid⟩
  · exact h.event_turn
  · intro c hc source count heq
    rcases mem_snoc.mp hc with hc | rfl
    · obtain ⟨s, hs, hid, hcount⟩ := h.source c hc source count heq
      exact ⟨s, List.mem_append_left _ hs, hid, hcount⟩
    · rw [hsource] at heq
      cases heq
  · exact h.clients
  · exact h.running_last
  · intro c hc
    rcases mem_snoc.mp hc with hc | rfl
    · exact (h.conversations c hc).frame rfl rfl (fun _ _ _ => rfl)
    · have hevents := eventsOf_eq_nil h hfresh
      have hreceipts := receiptsOf_eq_nil h hfresh
      refine ⟨by omega, ?_, [], [], hevents, ?_, by simp, fun _ => rfl, ?_⟩
      · rw [hnext]
        exact congrArg (List.map Event.sequence) hevents
      · have hnil : Blocks [] [] := .nil
        rw [← hreceipts] at hnil
        exact hnil
      · intro source count heq
        rw [hsource] at heq
        cases heq

theorem receiptsOf_append_self (h : db'.receipts = db.receipts ++ [r]) :
    db'.receiptsOf r.conversation = db.receiptsOf r.conversation ++ [r] := by
  rw [Database.receiptsOf, h, List.filter_append]
  simp [Database.receiptsOf]

theorem receiptsOf_append_ne (h : db'.receipts = db.receipts ++ [r]) (hne : id ≠ r.conversation) :
    db'.receiptsOf id = db.receiptsOf id := by
  rw [Database.receiptsOf, h, List.filter_append]
  simp [Database.receiptsOf, Ne.symm hne]

theorem mem_receiptsOf : r ∈ db.receiptsOf id ↔ r ∈ db.receipts ∧ r.conversation = id := by
  simp [Database.receiptsOf]

theorem mem_eventsOf : e ∈ db.eventsOf id ↔ e ∈ db.events ∧ e.conversation = id := by
  simp [Database.eventsOf]

theorem LogOk.source_bump (h : LogOk db) (id count : ℕ) :
    ∀ c ∈ bump id count db.conversations, ∀ source n, c.source = some (source, n) →
      ∃ s ∈ bump id count db.conversations, s.id = source ∧ n < s.nextSequence := by
  intro c hc source n heq
  obtain ⟨old, hold, hsource⟩ : ∃ old ∈ db.conversations, old.source = some (source, n) := by
    rcases mem_bump hc with ⟨hc, -⟩ | ⟨old, hold, -, rfl⟩
    · exact ⟨c, hc, heq⟩
    · exact ⟨old, hold, heq⟩
  obtain ⟨s, hs, hsid, hn⟩ := h.source old hold source n hsource
  obtain ⟨s', hs', hs'id, hs'next⟩ := exists_mem_bump id count hs
  exact ⟨s', hs', hs'id.trans hsid, by omega⟩

theorem exists_bump {n : ℕ} (h : ∃ c ∈ db.conversations, c.id = n) (id count : ℕ) :
    ∃ c ∈ bump id count db.conversations, c.id = n := by
  obtain ⟨c, hc, hcid⟩ := h
  obtain ⟨c', hc', hc'id, -⟩ := exists_mem_bump id count hc
  exact ⟨c', hc', hc'id.trans hcid⟩

theorem LogOk.admitTurn (h : LogOk db) (conversation : Conversation) (receipt : Receipt)
    (text : String) (hconversation : conversation ∈ db.conversations)
    (hfresh : ∀ r ∈ db.receipts, r.id ≠ receipt.id)
    (hrules : ∀ r ∈ db.receipts, r.conversation = conversation.id →
      r.clientTurnId ≠ receipt.clientTurnId ∧ r.status ≠ .running)
    (hreceipt : receipt.conversation = conversation.id) (hstatus : receipt.status = .running) :
    LogOk
      { conversations := bump conversation.id 1 db.conversations
        events := db.events ++
          place conversation.id conversation.nextSequence [(receipt.id, .userMessage text)]
        receipts := db.receipts ++ [receipt] } := by
  generalize hdb' : (Database.mk (bump conversation.id 1 db.conversations)
    (db.events ++ place conversation.id conversation.nextSequence [(receipt.id, .userMessage text)])
    (db.receipts ++ [receipt])) = db'
  have hevents : db'.events = db.events ++
      place conversation.id conversation.nextSequence [(receipt.id, .userMessage text)] := by
    rw [← hdb']
  have hreceipts : db'.receipts = db.receipts ++ [receipt] := by rw [← hdb']
  have hconversations : db'.conversations = bump conversation.id 1 db.conversations := by
    rw [← hdb']
  constructor
  · rw [hconversations, map_id_bump]
    exact h.ids
  · rw [hreceipts]
    exact nodup_map_append h.receipt_ids hfresh
  · intro r hr
    rw [hconversations]
    refine exists_bump ?_ _ _
    rw [hreceipts] at hr
    rcases mem_snoc.mp hr with hr | rfl
    · exact h.receipt_conversation r hr
    · exact ⟨conversation, hconversation, hreceipt.symm⟩
  · intro e he
    rw [hconversations]
    refine exists_bump ?_ _ _
    rw [hevents] at he
    rcases List.mem_append.mp he with he | he
    · exact h.event_conversation e he
    · exact ⟨conversation, hconversation, (mem_place he).1.symm⟩
  · intro e he
    rw [hreceipts]
    rw [hevents] at he
    rcases List.mem_append.mp he with he | he
    · obtain ⟨r, hr, hrid⟩ := h.event_turn e he
      exact ⟨r, List.mem_append_left _ hr, hrid⟩
    · have hentry := List.mem_singleton.mp (mem_place he).2
      exact ⟨receipt, by simp, (congrArg Prod.fst hentry).symm⟩
  · rw [hconversations]
    exact h.source_bump _ _
  · rw [hreceipts, List.pairwise_append]
    refine ⟨h.clients, by simp, ?_⟩
    intro r hr r' hr' hsame
    rw [List.mem_singleton.mp hr'] at hsame
    exact (hrules r hr (hsame.1.trans hreceipt)).1 hsame.2
  · intro id r hr
    by_cases hid : id = receipt.conversation
    · subst hid
      rw [receiptsOf_append_self hreceipts, List.dropLast_concat] at hr
      obtain ⟨hmem, hrid⟩ := mem_receiptsOf.mp hr
      exact (hrules r hmem (hrid.trans hreceipt)).2
    · rw [receiptsOf_append_ne hreceipts hid] at hr
      exact h.running_last id r hr
  · intro c hc
    rw [hconversations] at hc
    rcases mem_bump hc with ⟨hc, hne⟩ | ⟨old, hold, hsame, rfl⟩
    · exact (h.conversations c hc).frame (eventsOf_append_ne hevents hne)
        (receiptsOf_append_ne hreceipts (by rw [hreceipt]; exact hne))
        (h.take_source hc hevents)
    · obtain rfl := h.conversation_unique hold hconversation hsame
      refine (h.conversations old hold).extend rfl rfl rfl (eventsOf_append_self hevents) ?_ ?_
        (h.take_source hold hevents)
      · intro own hown
        rw [← hreceipt, receiptsOf_append_self hreceipts, hreceipt]
        exact hown.append (.singleton (.pending hstatus rfl rfl))
      · intro e he r' hr' heq
        rw [← hreceipt, receiptsOf_append_self hreceipts, hreceipt] at hr'
        rcases mem_snoc.mp hr' with hr' | rfl
        · exact ⟨r', hr', heq⟩
        · obtain ⟨r, hr, hrid⟩ := h.event_turn e (mem_eventsOf.mp he).1
          exact absurd (hrid.trans heq) (hfresh r hr)

theorem filter_endReceipt (turn id : ℕ) (outcome : Outcome) (detail : Option String)
    (receipts : List Receipt) :
    (endReceipt turn outcome detail receipts).filter (fun r => r.conversation = id) =
      endReceipt turn outcome detail (receipts.filter (fun r => r.conversation = id)) := by
  rw [endReceipt, List.filter_map, endReceipt]
  congr 1
  refine List.filter_congr ?_
  intro r _
  by_cases h : r.id = turn <;> simp [h, Receipt.ended]

theorem endReceipt_eq_self (outcome : Outcome) (detail : Option String)
    (h : ∀ r ∈ receipts, r.id ≠ turn) : endReceipt turn outcome detail receipts = receipts := by
  rw [endReceipt, List.map_congr_left (g := id), List.map_id]
  intro r hr
  simp [h r hr]

theorem map_id_endReceipt (turn : ℕ) (outcome : Outcome) (detail : Option String)
    (receipts : List Receipt) :
    (endReceipt turn outcome detail receipts).map Receipt.id = receipts.map Receipt.id := by
  rw [endReceipt, List.map_map]
  refine List.map_congr_left ?_
  intro r _
  by_cases h : r.id = turn <;> simp [h, Receipt.ended]

theorem mem_endReceipt (h : r ∈ endReceipt turn outcome detail receipts) :
    ∃ old ∈ receipts, old.id = r.id ∧ old.conversation = r.conversation ∧
      old.clientTurnId = r.clientTurnId ∧ old.requestDigest = r.requestDigest ∧
      (r.status = .running → old = r) := by
  obtain ⟨old, hold, rfl⟩ := List.mem_map.mp h
  refine ⟨old, hold, ?_⟩
  by_cases hid : old.id = turn
  · simp only [hid, if_true, Receipt.ended, true_and]
    intro hrunning
    cases outcome <;> cases hrunning
  · simp [hid]

theorem status_endReceipt (h : r ∈ endReceipt turn outcome detail receipts) (hid : r.id = turn) :
    r.status = outcome.status := by
  obtain ⟨old, -, rfl⟩ := List.mem_map.mp h
  by_cases hold : old.id = turn
  · simp [hold, Receipt.ended]
  · rw [if_neg hold] at hid
    exact absurd hid hold

/-- The running receipt of a conversation is its last one. -/
theorem LogOk.receiptsOf_running (h : LogOk db) {receipt : Receipt} (hmem : receipt ∈ db.receipts)
    (hstatus : receipt.status = .running) :
    ∃ before, db.receiptsOf receipt.conversation = before ++ [receipt] ∧
      ∀ r ∈ before, r.id ≠ receipt.id := by
  have hin : receipt ∈ db.receiptsOf receipt.conversation := mem_receiptsOf.mpr ⟨hmem, rfl⟩
  have hne : db.receiptsOf receipt.conversation ≠ [] := List.ne_nil_of_mem hin
  have hsplit := List.dropLast_append_getLast hne
  have hlast : (db.receiptsOf receipt.conversation).getLast hne = receipt := by
    rw [← hsplit] at hin
    rcases List.mem_append.mp hin with hin | hin
    · exact absurd hstatus (h.running_last _ receipt hin)
    · exact (List.mem_singleton.mp hin).symm
  rw [hlast] at hsplit
  refine ⟨_, hsplit.symm, ?_⟩
  intro r hr heq
  have hr' : r ∈ db.receiptsOf receipt.conversation := List.dropLast_subset _ hr
  have hsame := h.receipt_unique (mem_receiptsOf.mp hr').1 hmem heq
  exact h.running_last _ r hr (hsame ▸ hstatus)

theorem LogOk.finish (h : LogOk db) (conversation : Conversation) (receipt : Receipt)
    (answer : Option String) (outcome : Outcome) (detail : Option String)
    (hreceipt : receipt ∈ db.receipts) (hstatus : receipt.status = .running)
    (hconversation : conversation ∈ db.conversations)
    (hid : conversation.id = receipt.conversation) :
    LogOk
      { conversations :=
          bump conversation.id (ending receipt.id answer outcome detail).length db.conversations
        events := db.events ++ place conversation.id conversation.nextSequence
          (ending receipt.id answer outcome detail)
        receipts := endReceipt receipt.id outcome detail db.receipts } := by
  have hturn : ∀ entry ∈ ending receipt.id answer outcome detail, entry.1 = receipt.id := by
    intro entry hentry
    cases answer with
    | none => rw [List.mem_singleton.mp hentry]
    | some reply => rcases List.mem_pair.mp hentry with rfl | rfl <;> rfl
  generalize hentries : ending receipt.id answer outcome detail = entries at hturn ⊢
  generalize hdb' : (Database.mk (bump conversation.id entries.length db.conversations)
    (db.events ++ place conversation.id conversation.nextSequence entries)
    (endReceipt receipt.id outcome detail db.receipts)) = db'
  have hevents : db'.events = db.events ++
      place conversation.id conversation.nextSequence entries := by rw [← hdb']
  have hreceipts : db'.receipts = endReceipt receipt.id outcome detail db.receipts := by
    rw [← hdb']
  have hconversations : db'.conversations =
    bump conversation.id entries.length db.conversations := by
    rw [← hdb']
  have hof : ∀ id, db'.receiptsOf id = endReceipt receipt.id outcome detail (db.receiptsOf id) := by
    intro id
    rw [Database.receiptsOf, hreceipts, filter_endReceipt]
    rfl
  obtain ⟨before, hbefore, hothers⟩ := h.receiptsOf_running hreceipt hstatus
  have hown : db'.receiptsOf conversation.id = before ++ [receipt.ended outcome detail] := by
    rw [hof, hid, hbefore, endReceipt, List.map_append, ← endReceipt,
      endReceipt_eq_self _ _ hothers]
    simp
  have hother : ∀ id, id ≠ conversation.id → db'.receiptsOf id = db.receiptsOf id := by
    intro id hne
    rw [hof, endReceipt_eq_self]
    intro r hr heq
    have hsame := h.receipt_unique (mem_receiptsOf.mp hr).1 hreceipt heq
    exact hne ((mem_receiptsOf.mp hr).2.symm.trans (hsame ▸ hid.symm))
  constructor
  · rw [hconversations, map_id_bump]
    exact h.ids
  · rw [hreceipts, map_id_endReceipt]
    exact h.receipt_ids
  · intro r hr
    rw [hconversations]
    rw [hreceipts] at hr
    obtain ⟨old, hold, -, hconv, -⟩ := mem_endReceipt hr
    rw [← hconv]
    exact exists_bump (h.receipt_conversation old hold) _ _
  · intro e he
    rw [hconversations]
    refine exists_bump ?_ _ _
    rw [hevents] at he
    rcases List.mem_append.mp he with he | he
    · exact h.event_conversation e he
    · exact ⟨conversation, hconversation, (mem_place he).1.symm⟩
  · intro e he
    have hkeep : ∀ n, (∃ r ∈ db.receipts, r.id = n) → ∃ r ∈ db'.receipts, r.id = n := by
      intro n hr
      have hids : n ∈ db'.receipts.map Receipt.id := by
        rw [hreceipts, map_id_endReceipt]
        exact List.mem_map.mpr hr
      exact List.mem_map.mp hids
    rw [hevents] at he
    rcases List.mem_append.mp he with he | he
    · exact hkeep _ (h.event_turn e he)
    · exact hkeep _ ⟨receipt, hreceipt, (hturn _ (mem_place he).2).symm⟩
  · rw [hconversations]
    exact h.source_bump _ _
  · rw [hreceipts, endReceipt, List.pairwise_map]
    refine h.clients.imp ?_
    intro a b hab hsame
    refine hab ?_
    have hfields : ∀ r : Receipt,
        (if r.id = receipt.id then r.ended outcome detail else r).conversation = r.conversation ∧
          (if r.id = receipt.id then r.ended outcome detail else r).clientTurnId =
            r.clientTurnId := by
      intro r
      by_cases hr : r.id = receipt.id <;> simp [hr, Receipt.ended]
    rwa [(hfields a).1, (hfields b).1, (hfields a).2, (hfields b).2] at hsame
  · intro id r hr
    by_cases hsame : id = conversation.id
    · subst hsame
      rw [hown, List.dropLast_concat] at hr
      refine h.running_last receipt.conversation r ?_
      rw [hbefore, List.dropLast_concat]
      exact hr
    · rw [hother id hsame] at hr
      exact h.running_last id r hr
  · intro c hc
    rw [hconversations] at hc
    rcases mem_bump hc with ⟨hc, hne⟩ | ⟨old, hold, hsame, rfl⟩
    · exact (h.conversations c hc).frame (eventsOf_append_ne hevents hne) (hother _ hne)
        (h.take_source hc hevents)
    · obtain rfl := h.conversation_unique hold hconversation hsame
      refine (h.conversations old hold).extend rfl rfl rfl (eventsOf_append_self hevents) ?_ ?_
        (h.take_source hold hevents)
      · intro own hblocks
        rw [hid, hbefore] at hblocks
        obtain ⟨front, block, rfl, hfront, hlast⟩ := hblocks.split_last
        rw [hown, List.append_assoc, ← hentries]
        exact hfront.append (.singleton (hlast.ended hstatus _ _ answer outcome detail))
      · intro e he r' hr' heq
        rw [hof] at hr'
        obtain ⟨r, hr, hrid, -⟩ := mem_endReceipt hr'
        exact ⟨r, hr, heq.trans hrid.symm⟩

theorem LogOk.fork (h : LogOk db) (source fork : Conversation) (count : ℕ)
    (hsource : source ∈ db.conversations) (hcount : 1 ≤ count)
    (hrange : count < source.nextSequence)
    (hfresh : ∀ c ∈ db.conversations, c.id ≠ fork.id)
    (hfork : fork.source = some (source.id, count)) (hnext : fork.nextSequence = count + 1) :
    LogOk
      { db with
        conversations := db.conversations ++ [fork]
        events := db.events ++ place fork.id 1
          (((db.eventsOf source.id).take count).map (fun e => (e.turnId, e.payload))) } := by
  generalize hentries :
    ((db.eventsOf source.id).take count).map (fun e => (e.turnId, e.payload)) = entries
  generalize hdb' : (Database.mk (db.conversations ++ [fork])
    (db.events ++ place fork.id 1 entries) db.receipts) = db'
  have hevents : db'.events = db.events ++ place fork.id 1 entries := by rw [← hdb']
  have hreceipts : db'.receipts = db.receipts := by rw [← hdb']
  have hconversations : db'.conversations = db.conversations ++ [fork] := by rw [← hdb']
  have hof : ∀ id, db'.receiptsOf id = db.receiptsOf id := by
    intro id
    rw [Database.receiptsOf, hreceipts]
    rfl
  have hmem : ∀ {n : ℕ}, (∃ c ∈ db.conversations, c.id = n) →
    ∃ c ∈ db'.conversations, c.id = n := by
    intro n hc
    obtain ⟨c, hc, hcid⟩ := hc
    rw [hconversations]
    exact ⟨c, List.mem_append_left _ hc, hcid⟩
  have hlength : (db.eventsOf source.id).length = source.nextSequence - 1 :=
    (h.conversations source hsource).length_events
  have hsize : entries.length = count := by
    rw [← hentries, List.length_map, List.length_take, hlength]
    omega
  constructor
  · rw [hconversations]
    exact nodup_map_append h.ids hfresh
  · rw [hreceipts]
    exact h.receipt_ids
  · intro r hr
    rw [hreceipts] at hr
    exact hmem (h.receipt_conversation r hr)
  · intro e he
    rw [hevents] at he
    rcases List.mem_append.mp he with he | he
    · exact hmem (h.event_conversation e he)
    · rw [hconversations]
      exact ⟨fork, by simp, (mem_place he).1.symm⟩
  · intro e he
    rw [hreceipts]
    rw [hevents] at he
    rcases List.mem_append.mp he with he | he
    · exact h.event_turn e he
    · have hentry := (mem_place he).2
      rw [← hentries] at hentry
      obtain ⟨original, horiginal, heq⟩ := List.mem_map.mp hentry
      have horiginal' : original ∈ db.events := (mem_eventsOf.mp (List.mem_of_mem_take horiginal)).1
      obtain ⟨r, hr, hrid⟩ := h.event_turn original horiginal'
      exact ⟨r, hr, hrid.trans (congrArg Prod.fst heq)⟩
  · intro c hc id n heq
    rw [hconversations] at hc
    have hexists : ∃ s ∈ db.conversations, s.id = id ∧ n < s.nextSequence := by
      rcases mem_snoc.mp hc with hc | rfl
      · exact h.source c hc id n heq
      · rw [hfork] at heq
        cases heq
        exact ⟨source, hsource, rfl, hrange⟩
    obtain ⟨s, hs, hsid, hn⟩ := hexists
    rw [hconversations]
    exact ⟨s, List.mem_append_left _ hs, hsid, hn⟩
  · rw [hreceipts]
    exact h.clients
  · intro id r hr
    rw [hof] at hr
    exact h.running_last id r hr
  · intro c hc
    rw [hconversations] at hc
    rcases mem_snoc.mp hc with hc | rfl
    · exact (h.conversations c hc).frame (eventsOf_append_ne hevents (hfresh c hc)) (hof _)
        (h.take_source hc hevents)
    · have hown : db'.eventsOf c.id = place c.id 1 entries := by
        rw [eventsOf_append_self hevents, eventsOf_eq_nil h hfresh, List.nil_append]
      have hnone : db'.receiptsOf c.id = [] := by rw [hof, receiptsOf_eq_nil h hfresh]
      refine ⟨by omega, ?_, place c.id 1 entries, [], by rw [hown, List.append_nil], ?_, ?_, ?_, ?_⟩
      · rw [hown, map_sequence_place, hsize, hnext, Nat.add_sub_cancel]
      · rw [hnone]
        exact .nil
      · rw [hnone]
        simp
      · intro hplain
        rw [hfork] at hplain
        cases hplain
      · intro id n heq
        rw [hfork] at heq
        cases heq
        refine ⟨by rw [length_place, hsize], ?_⟩
        rw [map_entry_place, ← hentries, eventsOf_append_ne hevents (hfresh source hsource)]

/-- Every committed transaction keeps the stored conversations in shape. -/
theorem LogOk.effect (h : LogOk db) (heffect : Effect digest db db') : LogOk db' := by
  cases heffect with
  | start conversation hfresh hsource hnext => exact h.start conversation hfresh hsource hnext
  | admitTurn conversation receipt text hconversation hfresh hrules hreceipt hstatus _ =>
    exact h.admitTurn conversation receipt text hconversation hfresh hrules hreceipt hstatus
  | finish conversation receipt answer outcome detail hreceipt hstatus hconversation hid =>
    exact h.finish conversation receipt answer outcome detail hreceipt hstatus hconversation hid
  | fork source fork count hsource hcount hrange hfresh hfork hnext =>
    exact h.fork source fork count hsource hcount hrange hfresh hfork hnext

end Effects

end Grafy.Agents
