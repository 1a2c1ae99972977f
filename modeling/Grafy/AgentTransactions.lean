import Grafy.AgentLog
import Grafy.Loops

/-!
What the transactions commit. Each of them, read on well-shaped rows, either
raises and writes nothing or has exactly one effect on the log; and an ending
whose texts are within their caps is never refused.
-/
namespace Grafy.Agents

section Transactions

variable {digest : String → String} {db db' : Database} {c : Conversation} {id : ℕ} {turn : ℕ}
  {outcome : Outcome} {text : String} {detail : Option String} {fork : Conversation}
  {payload : Payload}

theorem place_append (id next : ℕ) (a b : List (ℕ × Payload)) :
    place id next (a ++ b) = place id next a ++ place id (next + a.length) b := by
  induction a generalizing next with
  | nil => simp [place]
  | cons entry a ih =>
    have hnext : next + 1 + a.length = next + (entry :: a).length := by
      rw [List.length_cons]
      omega
    rw [List.cons_append, place, ih, hnext]
    rfl

theorem bump_bump (id a b : ℕ) (conversations : List Conversation) :
    bump id b (bump id a conversations) = bump id (a + b) conversations := by
  rw [bump, bump, bump, List.map_map]
  refine List.map_congr_left ?_
  intro c _
  by_cases h : c.id = id
  · simp [h, Nat.add_assoc]
  · simp [h]

theorem bump_append_fresh {count : ℕ} {conversations : List Conversation}
    (h : ∀ c ∈ conversations, c.id ≠ id) (hid : fork.id = id) :
    bump id count (conversations ++ [fork]) =
      conversations ++ [{ fork with nextSequence := fork.nextSequence + count }] := by
  rw [bump, List.map_append]
  congr 1
  · rw [List.map_congr_left (g := fun c => c), List.map_id']
    intro c hc
    simp [h c hc]
  · simp [hid]

theorem conversation?_eq_some_iff (hids : (db.conversations.map Conversation.id).Nodup) :
    db.conversation? id = some c ↔ c ∈ db.conversations ∧ c.id = id := by
  constructor
  · intro h
    exact ⟨List.mem_of_find?_eq_some h, by simpa using List.find?_some h⟩
  · rintro ⟨hc, rfl⟩
    cases hfind : db.conversation? c.id with
    | none =>
      have hnone := List.find?_eq_none.mp hfind c hc
      simp at hnone
    | some found =>
      have hid : found.id = c.id := by simpa using List.find?_some hfind
      have hmem : found ∈ db.conversations := List.mem_of_find?_eq_some hfind
      rw [List.inj_on_of_nodup_map hids hmem hc hid]

/-- Rows with events placed on one of the conversations. -/
def Database.placed (db : Database) (c : Conversation) (entries : List (ℕ × Payload)) : Database :=
  { db with
    conversations := bump c.id entries.length db.conversations
    events := db.events ++ place c.id c.nextSequence entries }

theorem mem_placed {entries : List (ℕ × Payload)} (h : c ∈ db.conversations) :
    { c with nextSequence := c.nextSequence + entries.length } ∈
      (db.placed c entries).conversations := by
  refine List.mem_map.mpr ⟨c, h, ?_⟩
  simp

theorem placed_placed (a b : List (ℕ × Payload)) :
    (db.placed c a).placed { c with nextSequence := c.nextSequence + a.length } b =
      db.placed c (a ++ b) := by
  simp only [Database.placed, bump_bump, List.length_append, place_append, List.append_assoc]

theorem ids_placed (entries : List (ℕ × Payload)) :
    (db.placed c entries).conversations.map Conversation.id =
      db.conversations.map Conversation.id := map_id_bump _ _ _

/-- An append that commits places its event on the conversation. -/
theorem append_ok (hids : (db.conversations.map Conversation.id).Nodup) (hc : c ∈ db.conversations)
    (h : db.append (c.event turn payload) = .ok db') : db' = db.placed c [(turn, payload)] := by
  unfold Database.append at h
  split at h
  · split at h
    · cases h
    · cases h
      simp only [Database.placed, bump, place, List.length_singleton, Conversation.event]
      congr 1
      refine List.map_congr_left ?_
      intro x hx
      by_cases hid : x.id = c.id
      · obtain rfl := List.inj_on_of_nodup_map hids hx hc hid
        simp
      · simp [hid]
  · split at h <;> cases h

/-- A stored conversation whose counter is right. -/
structure Counted (db : Database) (c : Conversation) : Prop where
  mem : c ∈ db.conversations
  positive : 1 ≤ c.nextSequence
  sequences : (db.eventsOf c.id).map Event.sequence = List.range' 1 (c.nextSequence - 1)

theorem LogOk.counted (h : LogOk db) (hc : c ∈ db.conversations) : Counted db c :=
  ⟨hc, (h.conversations c hc).positive, (h.conversations c hc).sequences⟩

theorem Counted.placed (h : Counted db c) (entries : List (ℕ × Payload)) :
    Counted (db.placed c entries) { c with nextSequence := c.nextSequence + entries.length } := by
  have hevents : (db.placed c entries).events =
      db.events ++ place c.id c.nextSequence entries := rfl
  refine ⟨mem_placed h.mem, Nat.le_add_right_of_le h.positive, ?_⟩
  rw [eventsOf_append_self hevents]
  exact map_sequence_append h.positive h.sequences entries

/-- An append at the sequence the stored conversation waits for is never refused. -/
theorem append_event (hids : (db.conversations.map Conversation.id).Nodup) (h : Counted db c)
    (turn : ℕ) (payload : Payload) :
    db.append (c.event turn payload) = .ok (db.placed c [(turn, payload)]) := by
  have hclaim : db.conversations.any (fun x => x.id = (c.event turn payload).conversation ∧
      x.nextSequence = (c.event turn payload).sequence) = true :=
    List.any_eq_true.mpr ⟨c, h.mem, decide_eq_true ⟨rfl, rfl⟩⟩
  have hfree : ¬ db.events.any (fun e => e.conversation = (c.event turn payload).conversation ∧
      e.sequence = (c.event turn payload).sequence) = true := by
    intro hany
    obtain ⟨e, he, hmatch⟩ := List.any_eq_true.mp hany
    obtain ⟨hid, hsequence⟩ := of_decide_eq_true hmatch
    have hmem : c.nextSequence ∈ (db.eventsOf c.id).map Event.sequence :=
      List.mem_map.mpr ⟨e, mem_eventsOf.mpr ⟨he, hid⟩, hsequence⟩
    rw [h.sequences, List.mem_range'_1] at hmem
    have hpositive := h.positive
    omega
  cases happend : db.append (c.event turn payload) with
  | ok written => rw [append_ok hids h.mem happend]
  | error e =>
    unfold Database.append at happend
    rw [if_pos hclaim, if_neg hfree] at happend
    cases happend

theorem extend_ok (hids : (db.conversations.map Conversation.id).Nodup) (hc : c ∈ db.conversations)
    {result : Database × Conversation} (h : extend db c turn payload = .ok result) :
    result = (db.placed c [(turn, payload)], { c with nextSequence := c.nextSequence + 1 }) := by
  unfold extend at h
  cases happend : db.append (c.event turn payload) with
  | error e => simp [happend, bind, Except.bind] at h
  | ok written =>
    simp only [happend, bind, Except.bind] at h
    cases h
    rw [append_ok hids hc happend]
    rfl

/-- The answer an ending stores: the text that arrived, unless there is none. -/
def answerOf (text : String) : Option String := if text = "" then none else some text

section

variable (hids : (db.conversations.map Conversation.id).Nodup)
include hids

theorem writeEnding_ok (hc : c ∈ db.conversations)
    (h : writeEnding db c turn outcome text detail = .ok db') :
    db' = db.placed c (ending turn (answerOf text) outcome detail) := by
  unfold writeEnding at h
  by_cases htext : text = ""
  · simp only [htext, if_true, bind, Except.bind] at h
    split at h
    · cases h
    · cases hextend : extend db c turn (.turnOutcome outcome detail) with
      | error e => simp [hextend] at h
      | ok result =>
        simp only [hextend] at h
        cases h
        rw [extend_ok hids hc hextend]
        simp [answerOf, htext, ending]
  · simp only [htext, if_false, bind, Except.bind] at h
    split at h
    · cases h
    · cases hanswer : extend db c turn (.assistantMessage text) with
      | error e => simp [hanswer] at h
      | ok pair =>
        have hpair := extend_ok hids hc hanswer
        simp only [hanswer] at h
        subst hpair
        split at h
        · cases h
        · cases hextend : extend (db.placed c [(turn, .assistantMessage text)])
              { c with nextSequence := c.nextSequence + 1 } turn (.turnOutcome outcome detail) with
          | error e => simp [hextend] at h
          | ok result =>
            simp only [hextend] at h
            cases h
            rw [extend_ok (by rw [ids_placed]; exact hids) (mem_placed hc) hextend]
            have hplaced : (db.placed c [(turn, .assistantMessage text)]).placed
                { c with nextSequence := c.nextSequence + 1 }
                [(turn, .turnOutcome outcome detail)] =
                  db.placed c [(turn, .assistantMessage text),
                    (turn, .turnOutcome outcome detail)] :=
              placed_placed _ _
            simpa [answerOf, htext, ending] using hplaced

theorem extend_eq (h : Counted db c) (turn : ℕ) (payload : Payload) :
    extend db c turn payload =
      .ok (db.placed c [(turn, payload)], { c with nextSequence := c.nextSequence + 1 }) := by
  simp only [extend, append_event hids h, bind, Except.bind]
  rfl

/-- An ending whose texts are within their caps is written. -/
theorem exists_writeEnding (h : Counted db c) (turn : ℕ) (outcome : Outcome)
    (htext : text.length ≤ maxMessageChars) (hdetail : ∀ d ∈ detail, d.length ≤ maxDetailChars) :
    ∃ db', writeEnding db c turn outcome text detail = .ok db' := by
  have hshort : detail.any (fun d => maxDetailChars < d.length) = false := by
    cases detail with
    | none => rfl
    | some d =>
      have hd := hdetail d rfl
      simp only [Option.any_some, decide_eq_false_iff_not]
      omega
  have hcap : ¬ maxMessageChars < text.length := by omega
  unfold writeEnding
  by_cases hempty : text = ""
  · simp only [hempty, if_true, bind, Except.bind, hshort, Bool.false_eq_true, if_false,
      extend_eq hids h]
    exact ⟨_, rfl⟩
  · have hplaced := h.placed [(turn, Payload.assistantMessage text)]
    have hids' : ((db.placed c [(turn, .assistantMessage text)]).conversations.map
        Conversation.id).Nodup := by
      rw [ids_placed]
      exact hids
    have hsecond := extend_eq hids' hplaced turn (.turnOutcome outcome detail)
    simp only [List.length_singleton] at hsecond
    simp only [hempty, if_false, hcap, bind, Except.bind, hshort, Bool.false_eq_true,
      extend_eq hids h, hsecond]
    exact ⟨_, rfl⟩

/-! Receipts -/

end

theorem addTurn_ok {receipt : Receipt} (h : db.addTurn receipt = .ok db')
    (hstatus : receipt.status = .running) :
    db' = { db with receipts := db.receipts ++ [receipt] } ∧
      (∀ r ∈ db.receipts, r.id ≠ receipt.id) ∧
      ∀ r ∈ db.receipts, r.conversation = receipt.conversation →
        r.clientTurnId ≠ receipt.clientTurnId ∧ r.status ≠ .running := by
  unfold Database.addTurn at h
  split at h
  · cases h
  · rename_i hid
    split at h
    · cases h
    · rename_i hclient
      split at h
      · cases h
      · rename_i hrunning
        cases h
        have hid' : db.receipt? receipt.id = none := by simpa using hid
        have hclient' : db.receiptByClient? receipt.conversation receipt.clientTurnId = none := by
          simpa using hclient
        have hrunning' : db.running? receipt.conversation = none := by
          simpa [hstatus] using hrunning
        refine ⟨rfl, ?_, ?_⟩
        · intro r hr heq
          have hnot := List.find?_eq_none.mp hid' r hr
          simp [heq] at hnot
        · intro r hr hconv
          refine ⟨?_, ?_⟩
          · intro heq
            have hnot := List.find?_eq_none.mp hclient' r hr
            simp [heq, hconv] at hnot
          · intro heq
            have hnot := List.find?_eq_none.mp hrunning' r hr
            simp [heq, hconv] at hnot

/-- An admission that commits is one effect, and returns the receipt it stored. -/
theorem admitTurn_ok (h : LogOk db) (hc : c ∈ db.conversations) {clientTurnId : String}
    {result : Database × Receipt}
    (hadmitted : admitTurn digest db c turn clientTurnId text = .ok result) :
    Effect digest db result.1 ∧ result.2 ∈ result.1.receipts ∧ result.2.id = turn ∧
      result.2.conversation = c.id ∧ result.2.clientTurnId = clientTurnId ∧
      result.2.status = .running ∧ result.2.requestDigest = digest text ∧
      (∀ r ∈ db.receipts, r.id ≠ turn) := by
  unfold admitTurn at hadmitted
  split at hadmitted
  · cases hadmitted
  · cases happend : db.append (c.event turn (.userMessage text)) with
    | error e => simp [happend, bind, Except.bind] at hadmitted
    | ok written =>
      simp only [happend, bind, Except.bind] at hadmitted
      split at hadmitted
      · cases hadmitted
      · split at hadmitted
        · cases hadmitted
        · rename_i admitted hadd
          cases hadmitted
          obtain rfl := append_ok h.ids hc happend
          obtain ⟨rfl, hfresh, hrules⟩ := addTurn_ok hadd rfl
          refine ⟨?_, by simp, rfl, rfl, rfl, rfl, rfl, hfresh⟩
          exact Effect.admitTurn c _ text hc hfresh hrules rfl rfl rfl

/-- A claim that succeeds ends the one running receipt with that id. -/
theorem finish_ok (h : LogOk db) (hfinish : db.finish turn outcome detail = some db') :
    ∃ receipt ∈ db.receipts, receipt.id = turn ∧ receipt.status = .running ∧
      db' = { db with receipts := endReceipt turn outcome detail db.receipts } := by
  unfold Database.finish at hfinish
  split at hfinish
  · rename_i hany
    obtain ⟨receipt, hreceipt, hmatch⟩ := List.any_eq_true.mp hany
    obtain ⟨hid, hstatus⟩ := of_decide_eq_true hmatch
    refine ⟨receipt, hreceipt, hid, hstatus, ?_⟩
    cases hfinish
    congr 1
    refine List.map_congr_left ?_
    intro r hr
    by_cases hr' : r.id = turn
    · have hsame := h.receipt_unique hr hreceipt (hr'.trans hid.symm)
      rw [if_pos ⟨hr', hsame ▸ hstatus⟩, if_pos hr']
      rfl
    · rw [if_neg (fun hboth => hr' hboth.1), if_neg hr']
  · cases hfinish

/-- A claim fails only when no receipt with that id is running. -/
theorem finish_eq_none (hfinish : db.finish turn outcome detail = none) :
    ∀ r ∈ db.receipts, r.id = turn → r.status ≠ .running := by
  unfold Database.finish at hfinish
  split at hfinish
  · cases hfinish
  · rename_i hany
    intro r hr hid hstatus
    exact hany (List.any_eq_true.mpr ⟨r, hr, decide_eq_true ⟨hid, hstatus⟩⟩)

/-- The ending of a turn is one effect: it ends the receipt and writes the events. -/
theorem recordOutcome_ok (h : LogOk db) {turn : Receipt}
    (hturn : ∀ r ∈ db.receipts, r.id = turn.id → r.conversation = turn.conversation)
    (hrecord : recordOutcome db turn outcome text detail = .ok (some db')) :
    Effect digest db db' ∧ db'.receipts = endReceipt turn.id outcome detail db.receipts := by
  unfold recordOutcome at hrecord
  split at hrecord
  · cases hrecord
  · rename_i claimed hclaim
    obtain ⟨receipt, hreceipt, hid, hstatus, hclaimed⟩ := finish_ok h hclaim
    have hconversations : claimed.conversations = db.conversations := by rw [hclaimed]
    obtain ⟨c, hc, hcid⟩ := h.receipt_conversation receipt hreceipt
    have hc' : c ∈ claimed.conversations := by rw [hconversations]; exact hc
    have hids : (claimed.conversations.map Conversation.id).Nodup := by
      rw [hconversations]
      exact h.ids
    have hfind : claimed.conversation? turn.conversation = some c :=
      (conversation?_eq_some_iff hids).mpr ⟨hc', hcid.trans (hturn receipt hreceipt hid)⟩
    rw [hfind] at hrecord
    cases hwrite : writeEnding claimed c turn.id outcome text detail with
    | error e => simp [hwrite, Except.map] at hrecord
    | ok written =>
      obtain rfl : written = db' := by simpa [hwrite, Except.map] using hrecord
      have heffect : Effect digest db
          { conversations :=
              bump c.id (ending receipt.id (answerOf text) outcome detail).length db.conversations
            events := db.events ++ place c.id c.nextSequence
              (ending receipt.id (answerOf text) outcome detail)
            receipts := endReceipt receipt.id outcome detail db.receipts } :=
        Effect.finish c receipt (answerOf text) outcome detail hreceipt hstatus hc hcid
      rw [hid] at heffect
      have hwritten := writeEnding_ok hids hc' hwrite
      rw [hwritten, hclaimed]
      exact ⟨heffect, rfl⟩

/-- Texts within their caps are always recorded: the claim is lost to another writer, or
the ending is stored. -/
theorem exists_recordOutcome (h : LogOk db) {turn : Receipt} (outcome : Outcome)
    (hturn : ∀ r ∈ db.receipts, r.id = turn.id → r.conversation = turn.conversation)
    (htext : text.length ≤ maxMessageChars) (hdetail : ∀ d ∈ detail, d.length ≤ maxDetailChars) :
    ∃ result, recordOutcome db turn outcome text detail = .ok result := by
  unfold recordOutcome
  split
  · exact ⟨none, rfl⟩
  · rename_i claimed hclaim
    obtain ⟨receipt, hreceipt, hid, hstatus, hclaimed⟩ := finish_ok h hclaim
    obtain ⟨c, hc, hcid⟩ := h.receipt_conversation receipt hreceipt
    have hids : (claimed.conversations.map Conversation.id).Nodup := by
      rw [hclaimed]
      exact h.ids
    have hcounted : Counted claimed c := by
      have hcount := h.counted hc
      refine ⟨?_, hcount.positive, ?_⟩
      · rw [hclaimed]
        exact hc
      · have hevents : claimed.eventsOf c.id = db.eventsOf c.id := by
          rw [hclaimed]
          rfl
        rw [hevents]
        exact hcount.sequences
    have hfind : claimed.conversation? turn.conversation = some c :=
      (conversation?_eq_some_iff hids).mpr ⟨hcounted.mem, hcid.trans (hturn receipt hreceipt hid)⟩
    rw [hfind]
    obtain ⟨written, hwritten⟩ := exists_writeEnding hids hcounted turn.id outcome htext hdetail
    exact ⟨some written, by simp [hwritten, Except.map]⟩

/-! Conversations -/

theorem addConversation_ok {conversation : Conversation}
    (h : db.addConversation conversation = .ok db') :
    db' = { db with conversations := db.conversations ++ [conversation] } ∧
      ∀ c ∈ db.conversations, c.id ≠ conversation.id := by
  unfold Database.addConversation at h
  split at h
  · cases h
  · rename_i hfree
    cases h
    refine ⟨rfl, ?_⟩
    intro c hc heq
    have hnone : db.conversation? conversation.id = none := by simpa using hfree
    have hnot := List.find?_eq_none.mp hnone c hc
    simp [heq] at hnot

theorem startConversation_ok {scope : Scope} (h : startConversation db id scope = .ok db') :
    Effect digest db db' ∧ db'.receipts = db.receipts := by
  obtain ⟨rfl, hfresh⟩ := addConversation_ok h
  exact ⟨.start _ hfresh rfl rfl, rfl⟩

/-- The events of a conversation are stored in the order of their sequences. -/
theorem listEvents_eq (h : LogOk db) (hc : c ∈ db.conversations) :
    db.listEvents c.id = db.eventsOf c.id := by
  unfold Database.listEvents
  refine List.mergeSort_of_pairwise ?_
  have hsorted : ((db.eventsOf c.id).map Event.sequence).Pairwise (· ≤ ·) := by
    rw [(h.conversations c hc).sequences]
    exact (List.pairwise_lt_range' 1).imp (fun hlt => Nat.le_of_lt hlt)
  rw [List.pairwise_map] at hsorted
  exact hsorted.imp (fun hle => decide_eq_true hle)

theorem copyEvents_ok {events : List Event} {next : ℕ}
    (hids : (db.conversations.map Conversation.id).Nodup) (hfork : fork ∈ db.conversations)
    (hnext : fork.nextSequence = next)
    (h : (events.zipIdx next).foldlM (fun written e => written.append ⟨fork.id, e.2, e.1.turnId,
      e.1.payload⟩) db = .ok db') :
    db' = db.placed fork (events.map (fun e => (e.turnId, e.payload))) := by
  induction events generalizing db next fork with
  | nil =>
    obtain rfl : db = db' := by simpa [pure, Except.pure] using h
    simp [Database.placed, place, bump]
  | cons e events ih =>
    rw [List.zipIdx_cons] at h
    obtain ⟨written, hwritten, hrest⟩ := Loops.foldlM_cons_ok.mp h
    have hevent : (⟨fork.id, next, e.turnId, e.payload⟩ : Event) =
        fork.event e.turnId e.payload := by
      rw [Conversation.event, hnext]
    simp only [hevent] at hwritten
    have hplaced := append_ok hids hfork hwritten
    subst hplaced
    have hmem : { fork with nextSequence := fork.nextSequence + 1 } ∈
        (db.placed fork [(e.turnId, e.payload)]).conversations := mem_placed hfork
    have hids' : ((db.placed fork [(e.turnId, e.payload)]).conversations.map
        Conversation.id).Nodup := by
      rw [ids_placed]
      exact hids
    have hrest' : db' = (db.placed fork [(e.turnId, e.payload)]).placed
        { fork with nextSequence := fork.nextSequence + 1 }
        (events.map (fun e => (e.turnId, e.payload))) := ih hids' hmem (by simp [hnext]) hrest
    rw [hrest']
    exact placed_placed [(e.turnId, e.payload)] _

theorem forkConversation_ok (h : LogOk db) {fork atSequence : ℕ}
    (hfork : forkConversation db id fork atSequence = .ok db') :
    Effect digest db db' ∧ db'.receipts = db.receipts := by
  unfold forkConversation at hfork
  split at hfork
  · cases hfork
  · rename_i source hsource
    obtain ⟨hmem, rfl⟩ := (conversation?_eq_some_iff h.ids).mp hsource
    split at hfork
    · cases hfork
    · rename_i hrange
      push Not at hrange
      cases hadd : db.addConversation ⟨fork, source.scope, some (source.id, atSequence), 1⟩ with
      | error e => simp [hadd, bind, Except.bind] at hfork
      | ok added =>
        simp only [hadd, bind, Except.bind] at hfork
        obtain ⟨hadded, hfresh⟩ := addConversation_ok hadd
        have hconversations : added.conversations = db.conversations ++
            [⟨fork, source.scope, some (source.id, atSequence), 1⟩] := by rw [hadded]
        have hevents : added.listEvents source.id = db.eventsOf source.id := by
          rw [← listEvents_eq h hmem, hadded]
          rfl
        have hids : (added.conversations.map Conversation.id).Nodup := by
          rw [hconversations]
          exact nodup_map_append h.ids hfresh
        have hfirst : ⟨fork, source.scope, some (source.id, atSequence), 1⟩ ∈
            added.conversations := by
          rw [hconversations]
          simp
        have hcopied : db' = added.placed ⟨fork, source.scope, some (source.id, atSequence), 1⟩
            (((added.listEvents source.id).take atSequence).map
              (fun e => (e.turnId, e.payload))) := copyEvents_ok hids hfirst rfl hfork
        rw [hevents] at hcopied
        have hlength : (((db.eventsOf source.id).take atSequence).map
            (fun e => (e.turnId, e.payload))).length = atSequence := by
          rw [List.length_map, List.length_take, (h.conversations source hmem).length_events]
          omega
        have heffect : Effect digest db
            { db with
              conversations := db.conversations ++
                [⟨fork, source.scope, some (source.id, atSequence), atSequence + 1⟩]
              events := db.events ++ place fork 1
                (((db.eventsOf source.id).take atSequence).map
                  (fun e => (e.turnId, e.payload))) } :=
          Effect.fork source ⟨fork, source.scope, some (source.id, atSequence), atSequence + 1⟩
            atSequence hmem (by omega) (by omega) hfresh rfl rfl
        have hbump : bump fork atSequence (db.conversations ++
            [⟨fork, source.scope, some (source.id, atSequence), 1⟩]) = db.conversations ++
              [⟨fork, source.scope, some (source.id, atSequence), 1 + atSequence⟩] :=
          bump_append_fresh hfresh rfl
        rw [hcopied, Database.placed, hlength, hconversations, hbump, hadded]
        rw [Nat.add_comm 1 atSequence]
        exact ⟨heffect, rfl⟩

end Transactions

end Grafy.Agents
