import Grafy.AgentTurns

/-!
What one step of the runtime can do. A receipt that a call or a task holds is a
copy of a stored one; over such copies every step of a send, of a cancel, of a
recovery, of a shutdown and of a task is one of a few moves, each with the guard
under which it is taken.
-/
namespace Grafy.Agents

variable {digest : String → String} {db db' : Database} {s s' : System}

/-! Copies of receipts -/

/-- A receipt some call or task holds, still stored under its id. -/
def Copy (db : Database) (r : Receipt) : Prop :=
  ∃ stored ∈ db.receipts, stored.id = r.id ∧ stored.conversation = r.conversation ∧
    stored.clientTurnId = r.clientTurnId ∧ stored.requestDigest = r.requestDigest

theorem Copy.of_mem {r : Receipt} (h : r ∈ db.receipts) : Copy db r := ⟨r, h, rfl, rfl, rfl, rfl⟩

theorem Copy.conversation {r : Receipt} (h : Copy db r) (hlog : LogOk db) :
    ∀ stored ∈ db.receipts, stored.id = r.id → stored.conversation = r.conversation := by
  intro stored hstored hid
  obtain ⟨copied, hcopied, hcid, hconv, -⟩ := h
  rw [hlog.receipt_unique hstored hcopied (hid.trans hcid.symm)]
  exact hconv

variable {outcome : Outcome} {detail : Option String}

theorem Copy.endReceipt {r : Receipt} {turn : ℕ} (h : Copy db r)
    (hreceipts : db'.receipts = endReceipt turn outcome detail db.receipts) : Copy db' r := by
  obtain ⟨stored, hstored, hid, hconv, hclient, hdigest⟩ := h
  refine ⟨_, by rw [hreceipts]; exact List.mem_map.mpr ⟨stored, hstored, rfl⟩, ?_⟩
  by_cases hturn : stored.id = turn
  · simp only [hturn, if_true, Receipt.ended]
    exact ⟨hturn ▸ hid, hconv, hclient, hdigest⟩
  · rw [if_neg hturn]
    exact ⟨hid, hconv, hclient, hdigest⟩

theorem Effect.copy (heffect : Effect digest db db') {r : Receipt} (h : Copy db r) :
    Copy db' r := by
  cases heffect with
  | start conversation hfresh hsource hnext
  | fork source fork count hsource hcount hrange hfresh hfork hnext => exact h
  | admitTurn conversation receipt text hconversation hfresh hrules hreceipt hstatus _ =>
    obtain ⟨stored, hstored, hrest⟩ := h
    exact ⟨stored, List.mem_append_left _ hstored, hrest⟩
  | finish conversation receipt answer outcome detail hreceipt hstatus hconversation hid =>
    exact h.endReceipt rfl

/-- A conversation some call has read, still stored: only its counter may have moved on. -/
def Row (db : Database) (c : Conversation) : Prop :=
  ∃ stored ∈ db.conversations, stored.id = c.id ∧ stored.scope = c.scope ∧ stored.source = c.source

variable {c : Conversation}

theorem Row.of_mem (h : c ∈ db.conversations) : Row db c := ⟨c, h, rfl, rfl, rfl⟩

theorem Effect.row (heffect : Effect digest db db') (h : Row db c) : Row db' c := by
  obtain ⟨stored, hstored, hid, hscope, hsource⟩ := h
  have hbump (id count : ℕ) : ∃ c' ∈ bump id count db.conversations, c'.id = c.id ∧
      c'.scope = c.scope ∧ c'.source = c.source := by
    refine ⟨_, List.mem_map.mpr ⟨stored, hstored, rfl⟩, ?_⟩
    split <;> exact ⟨hid, hscope, hsource⟩
  cases heffect with
  | start | fork => exact ⟨stored, List.mem_append_left _ hstored, hid, hscope, hsource⟩
  | admitTurn | finish => exact hbump _ _

/-- What was read once is still stored. -/
structure Grown (db db' : Database) : Prop where
  copy : ∀ r, Copy db r → Copy db' r
  row : ∀ c, Row db c → Row db' c

theorem Grown.refl (db : Database) : Grown db db := ⟨fun _ => id, fun _ => id⟩

theorem Effect.grown (heffect : Effect digest db db') : Grown db db' :=
  ⟨fun _ => heffect.copy, fun _ => heffect.row⟩

def Phase.Holds (db : Database) : Phase → Prop
  | .sendLocked found => Row db found
  | .sendUnseen found => Row db found
  | .sendFree found => Row db found
  | .sendAdmitted turn => Copy db turn
  | .cancelWaiting _ turn => Copy db turn
  | .cancelOrphan turn => Copy db turn
  | .cancelRaced turn => Copy db turn
  | .recovering rest => ∀ turn ∈ rest, Copy db turn
  | .returned turn => ∀ r ∈ turn, Copy db r
  | _ => True

theorem Phase.Holds.mono {phase : Phase} (h : phase.Holds db) (hgrown : Grown db db') :
    phase.Holds db' := by
  cases phase with
  | sendLocked found | sendUnseen found | sendFree found => exact hgrown.row _ h
  | sendAdmitted turn | cancelWaiting task turn | cancelOrphan turn | cancelRaced turn =>
    exact hgrown.copy _ h
  | recovering rest => exact fun turn hturn => hgrown.copy _ (h turn hturn)
  | returned turn => exact fun r hr => hgrown.copy _ (h r hr)
  | _ => trivial

variable {clientTurnId : String}

theorem receiptByClient?_mem {conversation : ℕ} {r : Receipt}
    (h : db.receiptByClient? conversation clientTurnId = some r) :
    r ∈ db.receipts ∧ r.conversation = conversation ∧ r.clientTurnId = clientTurnId := by
  refine ⟨List.mem_of_find?_eq_some h, ?_⟩
  simpa using List.find?_some h

theorem holds_reread {r : Receipt} (h : Copy db r) :
    Phase.Holds db (.returned (some ((db.receipt? r.id).getD r))) := by
  rintro _ ⟨⟩
  cases hfound : db.receipt? r.id with
  | none => exact h
  | some stored => exact .of_mem (List.mem_of_find?_eq_some hfound)

theorem receipt?_mem {id : ℕ} {r : Receipt} (h : db.receipt? id = some r) :
    r ∈ db.receipts ∧ r.id = id :=
  ⟨List.mem_of_find?_eq_some h, by simpa using List.find?_some h⟩

/-! What a step does -/

/-- Why the transaction of a send refuses it when it comes to write over the conversation
it found. -/
def Refusal (db : Database) (found : Conversation) (clientTurnId text : String) (turn : ℕ)
    (refused : Bool) : AgentError → Prop
  | .refused => refused = true
  | .invalid => text.length = 0 ∨ maxMessageChars < text.length ∨ clientTurnId.length = 0 ∨
      200 < clientTurnId.length
  | .staleAppend => ∃ c ∈ db.conversations, c.id = found.id ∧ c.nextSequence ≠ found.nextSequence
  | .concurrentWrite => ∃ r ∈ db.receipts, r.id = turn
  | _ => False

/-- A send moved on without a write. -/
inductive SendMove (digest : String → String) (s : System) (act : Act) (p conversation : ℕ)
    (clientTurnId text : String) (scope : Option Scope) : Phase → Phase → Prop
  | missing :
      (∀ found ∈ s.db.conversations, found.id = conversation →
        scopeCovers scope found.scope = false) →
      SendMove digest s act p conversation clientTurnId text scope .sendBegun (.raised .notFound)
  | locked {found} : found ∈ s.db.conversations → found.id = conversation →
      SendMove digest s act p conversation clientTurnId text scope .sendBegun (.sendLocked found)
  | repeated {found r} : s.db.receiptByClient? conversation clientTurnId = some r →
      SendMove digest s act p conversation clientTurnId text scope (.sendLocked found) .sendReplay
  | unseen {found} : s.db.receiptByClient? conversation clientTurnId = none →
      SendMove digest s act p conversation clientTurnId text scope (.sendLocked found)
        (.sendUnseen found)
  | busy {found j turn} : (s.procs p).active conversation = some j →
      SendMove digest s act p conversation clientTurnId text scope (.sendUnseen found)
        (.raised (.busy turn))
  | free {found} : (s.procs p).active conversation = none →
      SendMove digest s act p conversation clientTurnId text scope (.sendUnseen found)
        (.sendFree found)
  | refused {found k turn refused e} : act = .admitTurn k turn refused →
      Refusal s.db found clientTurnId text turn refused e →
      SendMove digest s act p conversation clientTurnId text scope (.sendFree found) (.raised e)
  | lost {found} : (∃ r, s.db.receiptByClient? conversation clientTurnId = some r) ∨
      (∃ r, s.db.running? conversation = some r) →
      SendMove digest s act p conversation clientTurnId text scope (.sendFree found) .sendLost
  | lostBusy : s.db.receiptByClient? conversation clientTurnId = none →
      SendMove digest s act p conversation clientTurnId text scope .sendLost .sendLostBusy
  | lostReplay {r} : s.db.receiptByClient? conversation clientTurnId = some r →
      r.matchesRequest digest text →
      SendMove digest s act p conversation clientTurnId text scope .sendLost .sendReplay
  | lostConflict {r} : s.db.receiptByClient? conversation clientTurnId = some r →
      ¬ r.matchesRequest digest text →
      SendMove digest s act p conversation clientTurnId text scope .sendLost
        (.raised (.conflict r.id))
  | named {turn} :
      SendMove digest s act p conversation clientTurnId text scope .sendLostBusy
        (.raised (.busy turn))
  | vanished : s.db.receiptByClient? conversation clientTurnId = none →
      SendMove digest s act p conversation clientTurnId text scope .sendReplay (.raised .notFound)
  | replayed {r} : s.db.receiptByClient? conversation clientTurnId = some r →
      r.matchesRequest digest text →
      SendMove digest s act p conversation clientTurnId text scope .sendReplay (.returned (some r))
  | conflict {r} : s.db.receiptByClient? conversation clientTurnId = some r →
      ¬ r.matchesRequest digest text →
      SendMove digest s act p conversation clientTurnId text scope .sendReplay
        (.raised (.conflict r.id))

/-- The phases a request's call goes through. -/
def Call.Fits (digest : String → String) (call : Call) : Prop :=
  match call.request, call.phase with
  | _, .returned _ => True
  | _, .raised _ => True
  | _, .gone => True
  | .send _ _ _ _, .sendBegun => True
  | .send conversation _ _ _, .sendLocked found => found.id = conversation
  | .send conversation _ _ _, .sendUnseen found => found.id = conversation
  | .send conversation _ _ _, .sendFree found => found.id = conversation
  | .send _ _ _ _, .sendReplay => True
  | .send _ _ _ _, .sendLost => True
  | .send _ _ _ _, .sendLostBusy => True
  | .send conversation clientTurnId text _, .sendAdmitted turn =>
    turn.conversation = conversation ∧ turn.clientTurnId = clientTurnId ∧
      turn.requestDigest = digest text
  | .cancel _ _ _, .cancelBegun => True
  | .cancel _ _ _, .cancelLatest => True
  | .cancel _ _ _, .cancelWaiting _ _ => True
  | .cancel _ _ _, .cancelOrphan _ => True
  | .cancel _ _ _, .cancelRaced _ => True
  | .recover, .recoverBegun => True
  | .recover, .recovering _ => True
  | .close, .closing _ => True
  | _, _ => False

/-- A cancel or a recovery: a request that ends turns. -/
def Request.Stops : Request → Prop
  | .cancel _ _ _ => True
  | .recover => True
  | _ => False

/-- A step of a call. -/
inductive CallStep (digest : String → String) (s : System) (i : ℕ) (call : Call) (act : Act) :
    System → Prop
  | sent {conversation clientTurnId text scope phase} :
      call.request = .send conversation clientTurnId text scope →
      SendMove digest s act call.process conversation clientTurnId text scope call.phase phase →
      CallStep digest s i call act (s.setCall i phase)
  | admitted {conversation clientTurnId text scope turn found written receipt} :
      call.request = .send conversation clientTurnId text scope → call.phase = .sendFree found →
      s.db.receiptByClient? conversation clientTurnId = none →
      found ∈ s.db.conversations → found.id = conversation →
      admitTurn digest s.db found turn clientTurnId text = .ok (written, receipt) →
      CallStep digest s i call act (s.admitted i call.process written receipt)
  | factory {turn k} : call.phase = .sendAdmitted turn → act = .start k false →
      CallStep digest s i call act (s.setCall i (.raised .modelFactory))
  | started {turn k} : call.phase = .sendAdmitted turn → act = .start k true →
      CallStep digest s i call act (s.started i call.process turn)
  | closed {tasks} : call.phase = .closing tasks →
      (∀ j ∈ tasks, ∃ task, s.tasks[j]? = some task ∧ task.phase = .finished) →
      CallStep digest s i call act (s.setCall i (.returned none))
  | other {phase} : call.phase.isOver = false → call.request.Stops → phase.Holds s.db →
      Call.Fits digest { call with phase } → CallStep digest s i call act (s.setCall i phase)
  | stopped {j turn} : call.phase.isOver = false → call.request.Stops → Copy s.db turn →
      Call.Fits digest { call with phase := .cancelWaiting j turn } →
      CallStep digest s i call act ((s.setCall i (.cancelWaiting j turn)).requestStop j .cancelled)
  | orphan {turn outcome detail phase written} : call.phase.isOver = false →
      call.request.Stops → Copy s.db turn →
      closeOrphan s.db turn outcome detail = .ok (some written) →
      phase.Holds written → Call.Fits digest { call with phase } →
      CallStep digest s i call act { s.setCall i phase with db := written }

/-- A step of a turn's task. -/
inductive TaskStep (s : System) (j : ℕ) (task : Task) (act : Act) : System → Prop
  | ends {outcome text detail} : task.phase = .streaming →
      (∀ d ∈ detail, String.length d ≤ maxDetailChars) →
      TaskStep s j task act (s.setTask j (.ending outcome text detail))
  | recorded {outcome text detail written} : task.phase = .ending outcome text detail →
      recordOutcome s.db task.turn outcome text detail = .ok (some written) →
      TaskStep s j task act { s.setTask j .finished with db := written }
  | late {outcome text detail} : task.phase = .ending outcome text detail →
      recordOutcome s.db task.turn outcome text detail = .ok none →
      TaskStep s j task act (s.setTask j .finished)
  | failed {k outcome text detail e} : task.phase = .ending outcome text detail →
      act = .record k → recordOutcome s.db task.turn outcome text detail = .error e →
      TaskStep s j task act (s.setTask j .finished)
  | killed {k last outcome text detail} : task.phase = .ending outcome text detail →
      act = .kill k last → TaskStep s j task act (s.setTask j .finished)
  | forgets : task.phase = .finished → task.forgotten = false →
      TaskStep s j task act (s.forgotten j task)

/-- A step of the system. -/
inductive Step (digest : String → String) (s : System) (act : Act) : System → Prop
  | idle : act.callIndex = none → Step digest s act s
  | wrote {written} : act.callIndex = none → Effect digest s.db written →
      written.receipts = s.db.receipts → Step digest s act { s with db := written }
  | called {p permitted request} : act.callIndex = none →
      Step digest s act (beginCall s p permitted request)
  | crashed {p} : act.callIndex = none → Step digest s act (crashProcess s p)
  | call {i call s'} : act.callIndex = some i → s.calls[i]? = some call →
      CallStep digest s i call act s' → Step digest s act s'
  | task {j task s'} : act.callIndex = none → act.taskIndex = some j →
      s.tasks[j]? = some task → TaskStep s j task act s' → Step digest s act s'

variable {text : String}

/-- The counter of a conversation that was read is as it was, or has moved on. -/
theorem Row.current_or_moved (h : Row db c) :
    c ∈ db.conversations ∨
      ∃ stored ∈ db.conversations, stored.id = c.id ∧ stored.nextSequence ≠ c.nextSequence := by
  obtain ⟨stored, hstored, hid, hscope, hsource⟩ := h
  by_cases hnext : stored.nextSequence = c.nextSequence
  · have heq : stored = c := by
      cases stored
      cases c
      simp_all
    exact .inl (heq ▸ hstored)
  · exact .inr ⟨stored, hstored, hid, hnext⟩

variable {turn : ℕ}

/-- An append over a counter that has moved on claims nothing. -/
theorem append_moved (h : LogOk db) {stored : Conversation} (hstored : stored ∈ db.conversations)
    (hid : stored.id = c.id) (hnext : stored.nextSequence ≠ c.nextSequence) (payload : Payload) :
    db.append (c.event turn payload) = .error .staleAppend := by
  have hunclaimed : ¬ db.conversations.any (fun x => x.id = (c.event turn payload).conversation ∧
      x.nextSequence = (c.event turn payload).sequence) = true := by
    intro hany
    obtain ⟨x, hx, hmatch⟩ := List.any_eq_true.mp hany
    obtain ⟨hxid, hxnext⟩ := of_decide_eq_true hmatch
    obtain rfl := h.conversation_unique hx hstored (hxid.trans hid.symm)
    exact hnext hxnext
  have hsome : (db.conversation? (c.event turn payload).conversation).isSome :=
    Option.isSome_iff_exists.mpr ⟨stored, (conversation?_eq_some_iff h.ids).mpr ⟨hstored, hid⟩⟩
  simp only [Database.append, if_neg hunclaimed, if_pos hsome]

theorem admitTurn_current (h : LogOk db) (hrow : Row db c) {result : Database × Receipt}
    (hadmitted : admitTurn digest db c turn clientTurnId text = .ok result) :
    c ∈ db.conversations := by
  rcases hrow.current_or_moved with hcurrent | ⟨stored, hstored, hid, hnext⟩
  · exact hcurrent
  · unfold admitTurn at hadmitted
    split at hadmitted
    · cases hadmitted
    · simp only [append_moved h hstored hid hnext, bind, Except.bind] at hadmitted
      cases hadmitted

/-- What a committed admission found and what it stored. -/
theorem admitTurn_stored {result : Database × Receipt} (h : LogOk db) (hc : c ∈ db.conversations)
    (hadmitted : admitTurn digest db c turn clientTurnId text = .ok result) :
    result.1.receipts = db.receipts ++ [result.2] ∧ ∀ r ∈ db.receipts, r.conversation = c.id →
      r.clientTurnId ≠ clientTurnId ∧ r.status ≠ .running := by
  unfold admitTurn at hadmitted
  split at hadmitted
  · cases hadmitted
  · simp only [append_event h.ids (h.counted hc), bind, Except.bind] at hadmitted
    split at hadmitted
    · cases hadmitted
    · split at hadmitted
      · cases hadmitted
      · rename_i added hadd
        obtain ⟨hadded, -, hrules⟩ := addTurn_ok hadd rfl
        cases hadmitted
        refine ⟨?_, hrules⟩
        rw [hadded]
        rfl

theorem admitTurn_error (h : LogOk db) (hrow : Row db c) {e : AgentError}
    (hadmitted : admitTurn digest db c turn clientTurnId text = .error e) :
    Refusal db c clientTurnId text turn false e ∨
      (e = .alreadyAdmitted ∧ ∃ r, db.receiptByClient? c.id clientTurnId = some r) ∨
      (e = .busy none ∧ ∃ r, db.running? c.id = some r) := by
  unfold admitTurn at hadmitted
  split at hadmitted
  · rename_i hbounds
    cases hadmitted
    exact .inl (hbounds.imp_right .inl)
  · rcases hrow.current_or_moved with hc | ⟨stored, hstored, hid, hnext⟩
    · simp only [append_event h.ids (h.counted hc), bind, Except.bind] at hadmitted
      split at hadmitted
      · rename_i hbounds
        cases hadmitted
        exact .inl (.inr (.inr hbounds))
      · split at hadmitted
        · rename_i hadd
          cases hadmitted
          unfold Database.addTurn at hadd
          split at hadd
          · rename_i htaken
            obtain ⟨r, hr⟩ := Option.isSome_iff_exists.mp htaken
            cases hadd
            exact .inl ⟨r, receipt?_mem hr⟩
          · split at hadd
            · rename_i hclient
              cases hadd
              exact .inr (.inl ⟨rfl, Option.isSome_iff_exists.mp hclient⟩)
            · split at hadd
              · rename_i hrunning
                cases hadd
                exact .inr (.inr ⟨rfl, Option.isSome_iff_exists.mp hrunning.2⟩)
              · cases hadd
        · cases hadmitted
    · simp only [append_moved h hstored hid hnext, bind, Except.bind] at hadmitted
      cases hadmitted
      exact .inl ⟨stored, hstored, hid, hnext⟩

variable {p : ℕ} {scope : Option Scope} {conversation : ℕ} {found : Conversation}

/-- The read of the conversation decides one of these. -/
theorem lockConversation_move (h : LogOk s.db) (act : Act) (p conversation : ℕ)
    (clientTurnId text : String) (scope : Option Scope) :
    SendMove digest s act p conversation clientTurnId text scope .sendBegun
      (lockConversation s conversation scope) := by
  unfold lockConversation
  split
  · rename_i hmissing
    refine .missing ?_
    intro found hfound hid
    rw [(conversation?_eq_some_iff h.ids).mpr ⟨hfound, hid⟩] at hmissing
    cases hmissing
  · rename_i found hfound
    obtain ⟨hmem, hid⟩ := (conversation?_eq_some_iff h.ids).mp hfound
    split
    · rename_i hscope
      refine .missing ?_
      intro found' hfound' hid'
      rw [h.conversation_unique hfound' hmem (hid'.trans hid.symm)]
      exact hscope
    · exact .locked hmem hid

theorem readReceipt_move (act : Act) (p : ℕ) (found : Conversation) (clientTurnId text : String)
    (scope : Option Scope) :
    SendMove digest s act p found.id clientTurnId text scope (.sendLocked found)
      (readReceipt s found clientTurnId) := by
  unfold readReceipt
  split
  · rename_i hclient
    obtain ⟨r, hr⟩ := Option.isSome_iff_exists.mp hclient
    exact .repeated hr
  · rename_i hclient
    exact .unseen (by simpa using hclient)

theorem checkActive_move (act : Act) (p : ℕ) (found : Conversation) (clientTurnId text : String)
    (scope : Option Scope) :
    SendMove digest s act p found.id clientTurnId text scope (.sendUnseen found)
      (checkActive s p found) := by
  unfold checkActive
  split
  · rename_i j hactive
    exact .busy hactive
  · rename_i hactive
    exact .free hactive

/-- The writes of a send decide one of these. -/
theorem admission_cases (h : LogOk s.db) (hrow : Row s.db found) (k p : ℕ) (scope : Option Scope)
    {refused : Bool} {written : Database} {phase : Phase}
    (hadmission : admission digest s found clientTurnId text turn refused = (written, phase)) :
    (written = s.db ∧ SendMove digest s (.admitTurn k turn refused) p found.id clientTurnId text
        scope (.sendFree found) phase ∧ ∀ r, phase ≠ .sendAdmitted r) ∨
      ∃ receipt, phase = .sendAdmitted receipt ∧
        s.db.receiptByClient? found.id clientTurnId = none ∧ found ∈ s.db.conversations ∧
        admitTurn digest s.db found turn clientTurnId text = .ok (written, receipt) := by
  unfold admission at hadmission
  split at hadmission
  · rename_i hrefused
    cases hadmission
    exact .inl ⟨rfl, .refused rfl hrefused, by simp⟩
  · rename_i hfree
    obtain rfl : refused = false := by simpa using hfree
    split at hadmission
    · rename_i written' receipt hadmitted
      cases hadmission
      have hcurrent := admitTurn_current h hrow hadmitted
      refine .inr ⟨receipt, rfl, ?_, hcurrent, hadmitted⟩
      refine List.find?_eq_none.mpr ?_
      intro r hr hmatch
      obtain ⟨hconv, hclient⟩ := of_decide_eq_true hmatch
      exact ((admitTurn_stored h hcurrent hadmitted).2 r hr hconv).1 hclient
    · rename_i hadmitted
      cases hadmission
      rcases admitTurn_error h hrow hadmitted with hrefusal | ⟨-, hr⟩ | ⟨he, -⟩
      · cases hrefusal
      · exact .inl ⟨rfl, .lost (.inl hr), by simp⟩
      · cases he
    · rename_i b hadmitted
      cases hadmission
      rcases admitTurn_error h hrow hadmitted with hrefusal | ⟨he, -⟩ | ⟨-, hr⟩
      · cases hrefusal
      · cases he
      · exact .inl ⟨rfl, .lost (.inr hr), by simp⟩
    · rename_i e hnotadmitted hnotbusy hadmitted
      cases hadmission
      rcases admitTurn_error h hrow hadmitted with hrefusal | ⟨he, -⟩ | ⟨he, -⟩
      · exact .inl ⟨rfl, .refused rfl hrefusal, by simp⟩
      · exact absurd he hnotadmitted
      · exact absurd he (hnotbusy none)

variable {act : Act} {task : Task}

section Steps

variable {i : ℕ} {call : Call}

/-- The phases of a cancel and of a recovery. -/
def Phase.stopping : Phase → Bool
  | .cancelBegun => true
  | .cancelLatest => true
  | .cancelWaiting _ _ => true
  | .cancelOrphan _ => true
  | .cancelRaced _ => true
  | .recoverBegun => true
  | .recovering _ => true
  | _ => false

theorem Phase.not_over_of_stopping {phase : Phase} (h : phase.stopping = true) :
    phase.isOver = false := by
  cases phase <;> first | rfl | cases h

theorem Call.Fits.stops (hfits : call.Fits digest) (hphase : call.phase.stopping = true) :
    call.request.Stops := by
  unfold Call.Fits at hfits
  split at hfits <;> simp_all [Phase.stopping, Request.Stops]

theorem Call.fits_over {phase : Phase} (h : phase.isOver = true) :
    Call.Fits digest { call with phase } := by
  obtain ⟨process, request, old⟩ := call
  cases phase <;> cases h <;> cases request <;> trivial

theorem orphanClosed_cases (h : LogOk s.db) {turn : Receipt} {detail : String}
    {claimed raced : Phase} (hturn : Copy s.db turn) (hphase : call.phase.stopping = true)
    (hstops : call.request.Stops)
    (hclaimed : ∀ written, Effect digest s.db written → written.receipts = endReceipt turn.id
      outcome (some detail) s.db.receipts → claimed.Holds written) (hraced : raced.Holds s.db)
    (hfits : Call.Fits digest { call with phase := claimed })
    (hfits' : Call.Fits digest { call with phase := raced }) :
    CallStep digest s i call act (orphanClosed s i turn outcome detail claimed raced) := by
  have hover := Phase.not_over_of_stopping hphase
  unfold orphanClosed
  split
  · rename_i written hwritten
    have hstored : Effect digest s.db written ∧
        written.receipts = endReceipt turn.id outcome (some detail) s.db.receipts :=
      recordOutcome_ok h (hturn.conversation h) hwritten
    exact .orphan hover hstops hturn hwritten (hclaimed written hstored.1 hstored.2) hfits
  · exact .other hover hstops hraced hfits'
  · exact .other hover hstops trivial (Call.fits_over rfl)

theorem cancelDecide_cases {conversation : ℕ} {turn : Receipt} (hturn : Copy s.db turn)
    (hphase : call.phase.stopping = true) {c : ℕ} {id : Option ℕ} {sc : Option Scope}
    (hrequest : call.request = .cancel c id sc) :
    CallStep digest s i call act (cancelDecide s i p conversation scope turn) := by
  have hstops : call.request.Stops := by rw [hrequest]; trivial
  have hover := Phase.not_over_of_stopping hphase
  unfold cancelDecide
  split
  · exact .other hover hstops trivial (Call.fits_over rfl)
  · split
    · exact .other hover hstops trivial (Call.fits_over rfl)
    · split
      · refine .other hover hstops ?_ (Call.fits_over rfl)
        rintro r ⟨⟩
        exact hturn
      · have hfits : Call.Fits digest { call with phase := .cancelOrphan turn } := by
          simp [Call.Fits, hrequest]
        split
        · split
          · exact .stopped hover hstops hturn (by simp [Call.Fits, hrequest])
          · exact .other hover hstops hturn hfits
        · exact .other hover hstops hturn hfits

theorem cancelTarget_copy (htasks : ∀ task ∈ s.tasks, Copy s.db task.turn) {conversation : ℕ}
    {turn : Option ℕ} {found : Receipt} (h : s.cancelTarget p conversation turn = some found) :
    Copy s.db found := by
  cases turn with
  | some id => exact .of_mem (receipt?_mem h).1
  | none =>
    simp only [System.cancelTarget] at h
    split at h
    · obtain ⟨task, htask, rfl⟩ := Option.map_eq_some_iff.mp h
      exact htasks task (List.mem_of_getElem? htask)
    · exact .of_mem (List.mem_of_find?_eq_some h)

theorem CallStep.of_move {conversation : ℕ} {before after : Phase}
    (hrequest : call.request = .send conversation clientTurnId text scope)
    (hphase : call.phase = before)
    (hmove : SendMove digest s act call.process conversation clientTurnId text scope before after) :
    CallStep digest s i call act (s.setCall i after) := by
  subst hphase
  exact .sent hrequest hmove

section Calls

variable (h : LogOk s.db) (hfits : call.Fits digest) (hholds : call.phase.Holds s.db)

/-! What each act of a call does, one lemma for each. -/

include h in
theorem stepCall_lockConversation {k : ℕ}
    (hstep : stepCall digest s i call (.lockConversation k) = some s') :
    CallStep digest s i call (.lockConversation k) s' := by
  unfold stepCall at hstep
  dsimp only at hstep
  split at hstep
  · rename_i conversation clientTurnId text scope hrequest hphase
    cases hstep
    exact .of_move hrequest hphase
      (lockConversation_move h _ call.process conversation clientTurnId text scope)
  · cases hstep

include hfits in
theorem stepCall_readReceipt {k : ℕ}
    (hstep : stepCall digest s i call (.readReceipt k) = some s') :
    CallStep digest s i call (.readReceipt k) s' := by
  unfold stepCall at hstep
  dsimp only at hstep
  split at hstep
  · rename_i conversation clientTurnId text scope found hrequest hphase
    cases hstep
    have hid : found.id = conversation := by simpa [Call.Fits, hrequest, hphase] using hfits
    subst hid
    exact .of_move hrequest hphase
      (readReceipt_move _ call.process found clientTurnId text scope)
  · cases hstep

include hfits in
theorem stepCall_checkActive {k : ℕ}
    (hstep : stepCall digest s i call (.checkActive k) = some s') :
    CallStep digest s i call (.checkActive k) s' := by
  unfold stepCall at hstep
  dsimp only at hstep
  split at hstep
  · rename_i conversation clientTurnId text scope found hrequest hphase
    cases hstep
    have hid : found.id = conversation := by simpa [Call.Fits, hrequest, hphase] using hfits
    subst hid
    exact .of_move hrequest hphase
      (checkActive_move _ call.process found clientTurnId text scope)
  · cases hstep

include h hfits hholds in
theorem stepCall_admitTurn {k turn : ℕ} {refused : Bool}
    (hstep : stepCall digest s i call (.admitTurn k turn refused) = some s') :
    CallStep digest s i call (.admitTurn k turn refused) s' := by
  unfold stepCall at hstep
  dsimp only at hstep
  split at hstep
  · rename_i conversation clientTurnId text scope found hrequest hphase
    have hid : found.id = conversation := by simpa [Call.Fits, hrequest, hphase] using hfits
    subst hid
    rw [hphase] at hholds
    split at hstep
    · rename_i written receipt hadmission
      cases hstep
      rcases admission_cases h hholds k call.process scope hadmission with
        ⟨-, -, hnot⟩ | ⟨receipt', heq, hnone, hmem, hadmitted⟩
      · exact absurd rfl (hnot receipt)
      · cases heq
        exact .admitted hrequest hphase hnone hmem rfl hadmitted
    · rename_i written phase hnot hadmission
      cases hstep
      rcases admission_cases h hholds k call.process scope hadmission with
        ⟨-, hmove, -⟩ | ⟨receipt, heq, -⟩
      · exact .of_move hrequest hphase hmove
      · exact absurd heq (hnot receipt)
  · cases hstep

theorem stepCall_lookAfterLoss {k : ℕ}
    (hstep : stepCall digest s i call (.lookAfterLoss k) = some s') :
    CallStep digest s i call (.lookAfterLoss k) s' := by
  unfold stepCall at hstep
  dsimp only at hstep
  split at hstep
  · rename_i conversation clientTurnId text scope hrequest hphase
    split at hstep
    · rename_i hnone
      cases hstep
      exact .of_move hrequest hphase (.lostBusy hnone)
    · rename_i raced hraced
      split at hstep
      · rename_i hmatches
        cases hstep
        exact .of_move hrequest hphase (.lostReplay hraced hmatches)
      · rename_i hmatches
        cases hstep
        exact .of_move hrequest hphase (.lostConflict hraced hmatches)
  · cases hstep

theorem stepCall_nameRunning {k : ℕ}
    (hstep : stepCall digest s i call (.nameRunning k) = some s') :
    CallStep digest s i call (.nameRunning k) s' := by
  unfold stepCall at hstep
  dsimp only at hstep
  split at hstep
  · rename_i conversation clientTurnId text scope hrequest hphase
    split at hstep
    · cases hstep
      exact .of_move hrequest hphase .named
    · cases hstep
      exact .of_move hrequest hphase .named
  · cases hstep

theorem stepCall_replay {k : ℕ} (hstep : stepCall digest s i call (.replay k) = some s') :
    CallStep digest s i call (.replay k) s' := by
  unfold stepCall at hstep
  dsimp only at hstep
  split at hstep
  · rename_i conversation clientTurnId text scope hrequest hphase
    split at hstep
    · rename_i hnone
      cases hstep
      exact .of_move hrequest hphase (.vanished hnone)
    · rename_i already halready
      split at hstep
      · rename_i hmatches
        cases hstep
        exact .of_move hrequest hphase (.replayed halready hmatches)
      · rename_i hmatches
        cases hstep
        exact .of_move hrequest hphase (.conflict halready hmatches)
  · cases hstep

theorem stepCall_start {k : ℕ} {built : Bool}
    (hstep : stepCall digest s i call (.start k built) = some s') :
    CallStep digest s i call (.start k built) s' := by
  unfold stepCall at hstep
  dsimp only at hstep
  split at hstep
  · rename_i turn hphase
    cases built with
    | true =>
      cases hstep
      exact .started hphase rfl
    | false =>
      cases hstep
      exact .factory hphase rfl
  · cases hstep

include hfits in
theorem stepCall_cancelRead {k : ℕ} (htasks : ∀ task ∈ s.tasks, Copy s.db task.turn)
    (hstep : stepCall digest s i call (.cancelRead k) = some s') :
    CallStep digest s i call (.cancelRead k) s' := by
  unfold stepCall at hstep
  dsimp only at hstep
  split at hstep
  · rename_i conversation turn scope hrequest hphase
    have hstopping : call.phase.stopping = true := by rw [hphase]; rfl
    split at hstep
    · rename_i found hfound
      cases hstep
      exact cancelDecide_cases (cancelTarget_copy htasks hfound) hstopping hrequest
    · cases hstep
      exact .other (Phase.not_over_of_stopping hstopping) (hfits.stops hstopping) trivial
        (by simp [Call.Fits, hrequest])
  · cases hstep

include hfits in
theorem stepCall_cancelLatest {k : ℕ}
    (hstep : stepCall digest s i call (.cancelLatest k) = some s') :
    CallStep digest s i call (.cancelLatest k) s' := by
  unfold stepCall at hstep
  dsimp only at hstep
  split at hstep
  · rename_i conversation turn scope hrequest hphase
    have hstopping : call.phase.stopping = true := by rw [hphase]; rfl
    split at hstep
    · rename_i found hfound
      cases hstep
      refine cancelDecide_cases (.of_mem ?_) hstopping hrequest
      exact (List.mem_filter.mp (List.mem_of_getLast? hfound)).1
    · cases hstep
      exact .other (Phase.not_over_of_stopping hstopping) (hfits.stops hstopping) trivial
        (Call.fits_over rfl)
  · cases hstep

include hfits hholds in
theorem stepCall_cancelDone {k : ℕ}
    (hstep : stepCall digest s i call (.cancelDone k) = some s') :
    CallStep digest s i call (.cancelDone k) s' := by
  unfold stepCall at hstep
  dsimp only at hstep
  split at hstep
  · rename_i j turn hphase
    have hstopping : call.phase.stopping = true := by rw [hphase]; rfl
    split at hstep
    · cases hstep
      rw [hphase] at hholds
      exact .other (Phase.not_over_of_stopping hstopping) (hfits.stops hstopping)
        (holds_reread hholds) (Call.fits_over rfl)
    · cases hstep
  · cases hstep

include h hfits hholds in
theorem stepCall_closeOrphan {k : ℕ}
    (hstep : stepCall digest s i call (.closeOrphan k) = some s') :
    CallStep digest s i call (.closeOrphan k) s' := by
  unfold stepCall at hstep
  dsimp only at hstep
  split at hstep
  · rename_i turn hphase
    have hstopping : call.phase.stopping = true := by rw [hphase]; rfl
    cases hstep
    rw [hphase] at hholds
    refine orphanClosed_cases h hholds hstopping (hfits.stops hstopping) ?_ hholds
      (Call.fits_over rfl) ?_
    · intro written _ hreceipts r hr
      cases hr
      exact Copy.endReceipt hholds hreceipts
    · cases hrequest : call.request <;> simp_all [Call.Fits]
  · cases hstep

include hfits hholds in
theorem stepCall_cancelRaced {k : ℕ}
    (hstep : stepCall digest s i call (.cancelRaced k) = some s') :
    CallStep digest s i call (.cancelRaced k) s' := by
  unfold stepCall at hstep
  dsimp only at hstep
  split at hstep
  · rename_i turn hphase
    have hstopping : call.phase.stopping = true := by rw [hphase]; rfl
    cases hstep
    rw [hphase] at hholds
    exact .other (Phase.not_over_of_stopping hstopping) (hfits.stops hstopping)
      (holds_reread hholds) (Call.fits_over rfl)
  · cases hstep

include hfits in
theorem stepCall_recoverRead {k : ℕ}
    (hstep : stepCall digest s i call (.recoverRead k) = some s') :
    CallStep digest s i call (.recoverRead k) s' := by
  unfold stepCall at hstep
  dsimp only at hstep
  split at hstep
  · rename_i hphase
    have hstopping : call.phase.stopping = true := by rw [hphase]; rfl
    cases hstep
    refine .other (Phase.not_over_of_stopping hstopping) (hfits.stops hstopping) ?_ ?_
    · intro turn hturn
      exact .of_mem (List.mem_filter.mp hturn).1
    · cases hrequest : call.request <;> simp_all [Call.Fits]
  · cases hstep

include h hfits hholds in
theorem stepCall_recoverNext {k : ℕ}
    (hstep : stepCall digest s i call (.recoverNext k) = some s') :
    CallStep digest s i call (.recoverNext k) s' := by
  unfold stepCall at hstep
  dsimp only at hstep
  split at hstep
  · rename_i hphase
    have hstopping : call.phase.stopping = true := by rw [hphase]; rfl
    cases hstep
    exact .other (Phase.not_over_of_stopping hstopping) (hfits.stops hstopping) nofun
      (Call.fits_over rfl)
  · rename_i turn rest hphase
    have hstopping : call.phase.stopping = true := by rw [hphase]; rfl
    cases hstep
    rw [hphase] at hholds
    have hrest : Phase.Holds s.db (.recovering rest) :=
      fun r hr => hholds r (List.mem_cons_of_mem _ hr)
    have hfits' : Call.Fits digest { call with phase := .recovering rest } := by
      cases hrequest : call.request <;> simp_all [Call.Fits]
    refine orphanClosed_cases h (hholds turn List.mem_cons_self) hstopping
      (hfits.stops hstopping) ?_ hrest hfits' hfits'
    intro written heffect _
    exact hrest.mono heffect.grown
  · cases hstep

theorem stepCall_closeDone {k : ℕ} (hstep : stepCall digest s i call (.closeDone k) = some s') :
    CallStep digest s i call (.closeDone k) s' := by
  unfold stepCall at hstep
  dsimp only at hstep
  split at hstep
  · rename_i tasks hphase
    split at hstep
    · rename_i hall
      cases hstep
      refine .closed hphase ?_
      intro j hj
      have hover := List.all_eq_true.mp hall j hj
      obtain ⟨task, htask, hphase'⟩ := (Option.any_eq_true _ _).mp hover
      exact ⟨task, htask, of_decide_eq_true hphase'⟩
    · cases hstep
  · cases hstep

include h hfits hholds in
theorem stepCall_cases (htasks : ∀ task ∈ s.tasks, Copy s.db task.turn)
    (hstep : stepCall digest s i call act = some s') : CallStep digest s i call act s' := by
  cases act with
  | lockConversation _ => exact stepCall_lockConversation h hstep
  | readReceipt _ => exact stepCall_readReceipt hfits hstep
  | checkActive _ => exact stepCall_checkActive hfits hstep
  | admitTurn _ _ _ => exact stepCall_admitTurn h hfits hholds hstep
  | lookAfterLoss _ => exact stepCall_lookAfterLoss hstep
  | nameRunning _ => exact stepCall_nameRunning hstep
  | replay _ => exact stepCall_replay hstep
  | start _ _ => exact stepCall_start hstep
  | cancelRead _ => exact stepCall_cancelRead hfits htasks hstep
  | cancelLatest _ => exact stepCall_cancelLatest hfits hstep
  | cancelDone _ => exact stepCall_cancelDone hfits hholds hstep
  | closeOrphan _ => exact stepCall_closeOrphan h hfits hholds hstep
  | cancelRaced _ => exact stepCall_cancelRaced hfits hholds hstep
  | recoverRead _ => exact stepCall_recoverRead hfits hstep
  | recoverNext _ => exact stepCall_recoverNext h hfits hholds hstep
  | closeDone _ => exact stepCall_closeDone hstep
  | _ => cases hstep

end Calls

theorem detail_endingOf {how : StreamEnd} (h : endingOf task how = .ending outcome text detail) :
    ∀ d ∈ detail, d.length ≤ maxDetailChars := by
  intro d hd
  cases how with
  | completed answer =>
    cases h
    cases hd
  | stopped answer =>
    cases h
    split at hd
    · cases hd
      decide
    · cases hd
  | failed answer reason =>
    cases h
    cases hd
    rw [← String.length_toList, String.toList_ofList, List.length_take]
    exact Nat.min_le_left _ _

theorem endingOf_ending (task : Task) (how : StreamEnd) :
    ∃ outcome text detail, endingOf task how = .ending outcome text detail := by
  cases how <;> exact ⟨_, _, _, rfl⟩

theorem stepTask_cases {j : ℕ} (hstep : stepTask s j task act = some s') :
    TaskStep s j task act s' := by
  unfold stepTask at hstep
  split at hstep
  · rename_i k how
    split at hstep
    · rename_i hphase
      obtain ⟨outcome, text, detail, hending⟩ := endingOf_ending task how
      cases hstep
      rw [hending]
      exact .ends hphase (detail_endingOf hending)
    · cases hstep
  · split at hstep
    · rename_i outcome text detail hphase
      split at hstep
      · rename_i written hrecord
        cases hstep
        exact .recorded hphase hrecord
      · rename_i hrecord
        cases hstep
        exact .late hphase hrecord
      · rename_i e hrecord
        cases hstep
        exact .failed hphase rfl hrecord
    · cases hstep
  · split at hstep
    · split at hstep
      · rename_i hphase
        cases hstep
        refine .ends hphase ?_
        rintro d ⟨⟩
        decide
      · rename_i hphase
        cases hstep
        exact .killed hphase rfl
      · cases hstep
    · cases hstep
  · split at hstep
    · rename_i hdone
      cases hstep
      exact .forgets hdone.1 hdone.2
    · cases hstep
  · cases hstep

end Steps

/-- What the processes hold of the database is what it stores. -/
structure Held (digest : String → String) (s : System) : Prop where
  tasks : ∀ task ∈ s.tasks, Copy s.db task.turn
  calls : ∀ call ∈ s.calls, call.phase.Holds s.db
  fits : ∀ call ∈ s.calls, call.Fits digest

theorem step_cases (h : LogOk s.db) (hheld : Held digest s) (hstep : step digest s act = some s') :
    Step digest s act s' := by
  unfold step at hstep
  split at hstep
  · split at hstep
    · rename_i written hstart
      cases hstep
      obtain ⟨heffect, hreceipts⟩ : Effect digest s.db written ∧ _ := startConversation_ok hstart
      exact .wrote rfl heffect hreceipts
    · cases hstep
      exact .idle rfl
  · split at hstep
    · rename_i written hfork
      cases hstep
      obtain ⟨heffect, hreceipts⟩ : Effect digest s.db written ∧ _ := forkConversation_ok h hfork
      exact .wrote rfl heffect hreceipts
    · cases hstep
      exact .idle rfl
  · cases hstep
    exact .called rfl
  · cases hstep
    exact .crashed rfl
  · split at hstep
    · rename_i i hi
      obtain ⟨call, hcall, hcallstep⟩ := Option.bind_eq_some_iff.mp hstep
      have hmem := List.mem_of_getElem? hcall
      exact .call hi hcall (stepCall_cases h (hheld.fits call hmem) (hheld.calls call hmem)
        hheld.tasks hcallstep)
    · rename_i j hi hj
      obtain ⟨task, htask, htaskstep⟩ := Option.bind_eq_some_iff.mp hstep
      exact .task hi hj htask (stepTask_cases htaskstep)
    · cases hstep

end Grafy.Agents
