import Grafy.SessionHeads

/-!
Whether the drain of a connected session can come to a halt. The drain stands
still while a head refresh is awaited, or when nothing is in flight and batches
are queued. Each pause comes with a request for a snapshot; what is left to show
is that the snapshot, or the event itself, sets the drain going again. It does,
but for a snapshot that is older than the head and for a frame whose write
throws.
-/
namespace Grafy.RoomSession

open CommandOutbox Commands Reachability

variable {D : Type}

section Stalling

/-- The drain does nothing by itself: it is paused, or was left with batches in
the queue and none in flight. -/
def Stalled (outbox : Outbox) : Prop :=
  outbox.awaitingHeadRehydration = true ∨ outbox.inFlight = none ∧ outbox.queue ≠ []

instance (outbox : Outbox) : Decidable (Stalled outbox) := by
  unfold Stalled
  exact inferInstanceAs (Decidable (_ ∨ (_ ∧ _)))

/-- What makes the page ask for a head snapshot. -/
def Effect.isRequest : Effect → Bool
  | .headRefreshRequired => true
  | .commandRejected _ => true
  | _ => false

def requests (effects : List Effect) : ℕ := effects.countP Effect.isRequest

theorem requests_append (first second : List Effect) :
    requests (first ++ second) = requests first + requests second := List.countP_append ..

variable (head : Option HeadPointer) (canSend : Bool) (outbox : Outbox) {batch : ℕ}
  {message : SubmitMessage} {pointer : HeadPointer} {commands : List ProjectCommand}

/-- A frame is written for the first batch of the queue, out of an idle drain. -/
theorem drainQueue_sends (h : .send batch message ∈ (drainQueue head canSend outbox).2) :
    outbox.inFlight = none ∧ outbox.awaitingHeadRehydration = false ∧
      (drainQueue head canSend outbox).1.queue.length + 1 = outbox.queue.length := by
  unfold drainQueue at h ⊢
  split_ifs at h ⊢ with hblocked
  · simp at h
  · split at h
    · rename_i next rest hqueue
      simp only [Bool.or_eq_true, not_or, Bool.not_eq_true, Option.isSome_eq_false_iff,
        Option.isNone_iff_eq_none] at hblocked
      exact ⟨hblocked.1.1, hblocked.1.2, by simp [hqueue]⟩
    · simp at h

/-- A drain that is not paused and may send has a batch in flight or none queued. -/
theorem drainQueue_flows (h : outbox.awaitingHeadRehydration = false) :
    ¬ Stalled (drainQueue (some pointer) true outbox).1 := by
  unfold drainQueue
  split_ifs with hblocked
  · rintro (hpaused | ⟨hidle, -⟩)
    · simp [h] at hpaused
    · have hbusy : outbox.inFlight.isSome = true := by simpa [h] using hblocked
      rw [show outbox.inFlight = none from hidle] at hbusy
      cases hbusy
  · split
    · simp [Stalled, h]
    · rename_i hqueue
      rintro (hpaused | ⟨-, hqueued⟩)
      · simp [h] at hpaused
      · obtain ⟨next, rest, hnext⟩ := List.exists_cons_of_ne_nil hqueued
        exact hqueue pointer next rest rfl hnext

theorem resolveInFlightReceipt_sends {pending : QueuedCommand} {receipt : ReceiptMessage} :
    .send batch message ∉ (resolveInFlightReceipt outbox pending receipt).2 := by
  simp [resolveInFlightReceipt]

theorem resume_sends (h : .send batch message ∈ (resume head canSend outbox).2) :
    (resume head canSend outbox).1.queue.length + 1 = outbox.queue.length :=
  (drainQueue_sends head canSend _ h).2.2

theorem finishHeadRehydration_sends
    (h : .send batch message ∈ (finishHeadRehydration head canSend outbox).2) :
    (finishHeadRehydration head canSend outbox).1.queue.length + 1 = outbox.queue.length := by
  unfold finishHeadRehydration at h ⊢
  split at h
  · exact resume_sends head canSend outbox h
  · split_ifs at h ⊢ with hcovered
    · rcases List.mem_append.mp h with hresolved | hresumed
      · exact absurd hresolved (resolveInFlightReceipt_sends _)
      · exact resume_sends head canSend _ hresumed
    · simp [requestHeadRefresh] at h

/-- A landed snapshot sets the drain going, or asks for another one. -/
theorem finishHeadRehydration_flows
    (h : Stalled (finishHeadRehydration (some pointer) true outbox).1) :
    0 < requests (finishHeadRehydration (some pointer) true outbox).2 := by
  unfold finishHeadRehydration at h ⊢
  split at h
  · exact absurd h (drainQueue_flows _ rfl)
  · split_ifs at h ⊢ with hcovered
    · exact absurd h (drainQueue_flows _ rfl)
    · simp [requestHeadRefresh, requests, Effect.isRequest]

theorem applyReceipt_sends {message : ReceiptMessage} {frame : SubmitMessage}
    (h : .send batch frame ∈ (applyReceipt head canSend message outbox).2) :
    (applyReceipt head canSend message outbox).1.queue.length + 1 = outbox.queue.length := by
  unfold applyReceipt at h ⊢
  split at h
  · simp at h
  · simp only at h ⊢
    split_ifs at h ⊢ with huncovered
    · simp [requestHeadRefresh] at h
    · rcases List.mem_append.mp h with hresolved | hdrained
      · exact absurd hresolved (resolveInFlightReceipt_sends _)
      · exact (drainQueue_sends head canSend _ hdrained).2.2

theorem applyReceipt_flows {message : ReceiptMessage} (hflows : ¬ Stalled outbox)
    (h : Stalled (applyReceipt (some pointer) true message outbox).1) :
    0 < requests (applyReceipt (some pointer) true message outbox).2 := by
  have hopen : outbox.awaitingHeadRehydration = false := by
    by_contra hpaused
    exact hflows (Or.inl (by simpa using hpaused))
  unfold applyReceipt at h ⊢
  split at h
  · exact absurd h hflows
  · simp only at h ⊢
    split_ifs at h ⊢ with huncovered
    · simp [requestHeadRefresh, requests, Effect.isRequest]
    · exact absurd h (drainQueue_flows _ hopen)

theorem supersede_queue (commands : List ProjectCommand) (h : outbox.queue = []) :
    (supersedeQueuedSnapshotCommand outbox commands).1.queue = [] := by
  unfold supersedeQueuedSnapshotCommand
  split
  · exact h
  · simp [h]

theorem supersede_slots (commands : List ProjectCommand) :
    (supersedeQueuedSnapshotCommand outbox commands).1.inFlight = outbox.inFlight ∧
      (supersedeQueuedSnapshotCommand outbox commands).1.awaitingHeadRehydration =
        outbox.awaitingHeadRehydration := by
  unfold supersedeQueuedSnapshotCommand
  split <;> exact ⟨rfl, rfl⟩

theorem supersede_sends :
    .send batch message ∉ (supersedeQueuedSnapshotCommand outbox commands).2 := by
  unfold supersedeQueuedSnapshotCommand
  split
  · simp
  · simp [superseded]

variable {outbox} {commandId : String}

/-- A batch that is submitted to a flowing drain waits for the one in flight or
is sent at once, with nothing behind it. -/
theorem submit_sends (hflows : ¬ Stalled outbox)
    (h : .send batch message ∈ (submit head canSend commandId commands outbox).2) :
    (submit head canSend commandId commands outbox).1.queue = [] := by
  unfold submit at h ⊢
  simp only at h ⊢
  split_ifs at h ⊢ with hfull
  · simp [supersede_sends] at h
  · rcases List.mem_append.mp h with hcleared | hdrained
    · exact absurd hcleared (supersede_sends _)
    · obtain ⟨hidle, -, hsent⟩ := drainQueue_sends head canSend _ hdrained
      have hqueue : outbox.queue = [] := by
        by_contra hqueued
        exact hflows (Or.inr ⟨(supersede_slots outbox commands).1.symm.trans hidle, hqueued⟩)
      have hlength := Nat.succ.inj (hsent.trans (congrArg (fun queue => (queue ++ [_]).length)
        (supersede_queue outbox commands hqueue)))
      exact List.eq_nil_of_length_eq_zero hlength

theorem submit_flows (hflows : ¬ Stalled outbox) :
    ¬ Stalled (submit (some pointer) true commandId commands outbox).1 := by
  obtain ⟨hinFlight, hawaiting⟩ := supersede_slots outbox commands
  have hopen : outbox.awaitingHeadRehydration = false := by
    by_contra hpaused
    exact hflows (Or.inl (by simpa using hpaused))
  unfold submit
  simp only
  split_ifs with hfull
  · rintro (hpaused | ⟨hidle, hqueued⟩)
    · simp [hawaiting, hopen] at hpaused
    · refine hflows (Or.inr ⟨hinFlight.symm.trans hidle, ?_⟩)
      intro hempty
      exact hqueued (supersede_queue outbox commands hempty)
  · exact drainQueue_flows _ (hawaiting.trans hopen)

end Stalling

section Writing

variable (throws : Throws)

/-- Writing frames changes nothing but the slot in flight, which is emptied when
a write throws. -/
structure Written (effects : List Effect) (before after : Outcome D) : Prop where
  gate : canSendCommand after.1 = canSendCommand before.1
  link : after.1.status = before.1.status ∧ after.1.socket = before.1.socket
  requests : requests after.2 = requests before.2
  queue : after.1.outbox.queue = before.1.outbox.queue
  awaiting : after.1.outbox.awaitingHeadRehydration = before.1.outbox.awaitingHeadRehydration
  inFlight : after.1.outbox.inFlight = before.1.outbox.inFlight ∨
    ∃ batch message, .send batch message ∈ effects ∧ throws message ≠ none

theorem writeSend_written (outcome : Outcome D) (effect : Effect) :
    Written throws [effect] outcome (writeSend throws outcome effect) := by
  unfold writeSend
  split
  · rename_i batch message
    split
    · rename_i error hsocket hthrows
      unfold sendFailed
      split
      · exact ⟨rfl, ⟨rfl, rfl⟩, by simp, rfl, rfl, Or.inl rfl⟩
      · refine ⟨rfl, ⟨rfl, rfl⟩, ?_, rfl, rfl,
          Or.inr ⟨batch, message, List.mem_singleton_self _, by simp [hthrows]⟩⟩
        rw [requests_append]
        rfl
    · exact ⟨rfl, ⟨rfl, rfl⟩, rfl, rfl, rfl, Or.inl rfl⟩
  · exact ⟨rfl, ⟨rfl, rfl⟩, rfl, rfl, rfl, Or.inl rfl⟩

theorem foldl_written (effects : List Effect) (outcome : Outcome D) :
    Written throws effects outcome (effects.foldl (writeSend throws) outcome) := by
  induction effects generalizing outcome with
  | nil => exact ⟨rfl, ⟨rfl, rfl⟩, rfl, rfl, rfl, Or.inl rfl⟩
  | cons effect rest ih =>
    have hfirst := writeSend_written throws outcome effect
    have hrest := ih (writeSend throws outcome effect)
    refine ⟨hrest.gate.trans hfirst.gate, ⟨hrest.link.1.trans hfirst.link.1,
      hrest.link.2.trans hfirst.link.2⟩, hrest.requests.trans hfirst.requests,
      hrest.queue.trans hfirst.queue, hrest.awaiting.trans hfirst.awaiting, ?_⟩
    rcases hrest.inFlight with hsame | ⟨batch, message, hmem, hthrows⟩
    · rcases hfirst.inFlight with hsame' | ⟨batch, message, hmem, hthrows⟩
      · exact Or.inl (hsame.trans hsame')
      · rw [List.mem_singleton] at hmem
        exact Or.inr ⟨batch, message, hmem ▸ List.mem_cons_self .., hthrows⟩
    · exact Or.inr ⟨batch, message, List.mem_cons_of_mem _ hmem, hthrows⟩

theorem writeSends_link (session : Session D) (reply : Reply) :
    (writeSends throws session reply).1.status = session.status ∧
      (writeSends throws session reply).1.socket = session.socket :=
        (foldl_written throws reply.2 _).link

/-- Once the session can send, a halt of its drain comes with a request. -/
def Flows (outcome : Outcome D) : Prop :=
  canSendCommand outcome.1 = true → Stalled outcome.1.outbox → 0 < requests outcome.2

variable {throws} {session : Session D} {reply : Reply}

/-- A frame that could not be written is no harm where nothing is queued behind it. -/
theorem writeSends_flows
    (hreply : canSendCommand session = true → Stalled reply.1 → 0 < requests reply.2)
    (hsends : (∀ message, throws message = none) ∨ (canSendCommand session = true →
      ∀ batch message, .send batch message ∈ reply.2 → reply.1.queue = [])) :
    Flows (writeSends throws session reply) := by
  intro hgate hstalled
  have hwritten : Written throws reply.2 ({ session with outbox := reply.1 }, reply.2)
      (writeSends throws session reply) := foldl_written throws reply.2 _
  have hgate' : canSendCommand session = true := hwritten.gate.symm.trans hgate
  have hrequests : requests (writeSends throws session reply).2 = requests reply.2 :=
    hwritten.requests
  rw [hrequests]
  rcases hstalled with hpaused | ⟨hidle, hqueued⟩
  · exact hreply hgate' (Or.inl (hwritten.awaiting.symm.trans hpaused))
  · rw [hwritten.queue] at hqueued
    rcases hwritten.inFlight with hsame | ⟨batch, message, hmem, hthrows⟩
    · exact hreply hgate' (Or.inr ⟨hsame.symm.trans hidle, hqueued⟩)
    · rcases hsends with hquiet | hlast
      · exact absurd (hquiet message) hthrows
      · exact absurd (hlast hgate' batch message hmem) hqueued

end Writing

section Events

/-- No frame of the event fails to be written while more than one batch is queued. -/
def Patient (throws : Throws) (session : Session D) : Prop :=
  (∀ message, throws message = none) ∨ session.outbox.queue.length ≤ 1

variable {throws : Throws} {session : Session D} {checkpoint : Head D} {expected : String}
  {outcome : Outcome D}

theorem ready_of_canSend (h : canSendCommand session = true) :
    session.status = .ready ∧ session.socket = some .opened := by
  simp only [canSendCommand, canSubmitCommands, Bool.and_eq_true, decide_eq_true_eq] at h
  exact ⟨h.1.1.1.1, h.2⟩

theorem pointer_of_canSend (h : canSendCommand session = true) :
    ∃ pointer, session.pointer = some pointer := by
  simp only [canSendCommand, canSubmitCommands, Bool.and_eq_true] at h
  obtain ⟨head, hhead⟩ := Option.isSome_iff_exists.mp h.1.1.1.2
  exact ⟨head.pointer, by simp [Session.pointer, hhead]⟩

/-- The last frame of a queue leaves nothing behind. -/
theorem last_sent {queue queue' : List QueuedCommand} (hpatient : queue.length ≤ 1)
    (hsent : queue'.length + 1 = queue.length) : queue' = [] :=
  List.eq_nil_of_length_eq_zero (by omega)

theorem finishRehydration_flows (hpatient : Patient throws session) :
    Flows (finishRehydration throws session) := by
  refine writeSends_flows ?_ ?_
  · intro hgate hstalled
    obtain ⟨pointer, hpointer⟩ := pointer_of_canSend hgate
    rw [hgate, hpointer] at hstalled ⊢
    exact finishHeadRehydration_flows _ hstalled
  · refine hpatient.imp_right ?_
    intro hshort _ batch message hmem
    exact last_sent hshort (finishHeadRehydration_sends _ _ _ hmem)

/-- A snapshot that is taken over, or finds the held receipt reflected, sets the
drain going. -/
theorem replaceHead_flows {head : Head D} (hpatient : Patient throws session)
    (h : shouldReplaceCollaborativeHead session.head head = true ∨
      pendingReceiptIsCovered session.pointer session.outbox = true ∨
      (canSendCommand session = true → ¬ Stalled session.outbox)) :
    Flows (replaceHead throws head session) := by
  unfold replaceHead
  split_ifs with hreplace hcovered
  · exact finishRehydration_flows hpatient
  · exact finishRehydration_flows hpatient
  · intro hgate hstalled
    rcases h with hreplace' | hcovered' | hflows
    · exact absurd hreplace' hreplace
    · exact absurd hcovered' hcovered
    · exact absurd hstalled (hflows hgate)

theorem drainQueue_queue (head : Option HeadPointer) (canSend : Bool) (outbox : Outbox) :
    (drainQueue head canSend outbox).1.queue.length ≤ outbox.queue.length := by
  unfold drainQueue
  split_ifs
  · exact le_rfl
  · split
    · rename_i hqueue
      simp [hqueue]
    · exact le_rfl

theorem finishRehydration_queue :
    (finishRehydration throws session).1.outbox.queue.length ≤ session.outbox.queue.length := by
  have hwritten := foldl_written throws
    (finishHeadRehydration session.pointer (canSendCommand session) session.outbox).2
    ({ session with
      outbox := (finishHeadRehydration session.pointer (canSendCommand session) session.outbox).1 },
      (finishHeadRehydration session.pointer (canSendCommand session) session.outbox).2)
  refine (congrArg List.length hwritten.queue).le.trans ?_
  simp only [finishHeadRehydration]
  split
  · exact drainQueue_queue ..
  · split_ifs
    · exact drainQueue_queue ..
    · exact le_rfl

theorem replaceHead_queue (head : Head D) :
    (replaceHead throws head session).1.outbox.queue.length ≤ session.outbox.queue.length := by
  unfold replaceHead
  split_ifs
  · exact finishRehydration_queue
  · exact finishRehydration_queue
  · exact le_rfl

theorem reconcileCheckpointHead_flows (hpatient : Patient throws session)
    (hflows : canSendCommand session = true → ¬ Stalled session.outbox)
    (h : reconcileCheckpointHead throws checkpoint expected session = .ok outcome) :
    Flows outcome := by
  have hreplaced : Flows (replaceHead throws checkpoint session) :=
    replaceHead_flows hpatient (Or.inr (Or.inr hflows))
  unfold reconcileCheckpointHead at h
  split at h
  · cases h
  · split_ifs at h with hother hmismatch
    · cases h
      exact fun hgate hstalled => absurd hstalled (hflows hgate)
    · simp only at h
      split at h
      · cases h
      · rename_i effective heffective
        split_ifs at h with hmerges
        · cases h
          -- the merged head is at the place of the head it replaces
          have hmerged : Flows (replaceHead throws { effective with
              checkpointSequence := checkpoint.checkpointSequence
              checkpointRevision := checkpoint.checkpointRevision }
              (replaceHead throws checkpoint session).1) := by
            refine replaceHead_flows (hpatient.imp_right (replaceHead_queue checkpoint).trans)
              (Or.inl ?_)
            simp [heffective, shouldReplaceCollaborativeHead]
          intro hgate hstalled
          have hmore := hmerged hgate hstalled
          rw [requests_append]
          omega
        · cases h
          exact hreplaced

variable {replay : Head D → List ProjectCommand → ℕ → Option (Head D)} {message : AcceptedMessage}

theorem recordAccepted_stalled {outbox : Outbox} :
    Stalled (recordAccepted message outbox).1 ↔ Stalled outbox := by
  unfold recordAccepted pendingFor
  simp only
  split
  · rfl
  · rename_i pending hpending
    obtain ⟨hsome, -⟩ := Option.filter_eq_some_iff.mp hpending
    simp [Stalled, forget, hsome]

theorem recordAccepted_queue {outbox : Outbox} :
    (recordAccepted message outbox).1.queue = outbox.queue := by
  unfold recordAccepted
  simp only
  split <;> rfl

theorem refreshHead_flows : Flows (refreshHead session) := by
  intro _ _
  simp [refreshHead, requestHeadRefresh, requests, Effect.isRequest]

section

variable (hpatient : Patient throws session)
  (hflows : canSendCommand session = true → ¬ Stalled session.outbox)
include hpatient hflows

theorem afterHeadApplied_flows :
    Flows (writeSends throws session
      (afterHeadApplied session.pointer (canSendCommand session) session.outbox)) := by
  unfold afterHeadApplied
  split_ifs with hcovered
  · exact finishRehydration_flows hpatient
  · exact fun hgate hstalled => absurd hstalled (hflows hgate)

theorem applyAccepted_flows : Flows (applyAccepted throws replay message session) := by
  have hkept : canSendCommand session = true →
    ¬ Stalled (recordAccepted message session.outbox).1 :=
    fun hgate hstalled => hflows hgate (recordAccepted_stalled.mp hstalled)
  unfold applyAccepted
  simp only
  split
  · exact refreshHead_flows
  · rename_i head hhead
    split_ifs with hepoch hold hgap
    · exact refreshHead_flows
    · exact fun hgate hstalled => absurd hstalled (hkept hgate)
    · exact refreshHead_flows
    · split
      · exact refreshHead_flows
      · rename_i next hnext
        refine afterHeadApplied_flows (hpatient.imp_right ?_) ?_
        · intro hshort
          exact (congrArg List.length recordAccepted_queue).le.trans hshort
        · intro hgate
          refine hkept ?_
          simpa [canSendCommand, canSubmitCommands, hhead] using hgate

theorem applyReceipt_written_flows {message : ReceiptMessage} :
    Flows (writeSends throws session
      (applyReceipt session.pointer (canSendCommand session) message session.outbox)) := by
  refine writeSends_flows ?_ ?_
  · intro hgate hstalled
    obtain ⟨pointer, hpointer⟩ := pointer_of_canSend hgate
    rw [hpointer] at hstalled ⊢
    rw [hgate] at hstalled ⊢
    exact applyReceipt_flows _ (hflows hgate) hstalled
  · refine hpatient.imp_right ?_
    intro hshort _ batch message hmem
    exact last_sent hshort (applyReceipt_sends _ _ _ hmem)

end

theorem applyRejected_flows {message : RejectedMessage} :
    0 < requests (applyRejected message session.outbox).2 := by
  unfold applyRejected
  simp only
  split <;> simp [requests, Effect.isRequest]

theorem submitCommands_flows {commandId : String} {commands : List ProjectCommand}
    (hflows : canSendCommand session = true → ¬ Stalled session.outbox) :
    Flows (submitCommands throws commandId commands session) := by
  unfold submitCommands
  split_ifs with hsubmits
  · refine writeSends_flows ?_ (Or.inr ?_)
    · intro hgate hstalled
      obtain ⟨pointer, hpointer⟩ := pointer_of_canSend hgate
      rw [hpointer, hgate] at hstalled
      exact absurd hstalled (submit_flows (hflows hgate))
    · intro hgate batch message hmem
      exact submit_sends _ _ (hflows hgate) hmem
  · exact fun hgate hstalled => absurd hstalled (hflows hgate)

theorem handleMessage_flows {message : ServerMessage D} (hpatient : Patient throws session)
    (hflows : canSendCommand session = true → ¬ Stalled session.outbox) :
    Flows (handleMessage throws replay session message) := by
  cases message with
  | ready head mayEdit => exact finishRehydration_flows hpatient
  | rehydrate head =>
    simp only [handleMessage, applyRehydrate]
    split_ifs
    · exact fun hgate hstalled => absurd hstalled (hflows hgate)
    · exact finishRehydration_flows hpatient
  | accepted message => exact applyAccepted_flows hpatient hflows
  | receipt message => exact applyReceipt_written_flows hpatient hflows
  | rejected message => exact fun _ _ => applyRejected_flows

/-- What a WebSocket does: it is connecting, then open, then closing, and has no
messages before it is open. -/
def Transport (session : Session D) : Event D → Prop
  | .message _ => session.socket ≠ some .connecting
  | .setSocket .connecting => False
  | .setSocket .opened => session.socket ≠ some .closing
  | _ => True

/-- A ready session has left the connecting state behind. -/
def Attached (session : Session D) : Prop :=
  session.status = .ready → session.socket ≠ some .connecting

variable {event : Event D}

theorem handle_flows (hpatient : Patient throws session) (htransport : Transport session event)
    (hattached : Attached session)
    (hflows : canSendCommand session = true → ¬ Stalled session.outbox) :
    Flows (session.handle replay throws event) := by
  have hkept : Flows (session, []) := fun hgate hstalled => absurd hstalled (hflows hgate)
  cases event with
  | submitCommands commandId commands => exact submitCommands_flows hflows
  | message message =>
    simp only [Session.handle]
    split
    · exact hkept
    · exact handleMessage_flows hpatient hflows
  | replaceHead head => exact replaceHead_flows hpatient (Or.inr (Or.inr hflows))
  | reconcileCheckpointHead checkpoint expected =>
    simp only [Session.handle]
    split
    · exact hkept
    · rename_i outcome houtcome
      exact reconcileCheckpointHead_flows hpatient hflows houtcome
  | openSocket =>
    simp only [Session.handle, openSocket]
    split_ifs with hterminal
    · exact hkept
    · exact fun hgate => absurd (ready_of_canSend hgate).2 (by simp)
    · exact fun hgate => absurd (ready_of_canSend hgate).2 (by simp)
  | setSocket state =>
    intro hgate hstalled
    have hready : session.status = .ready := (ready_of_canSend hgate).1
    obtain ⟨socket, hsocket, rfl⟩ := Option.map_eq_some_iff.mp (ready_of_canSend hgate).2
    -- a socket that opens was connecting, so the session is not ready yet
    obtain rfl : socket = .opened := by
      cases socket with
      | connecting => exact absurd hsocket (hattached hready)
      | opened => rfl
      | closing => exact absurd hsocket htransport
    refine absurd hstalled (hflows ?_)
    simpa [Session.handle, setSocket, canSendCommand, canSubmitCommands, hsocket] using hgate
  | socketError =>
    intro hgate
    have hready := (ready_of_canSend hgate).1
    simp only [Session.handle, socketError] at hready
    split_ifs at hready with hbefore
    exact absurd hready hbefore
  | recoverTraffic =>
    exact fun hgate => absurd (ready_of_canSend hgate).1 (by simp [Session.handle, recoverTraffic])
  | stopTraffic reason =>
    exact fun hgate => absurd (ready_of_canSend hgate).1 (by simp [Session.handle, stopTraffic])
  | retry =>
    intro hgate
    exact absurd (ready_of_canSend hgate).2 (by simp [Session.handle, retry, openSocket])
  | disconnect =>
    exact fun hgate => absurd (ready_of_canSend hgate).1 (by simp [Session.handle, disconnect])

theorem Attached.of_link {after : Session D} (h : Attached session)
    (hlink : after.status = session.status ∧ after.socket = session.socket) : Attached after := by
  intro hready
  rw [hlink.2]
  exact h (hlink.1.symm.trans hready)

theorem replaceHead_link (head : Head D) : (replaceHead throws head session).1.status =
    session.status ∧
    (replaceHead throws head session).1.socket = session.socket := by
  unfold replaceHead
  split_ifs
  · exact writeSends_link throws { session with head := some head } _
  · exact writeSends_link throws session _
  · exact ⟨rfl, rfl⟩

theorem reconcileCheckpointHead_attached
    (h : reconcileCheckpointHead throws checkpoint expected session = .ok outcome)
    (hattached : Attached session) : Attached outcome.1 := by
  unfold reconcileCheckpointHead at h
  split at h
  · cases h
  · split_ifs at h
    · cases h
      exact hattached
    · simp only at h
      split at h
      · cases h
      · split_ifs at h
        · cases h
          exact (hattached.of_link (replaceHead_link _)).of_link (replaceHead_link _)
        · cases h
          exact hattached.of_link (replaceHead_link _)

theorem handleMessage_attached {message : ServerMessage D}
    (hsocket : session.socket ≠ some .connecting) :
    Attached (handleMessage throws replay session message).1 := by
  intro _
  suffices hsame : (handleMessage throws replay session message).1.socket = session.socket by
    rwa [hsame]
  cases message with
  | ready head mayEdit =>
    simp only [handleMessage, applyReady, finishRehydration]
    exact (writeSends_link throws _ _).2
  | rehydrate head =>
    simp only [handleMessage, applyRehydrate]
    split_ifs
    · rfl
    · exact (writeSends_link throws { session with head := some head } _).2
  | accepted message =>
    simp only [handleMessage, applyAccepted, refreshHead]
    split
    · rfl
    · split_ifs
      · rfl
      · rfl
      · rfl
      · split
        · rfl
        · exact (writeSends_link throws _ _).2
  | receipt message => exact (writeSends_link throws session _).2
  | rejected message => rfl

theorem handle_attached (htransport : Transport session event) (hattached : Attached session) :
    Attached (session.handle replay throws event).1 := by
  cases event with
  | submitCommands commandId commands =>
    simp only [Session.handle, submitCommands]
    split_ifs
    · exact hattached.of_link (writeSends_link throws session _)
    · exact hattached
  | message message =>
    simp only [Session.handle]
    split
    · exact hattached
    · exact handleMessage_attached htransport
  | replaceHead head => exact hattached.of_link (replaceHead_link head)
  | reconcileCheckpointHead checkpoint expected =>
    simp only [Session.handle]
    split
    · exact hattached
    · rename_i outcome houtcome
      exact reconcileCheckpointHead_attached houtcome hattached
  | openSocket =>
    simp only [Session.handle, openSocket]
    split_ifs
    · exact hattached
    · exact fun hready => by simp at hready
    · exact fun hready => by simp at hready
  | setSocket state =>
    intro _ hconnecting
    obtain ⟨socket, -, rfl⟩ := Option.map_eq_some_iff.mp hconnecting
    exact htransport
  | socketError =>
    intro hready
    simp only [Session.handle, socketError] at hready
    split_ifs at hready with hbefore
    exact absurd hready hbefore
  | recoverTraffic => exact fun hready => by simp [Session.handle, recoverTraffic] at hready
  | stopTraffic reason => exact fun hready => by simp [Session.handle, stopTraffic] at hready
  | retry =>
    intro hready
    simp only [Session.handle, retry, openSocket, Bool.false_eq_true, if_false] at hready
    split_ifs at hready
  | disconnect => exact fun hready => by simp [Session.handle, disconnect] at hready

end Events

section Watching

/-- A session beside the number of snapshots that were asked for and are still
to come. -/
structure Watch (D : Type) where
  session : Session D
  owed : ℕ

/-- A snapshot that was asked for arrives, or anything else happens. -/
inductive Happening (D : Type)
  | occurs (event : Event D)
  | delivers (head : Head D)

def Happening.answers : Happening D → ℕ
  | .occurs _ => 0
  | .delivers _ => 1

def Happening.toEvent : Happening D → Event D
  | .occurs event => event
  | .delivers head => .replaceHead head

variable (replay : Head D → List ProjectCommand → ℕ → Option (Head D))

def Watch.start : Watch D := ⟨.initial, 0⟩

def Watch.step (watch : Watch D) (turn : Throws × Happening D) : Option (Watch D) :=
  if turn.2.answers ≤ watch.owed then
    let outcome := watch.session.handle replay turn.1 turn.2.toEvent
    some ⟨outcome.1, watch.owed - turn.2.answers + requests outcome.2⟩
  else none

/-- The condition under which the drain goes on, for an event after which no
other snapshot is on its way: no write throws while a further batch is queued,
and an arriving snapshot is taken over, or finds the held receipt reflected, or
finds the drain going. -/
def Unobstructed (watch : Watch D) (turn : Throws × Happening D) : Prop :=
  watch.owed = turn.2.answers → Patient turn.1 watch.session ∧
    ∀ head, turn.2 = .delivers head →
      shouldReplaceCollaborativeHead watch.session.head head = true ∨
      pendingReceiptIsCovered watch.session.pointer watch.session.outbox = true ∨
      ¬ Stalled watch.session.outbox

/-- A drain that has come to a halt waits for a snapshot. -/
structure Watched (watch : Watch D) : Prop where
  attached : Attached watch.session
  flows : canSendCommand watch.session = true → Stalled watch.session.outbox → 0 < watch.owed

variable {replay} {watch watch' : Watch D} {turn : Throws × Happening D}

theorem Watched.step (h : Watched watch) (htransport : Transport watch.session turn.2.toEvent)
    (hfree : Unobstructed watch turn) (hstep : Watch.step replay watch turn = some watch') :
    Watched watch' := by
  unfold Watch.step at hstep
  split_ifs at hstep with howed
  cases hstep
  refine ⟨handle_attached htransport h.attached, ?_⟩
  intro hgate hstalled
  simp only
  by_cases hmore : watch.owed = turn.2.answers
  · obtain ⟨hpatient, hdelivers⟩ := hfree hmore
    have hflows : Flows (watch.session.handle replay turn.1 turn.2.toEvent) := by
      obtain ⟨throws, happening⟩ := turn
      cases happening with
      | occurs event =>
        refine handle_flows hpatient htransport h.attached ?_
        intro hgate' hstalled'
        exact absurd (h.flows hgate' hstalled') (by simp [hmore, Happening.answers])
      | delivers head =>
        refine @replaceHead_flows _ _ _ head hpatient ?_
        exact (hdelivers head rfl).imp_right (Or.imp_right (fun hgoing _ => hgoing))
    have hrequests := hflows hgate hstalled
    omega
  · omega

/-- A connected session with batches queued and none in flight has a snapshot
coming, in every run none of whose events obstructs the drain. -/
theorem drain_not_stranded
    (h : Reachable (Watch.step replay)
      (fun w turn => Transport w.session turn.2.toEvent ∧ Unobstructed w turn) .start watch)
    (hgate : canSendCommand watch.session = true) (hqueued : watch.session.outbox.queue ≠ [])
    (hidle : watch.session.outbox.inFlight = none) : 0 < watch.owed := by
  have hwatched : Watched watch := by
    refine h.invariant (I := Watched) ?_ ?_
    · exact ⟨(by simp [Attached, Watch.start, Session.initial]),
        (by simp [Watch.start, Session.initial, canSendCommand])⟩
    · rintro w turn w' hw ⟨htransport, hfree⟩ hstep
      exact hw.step htransport hfree hstep
  exact hwatched.flows hgate (Or.inr ⟨hidle, hqueued⟩)

instance (session : Session D) (event : Event D) : Decidable (Transport session event) := by
  unfold Transport
  split <;> infer_instance

/-- Both conditions, computed for writes that may throw. -/
def unobstructed (watch : Watch D) (turn : Throws × Happening D) : Bool :=
  decide (Transport watch.session turn.2.toEvent) && (decide (watch.owed ≠ turn.2.answers) ||
    (decide (watch.session.outbox.queue.length ≤ 1) &&
      match turn.2 with
      | .occurs _ => true
      | .delivers head => shouldReplaceCollaborativeHead watch.session.head head))

theorem unobstructed_sound (h : unobstructed watch turn = true) :
    Transport watch.session turn.2.toEvent ∧ Unobstructed watch turn := by
  simp only [unobstructed, Bool.and_eq_true, Bool.or_eq_true, decide_eq_true_eq] at h
  refine ⟨h.1, ?_⟩
  intro howed
  obtain ⟨hshort, hreplaces⟩ := h.2.resolve_left (not_not.mpr howed)
  refine ⟨Or.inr hshort, ?_⟩
  intro head hdelivers
  rw [hdelivers] at hreplaces
  exact Or.inl hreplaces

def steady (event : Event ℕ) : Throws × Happening ℕ := (fun _ => none, .occurs event)

/-- A session that is ready at the first head, one batch in flight and one queued. -/
def busy : List (Throws × Happening ℕ) :=
  [steady .openSocket, steady (.setSocket .opened), steady
    (.message (.ready (countHead "a" 0 0) true)),
    steady (.submitCommands "x" []), steady (.submitCommands "y" [])]

def rejection : Throws × Happening ℕ :=
  steady (.message (.rejected ⟨"x", "head_conflict", "", some "a", some 1⟩))

/-- After a rejection the queued batch waits for the snapshot that was asked for. -/
theorem rejected_drain_waits :
    ∃ watch, Reachable (Watch.step countCommandsOnHead)
        (fun w turn => Transport w.session turn.2.toEvent ∧ Unobstructed w turn) .start watch ∧
      canSendCommand watch.session = true ∧ watch.session.outbox.queue.length = 1 ∧
      watch.session.outbox.inFlight.isNone ∧ 0 < watch.owed := by
  obtain ⟨watch, hreached, htest⟩ := exists_reachable (Watch.step countCommandsOnHead)
    (fun w turn => Transport w.session turn.2.toEvent ∧ Unobstructed w turn) unobstructed .start
    (busy ++ [rejection]) (fun w => canSendCommand w.session &&
      (decide (w.session.outbox.queue.length = 1) && w.session.outbox.inFlight.isNone))
    (fun _ _ _ h => unobstructed_sound h) (by decide)
  simp only [Bool.and_eq_true, decide_eq_true_eq] at htest
  obtain ⟨hgate, hqueue, hidle⟩ := htest
  refine ⟨watch, hreached, hgate, hqueue, hidle,
    drain_not_stranded hreached hgate ?_ (Option.isNone_iff_eq_none.mp hidle)⟩
  intro hempty
  simp [hempty] at hqueue

/-- Two ways to strand a connected session: the batch of another participant
makes the awaited snapshot an old one; a frame cannot be written. -/
theorem drain_stranded :
    (∃ watch, Reachable (Watch.step countCommandsOnHead)
        (fun w turn => Transport w.session turn.2.toEvent) .start watch ∧
      canSendCommand watch.session = true ∧ watch.session.outbox.queue.length = 1 ∧
      watch.session.outbox.inFlight.isNone ∧ watch.owed = 0 ∧
      watch.session.outbox.awaitingHeadRehydration = true) ∧
    ∃ watch, Reachable (Watch.step countCommandsOnHead)
        (fun w turn => Transport w.session turn.2.toEvent) .start watch ∧
      canSendCommand watch.session = true ∧ watch.session.outbox.queue.length = 1 ∧
      watch.session.outbox.inFlight.isNone ∧ watch.owed = 0 ∧
      watch.session.outbox.awaitingHeadRehydration = false := by
  have hstranded : ∀ (turns : List (Throws × Happening ℕ)) (paused : Bool),
      (execute (Watch.step countCommandsOnHead)
        (fun w turn => decide (Transport w.session turn.2.toEvent)) .start turns).any
        (fun w => decide (canSendCommand w.session = true ∧ w.session.outbox.queue.length = 1 ∧
          w.session.outbox.inFlight.isNone ∧ w.owed = 0 ∧
          w.session.outbox.awaitingHeadRehydration = paused)) = true →
      ∃ watch, Reachable (Watch.step countCommandsOnHead)
          (fun w turn => Transport w.session turn.2.toEvent) .start watch ∧
        canSendCommand watch.session = true ∧ watch.session.outbox.queue.length = 1 ∧
        watch.session.outbox.inFlight.isNone ∧ watch.owed = 0 ∧
        watch.session.outbox.awaitingHeadRehydration = paused := by
    intro turns paused hrun
    obtain ⟨watch, hreached, htest⟩ := exists_reachable (Watch.step countCommandsOnHead)
      (fun w turn => Transport w.session turn.2.toEvent) _ .start turns _
      (fun _ _ _ h => of_decide_eq_true h) hrun
    exact ⟨watch, hreached, of_decide_eq_true htest⟩
  constructor
  · exact hstranded (busy ++ [steady (.message (.accepted firstBatch)), rejection,
      (fun _ => none, .delivers (countHead "a" 0 0))]) true (by decide)
  · exact hstranded (busy ++ [steady (.submitCommands "z" []),
      (fun _ => some none, .occurs (.message (.receipt ⟨"x", "a", 0, false⟩)))]) false (by decide)

end Watching

end Grafy.RoomSession
