import Grafy.SessionHeads
import Grafy.SnapshotSuperseding

/-!
Whether an accepted batch is reported as this client's own. The mark is set
when the batch is queued and is used up by the first accepted message for its
id, by its receipt while it is in flight, by a rejection, by a newer snapshot or
by a disconnect; nothing else touches it, so that a batch which is interrupted
and replayed keeps its mark.
-/
namespace Grafy.RoomSession

open CommandOutbox Commands

section Flags

variable {S A : Type*} (step : S → A → S) (clears : S → A → Prop)

/-- No event of a run clears the flag, each in the state it finds. -/
def Undisturbed : S → List A → Prop
  | _, [] => True
  | s, a :: rest => ¬ clears s a ∧ Undisturbed (step s a) rest

theorem undisturbed_append (s : S) (events later : List A) :
    Undisturbed step clears s (events ++ later) ↔
      Undisturbed step clears s events ∧ Undisturbed step clears (events.foldl step s) later := by
  induction events generalizing s with
  | nil => simp [Undisturbed]
  | cons a rest ih => simp [Undisturbed, ih, and_assoc]

variable {step clears}

/-- A flag that events set and clear is up after a run just when some event has
set it and none has cleared it since. -/
theorem flag_foldl_iff (up : S → Prop) {sets : S → A → Prop}
    (hstep : ∀ s a, up (step s a) ↔ sets s a ∨ (up s ∧ ¬ clears s a)) {start : S}
    (hstart : ¬ up start) (events : List A) :
    up (events.foldl step start) ↔ ∃ before a after, events = before ++ a :: after ∧
      sets (before.foldl step start) a ∧
      Undisturbed step clears ((before ++ [a]).foldl step start) after := by
  induction events using List.reverseRecOn with
  | nil => simp [hstart]
  | append_singleton events b ih =>
    rw [List.foldl_append, List.foldl_cons, List.foldl_nil, hstep, ih]
    constructor
    · rintro (hsets | ⟨⟨before, a, after, rfl, hsets, hquiet⟩, hclears⟩)
      · exact ⟨events, b, [], rfl, hsets, trivial⟩
      · refine ⟨before, a, after ++ [b], by simp, hsets, ?_⟩
        refine (undisturbed_append step clears _ after [b]).mpr ⟨hquiet, ?_, trivial⟩
        rwa [← List.foldl_append, List.append_assoc, List.singleton_append]
    · rintro ⟨before, a, after, heq, hsets, hquiet⟩
      rcases List.eq_nil_or_concat after with rfl | ⟨after, c, rfl⟩
      · obtain ⟨rfl, hlast⟩ := List.append_inj' heq rfl
        obtain rfl := List.singleton_inj.mp hlast
        exact Or.inl hsets
      · rw [List.concat_eq_append, ← List.cons_append, ← List.append_assoc] at heq
        obtain ⟨rfl, hlast⟩ := List.append_inj' heq rfl
        obtain rfl := List.singleton_inj.mp hlast
        rw [List.concat_eq_append] at hquiet
        obtain ⟨hquiet, hclears, -⟩ := (undisturbed_append step clears _ after [b]).mp hquiet
        rw [← List.foldl_append, List.append_assoc, List.singleton_append] at hclears
        exact Or.inr ⟨⟨before, a, after, rfl, hsets, hquiet⟩, hclears⟩

end Flags

section Marks

variable {head : Option HeadPointer} {canSend : Bool} {outbox : Outbox}

theorem drainQueue_ids :
    (drainQueue head canSend outbox).1.localCommandIds = outbox.localCommandIds := by
  unfold drainQueue
  split_ifs
  · rfl
  · split <;> rfl

theorem finishHeadRehydration_ids :
    (finishHeadRehydration head canSend outbox).1.localCommandIds = outbox.localCommandIds := by
  unfold finishHeadRehydration
  split
  · exact drainQueue_ids
  · split_ifs
    · exact drainQueue_ids
    · rfl

theorem afterHeadApplied_ids :
    (afterHeadApplied head canSend outbox).1.localCommandIds = outbox.localCommandIds := by
  unfold afterHeadApplied
  split_ifs
  · exact finishHeadRehydration_ids
  · rfl

theorem sendFailed_ids (commandId : String) (error : Option CommandError) :
    (sendFailed commandId error outbox).1.localCommandIds = outbox.localCommandIds := by
  unfold sendFailed
  split <;> rfl

theorem recordAccepted_ids (message : AcceptedMessage) :
    (recordAccepted message outbox).1.localCommandIds =
      outbox.localCommandIds.filter (· ≠ message.commandId) := by
  unfold recordAccepted
  split <;> rfl

theorem applyRejected_ids (message : RejectedMessage) :
    (applyRejected message outbox).1.localCommandIds =
      outbox.localCommandIds.filter (· ≠ message.commandId) := by
  unfold applyRejected
  split <;> rfl

/-- A receipt uses up the mark of the batch in flight. -/
theorem mem_applyReceipt_ids (message : ReceiptMessage) (commandId : String) :
    commandId ∈ (applyReceipt head canSend message outbox).1.localCommandIds ↔
      commandId ∈ outbox.localCommandIds ∧
        ¬ (message.commandId = commandId ∧
          ∃ pending ∈ outbox.inFlight, pending.commandId = commandId) := by
  unfold applyReceipt
  cases hpending : pendingFor outbox message.commandId with
  | none =>
    refine (and_iff_left ?_).symm
    rintro ⟨rfl, pending, hinFlight, hid⟩
    rw [Option.mem_def] at hinFlight
    simp [pendingFor, hinFlight, hid] at hpending
  | some pending =>
    obtain ⟨hinFlight, hid⟩ := pendingFor_eq outbox hpending
    have hforgotten : commandId ∈ (forget outbox message.commandId).localCommandIds ↔
        commandId ∈ outbox.localCommandIds ∧ ¬ (message.commandId = commandId ∧
          ∃ pending ∈ outbox.inFlight, pending.commandId = commandId) := by
      have hheld : ∃ pending ∈ outbox.inFlight, pending.commandId = message.commandId :=
        ⟨pending, hinFlight, hid⟩
      unfold forget
      simp only [List.mem_filter, decide_eq_true_eq]
      refine and_congr_right fun _ => not_congr ⟨?_, fun h => h.1.symm⟩
      rintro rfl
      exact ⟨rfl, hheld⟩
    rw [← hforgotten]
    simp only
    split_ifs
    · rfl
    · rw [drainQueue_ids]
      rfl

theorem mem_supersede_ids (commandId : String) (commands : List ProjectCommand) :
    commandId ∈ (supersedeQueuedSnapshotCommand outbox commands).1.localCommandIds ↔
      commandId ∈ outbox.localCommandIds ∧
        ¬ ∃ item ∈ outbox.queue, Stale commands item ∧ item.commandId = commandId := by
  unfold supersedeQueuedSnapshotCommand
  cases hkind : snapshotCommandKind commands with
  | none => simp [Stale, hkind]
  | some kind => simp [Stale, hkind, and_assoc]

/-- A submission marks the batch it queues and unmarks those it supersedes. -/
theorem mem_submit_ids (id commandId : String) (commands : List ProjectCommand) :
    commandId ∈ (submit head canSend id commands outbox).1.localCommandIds ↔
      (id = commandId ∧ (supersedeQueuedSnapshotCommand outbox commands).1.queue.length +
          (supersedeQueuedSnapshotCommand outbox commands).1.inFlight.toList.length <
            roomCommandQueueCap) ∨
        (commandId ∈ outbox.localCommandIds ∧
          ¬ ∃ item ∈ outbox.queue, Stale commands item ∧ item.commandId = commandId) := by
  rw [← mem_supersede_ids]
  unfold submit
  simp only
  split_ifs with hfull
  · simp [hfull]
  · rw [drainQueue_ids]
    simp [Nat.lt_of_not_le hfull, eq_comm]

end Marks

section Sessions

variable {D : Type} (throws : Throws) (session : Session D)
variable (replay : Head D → List ProjectCommand → ℕ → Option (Head D))

/-- The ids this client is known to have submitted. -/
def Session.marked (session : Session D) (commandId : String) : Prop :=
  commandId ∈ session.outbox.localCommandIds

/-- A batch is queued under the id. -/
def Marks (commandId : String) (session : Session D) : Event D → Prop
  | .submitCommands id commands => canSubmitCommands session = true ∧ id = commandId ∧
      (supersedeQueuedSnapshotCommand session.outbox commands).1.queue.length +
        (supersedeQueuedSnapshotCommand session.outbox commands).1.inFlight.toList.length <
          roomCommandQueueCap
  | _ => False

/-- The mark of the id is used up: by an accepted message, a receipt of the
batch in flight, a rejection, a newer snapshot or a disconnect. -/
def Unmarks (commandId : String) (session : Session D) : Event D → Prop
  | .submitCommands _ commands => canSubmitCommands session = true ∧
      ∃ item ∈ session.outbox.queue, Stale commands item ∧ item.commandId = commandId
  | .message (.accepted message) => session.socket ≠ none ∧ message.commandId = commandId
  | .message (.receipt message) => session.socket ≠ none ∧ message.commandId = commandId ∧
      ∃ pending ∈ session.outbox.inFlight, pending.commandId = commandId
  | .message (.rejected message) => session.socket ≠ none ∧ message.commandId = commandId
  | .disconnect => True
  | _ => False

theorem writeSends_ids (reply : Reply) :
    (writeSends throws session reply).1.outbox.localCommandIds = reply.1.localCommandIds := by
  have hfold : ∀ (effects : List Effect) (outcome : Outcome D),
      (effects.foldl (writeSend throws) outcome).1.outbox.localCommandIds =
        outcome.1.outbox.localCommandIds := by
    intro effects
    induction effects with
    | nil => exact fun _ => rfl
    | cons effect rest ih =>
      intro outcome
      rw [List.foldl_cons, ih]
      unfold writeSend
      split
      · split
        · exact sendFailed_ids _ _
        · rfl
      · rfl
  exact hfold reply.2 _

theorem finishRehydration_ids : (finishRehydration throws session).1.outbox.localCommandIds =
    session.outbox.localCommandIds :=
  (writeSends_ids throws session _).trans finishHeadRehydration_ids

theorem replaceHead_ids (head : Head D) :
    (replaceHead throws head session).1.outbox.localCommandIds =
      session.outbox.localCommandIds := by
  unfold replaceHead
  split_ifs
  · exact finishRehydration_ids throws _
  · exact finishRehydration_ids throws _
  · rfl

theorem reconcileCheckpointHead_ids {checkpoint : Head D} {expected : String} {outcome : Outcome D}
    (h : reconcileCheckpointHead throws checkpoint expected session = .ok outcome) :
    outcome.1.outbox.localCommandIds = session.outbox.localCommandIds := by
  unfold reconcileCheckpointHead at h
  split at h
  · cases h
  · split_ifs at h
    · cases h
      rfl
    · simp only at h
      split at h
      · cases h
      · split_ifs at h
        · cases h
          exact (replaceHead_ids throws _ _).trans (replaceHead_ids throws session checkpoint)
        · cases h
          exact replaceHead_ids throws session checkpoint

theorem applyAccepted_ids (message : AcceptedMessage) :
    (applyAccepted throws replay message session).1.outbox.localCommandIds =
      session.outbox.localCommandIds.filter (· ≠ message.commandId) := by
  rw [← recordAccepted_ids]
  unfold applyAccepted
  simp only
  split
  · rfl
  · split_ifs
    · rfl
    · rfl
    · rfl
    · split
      · rfl
      · rw [writeSends_ids, afterHeadApplied_ids]

theorem handleMessage_marked (commandId : String) {message : ServerMessage D}
    (hsocket : session.socket ≠ none) :
    (handleMessage throws replay session message).1.marked commandId ↔
      session.marked commandId ∧ ¬ Unmarks commandId session (.message message) := by
  unfold Session.marked
  cases message with
  | ready head mayEdit =>
    simp only [handleMessage, applyReady, finishRehydration_ids, Unmarks, not_false_eq_true,
      and_true]
  | rehydrate head =>
    simp only [handleMessage, applyRehydrate, Unmarks, not_false_eq_true, and_true]
    split_ifs
    · rfl
    · rw [finishRehydration_ids]
  | accepted message =>
    simp only [handleMessage, applyAccepted_ids, Unmarks, hsocket, List.mem_filter,
      decide_eq_true_eq, ne_eq, not_false_eq_true, true_and]
    exact and_congr_right fun _ => not_congr eq_comm
  | receipt message =>
    simp only [handleMessage, writeSends_ids, mem_applyReceipt_ids, Unmarks, hsocket, ne_eq,
      not_false_eq_true, true_and]
  | rejected message =>
    simp only [handleMessage, applyRejected_ids, Unmarks, hsocket, List.mem_filter,
      decide_eq_true_eq, ne_eq, not_false_eq_true, true_and]
    exact and_congr_right fun _ => not_congr eq_comm

/-- What an event does to the mark of an id. -/
theorem handle_marked (commandId : String) (event : Event D) :
    (session.handle replay throws event).1.marked commandId ↔ Marks commandId session event ∨
      (session.marked commandId ∧ ¬ Unmarks commandId session event) := by
  cases event with
  | submitCommands id commands =>
    simp only [Session.handle, submitCommands, Session.marked, Marks, Unmarks]
    split_ifs with hready
    · rw [writeSends_ids, mem_submit_ids]
      simp only [hready, true_and]
    · simp [hready]
  | message message =>
    simp only [Session.handle, Marks, false_or]
    cases hsocket : session.socket with
    | none =>
      refine (and_iff_left ?_).symm
      cases message <;> simp [Unmarks, hsocket]
    | some socket => exact handleMessage_marked throws session replay commandId (by simp [hsocket])
  | replaceHead head =>
    simp only [Session.handle, Session.marked, replaceHead_ids, Marks, Unmarks, false_or,
      not_false_eq_true, and_true]
  | reconcileCheckpointHead checkpoint expected =>
    simp only [Session.handle, Marks, Unmarks, false_or, not_false_eq_true, and_true]
    split
    · rfl
    · rename_i outcome houtcome
      unfold Session.marked
      rw [reconcileCheckpointHead_ids throws session houtcome]
  | openSocket =>
    simp only [Session.handle, openSocket, Marks, Unmarks, false_or, not_false_eq_true, and_true]
    split_ifs <;> rfl
  | setSocket state => simp [Session.handle, setSocket, Session.marked, Marks, Unmarks]
  | socketError => simp [Session.handle, socketError, Session.marked, Marks, Unmarks]
  | recoverTraffic =>
    simp only [Session.handle, recoverTraffic, interruptInFlight, Session.marked, Marks, Unmarks,
      false_or, not_false_eq_true, and_true]
    split <;> rfl
  | stopTraffic reason =>
    simp [Session.handle, stopTraffic, rejectAll, Session.marked, Marks, Unmarks]
  | retry =>
    simp only [Session.handle, retry, openSocket, Session.marked, Marks, Unmarks, false_or,
      not_false_eq_true, and_true]
    split_ifs <;> rfl
  | disconnect =>
    simp [Session.handle, disconnect, clearLocalCommands, Session.marked, Marks, Unmarks]

end Sessions

section Reports

variable {D : Type} (replay : Head D → List ProjectCommand → ℕ → Option (Head D))

/-- What the listener is told of an accepted message: whether it is local, when
the message advances the head. -/
def acceptedReport (message : AcceptedMessage) (session : Session D) : Option Bool :=
  match session.head with
  | none => none
  | some head =>
    if message.roomEpoch ≠ head.roomEpoch then none
    else if message.sequence ≤ head.collaborationSequence then none
    else if message.sequence ≠ head.collaborationSequence + 1 then none
    else
      match replay head message.commands message.sequence with
      | none => none
      | some _ => some (recordAccepted message session.outbox).2

/-- The listener is told when the batch is replayed on the head, and whether the
id is marked. -/
theorem acceptedReport_some {message : AcceptedMessage} {session : Session D} {isLocal : Bool}
    (h : acceptedReport replay message session = some isLocal) (throws : Throws) :
    (isLocal = true ↔ session.marked message.commandId) ∧ ∃ head next, session.head = some head ∧
      message.sequence = head.collaborationSequence + 1 ∧
      replay head message.commands message.sequence = some next ∧
      (applyAccepted throws replay message session).1.head = some next := by
  unfold acceptedReport at h
  unfold applyAccepted
  cases hhead : session.head with
  | none => simp [hhead] at h
  | some head =>
    simp only [hhead] at h
    split_ifs at h with hepoch hold hgap
    simp only [hepoch, hold, hgap, if_false]
    cases hnext : replay head message.commands message.sequence with
    | none => simp [hnext] at h
    | some next =>
      obtain rfl : (recordAccepted message session.outbox).2 = isLocal := by simpa [hnext] using h
      exact ⟨decide_eq_true_iff, head, next, rfl, not_not.mp hgap, hnext, writeSends_head _ _ _⟩

/-- An event beside what the transport throws at its frames. -/
def Session.run (session : Session D) (turn : Throws × Event D) : Session D :=
  (session.handle replay turn.1 turn.2).1

def Session.after (turns : List (Throws × Event D)) : Session D :=
  turns.foldl (Session.run replay) .initial

/-- The last batch queued under the id, with nothing since that uses up its mark. -/
def Unclaimed (commandId : String) (turns : List (Throws × Event D)) : Prop :=
  ∃ before turn since, turns = before ++ turn :: since ∧
    Marks commandId (Session.after replay before) turn.2 ∧
    Undisturbed (Session.run replay) (fun session turn => Unmarks commandId session turn.2)
      (Session.after replay (before ++ [turn])) since

theorem marked_after_iff (commandId : String) (turns : List (Throws × Event D)) :
    (Session.after replay turns).marked commandId ↔ Unclaimed replay commandId turns := by
  have hinitial : ¬ (Session.initial : Session D).marked commandId := by
    simp [Session.marked, Session.initial, Outbox.empty]
  exact flag_foldl_iff (fun session => session.marked commandId)
    (fun session turn => handle_marked turn.1 session replay commandId turn.2) hinitial turns

/-- After any run, an accepted message that advances the head is reported as
local just when its batch is this client's and its mark has not been used up;
a message for an id that was never submitted here is never local. -/
theorem reported_local_iff (turns : List (Throws × Event D)) (message : AcceptedMessage) :
    (∀ isLocal, acceptedReport replay message (Session.after replay turns) = some isLocal →
      (isLocal = true ↔ Unclaimed replay message.commandId turns)) ∧
    ((∀ turn ∈ turns, ∀ commands, turn.2 ≠ .submitCommands message.commandId commands) →
      (recordAccepted message (Session.after replay turns).outbox).2 = false) := by
  constructor
  · intro isLocal hreport
    rw [← marked_after_iff]
    exact (acceptedReport_some replay hreport (fun _ => none)).1
  · intro hnever
    refine decide_eq_false fun hmarked => ?_
    obtain ⟨before, ⟨throws, event⟩, since, rfl, hmarks, -⟩ :=
      (marked_after_iff replay _ turns).mp hmarked
    cases event with
    | submitCommands id commands =>
      obtain ⟨-, rfl, -⟩ := hmarks
      exact hnever (throws, .submitCommands message.commandId commands)
        (List.mem_append_right _ (List.mem_cons_self ..)) commands rfl
    | _ => exact hmarks

/-- A batch that is sent, interrupted and replayed before it is accepted. -/
def replayedRun : List (Throws × Event ℕ) :=
  [calm .openSocket, calm (.setSocket .opened), calm (.message (.ready (countHead "a" 0 0) true)),
    calm (.submitCommands "first" firstBatch.commands), calm .recoverTraffic, calm .openSocket,
    calm (.setSocket .opened), calm (.message (.ready (countHead "a" 0 0) true))]

/-- The replayed batch is reported as local. -/
theorem replayed_reported_local :
    acceptedReport countCommandsOnHead firstBatch (Session.after countCommandsOnHead replayedRun) =
      some true ∧ Unclaimed countCommandsOnHead "first" replayedRun := by
  have hreport : acceptedReport countCommandsOnHead firstBatch
      (Session.after countCommandsOnHead replayedRun) = some true := by decide
  exact ⟨hreport, ((reported_local_iff countCommandsOnHead replayedRun firstBatch).1 true
    hreport).mp rfl⟩

/-- The receipt comes before the accepted message. -/
def receiptFirst : List (Throws × Event ℕ) :=
  [calm .openSocket, calm (.setSocket .opened), calm (.message (.ready (countHead "a" 0 0) true)),
    calm (.submitCommands "first" firstBatch.commands),
    calm (.message (.receipt ⟨"first", "a", 1, false⟩))]

/-- A batch of this client that advances the head, and is reported as foreign. -/
theorem receipt_first_not_local : ¬ ∀ (turns : List (Throws × Event ℕ)) (message : AcceptedMessage)
    (isLocal : Bool), (∃ before turn since, turns = before ++ turn :: since ∧
        Marks message.commandId (Session.after countCommandsOnHead before) turn.2) →
      acceptedReport countCommandsOnHead message (Session.after countCommandsOnHead turns) =
        some isLocal → isLocal = true := by
  intro h
  have hmarks : Marks "first" (Session.after countCommandsOnHead (receiptFirst.take 3))
      (.submitCommands "first" firstBatch.commands : Event ℕ) := ⟨by decide, rfl, by decide⟩
  exact absurd (h receiptFirst firstBatch false ⟨receiptFirst.take 3, _, _, rfl, hmarks⟩
    (by decide)) (by decide)

end Reports

end Grafy.RoomSession
