import Grafy.CommandOutbox

/-!
Every batch handed to the outbox is queued, in flight or settled, and only one
of these, whatever messages arrive and whatever the head is. The calls are made
of a few moves: a batch is added or refused, dropped from the queue, sent, put
back, or settled while it is in flight. The batches held are in the order of
their submission, and only the foremost of them may have been sent.
-/
namespace Grafy.CommandOutbox

open Commands

/-- The calls a driver may make, in any order. -/
inductive Call
  | submit (commandId : String) (commands : List ProjectCommand)
  | recordAccepted (message : AcceptedMessage)
  | applyReceipt (message : ReceiptMessage)
  | applyRejected (message : RejectedMessage)
  | afterHeadApplied
  | finishHeadRehydration
  | requestHeadRefresh
  | interruptInFlight
  | sendFailed (commandId : String) (error : Option CommandError)
  | rejectAll (error : CommandError)
  | clearLocalCommands

def Call.reply (head : Option HeadPointer) (canSend : Bool) (outbox : Outbox) : Call → Reply
  | .submit commandId commands => CommandOutbox.submit head canSend commandId commands outbox
  | .recordAccepted message => ((CommandOutbox.recordAccepted message outbox).1, [])
  | .applyReceipt message => CommandOutbox.applyReceipt head canSend message outbox
  | .applyRejected message => CommandOutbox.applyRejected message outbox
  | .afterHeadApplied => CommandOutbox.afterHeadApplied head canSend outbox
  | .finishHeadRehydration => CommandOutbox.finishHeadRehydration head canSend outbox
  | .requestHeadRefresh => CommandOutbox.requestHeadRefresh outbox
  | .interruptInFlight => CommandOutbox.interruptInFlight outbox
  | .sendFailed commandId error => CommandOutbox.sendFailed commandId error outbox
  | .rejectAll error => CommandOutbox.rejectAll error outbox
  | .clearLocalCommands => (CommandOutbox.clearLocalCommands outbox, [])

/-- An outbox with all it has done so far, each effect beside the head there was. -/
structure Ledger where
  outbox : Outbox
  log : List (Option HeadPointer × Effect)

def Ledger.start : Ledger := ⟨.empty, []⟩

/-- A call beside the head and the gate it finds. -/
structure Turn where
  head : Option HeadPointer
  canSend : Bool
  call : Call

def Ledger.write (ledger : Ledger) (head : Option HeadPointer) (reply : Reply) : Ledger :=
  ⟨reply.1, ledger.log ++ reply.2.map (fun effect => (head, effect))⟩

def Ledger.take (ledger : Ledger) (turn : Turn) : Ledger :=
  ledger.write turn.head (turn.call.reply turn.head turn.canSend ledger.outbox)

/-- The batches held, the one in flight first. -/
def Outbox.held (outbox : Outbox) : List QueuedCommand := outbox.inFlight.toList ++ outbox.queue

def settledBatch : Option HeadPointer × Effect → Option ℕ
  | (_, .settle batch _) => some batch
  | _ => none

def sentFrame : Option HeadPointer × Effect → Option (ℕ × SubmitMessage)
  | (_, .send batch message) => some (batch, message)
  | _ => none

/-- The batches that have been settled, once for each time. -/
def Ledger.settled (ledger : Ledger) : List ℕ := ledger.log.filterMap settledBatch

/-- The frames that have been sent, with their batches. -/
def Ledger.sends (ledger : Ledger) : List (ℕ × SubmitMessage) := ledger.log.filterMap sentFrame

/-- The batches are held or settled, each in one place and once. A first send
comes after every earlier first send of a batch submitted before, every resend
repeats the frame, and a batch resolves under a head that reflects its receipt. -/
structure Accounted (ledger : Ledger) : Prop where
  partition : (ledger.outbox.held.map QueuedCommand.batch ++ ledger.settled).Perm
    (List.range ledger.outbox.submitted)
  capacity : ledger.outbox.held.length ≤ roomCommandQueueCap
  inOrder : ∀ before after batch message, ledger.sends = before ++ (batch, message) :: after →
    (∀ entry ∈ before, entry.1 ≠ batch) → ∀ entry ∈ before, entry.1 < batch
  repeated : ∀ batch message message', (batch, message) ∈ ledger.sends →
    (batch, message') ∈ ledger.sends → message' = message
  covered : ∀ head batch receipt accepted, (head, .settle batch (.resolved receipt accepted)) ∈
    ledger.log → ∃ pointer, head = some pointer ∧ pointer.roomEpoch = receipt.currentRoomEpoch ∧
      receipt.currentSequence ≤ pointer.collaborationSequence

section Moves

/-- All of a batch but the messages it has been answered with. -/
def QueuedCommand.core (item : QueuedCommand) : QueuedCommand :=
  { item with accepted := none, receipt := none }

def Effect.isQuiet : Effect → Bool
  | .send _ _ => false
  | .settle _ _ => false
  | _ => true

inductive Move : Ledger → Ledger → Prop
  | note {outbox outbox' : Outbox} {log : List (Option HeadPointer × Effect)}
      {effects : List (Option HeadPointer × Effect)}
        (hsubmitted : outbox'.submitted = outbox.submitted)
      (hqueue : outbox'.queue = outbox.queue)
      (hinFlight : outbox'.inFlight.map QueuedCommand.core = outbox.inFlight.map QueuedCommand.core)
      (hquiet : ∀ entry ∈ effects, entry.2.isQuiet = true) :
      Move ⟨outbox, log⟩ ⟨outbox', log ++ effects⟩
  | add {outbox : Outbox} {log : List (Option HeadPointer × Effect)} (commandId : String)
      (commands : List ProjectCommand)
      (h : outbox.queue.length + outbox.inFlight.toList.length < roomCommandQueueCap) :
      Move ⟨outbox, log⟩ ⟨{ outbox with submitted := outbox.submitted + 1
                                        queue := outbox.queue ++ [⟨outbox.submitted, commandId,
                                          commands, false, none, none, none, none⟩] }, log⟩
  | refuse {outbox : Outbox} {log : List (Option HeadPointer × Effect)} (head : Option HeadPointer)
      (error : CommandError) :
      Move ⟨outbox, log⟩ ⟨{ outbox with submitted := outbox.submitted + 1 },
        log ++ [(head, .settle outbox.submitted (.rejected error))]⟩
  | drop {outbox : Outbox} {log : List (Option HeadPointer × Effect)} (head : Option HeadPointer)
      {before after : List QueuedCommand} {item : QueuedCommand} (error : CommandError)
      (h : outbox.queue = before ++ item :: after) :
      Move ⟨outbox, log⟩ ⟨{ outbox with queue := before ++ after },
        log ++ [(head, .settle item.batch (.rejected error))]⟩
  | settle {outbox : Outbox} {log : List (Option HeadPointer × Effect)} (head : Option HeadPointer)
      {item : QueuedCommand} {settlement : Settlement} (h : outbox.inFlight = some item)
      (hcovers : ∀ receipt accepted, settlement = .resolved receipt accepted →
        headCoversReceipt head receipt = true) :
      Move ⟨outbox, log⟩ ⟨{ outbox with inFlight := none },
        log ++ [(head, .settle item.batch settlement)]⟩
  | interrupt {outbox : Outbox} {log : List (Option HeadPointer × Effect)} {item : QueuedCommand}
      (h : outbox.inFlight = some item) :
      Move ⟨outbox, log⟩ ⟨{ outbox with inFlight := none, queue := item :: outbox.queue }, log⟩
  | send {outbox : Outbox} {log : List (Option HeadPointer × Effect)} (head : HeadPointer)
      {item : QueuedCommand} {rest : List QueuedCommand} (hfree : outbox.inFlight = none)
      (h : outbox.queue = item :: rest) :
      Move ⟨outbox, log⟩ ⟨{ outbox with queue := rest, inFlight := some (item.stamped head) },
        log ++ [(some head, .send item.batch (item.message head))]⟩

abbrev Moves := Relation.ReflTransGen Move

end Moves

variable {outbox' : Outbox}

section Invariant

/-- The batches held are in the order of their submission; only the first may
have been sent, and it is known by the frame it was sent with. -/
structure Kept (ledger : Ledger) : Prop where
  accounted : Accounted ledger
  sorted : (ledger.outbox.held.map QueuedCommand.batch).Pairwise (· < ·)
  first : ∀ item ∈ ledger.outbox.held.tail, item.sent = false
  stamped : ∀ item ∈ ledger.outbox.held, item.sent = true → ∃ epoch sequence,
    item.roomEpoch = some epoch ∧ item.observedSequence = some sequence ∧
      (item.batch, ⟨item.commandId, epoch, sequence, item.commands⟩) ∈ ledger.sends
  unsent : ∀ item ∈ ledger.outbox.held, item.sent = false → item.roomEpoch = none ∧
    item.observedSequence = none ∧ ∀ entry ∈ ledger.sends, entry.1 < item.batch
  known : ∀ entry ∈ ledger.sends, entry.1 < ledger.outbox.submitted

theorem Kept.start : Kept .start :=
  ⟨⟨by simp [Ledger.start, Outbox.empty, Outbox.held, Ledger.settled],
    by simp [Ledger.start, Outbox.empty, Outbox.held],
    by simp [Ledger.start, Ledger.sends], by simp [Ledger.start, Ledger.sends],
    by simp [Ledger.start]⟩,
    by simp [Ledger.start, Outbox.empty, Outbox.held],
    by simp [Ledger.start, Outbox.empty, Outbox.held],
    by simp [Ledger.start, Outbox.empty, Outbox.held],
    by simp [Ledger.start, Outbox.empty, Outbox.held], by simp [Ledger.start, Ledger.sends]⟩

variable {item : QueuedCommand}

theorem core_eq {item' : QueuedCommand} (h : item'.core = item.core) :
    item'.batch = item.batch ∧ item'.commandId = item.commandId ∧ item'.commands = item.commands ∧
      item'.sent = item.sent ∧ item'.roomEpoch = item.roomEpoch ∧
      item'.observedSequence = item.observedSequence := by
  simpa [QueuedCommand.core] using h

variable {ledger ledger' : Ledger}

/-- What is held becomes less and nothing is sent. -/
theorem Kept.shrink (h : Kept ledger) (hheld : (ledger'.outbox.held.map QueuedCommand.core).Sublist
      (ledger.outbox.held.map QueuedCommand.core)) (hsends : ledger'.sends = ledger.sends)
    (hsubmitted : ledger.outbox.submitted ≤ ledger'.outbox.submitted)
    (hpartition : (ledger'.outbox.held.map QueuedCommand.batch ++ ledger'.settled).Perm
      (List.range ledger'.outbox.submitted))
    (hcovered : ∀ head batch receipt accepted, (head, .settle batch (.resolved receipt accepted)) ∈
      ledger'.log → ∃ pointer, head = some pointer ∧ pointer.roomEpoch = receipt.currentRoomEpoch ∧
        receipt.currentSequence ≤ pointer.collaborationSequence) : Kept ledger' := by
  have hmem : ∀ item ∈ ledger'.outbox.held, ∃ item' ∈ ledger.outbox.held, item'.core =
    item.core := by
    intro item hitem
    exact List.mem_map.mp (hheld.subset (List.mem_map_of_mem (f := QueuedCommand.core) hitem))
  have htail : ∀ item ∈ ledger'.outbox.held.tail, ∃ item' ∈ ledger.outbox.held.tail,
      item'.core = item.core := by
    intro item hitem
    have hcore := List.mem_map_of_mem (f := QueuedCommand.core) hitem
    rw [List.map_tail] at hcore
    have hcore' := hheld.tail.subset hcore
    rw [← List.map_tail] at hcore'
    exact List.mem_map.mp hcore'
  have hlength : ledger'.outbox.held.length ≤ ledger.outbox.held.length := by
    simpa using hheld.length_le
  have hbatches : (ledger'.outbox.held.map QueuedCommand.batch).Sublist
      (ledger.outbox.held.map QueuedCommand.batch) := by
    have := hheld.map QueuedCommand.batch
    simpa [List.map_map, Function.comp_def, QueuedCommand.core] using this
  obtain ⟨haccounted, hsorted, hfirst, hstamped, hunsent, hknown⟩ := h
  refine ⟨⟨hpartition, hlength.trans haccounted.capacity, ?_, ?_, hcovered⟩,
    hsorted.sublist hbatches, ?_, ?_, ?_, ?_⟩
  · rw [hsends]
    exact haccounted.inOrder
  · rw [hsends]
    exact haccounted.repeated
  · intro item hitem
    obtain ⟨item', hitem', hcore⟩ := htail item hitem
    obtain ⟨-, -, -, hsent, -, -⟩ := core_eq hcore
    rw [← hsent]
    exact hfirst item' hitem'
  · intro item hitem hsent
    obtain ⟨item', hitem', hcore⟩ := hmem item hitem
    obtain ⟨hbatch, hid, hcommands, hsame, hepoch, hsequence⟩ := core_eq hcore
    rw [hsends, ← hbatch, ← hid, ← hcommands, ← hepoch, ← hsequence]
    exact hstamped item' hitem' (hsame.trans hsent)
  · intro item hitem hsent
    obtain ⟨item', hitem', hcore⟩ := hmem item hitem
    obtain ⟨hbatch, -, -, hsame, hepoch, hsequence⟩ := core_eq hcore
    rw [hsends, ← hbatch, ← hepoch, ← hsequence]
    exact hunsent item' hitem' (hsame.trans hsent)
  · rw [hsends]
    exact fun entry hentry => (hknown entry hentry).trans_le hsubmitted

variable {outbox : Outbox} {log effects : List (Option HeadPointer × Effect)}
  {settlement : Settlement}

theorem sends_append (outbox outbox' : Outbox) (log effects : List (Option HeadPointer × Effect)) :
    Ledger.sends ⟨outbox', log ++ effects⟩ = Ledger.sends
      ⟨outbox, log⟩ ++ effects.filterMap sentFrame :=
  List.filterMap_append

theorem settled_append (outbox outbox' : Outbox)
    (log effects : List (Option HeadPointer × Effect)) :
    Ledger.settled ⟨outbox', log ++ effects⟩ =
      Ledger.settled ⟨outbox, log⟩ ++ effects.filterMap settledBatch :=
  List.filterMap_append

theorem quiet_frames (h : ∀ entry ∈ effects, entry.2.isQuiet = true) :
    effects.filterMap sentFrame = [] ∧ effects.filterMap settledBatch = [] := by
  constructor
  · refine List.filterMap_eq_nil_iff.mpr ?_
    rintro ⟨head, effect⟩ hmem
    cases effect <;> first | rfl | simpa [Effect.isQuiet] using h _ hmem
  · refine List.filterMap_eq_nil_iff.mpr ?_
    rintro ⟨head, effect⟩ hmem
    cases effect <;> first | rfl | simpa [Effect.isQuiet] using h _ hmem

/-- A settlement that is added keeps to the head there is. -/
theorem Kept.covered_settle (h : Kept ⟨outbox, log⟩) {head : Option HeadPointer} {batch : ℕ}
    (hcovers : ∀ receipt accepted, settlement = .resolved receipt accepted → headCoversReceipt head
      receipt = true) :
    ∀ head' batch' receipt accepted, (head', .settle batch' (.resolved receipt accepted)) ∈
      log ++ [(head, .settle batch settlement)] → ∃ pointer, head' = some pointer ∧
        pointer.roomEpoch = receipt.currentRoomEpoch ∧
        receipt.currentSequence ≤ pointer.collaborationSequence := by
  intro head' batch' receipt accepted hmem
  rcases List.mem_append.mp hmem with hmem | hmem
  · exact h.accounted.covered head' batch' receipt accepted hmem
  · obtain ⟨rfl, heq⟩ := Prod.mk.inj (List.mem_singleton.mp hmem)
    obtain ⟨-, rfl⟩ : batch' = batch ∧ Settlement.resolved receipt accepted = settlement := by
      simpa using heq
    have hcovered := hcovers receipt accepted rfl
    cases head' with
    | none => simp [headCoversReceipt] at hcovered
    | some pointer => exact ⟨pointer, rfl, by simpa [headCoversReceipt] using hcovered⟩

theorem Kept.note (h : Kept ⟨outbox, log⟩) (hsubmitted : outbox'.submitted = outbox.submitted)
    (hqueue : outbox'.queue = outbox.queue)
    (hinFlight : outbox'.inFlight.map QueuedCommand.core = outbox.inFlight.map QueuedCommand.core)
    (hquiet : ∀ entry ∈ effects, entry.2.isQuiet = true) : Kept ⟨outbox', log ++ effects⟩ := by
  obtain ⟨hframes, hbatches⟩ := quiet_frames hquiet
  have hcores : outbox'.held.map QueuedCommand.core = outbox.held.map QueuedCommand.core := by
    unfold Outbox.held
    rw [List.map_append, List.map_append, hqueue, ← Option.toList_map, ← Option.toList_map,
      hinFlight]
  have hheld : outbox'.held.map QueuedCommand.batch = outbox.held.map QueuedCommand.batch := by
    have hmapped := congrArg (List.map QueuedCommand.batch) hcores
    simpa [List.map_map, Function.comp_def, QueuedCommand.core] using hmapped
  refine h.shrink ?_ ?_ hsubmitted.ge ?_ ?_
  · exact hcores ▸ List.Sublist.refl _
  · rw [sends_append outbox outbox', hframes, List.append_nil]
  · rw [settled_append outbox outbox', hbatches, List.append_nil, hsubmitted]
    change (outbox'.held.map QueuedCommand.batch ++ _).Perm _
    rw [hheld]
    exact h.accounted.partition
  · intro head batch receipt accepted hmem
    rcases List.mem_append.mp hmem with hmem | hmem
    · exact h.accounted.covered head batch receipt accepted hmem
    · simpa [Effect.isQuiet] using hquiet _ hmem

/-- A batch that is taken out of what is held and settled. -/
theorem Kept.remove (h : Kept ⟨outbox, log⟩) {before after : List QueuedCommand}
    (hheld : outbox.held = before ++ item :: after) (hheld' : outbox'.held = before ++ after)
    (hsubmitted : outbox'.submitted = outbox.submitted) (head : Option HeadPointer)
    (hcovers : ∀ receipt accepted, settlement = .resolved receipt accepted → headCoversReceipt head
      receipt = true) :
    Kept ⟨outbox', log ++ [(head, .settle item.batch settlement)]⟩ := by
  refine h.shrink ?_ ?_ hsubmitted.ge ?_ (h.covered_settle hcovers)
  · change (outbox'.held.map QueuedCommand.core).Sublist (outbox.held.map QueuedCommand.core)
    rw [hheld, hheld']
    exact ((List.Sublist.refl before).append (List.sublist_cons_self item after)).map _
  · rw [sends_append outbox outbox']
    simp [sentFrame]
  · rw [settled_append outbox outbox']
    have hpartition : (outbox.held.map QueuedCommand.batch ++ Ledger.settled ⟨outbox, log⟩).Perm
        (List.range outbox.submitted) := h.accounted.partition
    change (outbox'.held.map QueuedCommand.batch ++ _).Perm (List.range outbox'.submitted)
    rw [hsubmitted, hheld', List.map_append]
    refine List.Perm.trans ?_ hpartition
    rw [hheld, List.map_append, List.map_cons]
    simp only [List.filterMap_cons, List.filterMap_nil, settledBatch, List.append_assoc,
      List.cons_append]
    refine List.Perm.append_left _ ?_
    rw [← List.append_assoc]
    exact List.perm_append_singleton _ _

theorem Kept.batch_lt (h : Kept ledger) : ∀ item ∈ ledger.outbox.held,
    item.batch < ledger.outbox.submitted := by
  intro item hitem
  have hmem : item.batch ∈ ledger.outbox.held.map QueuedCommand.batch ++ ledger.settled :=
    List.mem_append_left _ (List.mem_map_of_mem hitem)
  exact List.mem_range.mp (h.accounted.partition.mem_iff.mp hmem)

theorem Kept.refuse (h : Kept ⟨outbox, log⟩) (head : Option HeadPointer) (error : CommandError) :
    Kept ⟨{ outbox with submitted := outbox.submitted + 1 },
      log ++ [(head, .settle outbox.submitted (.rejected error))]⟩ := by
  refine h.shrink (List.Sublist.refl _) ?_ (Nat.le_succ _) ?_ (h.covered_settle (by simp))
  · rw [sends_append outbox]
    simp [sentFrame]
  · rw [settled_append outbox]
    simp only [List.filterMap_cons, List.filterMap_nil, settledBatch, List.range_succ]
    rw [← List.append_assoc]
    exact h.accounted.partition.append_right _

/-- A new batch is held after all others and has not been sent. -/
theorem Kept.add (h : Kept ⟨outbox, log⟩) (hheld : outbox'.held = outbox.held ++ [item])
    (hsubmitted : outbox'.submitted = outbox.submitted + 1) (hbatch : item.batch = outbox.submitted)
    (hnew : item.sent = false ∧ item.roomEpoch = none ∧ item.observedSequence = none)
    (hroom : outbox.held.length < roomCommandQueueCap) : Kept ⟨outbox', log⟩ := by
  have hlt := h.batch_lt
  obtain ⟨⟨hpartition, hcapacity, hinOrder, hrepeated, hcovered⟩, hsorted, hfirst, hstamped,
    hunsent, hknown⟩ := h
  refine ⟨⟨?_, ?_, hinOrder, hrepeated, hcovered⟩, ?_, ?_, ?_, ?_, ?_⟩
  · change (outbox'.held.map QueuedCommand.batch ++ Ledger.settled ⟨outbox, log⟩).Perm
      (List.range outbox'.submitted)
    rw [hheld, hsubmitted, List.range_succ, List.map_append, List.append_assoc]
    have hmoved : ([item.batch] ++ Ledger.settled ⟨outbox, log⟩).Perm
        (Ledger.settled ⟨outbox, log⟩ ++ [item.batch]) := List.perm_append_comm
    refine (hmoved.append_left _).trans ?_
    rw [← List.append_assoc, hbatch]
    exact hpartition.append_right _
  · change outbox'.held.length ≤ _
    rw [hheld, List.length_append]
    exact hroom
  · change (outbox'.held.map QueuedCommand.batch).Pairwise _
    rw [hheld, List.map_append]
    refine List.pairwise_append.mpr ⟨hsorted, by simp, ?_⟩
    intro batch hmem other hother
    obtain ⟨held, hin, rfl⟩ := List.mem_map.mp hmem
    obtain rfl : other = item.batch := by simpa using hother
    rw [hbatch]
    exact hlt held hin
  · intro held hin
    change held ∈ outbox'.held.tail at hin
    rw [hheld] at hin
    cases hempty : outbox.held with
    | nil => simp [hempty] at hin
    | cons head rest =>
      rw [hempty, List.cons_append, List.tail_cons] at hin
      rcases mem_snoc.mp hin with hin | rfl
      · refine hfirst held ?_
        change held ∈ outbox.held.tail
        rw [hempty]
        exact hin
      · exact hnew.1
  · intro held hin hsent
    change held ∈ outbox'.held at hin
    rw [hheld] at hin
    rcases mem_snoc.mp hin with hin | rfl
    · exact hstamped held hin hsent
    · rw [hnew.1] at hsent
      simp at hsent
  · intro held hin hsent
    change held ∈ outbox'.held at hin
    rw [hheld] at hin
    rcases mem_snoc.mp hin with hin | rfl
    · exact hunsent held hin hsent
    · rw [hbatch]
      exact ⟨hnew.2.1, hnew.2.2, hknown⟩
  · intro entry hentry
    change entry.1 < outbox'.submitted
    rw [hsubmitted]
    exact (hknown entry hentry).trans (Nat.lt_succ_self _)

/-- A batch that has been sent has been sent with the frame it is sent with. -/
theorem Kept.message_mem (h : Kept ledger) (hitem : item ∈ ledger.outbox.held)
    (hsent : item.sent = true) (head : HeadPointer) :
    (item.batch, item.message head) ∈ ledger.sends := by
  obtain ⟨epoch, sequence, hepoch, hsequence, hmem⟩ := h.stamped item hitem hsent
  rw [QueuedCommand.message, hepoch, hsequence]
  exact hmem

theorem Kept.send (h : Kept ⟨outbox, log⟩) {rest : List QueuedCommand} (head : HeadPointer)
    (hheld : outbox.held = item :: rest) (hheld' : outbox'.held = item.stamped head :: rest)
    (hsubmitted : outbox'.submitted = outbox.submitted) :
    Kept ⟨outbox', log ++ [(some head, .send item.batch (item.message head))]⟩ := by
  have hitem : item ∈ outbox.held := by simp [hheld]
  have hlt := h.batch_lt item hitem
  have hresent := fun hsent => h.message_mem hitem hsent head
  have hsends : Ledger.sends ⟨outbox', log ++ [(some head, .send item.batch (item.message head))]⟩ =
      Ledger.sends ⟨outbox, log⟩ ++ [(item.batch, item.message head)] := by
    rw [sends_append outbox outbox']
    rfl
  have hsettled :
    Ledger.settled ⟨outbox', log ++ [(some head, .send item.batch (item.message head))]⟩ =
      Ledger.settled ⟨outbox, log⟩ := by
    rw [settled_append outbox outbox']
    simp [settledBatch]
  obtain ⟨⟨hpartition, hcapacity, hinOrder, hrepeated, hcovered⟩, hsorted, hfirst, hstamped,
    hunsent, hknown⟩ := h
  have hbatches : outbox'.held.map QueuedCommand.batch = outbox.held.map QueuedCommand.batch := by
    rw [hheld, hheld']
    rfl
  have hrest : ∀ other ∈ rest, item.batch < other.batch ∧ other.sent = false := by
    intro other hother
    have hpairs : (outbox.held.map QueuedCommand.batch).Pairwise (· < ·) := hsorted
    rw [hheld, List.map_cons, List.pairwise_cons] at hpairs
    refine ⟨hpairs.1 _ (List.mem_map_of_mem hother), hfirst other ?_⟩
    change other ∈ outbox.held.tail
    rw [hheld]
    exact hother
  -- whatever was sent of this batch before is the frame it is sent with now
  have hsame : ∀ message, (item.batch, message) ∈ Ledger.sends ⟨outbox, log⟩ →
      message = item.message head := by
    intro message hmem
    cases hsent : item.sent with
    | true => exact hrepeated item.batch _ _ (hresent hsent) hmem
    | false => exact absurd ((hunsent item hitem hsent).2.2 _ hmem) (lt_irrefl _)
  refine ⟨⟨?_, ?_, ?_, ?_, ?_⟩, ?_, ?_, ?_, ?_, ?_⟩
  · rw [hsettled]
    change (outbox'.held.map QueuedCommand.batch ++ _).Perm (List.range outbox'.submitted)
    rw [hbatches, hsubmitted]
    exact hpartition
  · change outbox'.held.length ≤ _
    have hlength := congrArg List.length hbatches
    rw [List.length_map, List.length_map] at hlength
    rw [hlength]
    exact hcapacity
  · intro before after batch message heq hnew
    rw [hsends] at heq
    rcases List.eq_nil_or_concat after with rfl | ⟨after, last, rfl⟩
    · obtain ⟨rfl, hlast⟩ := List.append_inj' heq rfl
      obtain ⟨rfl, rfl⟩ : item.batch = batch ∧ item.message head = message := by simpa using hlast
      cases hsent : item.sent with
      | true => exact absurd rfl (hnew _ (hresent hsent))
      | false => exact (hunsent item hitem hsent).2.2
    · rw [List.concat_eq_append, ← List.cons_append, ← List.append_assoc] at heq
      exact hinOrder before after batch message (List.append_inj' heq rfl).1 hnew
  · intro batch message message' hmem hmem'
    rw [hsends] at hmem hmem'
    have heither : ∀ m, (batch, m) ∈ Ledger.sends ⟨outbox, log⟩ ++
      [(item.batch, item.message head)] →
        (batch, m) ∈ Ledger.sends ⟨outbox, log⟩ ∨ batch = item.batch ∧ m = item.message head := by
      intro m hm
      simpa using hm
    rcases heither message hmem with hold | ⟨rfl, rfl⟩
    · rcases heither message' hmem' with hold' | ⟨rfl, rfl⟩
      · exact hrepeated batch message message' hold hold'
      · exact (hsame message hold).symm
    · rcases heither message' hmem' with hold' | ⟨-, rfl⟩
      · exact hsame message' hold'
      · rfl
  · intro head' batch receipt accepted hmem
    refine hcovered head' batch receipt accepted ((List.mem_append.mp hmem).resolve_right ?_)
    simp
  · change (outbox'.held.map QueuedCommand.batch).Pairwise _
    rw [hbatches]
    exact hsorted
  · intro other hother
    change other ∈ outbox'.held.tail at hother
    rw [hheld'] at hother
    exact (hrest other hother).2
  · intro other hother hsent
    change other ∈ outbox'.held at hother
    rw [hheld'] at hother
    rcases List.mem_cons.mp hother with rfl | hother
    · refine ⟨_, _, rfl, rfl, ?_⟩
      rw [hsends]
      exact List.mem_append_right _ (List.mem_singleton_self _)
    · simp [(hrest other hother).2] at hsent
  · intro other hother hsent
    change other ∈ outbox'.held at hother
    rw [hheld'] at hother
    rcases List.mem_cons.mp hother with rfl | hother
    · simp [QueuedCommand.stamped] at hsent
    · obtain ⟨hepoch, hsequence, hless⟩ :=
        hunsent other (hheld ▸ List.mem_cons_of_mem _ hother) hsent
      refine ⟨hepoch, hsequence, ?_⟩
      rw [hsends]
      exact List.forall_mem_append.mpr ⟨hless, by simpa using (hrest other hother).1⟩
  · rw [hsends]
    refine List.forall_mem_append.mpr ⟨?_, ?_⟩
    · change ∀ entry ∈ _, _ < outbox'.submitted
      rw [hsubmitted]
      exact hknown
    · change ∀ entry ∈ _, _ < outbox'.submitted
      rw [hsubmitted]
      simpa using hlt

theorem Move.kept (hmove : Move ledger ledger') (h : Kept ledger) : Kept ledger' := by
  cases hmove with
  | note hsubmitted hqueue hinFlight hquiet => exact h.note hsubmitted hqueue hinFlight hquiet
  | add commandId commands hroom =>
    rename_i outbox log
    have hheld : Outbox.held { outbox with
        submitted := outbox.submitted + 1
        queue := outbox.queue ++ [⟨outbox.submitted, commandId, commands, false, none, none, none,
          none⟩] } =
            outbox.held ++ [⟨outbox.submitted, commandId, commands, false, none, none, none,
            none⟩] := by simp [Outbox.held]
    refine h.add hheld rfl rfl ⟨rfl, rfl, rfl⟩ ?_
    simpa [Outbox.held, Nat.add_comm] using hroom
  | refuse head error => exact h.refuse head error
  | drop head error hqueue =>
    rename_i outbox log before after item
    have hheld : outbox.held = (outbox.inFlight.toList ++ before) ++ item :: after := by
      simp [Outbox.held, hqueue]
    have hheld' : Outbox.held { outbox with queue := before ++ after } =
        (outbox.inFlight.toList ++ before) ++ after := by simp [Outbox.held]
    exact h.remove hheld hheld' rfl head (by simp)
  | settle head hinFlight hcovers =>
    rename_i outbox log item settlement
    have hheld : outbox.held = [] ++ item :: outbox.queue := by simp [Outbox.held, hinFlight]
    have hheld' : Outbox.held { outbox with inFlight := none } = [] ++ outbox.queue := by
      simp [Outbox.held]
    exact h.remove hheld hheld' rfl head hcovers
  | interrupt hinFlight =>
    rename_i outbox log item
    have hheld : Outbox.held { outbox with inFlight := none, queue := item :: outbox.queue } =
        outbox.held := by simp [Outbox.held, hinFlight]
    refine h.shrink ?_ rfl le_rfl ?_ h.accounted.covered
    · exact hheld ▸ List.Sublist.refl _
    · exact hheld ▸ h.accounted.partition
  | send head hfree hqueue =>
    rename_i outbox log item rest
    have hheld : outbox.held = item :: rest := by simp [Outbox.held, hfree, hqueue]
    have hheld' : Outbox.held { outbox with queue := rest, inFlight := some (item.stamped head) } =
        item.stamped head :: rest := by simp [Outbox.held]
    exact h.send head hheld hheld' rfl

theorem Moves.kept (hmoves : Moves ledger ledger') (h : Kept ledger) : Kept ledger' := by
  induction hmoves with
  | refl => exact h
  | tail _ hmove ih => exact hmove.kept ih

end Invariant

variable {effects : List Effect} {pending : QueuedCommand} {receipt : ReceiptMessage}

section Calls

variable {ledger : Ledger} (head : Option HeadPointer) (canSend : Bool) (outbox : Outbox)
variable (log : List (Option HeadPointer × Effect))

/-- Which commands are known to be local is of no account. -/
theorem Move.ids (ids : List String) :
    Move ⟨outbox, log⟩ ⟨{ outbox with localCommandIds := ids }, log⟩ := by
  have hnote : Move ⟨outbox, log⟩ ⟨{ outbox with localCommandIds := ids }, log ++ []⟩ :=
    .note rfl rfl rfl (by simp)
  simpa using hnote

/-- A change the accounts do not see. -/
theorem Moves.note (hsubmitted : outbox'.submitted = outbox.submitted)
    (hqueue : outbox'.queue = outbox.queue)
    (hinFlight : outbox'.inFlight.map QueuedCommand.core = outbox.inFlight.map QueuedCommand.core)
    (hquiet : ∀ effect ∈ effects, effect.isQuiet = true) :
    Moves ⟨outbox, log⟩ (Ledger.write ⟨outbox, log⟩ head (outbox', effects)) := by
  refine .single (.note hsubmitted hqueue hinFlight ?_)
  intro entry hentry
  obtain ⟨effect, heffect, rfl⟩ := List.mem_map.mp hentry
  exact hquiet effect heffect

/-- Two replies written one after the other. -/
theorem Ledger.write_append (ledger : Ledger) (outbox outbox' : Outbox)
    (effects effects' : List Effect) :
    (ledger.write head (outbox, effects)).write head (outbox', effects') =
      ledger.write head (outbox', effects ++ effects') := by
  simp [Ledger.write]

theorem drainQueue_moves : Moves ⟨outbox, log⟩
    (Ledger.write ⟨outbox, log⟩ head (drainQueue head canSend outbox)) := by
  unfold drainQueue
  split_ifs with hclosed
  · exact Moves.note head outbox log rfl rfl rfl (by simp)
  · simp only [Bool.or_eq_true, not_or, Bool.not_eq_true, Option.isSome_eq_false_iff,
      Option.isNone_iff_eq_none] at hclosed
    split
    · rename_i pointer next rest hqueue
      exact .single (.send pointer hclosed.1.1 hqueue)
    · exact Moves.note _ outbox log rfl rfl rfl (by simp)

/-- A reply after which the drain goes on. -/
theorem Moves.drain (h : Moves ⟨outbox, log⟩ (Ledger.write ⟨outbox, log⟩ head (outbox', effects))) :
    Moves ⟨outbox, log⟩ (Ledger.write ⟨outbox, log⟩ head
      ((drainQueue head canSend outbox').1, effects ++ (drainQueue head canSend outbox').2)) := by
  refine h.trans ?_
  have hdrain := drainQueue_moves head canSend outbox'
    (Ledger.write ⟨outbox, log⟩ head (outbox', effects)).log
  rw [← Ledger.write_append]
  exact hdrain

theorem requestHeadRefresh_moves : Moves ⟨outbox, log⟩
    (Ledger.write ⟨outbox, log⟩ head (requestHeadRefresh outbox)) :=
  Moves.note head outbox log rfl rfl rfl (by simp [Effect.isQuiet])

/-- The stale batches are dropped from the end of the queue. -/
theorem drops_moves (stale : QueuedCommand → Bool) (error : QueuedCommand → CommandError)
    (kept : List QueuedCommand) (queue : List QueuedCommand)
    (hqueue : outbox.queue = queue ++ kept) :
    Moves ⟨outbox, log⟩ ⟨{ outbox with queue := queue.filter (fun item => !stale item) ++ kept },
      log ++ ((queue.filter stale).reverse).map
        (fun item => (head, .settle item.batch (.rejected (error item))))⟩ := by
  induction queue using List.reverseRecOn generalizing outbox log kept with
  | nil =>
    have hsame : { outbox with queue := kept } = outbox := by
      obtain ⟨_, _, _, _, _⟩ := outbox
      simp_all
    simpa [hsame] using Relation.ReflTransGen.refl
  | append_singleton queue item ih =>
    rw [List.append_assoc] at hqueue
    cases hstale : stale item with
    | false =>
      have hmoves := ih outbox log ([item] ++ kept) hqueue
      simpa [List.filter_append, hstale] using hmoves
    | true =>
      have hdrop : Move ⟨outbox, log⟩ ⟨{ outbox with queue := queue ++ kept },
          log ++ [(head, .settle item.batch (.rejected (error item)))]⟩ := .drop head _ hqueue
      have hmoves := ih { outbox with queue := queue ++ kept }
        (log ++ [(head, .settle item.batch (.rejected (error item)))]) kept rfl
      refine Relation.ReflTransGen.head hdrop ?_
      simpa [List.filter_append, hstale] using hmoves

theorem supersede_moves (commands : List ProjectCommand) : Moves ⟨outbox, log⟩
    (Ledger.write ⟨outbox, log⟩ head (supersedeQueuedSnapshotCommand outbox commands)) := by
  unfold supersedeQueuedSnapshotCommand
  cases snapshotCommandKind commands with
  | none => exact Moves.note head outbox log rfl rfl rfl (by simp)
  | some kind =>
    have hdrops := drops_moves head outbox log
      (fun item => !item.sent && decide (snapshotCommandKind item.commands = some kind))
      (fun item => ⟨item.commandId, "superseded",
        "A newer snapshot command replaced this queued command."⟩) [] outbox.queue (by simp)
    have hmoves := hdrops.tail (Move.ids _ _ (outbox.localCommandIds.filter
      (· ∉ ((outbox.queue.filter (fun item => !item.sent &&
        decide (snapshotCommandKind item.commands = some kind))).reverse).map
          QueuedCommand.commandId)))
    simpa [Ledger.write, superseded, Function.comp_def] using hmoves

theorem submit_moves (commandId : String) (commands : List ProjectCommand) : Moves ⟨outbox, log⟩
    (Ledger.write ⟨outbox, log⟩ head (submit head canSend commandId commands outbox)) := by
  have hcleared := supersede_moves head outbox log commands
  unfold submit
  simp only
  split_ifs with hfull
  · refine hcleared.trans (.single ?_)
    have hrefuse :
      Move (Ledger.write ⟨outbox, log⟩ head (supersedeQueuedSnapshotCommand outbox commands))
      _ := .refuse head queueFull
    simpa [Ledger.write] using hrefuse
  · refine Moves.drain head canSend outbox log (hcleared.trans ?_)
    generalize supersedeQueuedSnapshotCommand outbox commands = cleared at hfull ⊢
    have hadd : Move (Ledger.write ⟨outbox, log⟩ head cleared) ⟨_, _⟩ :=
      .add commandId commands (by simpa using hfull)
    refine (Relation.ReflTransGen.single hadd).tail ?_
    exact Move.ids _ _ (commandId :: cleared.1.localCommandIds)

theorem pendingFor_eq {commandId : String} (h : pendingFor outbox commandId = some pending) :
    outbox.inFlight = some pending ∧ pending.commandId = commandId := by
  simpa [pendingFor, Option.filter_eq_some_iff] using h

theorem recordAccepted_moves (message : AcceptedMessage) : Moves ⟨outbox, log⟩
    (Ledger.write ⟨outbox, log⟩ head ((recordAccepted message outbox).1, [])) := by
  unfold recordAccepted
  cases hpending : pendingFor outbox message.commandId with
  | none => exact Moves.note head outbox log rfl rfl rfl (by simp)
  | some pending =>
    obtain ⟨hinFlight, -⟩ := pendingFor_eq outbox hpending
    refine Moves.note head outbox log rfl rfl ?_ (by simp)
    rw [hinFlight]
    rfl

/-- The receipt of the batch in flight is settled under a head that covers it. -/
theorem resolve_moves (hinFlight : outbox.inFlight = some pending)
    (hcovers : headCoversReceipt head receipt = true) :
    Moves ⟨outbox, log⟩
      (Ledger.write ⟨outbox, log⟩ head (resolveInFlightReceipt outbox pending receipt)) := by
  refine .single (.settle head hinFlight ?_)
  rintro receipt' accepted ⟨⟩
  exact hcovers

theorem applyReceipt_moves (message : ReceiptMessage) : Moves ⟨outbox, log⟩
    (Ledger.write ⟨outbox, log⟩ head (applyReceipt head canSend message outbox)) := by
  unfold applyReceipt
  cases hpending : pendingFor outbox message.commandId with
  | none => exact Moves.note head outbox log rfl rfl rfl (by simp)
  | some pending =>
    obtain ⟨hinFlight, -⟩ := pendingFor_eq outbox hpending
    let held : Outbox := { forget outbox message.commandId with
      inFlight := some { pending with receipt := some message } }
    have hheld : Moves ⟨outbox, log⟩ ⟨held, log⟩ := by
      have hnote : Moves ⟨outbox, log⟩ (Ledger.write ⟨outbox, log⟩ head (held, [])) := by
        refine Moves.note head outbox log rfl rfl ?_ (by simp)
        rw [hinFlight]
        rfl
      simpa [Ledger.write] using hnote
    simp only
    split_ifs with hwait
    · exact hheld.trans (requestHeadRefresh_moves head held log)
    · have hcovers : headCoversReceipt head message = true := by
        simp only [Bool.or_eq_true, not_or, Bool.not_eq_true, Bool.not_eq_false'] at hwait
        exact hwait.2
      exact hheld.trans (Moves.drain head canSend held log
        (resolve_moves head held log rfl hcovers))

theorem resume_moves : Moves ⟨outbox, log⟩
    (Ledger.write ⟨outbox, log⟩ head (resume head canSend outbox)) := by
  have hopened : Moves ⟨outbox, log⟩ (Ledger.write ⟨outbox, log⟩ head
      ({ outbox with awaitingHeadRehydration := false }, [])) :=
    Moves.note head outbox log rfl rfl rfl (by simp)
  exact Moves.drain head canSend outbox log hopened

theorem heldReceipt_eq (h : heldReceipt outbox = some (pending, receipt)) :
    outbox.inFlight = some pending ∧ pending.receipt = some receipt := by
  obtain ⟨item, hinFlight, h⟩ := Option.bind_eq_some_iff.mp h
  obtain ⟨held, hreceipt, heq⟩ := Option.map_eq_some_iff.mp h
  cases heq
  exact ⟨hinFlight, hreceipt⟩

theorem finishHeadRehydration_moves : Moves ⟨outbox, log⟩
    (Ledger.write ⟨outbox, log⟩ head (finishHeadRehydration head canSend outbox)) := by
  unfold finishHeadRehydration
  split
  · exact resume_moves head canSend outbox log
  · rename_i pending receipt hheld
    obtain ⟨hinFlight, -⟩ := heldReceipt_eq outbox hheld
    split_ifs with hcovers
    · have hresolved := resolve_moves head outbox log hinFlight hcovers
      refine hresolved.trans ?_
      rw [← Ledger.write_append]
      exact resume_moves head canSend _ _
    · exact requestHeadRefresh_moves head outbox log

theorem afterHeadApplied_moves : Moves ⟨outbox, log⟩
    (Ledger.write ⟨outbox, log⟩ head (afterHeadApplied head canSend outbox)) := by
  unfold afterHeadApplied
  split_ifs
  · exact finishHeadRehydration_moves head canSend outbox log
  · exact Moves.note head outbox log rfl rfl rfl (by simp)

theorem applyRejected_moves (message : RejectedMessage) : Moves ⟨outbox, log⟩
    (Ledger.write ⟨outbox, log⟩ head (applyRejected message outbox)) := by
  unfold applyRejected
  cases hpending : pendingFor outbox message.commandId with
  | none => exact Moves.note head outbox log rfl rfl rfl (by simp [Effect.isQuiet])
  | some pending =>
    obtain ⟨hinFlight, -⟩ := pendingFor_eq outbox hpending
    have hpaused : Moves ⟨outbox, log⟩ (Ledger.write ⟨outbox, log⟩ head
        ({ forget outbox message.commandId with awaitingHeadRehydration := true },
          [.commandRejected message])) :=
      Moves.note head outbox log rfl rfl rfl (by simp [Effect.isQuiet])
    refine hpaused.trans (.single ?_)
    have hsettle : Move (Ledger.write ⟨outbox, log⟩ head
        ({ forget outbox message.commandId with awaitingHeadRehydration := true },
          [.commandRejected message])) ⟨_, _ ++ [(head, .settle pending.batch
            (.rejected ⟨message.commandId, message.errorCode, message.detail⟩))]⟩ :=
      .settle head hinFlight (by simp)
    simpa [Ledger.write] using hsettle

theorem interruptInFlight_moves : Moves ⟨outbox, log⟩
    (Ledger.write ⟨outbox, log⟩ head (interruptInFlight outbox)) := by
  unfold interruptInFlight
  cases hinFlight : outbox.inFlight with
  | none => exact Moves.note head outbox log rfl rfl rfl (by simp)
  | some interrupted =>
    have hmove : Move ⟨outbox, log⟩ ⟨_, log⟩ := .interrupt hinFlight
    exact .single (by simpa [Ledger.write] using hmove)

theorem sendFailed_moves (commandId : String) (error : Option CommandError) : Moves ⟨outbox, log⟩
    (Ledger.write ⟨outbox, log⟩ head (sendFailed commandId error outbox)) := by
  unfold sendFailed
  cases hpending : pendingFor outbox commandId with
  | none => exact Moves.note head outbox log rfl rfl rfl (by simp)
  | some pending =>
    obtain ⟨hinFlight, -⟩ := pendingFor_eq outbox hpending
    exact .single (.settle head hinFlight (by simp))

theorem rejectQueue_moves (error : CommandError) (queue : List QueuedCommand)
    (hqueue : outbox.queue = queue) : Moves ⟨outbox, log⟩ ⟨{ outbox with queue := [] },
      log ++ queue.map (fun item => (head, .settle item.batch (.rejected error)))⟩ := by
  induction queue generalizing outbox log with
  | nil =>
    have hsame : { outbox with queue := [] } = outbox := by
      obtain ⟨_, _, _, _, _⟩ := outbox
      simp_all
    simpa [hsame] using Relation.ReflTransGen.refl
  | cons item rest ih =>
    have hdrop : Move ⟨outbox, log⟩ ⟨{ outbox with queue := [] ++ rest },
        log ++ [(head, .settle item.batch (.rejected error))]⟩ := .drop head error hqueue
    have hmoves := ih { outbox with queue := [] ++ rest }
      (log ++ [(head, .settle item.batch (.rejected error))]) rfl
    refine Relation.ReflTransGen.head hdrop ?_
    simpa using hmoves

theorem rejectAll_moves (error : CommandError) : Moves ⟨outbox, log⟩
    (Ledger.write ⟨outbox, log⟩ head (rejectAll error outbox)) := by
  have hqueue := rejectQueue_moves head { outbox with inFlight := none }
  cases hinFlight : outbox.inFlight with
  | none =>
    have hsame : { outbox with inFlight := none } = outbox := by
      obtain ⟨_, _, _, _, _⟩ := outbox
      simp_all
    simpa [Ledger.write, rejectAll, hinFlight, Function.comp_def, hsame] using
      hqueue log error outbox.queue rfl
  | some pending =>
    have hsettle : Move ⟨outbox, log⟩ ⟨{ outbox with inFlight := none },
        log ++ [(head, .settle pending.batch (.rejected error))]⟩ :=
          .settle head hinFlight (by simp)
    refine Relation.ReflTransGen.head hsettle ?_
    have hmoves :=
      hqueue (log ++ [(head, .settle pending.batch (.rejected error))]) error outbox.queue rfl
    rw [List.append_assoc] at hmoves
    simpa [Ledger.write, rejectAll, hinFlight, Function.comp_def] using hmoves

theorem take_moves (turn : Turn) : Moves ledger (ledger.take turn) := by
  obtain ⟨outbox, log⟩ := ledger
  obtain ⟨head, canSend, call⟩ := turn
  cases call with
  | submit commandId commands => exact submit_moves head canSend outbox log commandId commands
  | recordAccepted message => exact recordAccepted_moves head outbox log message
  | applyReceipt message => exact applyReceipt_moves head canSend outbox log message
  | applyRejected message => exact applyRejected_moves head outbox log message
  | afterHeadApplied => exact afterHeadApplied_moves head canSend outbox log
  | finishHeadRehydration => exact finishHeadRehydration_moves head canSend outbox log
  | requestHeadRefresh => exact requestHeadRefresh_moves head outbox log
  | interruptInFlight => exact interruptInFlight_moves head outbox log
  | sendFailed commandId error => exact sendFailed_moves head outbox log commandId error
  | rejectAll error => exact rejectAll_moves head outbox log error
  | clearLocalCommands => exact Moves.note head outbox log rfl rfl rfl (by simp)

theorem drainQueue_submitted : (drainQueue head canSend outbox).1.submitted = outbox.submitted := by
  unfold drainQueue
  split_ifs
  · rfl
  · split <;> rfl

theorem resume_submitted : (resume head canSend outbox).1.submitted = outbox.submitted :=
  drainQueue_submitted head canSend _

theorem finishHeadRehydration_submitted :
    (finishHeadRehydration head canSend outbox).1.submitted = outbox.submitted := by
  unfold finishHeadRehydration
  split
  · exact resume_submitted head canSend outbox
  · split_ifs
    · exact resume_submitted head canSend _
    · rfl

theorem submit_submitted (commandId : String) (commands : List ProjectCommand) :
    (submit head canSend commandId commands outbox).1.submitted = outbox.submitted + 1 := by
  have hcleared : (supersedeQueuedSnapshotCommand outbox commands).1.submitted =
    outbox.submitted := by
    unfold supersedeQueuedSnapshotCommand
    split <;> rfl
  unfold submit
  simp only
  split_ifs
  · rw [hcleared]
  · rw [drainQueue_submitted, hcleared]

theorem applyReceipt_submitted (message : ReceiptMessage) :
    (applyReceipt head canSend message outbox).1.submitted = outbox.submitted := by
  unfold applyReceipt
  split
  · rfl
  · simp only
    split_ifs
    · rfl
    · exact drainQueue_submitted head canSend _

theorem afterHeadApplied_submitted :
    (afterHeadApplied head canSend outbox).1.submitted = outbox.submitted := by
  unfold afterHeadApplied
  split_ifs
  · exact finishHeadRehydration_submitted head canSend outbox
  · rfl

/-- Whether a turn hands in a batch. -/
def Turn.submits (turn : Turn) : Bool :=
  match turn.call with
  | .submit _ _ => true
  | _ => false

theorem take_submitted (turn : Turn) : (ledger.take turn).outbox.submitted =
    ledger.outbox.submitted + (if turn.submits then 1 else 0) := by
  obtain ⟨head, canSend, call⟩ := turn
  unfold Ledger.take Ledger.write
  cases call with
  | submit commandId commands => exact submit_submitted head canSend _ commandId commands
  | recordAccepted _ | applyRejected _ | interruptInFlight | sendFailed _ _ =>
    simp only [Call.reply, recordAccepted, applyRejected, interruptInFlight, sendFailed]
    split <;> rfl
  | applyReceipt message => exact applyReceipt_submitted head canSend _ message
  | afterHeadApplied => exact afterHeadApplied_submitted head canSend _
  | finishHeadRehydration => exact finishHeadRehydration_submitted head canSend _
  | _ => rfl

/-- Whatever is called, in whatever order and under whatever heads, the batches
that were handed in are accounted for. -/
theorem outbox_accounts (turns : List Turn) :
    (turns.foldl Ledger.take .start).outbox.submitted = turns.countP Turn.submits ∧
      Accounted (turns.foldl Ledger.take .start) := by
  suffices hkept : ∀ ledger, Kept ledger → Kept (turns.foldl Ledger.take ledger) ∧
      (turns.foldl Ledger.take ledger).outbox.submitted =
        ledger.outbox.submitted + turns.countP Turn.submits by
    obtain ⟨hlast, hcount⟩ := hkept .start .start
    exact ⟨by simpa [Ledger.start, Outbox.empty] using hcount, hlast.accounted⟩
  induction turns with
  | nil => exact fun ledger h => ⟨h, rfl⟩
  | cons turn rest ih =>
    intro ledger h
    obtain ⟨hlast, hcount⟩ := ih _ ((take_moves turn).kept h)
    refine ⟨hlast, hcount.trans ?_⟩
    rw [take_submitted, List.countP_cons]
    omega

end Calls

end Grafy.CommandOutbox
