import Grafy.CollaborationSteps

/-!
The command history of one Project. Calls are serialised by the lock on the
head, while the statements before the lock may see any earlier state. Over
every such history a command id has one receipt and its batch is applied once;
the sequences of an epoch are counted up without gap from its opening, and the
head is what the epoch's batches make of the document the epoch opened on.
-/
namespace Grafy.CommandHistory

open Collaboration CommandEnvelopes Commands Grafy.Project Loops OrderedDict

/-- One finished call, between the states it was locked and committed in. -/
structure Moment where
  before : Room
  call : Call
  result : Answered Answer
  after : Room

/-- The states so far, the present one first. -/
def visited (past : List Moment) (room : Room) : List Room := room :: past.map Moment.before

/-- The heads of a list of states. -/
def heads (rooms : List Room) : List ProjectHead := rooms.filterMap Room.head

/-- The epoch a call opens a room under. -/
def epoch? : Call → Option Uuid
  | .openProject _ roomEpoch => some roomEpoch
  | .restoreCheckpoint _ _ roomEpoch => some roomEpoch
  | _ => none

/-- The names in a rename have met their check when the command was built. -/
def NamesChecked : ProjectCommand → Prop
  | .renameProject name expectedName => ProperName name ∧ ProperName expectedName
  | _ => True

/-- What the constructors of a call's arguments have seen to. -/
def Built : Call → Prop
  | .openProject opening _ => ProperName opening.project.name
  | .submitCommands submission => ∀ command ∈ submission.commands, NamesChecked command
  | _ => True

/-- Each statement before the lock has seen one of the states. -/
structure SeenAmong (seen : Glimpse) (rooms : List Room) : Prop where
  project : seen.project ∈ rooms
  receipt : seen.receipt ∈ rooms
  head : seen.head ∈ rooms
  checkpoint : seen.checkpoint ∈ rooms

variable (casefold : String → String) (destination : String → Option String)
variable (hmac : String → String) (keyVersion : ℕ)

/-- The calls on one Project, newest first, and the state they lead to. An
epoch that is drawn has not been met before. -/
inductive History : List Moment → Room → Prop
  | start : History [] .empty
  | step {past : List Moment} {room : Room} (access : Access) (seen : Glimpse) (call : Call)
      (h : History past room)
      (hseen : SeenAmong seen (visited past room))
      (hfresh : ∀ epoch ∈ epoch? call, ∀ head ∈ heads (visited past room), head.roomEpoch ≠ epoch)
      (hbuilt : Built call) :
      History
        (⟨room, call,
          (commit room (room.answer casefold destination hmac keyVersion access seen call)).1,
          (commit room (room.answer casefold destination hmac keyVersion access seen call)).2⟩ ::
            past)
        (commit room (room.answer casefold destination hmac keyVersion access seen call)).2

section Records

/-- The batch a call had accepted, with its receipt. -/
def Moment.acceptance (moment : Moment) : Option (Submission × ProjectCommandReceipt) :=
  match moment.call, moment.result with
  | .submitCommands submission, .ok (.submitted answer) =>
    if answer.receipt.outcome = .accepted then some (submission, answer.receipt) else none
  | _, _ => none

/-- The head a call has opened an epoch with, and the receipt it left. -/
def Moment.opening (moment : Moment) :
    Option (ProjectHead × Option (Uuid × ProjectCommandReceipt)) :=
  match moment.call, moment.result with
  | .openProject opening _, .ok (.created creation) =>
    if creation.receipt.all (fun receipt => receipt.outcome = .accepted) then
      some (creation.head, Option.map₂ Prod.mk opening.commandId creation.receipt)
    else none
  | .restoreCheckpoint .., .ok (.checkpointed outcome) => some (outcome.head, none)
  | _, _ => none

variable (past : List Moment) (epoch : Uuid)

/-- The accepted batches, oldest first. -/
def acceptances : List (Submission × ProjectCommandReceipt) :=
  (past.filterMap Moment.acceptance).reverse

def acceptancesOf : List (Submission × ProjectCommandReceipt) :=
  (acceptances past).filter (fun accepted => accepted.2.roomEpoch = epoch)

def openingOf : Option (ProjectHead × Option (Uuid × ProjectCommandReceipt)) :=
  (past.filterMap Moment.opening).reverse.find? (fun opened => opened.1.roomEpoch = epoch)

/-- The receipt of the call that opened the epoch, if it left one. -/
def openingRows : Dict Uuid ProjectCommandReceipt := ((openingOf past epoch).bind Prod.snd).toList

def receiptsOf (room : Room) : Dict Uuid ProjectCommandReceipt :=
  room.receipts.filter (fun row => row.2.roomEpoch = epoch)

/-- The sequence the newest head of the epoch is at. -/
def lastSequence (room : Room) : ℕ :=
  ((heads (visited past room)).find? (fun head => head.roomEpoch = epoch)).elim 0
    ProjectHead.collaborationSequence

def row (accepted : Submission × ProjectCommandReceipt) : Uuid × ProjectCommandReceipt :=
  (accepted.1.commandId, accepted.2)

/-- The fold of `apply_project_commands` over a list of batches. -/
def applyBatches (batches : List (List ProjectCommand)) (head : Head) : Except BatchError Head :=
  batches.foldlM (fun head batch =>
    applyProjectCommands casefold destination head.1 head.2 batch) head

end Records

variable {past : List Moment} {room : Room} {epoch : Uuid} {head : ProjectHead}

section Growing

variable {moment : Moment}

theorem acceptances_cons (past : List Moment) (moment : Moment) :
    acceptances (moment :: past) = acceptances past ++ moment.acceptance.toList := by
  unfold acceptances
  cases h : moment.acceptance <;> simp [h]

theorem acceptancesOf_cons (past : List Moment) (moment : Moment) (epoch : Uuid) :
    acceptancesOf (moment :: past) epoch = acceptancesOf past epoch ++
      moment.acceptance.toList.filter (fun accepted => accepted.2.roomEpoch = epoch) := by
  simp [acceptancesOf, acceptances_cons]

theorem openingOf_cons (past : List Moment) (moment : Moment) (epoch : Uuid) :
    openingOf (moment :: past) epoch = (openingOf past epoch).or
      (moment.opening.filter (fun opened => opened.1.roomEpoch = epoch)) := by
  unfold openingOf
  cases h : moment.opening with
  | none => rw [List.filterMap_cons_none h, Option.filter_none, Option.or_none]
  | some opened =>
    rw [List.filterMap_cons_some h, List.reverse_cons, List.find?_append]
    by_cases hepoch : opened.1.roomEpoch = epoch <;> simp [Option.filter, hepoch]

theorem mem_heads_cons {first : Room} {rooms : List Room} :
    head ∈ heads (first :: rooms) ↔ first.head = some head ∨ head ∈ heads rooms := by
  unfold heads
  cases h : first.head <;> simp [h, eq_comm]

theorem lastSequence_cons_head (hhead : room.head = some head) (past : List Moment) :
    lastSequence past head.roomEpoch room = head.collaborationSequence := by
  simp [lastSequence, heads, visited, hhead]

theorem lastSequence_cons_ne (hroom : ∀ head ∈ room.head, head.roomEpoch ≠ epoch) :
    lastSequence (moment :: past) epoch room = lastSequence past epoch moment.before := by
  unfold lastSequence visited heads
  cases hhead : room.head with
  | none => simp [hhead]
  | some head => simp [hhead, hroom head (by simp [hhead])]

theorem lastSequence_cons_same {next : ProjectHead} (hbefore : moment.before.head = some head)
    (hroom : room.head = some next) (hepoch : next.roomEpoch = head.roomEpoch)
    (hsequence : next.collaborationSequence = head.collaborationSequence) :
    lastSequence (moment :: past) epoch room = lastSequence past epoch moment.before := by
  by_cases h : next.roomEpoch = epoch
  · subst h
    rw [lastSequence_cons_head hroom, hepoch, lastSequence_cons_head hbefore, hsequence]
  · apply lastSequence_cons_ne
    simp [hroom, h]

theorem lastSequence_cons_self : lastSequence (moment :: past) epoch moment.before =
    lastSequence past epoch moment.before := by
  cases h : moment.before.head with
  | none => exact lastSequence_cons_ne (by simp [h])
  | some head => exact lastSequence_cons_same h h rfl rfl

end Growing

section Induction

variable {casefold destination hmac keyVersion}

variable (casefold destination hmac keyVersion) (past : List Moment) (room : Room)

/-- What a call of a history has done: nothing, or one of the four writes. -/
inductive Change : Moment → Prop
  | quiet {call : Call} {result : Answered Answer}
      (haccepted : Moment.acceptance ⟨room, call, result, room⟩ = none)
      (hopened : Moment.opening ⟨room, call, result, room⟩ = none) :
      Change ⟨room, call, result, room⟩
  | accepted {submission : Submission} {head : ProjectHead} {next : Head} {name : String}
      (hhead : room.head = some head)
      (hunused : submission.commandId ∉ room.receipts.keys)
      (happlied : applyProjectCommands casefold destination head.name head.document
        submission.commands = .ok next)
      (hname : validatedProjectName next.1 = .ok name)
      (hchecked : ∀ command ∈ submission.commands, NamesChecked command) :
      Change ⟨room, .submitCommands submission,
        .ok (.submitted ⟨head.advanced name next.2,
          submission.receipt hmac keyVersion (head.advanced name next.2)⟩),
        room.accepted hmac keyVersion submission (head.advanced name next.2)⟩
  | checkpointed {expected : Expected} {head : ProjectHead} {name : String}
      (hhead : room.head = some head)
      (hbehind : ¬ head.isFullyCheckpointed)
      (hname : validatedProjectName head.name = .ok name)
      (hrevision : head.checkpointRevision + 1 ∉ room.checkpoints.keys)
      (hmapping : (head.roomEpoch, head.collaborationSequence) ∉ room.mappings.keys) :
      Change ⟨room, .checkpoint expected,
        .ok (.checkpointed ⟨head.recorded, head.checkpointRevision + 1⟩),
        room.checkpointed head.recorded ⟨name, head.document⟩⟩
  | restored {seen : Room} {expected : Expected} {revision : ℕ} {epoch : Uuid}
      {head reopened : ProjectHead} {checkpoint : ProjectCheckpoint} {name : String}
      (hhead : room.head = some head)
      (hlevel : head.isFullyCheckpointed)
      (hseen : seen ∈ visited past room)
      (hcheckpoint : seen.checkpoints.get? revision = some checkpoint)
      (hname : validatedProjectName checkpoint.name = .ok name)
      (hrevision : head.checkpointRevision + 1 ∉ room.checkpoints.keys)
      (hmapping : (epoch, 0) ∉ room.mappings.keys)
      (hfresh : ∀ old ∈ heads (visited past room), old.roomEpoch ≠ epoch)
      (hreopened : reopened =
        ⟨epoch, 0, 0, head.checkpointRevision + 1, name, checkpoint.document⟩) :
      Change ⟨room, .restoreCheckpoint expected revision epoch,
        .ok (.checkpointed ⟨reopened, head.checkpointRevision + 1⟩),
        room.checkpointed reopened ⟨name, checkpoint.document⟩⟩
  | opened {opening : Opening} {head : ProjectHead}
      (hproject : room.project = none)
      (habsent : room.head = none)
      (hrevision : 1 ∉ room.checkpoints.keys)
      (hmapping : (head.roomEpoch, 0) ∉ room.mappings.keys)
      (hunused : ∀ row ∈ opening.receipt? hmac keyVersion head, row.1 ∉ room.receipts.keys)
      (hproper : ProperName head.name)
      (hfresh : ∀ old ∈ heads (visited past room), old.roomEpoch ≠ head.roomEpoch)
      (hhead : head = ⟨head.roomEpoch, 0, 0, 1, head.name, opening.document⟩) :
      Change ⟨room, .openProject opening head.roomEpoch,
        .ok (.created ⟨opening.project, head,
          (opening.receipt? hmac keyVersion head).map Prod.snd⟩),
        room.opened hmac keyVersion opening head⟩

variable {casefold destination hmac keyVersion past room}

/-- What a start and every call keep holds of every history. -/
theorem History.induct {P : List Moment → Room → Prop}
    (h : History casefold destination hmac keyVersion past room) (hstart : P [] .empty)
    (hstep : ∀ past room moment, History casefold destination hmac keyVersion past room →
      P past room → Change casefold destination hmac keyVersion past room moment →
      P (moment :: past) moment.after) : P past room := by
  induction h with
  | start => exact hstart
  | @step past room access seen call hpast hseen hfresh hbuilt ih =>
    refine hstep past room _ hpast ih ?_
    cases hresult : room.answer casefold destination hmac keyVersion access seen call with
    | error error => exact .quiet (by cases call <;> rfl) (by cases call <;> rfl)
    | ok written =>
      obtain ⟨answer, after⟩ := written
      cases answer_transition hresult with
      | replayed _ _ => exact .quiet rfl rfl
      | accepted hhead hunused happlied hname => exact .accepted hhead hunused happlied hname hbuilt
      | level _ _ => exact .quiet rfl rfl
      | checkpointed hhead hbehind hname hrevision hmapping =>
        exact .checkpointed hhead hbehind hname hrevision hmapping
      | restored hhead hlevel hcheckpoint hname hrevision hmapping =>
        exact .restored hhead hlevel hseen.checkpoint hcheckpoint hname hrevision hmapping
          (hfresh _ rfl) rfl
      | reopened => exact .quiet rfl rfl
      | opened hproject hhead hname hrevision hmapping hunused =>
        exact .opened hproject hhead hrevision hmapping hunused (properName_of_validated hname)
          (hfresh _ rfl) rfl

end Induction

variable {submission : Submission} {left : Option (Uuid × ProjectCommandReceipt)}

section Records

/-- How the receipts of a Project follow from its calls. -/
structure Recorded (past : List Moment) (room : Room) : Prop where
  known : ∀ row ∈ room.receipts, ∃ head ∈ heads (visited past room),
    head.roomEpoch = row.2.roomEpoch
  opened : ∀ epoch, openingOf past epoch ≠ none →
    ∃ head ∈ heads (visited past room), head.roomEpoch = epoch
  nodup : room.receipts.keys.Nodup
  logged : ((acceptances past).map row).Sublist room.receipts
  receipts : ∀ epoch, receiptsOf epoch room =
    openingRows past epoch ++ (acceptancesOf past epoch).map row
  sequences : ∀ epoch, (acceptancesOf past epoch).map
    (fun accepted => accepted.2.acceptedSequence) =
    List.range' 1 (lastSequence past epoch room)
  zero : ∀ epoch, ∀ entry ∈ openingRows past epoch, entry.2.acceptedSequence = 0

/-- Nothing is recorded of an epoch no head has been in. -/
theorem Recorded.unmet (h : Recorded past room)
    (hfresh : ∀ head ∈ heads (visited past room), head.roomEpoch ≠ epoch) :
    receiptsOf epoch room = [] ∧ acceptancesOf past epoch = [] ∧ openingOf past epoch = none := by
  have hreceipts : receiptsOf epoch room = [] := by
    apply List.filter_eq_nil_iff.mpr
    intro row hrow
    obtain ⟨head, hhead, hepoch⟩ := h.known row hrow
    simpa [← hepoch] using hfresh head hhead
  have hparts := h.receipts epoch
  rw [hreceipts] at hparts
  obtain ⟨-, hmapped⟩ := List.append_eq_nil_iff.mp hparts.symm
  refine ⟨hreceipts, List.map_eq_nil_iff.mp hmapped, ?_⟩
  by_contra hopened
  obtain ⟨head, hhead, hepoch⟩ := h.opened epoch hopened
  exact hfresh head hhead hepoch

/-- A call that neither accepts nor opens, and leaves the receipts and the
head's place alone. -/
theorem Recorded.unrecorded {moment : Moment} (h : Recorded past moment.before)
    (haccepted : moment.acceptance = none) (hopened : moment.opening = none)
    (hreceipts : room.receipts = moment.before.receipts)
    (hsequence : ∀ epoch, lastSequence (moment :: past) epoch room =
      lastSequence past epoch moment.before) : Recorded (moment :: past) room := by
  have hmem : ∀ head ∈ heads (visited past moment.before),
      head ∈ heads (visited (moment :: past) room) :=
    fun head hhead => mem_heads_cons.mpr (.inr hhead)
  have hopening : ∀ epoch, openingOf (moment :: past) epoch = openingOf past epoch := by
    intro epoch
    rw [openingOf_cons, hopened, Option.filter_none, Option.or_none]
  have hacceptances : ∀ epoch, acceptancesOf (moment :: past) epoch = acceptancesOf past epoch := by
    intro epoch
    simp [acceptancesOf_cons, haccepted]
  refine ⟨?_, ?_, ?_, ?_, ?_, ?_, ?_⟩
  · intro row hrow
    rw [hreceipts] at hrow
    obtain ⟨head, hhead, hepoch⟩ := h.known row hrow
    exact ⟨head, hmem head hhead, hepoch⟩
  · intro epoch hne
    rw [hopening] at hne
    obtain ⟨head, hhead, hepoch⟩ := h.opened epoch hne
    exact ⟨head, hmem head hhead, hepoch⟩
  · rw [hreceipts]
    exact h.nodup
  · rw [acceptances_cons, haccepted, hreceipts]
    simpa using h.logged
  · intro epoch
    simpa only [receiptsOf, openingRows, hreceipts, hopening, hacceptances] using h.receipts epoch
  · intro epoch
    rw [hacceptances, hsequence]
    exact h.sequences epoch
  · intro epoch
    simpa only [openingRows, hopening] using h.zero epoch

variable {hmac : String → String} {keyVersion : ℕ}

theorem nodup_keys_append {d e : Dict Uuid ProjectCommandReceipt} (hd : d.keys.Nodup)
    (he : e.keys.Nodup) (hnew : ∀ row ∈ e, row.1 ∉ d.keys) : (d ++ e).keys.Nodup := by
  unfold Dict.keys at *
  rw [List.map_append]
  refine List.nodup_append'.mpr ⟨hd, he, ?_⟩
  intro key hkey hkey'
  obtain ⟨row, hrow, rfl⟩ := List.mem_map.mp hkey'
  exact hnew row hrow hkey

theorem Recorded.accepted (h : Recorded past room) {advanced : ProjectHead}
    (hhead : room.head = some head) (hunused : submission.commandId ∉ room.receipts.keys)
    (hepoch : advanced.roomEpoch = head.roomEpoch)
    (hadvanced : advanced.collaborationSequence = head.collaborationSequence + 1) :
    Recorded (⟨room, .submitCommands submission,
        .ok (.submitted ⟨advanced, submission.receipt hmac keyVersion advanced⟩),
        room.accepted hmac keyVersion submission advanced⟩ :: past)
      (room.accepted hmac keyVersion submission advanced) := by
  set receipt := submission.receipt hmac keyVersion advanced
  set moment : Moment := ⟨room, .submitCommands submission, .ok (.submitted ⟨advanced, receipt⟩),
    room.accepted hmac keyVersion submission advanced⟩
  have hacceptance : moment.acceptance = some (submission, receipt) := rfl
  have hrows : (room.accepted hmac keyVersion submission advanced).receipts =
    room.receipts ++ [(submission.commandId, receipt)] := rfl
  have hopening : ∀ epoch, openingOf (moment :: past) epoch = openingOf past epoch := by
    intro epoch
    have hnone : moment.opening = none := rfl
    rw [openingOf_cons, hnone, Option.filter_none, Option.or_none]
  have hmem : ∀ old ∈ heads (visited past room),
      old ∈ heads (visited (moment :: past) (room.accepted hmac keyVersion submission advanced)) :=
    fun old hold => mem_heads_cons.mpr (.inr hold)
  have hacceptances : ∀ epoch, acceptancesOf (moment :: past) epoch = acceptancesOf past epoch ++
      if advanced.roomEpoch = epoch then [(submission, receipt)] else [] := by
    intro epoch
    rw [acceptancesOf_cons, hacceptance]
    by_cases hcurrent : advanced.roomEpoch = epoch <;>
      simp [receipt, Submission.receipt, hcurrent]
  refine ⟨?_, ?_, ?_, ?_, ?_, ?_, ?_⟩
  · intro row hrow
    rw [hrows] at hrow
    rcases mem_snoc.mp hrow with hrow | rfl
    · obtain ⟨old, hold, hold'⟩ := h.known row hrow
      exact ⟨old, hmem old hold, hold'⟩
    · exact ⟨advanced, mem_heads_cons.mpr (.inl rfl), rfl⟩
  · intro epoch hne
    rw [hopening] at hne
    obtain ⟨old, hold, hold'⟩ := h.opened epoch hne
    exact ⟨old, hmem old hold, hold'⟩
  · rw [hrows]
    refine nodup_keys_append h.nodup (List.nodup_singleton _) ?_
    intro row hrow
    obtain rfl := List.mem_singleton.mp hrow
    exact hunused
  · rw [acceptances_cons, hacceptance, hrows, List.map_append]
    exact h.logged.append (List.Sublist.refl _)
  · intro epoch
    have hold := h.receipts epoch
    simp only [receiptsOf, openingRows] at hold ⊢
    rw [hrows, List.filter_append, hold, hopening, hacceptances, List.map_append,
      ← List.append_assoc]
    congr 1
    by_cases hcurrent : advanced.roomEpoch = epoch <;>
      simp [receipt, Submission.receipt, hcurrent, row]
  · intro epoch
    rw [hacceptances, List.map_append, h.sequences]
    by_cases hcurrent : advanced.roomEpoch = epoch
    · subst hcurrent
      have hlast : lastSequence (moment :: past) advanced.roomEpoch
          (room.accepted hmac keyVersion submission advanced) = advanced.collaborationSequence :=
        lastSequence_cons_head rfl _
      rw [hlast, hadvanced, hepoch, lastSequence_cons_head hhead, List.range'_concat]
      simp [receipt, Submission.receipt, hadvanced, Nat.add_comm]
    · rw [lastSequence_cons_ne]
      · simp [hcurrent, moment]
      · intro new hnew
        cases hnew
        exact hcurrent
  · intro epoch
    simpa only [openingRows, hopening] using h.zero epoch

/-- A call that opens an epoch no head has been in. -/
theorem Recorded.opens {moment : Moment} (h : Recorded past moment.before)
    (haccepted : moment.acceptance = none) (hopening : moment.opening = some (head, left))
    (hhead : room.head = some head)
    (hreceipts : room.receipts = moment.before.receipts ++ left.toList)
    (hunused : ∀ entry ∈ left, entry.1 ∉ moment.before.receipts.keys)
    (hleft : ∀ entry ∈ left, entry.2.roomEpoch = head.roomEpoch ∧ entry.2.acceptedSequence = 0)
    (hfresh : ∀ old ∈ heads (visited past moment.before), old.roomEpoch ≠ head.roomEpoch)
    (hzero : head.collaborationSequence = 0) : Recorded (moment :: past) room := by
  obtain ⟨hnone, haccepted', hunopened⟩ := h.unmet hfresh
  have hmem : ∀ old ∈ heads (visited past moment.before),
      old ∈ heads (visited (moment :: past) room) :=
    fun old hold => mem_heads_cons.mpr (.inr hold)
  have hnew : head ∈ heads (visited (moment :: past) room) := mem_heads_cons.mpr (.inl hhead)
  have hopened : openingOf (moment :: past) head.roomEpoch = some (head, left) := by
    rw [openingOf_cons, hopening, hunopened]
    simp [Option.filter]
  have hothers : ∀ epoch, head.roomEpoch ≠ epoch →
      openingOf (moment :: past) epoch = openingOf past epoch := by
    intro epoch hne
    rw [openingOf_cons, hopening]
    simp [Option.filter, hne]
  have hacceptances : ∀ epoch, acceptancesOf (moment :: past) epoch = acceptancesOf past epoch := by
    intro epoch
    simp [acceptancesOf_cons, haccepted]
  have hleftEpoch : ∀ epoch, head.roomEpoch ≠ epoch →
      left.toList.filter (fun entry => decide (entry.2.roomEpoch = epoch)) = [] := by
    intro epoch hne
    apply List.filter_eq_nil_iff.mpr
    intro entry hentry
    rw [(hleft entry (Option.mem_toList.mp hentry)).1]
    simpa using hne
  refine ⟨?_, ?_, ?_, ?_, ?_, ?_, ?_⟩
  · intro entry hentry
    rw [hreceipts] at hentry
    rcases List.mem_append.mp hentry with hentry | hentry
    · obtain ⟨old, hold, hold'⟩ := h.known entry hentry
      exact ⟨old, hmem old hold, hold'⟩
    · exact ⟨head, hnew, (hleft entry (Option.mem_toList.mp hentry)).1.symm⟩
  · intro epoch hne
    by_cases hcurrent : head.roomEpoch = epoch
    · exact ⟨head, hnew, hcurrent⟩
    · rw [hothers epoch hcurrent] at hne
      obtain ⟨old, hold, hold'⟩ := h.opened epoch hne
      exact ⟨old, hmem old hold, hold'⟩
  · rw [hreceipts]
    refine nodup_keys_append h.nodup ?_ (fun entry hentry =>
      hunused entry (Option.mem_toList.mp hentry))
    cases left <;> simp [Dict.keys]
  · rw [acceptances_cons, haccepted, hreceipts]
    simpa using h.logged.trans (List.sublist_append_left _ _)
  · intro epoch
    rw [hacceptances]
    unfold receiptsOf openingRows
    rw [hreceipts, List.filter_append]
    by_cases hcurrent : head.roomEpoch = epoch
    · subst hcurrent
      change receiptsOf head.roomEpoch moment.before ++ _ = _
      rw [hnone, haccepted', hopened]
      cases left with
      | none => rfl
      | some entry => simp [(hleft entry rfl).1]
    · rw [hothers epoch hcurrent, hleftEpoch epoch hcurrent, List.append_nil]
      exact h.receipts epoch
  · intro epoch
    rw [hacceptances]
    by_cases hcurrent : head.roomEpoch = epoch
    · subst hcurrent
      rw [haccepted', lastSequence_cons_head hhead, hzero]
      rfl
    · rw [h.sequences, lastSequence_cons_ne]
      intro new hnew'
      cases hhead.symm.trans hnew'
      exact hcurrent
  · intro epoch entry hentry
    by_cases hcurrent : head.roomEpoch = epoch
    · subst hcurrent
      rw [openingRows, hopened] at hentry
      exact (hleft entry (Option.mem_toList.mp hentry)).2
    · rw [openingRows, hothers epoch hcurrent] at hentry
      exact h.zero epoch entry hentry

variable {casefold : String → String} {destination : String → Option String}

theorem opening_of_opened (opening : Opening) (head : ProjectHead) (before after : Room) :
    Moment.opening ⟨before, .openProject opening head.roomEpoch,
      .ok (.created ⟨opening.project, head, (opening.receipt? hmac keyVersion head).map Prod.snd⟩),
      after⟩ = some (head, opening.receipt? hmac keyVersion head) := by
  unfold Moment.opening
  cases hcommand : opening.commandId <;> simp [Opening.receipt?, hcommand]

theorem History.recorded (h : History casefold destination hmac keyVersion past room) :
    Recorded past room := by
  refine h.induct ?_ ?_
  · refine ⟨by simp [Room.empty], by simp [openingOf], List.nodup_nil, List.Sublist.slnil,
      fun _ => rfl, fun _ => rfl, by simp [openingRows, openingOf]⟩
  intro past room moment _ ih hchange
  cases hchange with
  | quiet haccepted hopened =>
    exact Recorded.unrecorded ih haccepted hopened rfl (fun _ => lastSequence_cons_self)
  | accepted hhead hunused => exact ih.accepted hhead hunused rfl rfl
  | checkpointed hhead =>
    exact Recorded.unrecorded ih rfl rfl rfl (fun _ => lastSequence_cons_same hhead rfl rfl rfl)
  | restored _ _ _ _ _ _ _ hfresh hreopened =>
    subst hreopened
    exact Recorded.opens ih rfl rfl rfl (by simp [Room.checkpointed]) (by simp)
      (by simp) hfresh rfl
  | @opened opening head _ _ _ _ hunused _ hfresh hhead =>
    have hzero : head.collaborationSequence = 0 := by rw [hhead]
    refine Recorded.opens ih rfl (opening_of_opened opening head _ _) rfl rfl hunused ?_ hfresh
      hzero
    intro entry hentry
    obtain ⟨commandId, -, rfl⟩ := Option.map_eq_some_iff.mp hentry
    exact ⟨rfl, hzero⟩

end Records

variable {after : Room}

section Batches

variable {casefold destination hmac keyVersion} {next : Head} {head : ProjectHead} {name : String}
  {last : Head}

/-- Only a rename changes the name, and to the name it gives. -/
theorem applyProjectCommand_name {project : ProjectDocument} {command : ProjectCommand}
    (h : applyProjectCommand casefold destination name project command = .ok next) :
    next.1 = name ∨ ∃ expectedName, command = .renameProject next.1 expectedName := by
  cases applyProjectCommand_step h with
  | renameProject => exact .inr ⟨_, rfl⟩
  | _ => exact .inl rfl

theorem properName_applies {commands : List ProjectCommand} {head : Head}
    (h : Applies casefold destination commands head last) (hname : ProperName head.1)
    (hchecked : ∀ command ∈ commands, NamesChecked command) : ProperName last.1 := by
  induction h with
  | nil => exact hname
  | cons hnext _ ih =>
    apply ih ?_ (fun command hcommand => hchecked command (List.mem_cons_of_mem _ hcommand))
    rcases applyProjectCommand_name hnext with hsame | ⟨expectedName, rfl⟩
    · rw [hsame]
      exact hname
    · exact (hchecked _ (List.mem_cons_self ..)).1

/-- An accepted batch leaves the name as the batch has made it. -/
theorem validated_applied (hproper : ProperName head.name)
    (happlied : applyProjectCommands casefold destination head.name head.document
      submission.commands = .ok next) (hname : validatedProjectName next.1 = .ok name)
    (hchecked : ∀ command ∈ submission.commands, NamesChecked command) :
    name = next.1 ∧ ProperName name := by
  obtain ⟨-, happlies⟩ := applyProjectCommands_ok.mp happlied
  have hnext := properName_applies happlies hproper hchecked
  obtain rfl := hnext.validated.mp hname
  exact ⟨rfl, hnext⟩

theorem applyBatches_concat {batches : List (List ProjectCommand)} {batch : List ProjectCommand}
    {head middle : Head} (h : applyBatches casefold destination batches head = .ok middle)
    (hlast : applyProjectCommands casefold destination middle.1 middle.2 batch = .ok last) :
    applyBatches casefold destination (batches ++ [batch]) head = .ok last := by
  unfold applyBatches at *
  rw [List.foldlM_append, h]
  change [batch].foldlM (fun head batch =>
    applyProjectCommands casefold destination head.1 head.2 batch) middle = .ok last
  exact foldlM_cons_ok.mpr ⟨last, hlast, rfl⟩

/-- The head is what the batches of its epoch make of the epoch's opening. -/
structure Folded (casefold : String → String) (destination : String → Option String)
    (past : List Moment) (head : ProjectHead) : Prop where
  proper : ProperName head.name
  folded : ∃ opened, openingOf past head.roomEpoch = some opened ∧
    applyBatches casefold destination
        ((acceptancesOf past head.roomEpoch).map (fun accepted => accepted.1.commands))
        (opened.1.name, opened.1.document) = .ok (head.name, head.document)

/-- A call that records nothing leaves every fold as it was. -/
theorem Folded.unrecorded {moment : Moment} {same : ProjectHead}
    (h : Folded casefold destination past head) (haccepted : moment.acceptance = none)
    (hopened : moment.opening = none) (hepoch : same.roomEpoch = head.roomEpoch)
    (hname : same.name = head.name) (hdocument : same.document = head.document) :
    Folded casefold destination (moment :: past) same := by
  obtain ⟨opened, hopening, hfold⟩ := h.folded
  refine ⟨hname ▸ h.proper, opened, ?_, ?_⟩
  · rw [openingOf_cons, hopened, Option.filter_none, Option.or_none, hepoch]
    exact hopening
  · rw [acceptancesOf_cons, haccepted, hepoch, hname, hdocument]
    simpa using hfold

theorem Folded.accepted (h : Folded casefold destination past head) (hproper : ProperName next.1)
    (happlied : applyProjectCommands casefold destination head.name head.document
      submission.commands = .ok next) :
    Folded casefold destination
      (⟨room, .submitCommands submission, .ok (.submitted ⟨head.advanced next.1 next.2,
        submission.receipt hmac keyVersion (head.advanced next.1 next.2)⟩), after⟩ :: past)
      (head.advanced next.1 next.2) := by
  obtain ⟨opened, hopening, hfold⟩ := h.folded
  refine ⟨hproper, opened, ?_, ?_⟩
  · rw [openingOf_cons]
    change (openingOf past head.roomEpoch).or none = _
    rw [Option.or_none, hopening]
  · rw [acceptancesOf_cons]
    have hnew := applyBatches_concat hfold happlied
    simpa [Moment.acceptance, Submission.receipt, ProjectHead.advanced] using hnew

/-- An epoch that is being opened has no batches yet. -/
theorem Folded.opens {moment : Moment} (hrecorded : Recorded past moment.before)
    (hproper : ProperName head.name) (haccepted : moment.acceptance = none)
    (hopening : moment.opening = some (head, left))
    (hfresh : ∀ old ∈ heads (visited past moment.before), old.roomEpoch ≠ head.roomEpoch) :
    Folded casefold destination (moment :: past) head := by
  obtain ⟨-, hnone, hunopened⟩ := hrecorded.unmet hfresh
  refine ⟨hproper, (head, left), ?_, ?_⟩
  · rw [openingOf_cons, hopening, hunopened]
    simp [Option.filter]
  · rw [acceptancesOf_cons, haccepted, hnone]
    rfl

theorem History.folded (h : History casefold destination hmac keyVersion past room) :
    ∀ head, room.head = some head → Folded casefold destination past head := by
  refine h.induct (P := fun past room => ∀ head, room.head = some head →
    Folded casefold destination past head) ?_ ?_
  · intro head hhead
    cases hhead
  intro past room moment hpast ih hchange new hnew
  cases hchange with
  | quiet haccepted hopened => exact (ih new hnew).unrecorded haccepted hopened rfl rfl rfl
  | @accepted submission head next name hhead _ happlied hname hchecked =>
    cases hnew
    obtain ⟨rfl, hproper⟩ := validated_applied (ih head hhead).proper happlied hname hchecked
    exact (ih head hhead).accepted hproper happlied
  | @checkpointed _ head _ hhead =>
    cases hnew
    exact (ih head hhead).unrecorded rfl rfl rfl rfl rfl
  | restored _ _ _ _ hname _ _ hfresh hreopened =>
    cases hnew
    subst hreopened
    exact .opens hpast.recorded (properName_of_validated hname) rfl rfl hfresh
  | opened _ _ _ _ _ hproper hfresh =>
    cases hnew
    exact .opens hpast.recorded hproper rfl (opening_of_opened _ _ _ _) hfresh

end Batches

section ExactlyOnce

/-- An exactly-once, linear command history. Every epoch counts up from one, an
opening with a command id being recorded at zero; the present head is at the
last sequence of its epoch. -/
structure ExactlyOnce (casefold : String → String) (destination : String → Option String)
    (past : List Moment) (room : Room) : Prop where
  oneReceipt : room.receipts.keys.Nodup
  appliedOnce : ((acceptances past).map (fun accepted => accepted.1.commandId)).Nodup
  counted : ∀ epoch, (receiptsOf epoch room).map (fun entry => entry.2.acceptedSequence) =
    (openingRows past epoch).map (fun _ => 0) ++ List.range' 1 (lastSequence past epoch room)
  present : ∀ head, room.head = some head →
    lastSequence past head.roomEpoch room = head.collaborationSequence
  inOrder : ∀ epoch, (acceptancesOf past epoch).map (fun accepted => accepted.2.acceptedSequence) =
    List.range' 1 (lastSequence past epoch room)
  folded : ∀ head, room.head = some head → ∃ opened, openingOf past head.roomEpoch = some opened ∧
    applyBatches casefold destination
        ((acceptancesOf past head.roomEpoch).map (fun accepted => accepted.1.commands))
        (opened.1.name, opened.1.document) = .ok (head.name, head.document)
  unchanged : ∀ moment ∈ past, ∀ submission, moment.call = .submitCommands submission →
    moment.acceptance = none → moment.after = moment.before
  replayed : ∀ moment older, moment :: older <:+ past → ∀ submission answer,
    moment.call = .submitCommands submission → moment.result = .ok (.submitted answer) →
    answer.receipt.outcome = .idempotentReplay → ∃ first : ProjectCommandReceipt,
      (submission.commandId, first) ∈
        openingRows older first.roomEpoch ++ (acceptancesOf older first.roomEpoch).map row ∧
      answer.receipt.acceptedSequence = first.acceptedSequence

variable {casefold destination hmac keyVersion}
variable {past : List Moment} {room : Room}

/-- Every call of a history was made after an earlier one, and was refused or
answered by a transition. -/
theorem History.moment (h : History casefold destination hmac keyVersion past room) {before : Room}
    {call : Call} {result : Answered Answer} {older : List Moment}
    (hsuffix : ⟨before, call, result, after⟩ :: older <:+ past) :
    History casefold destination hmac keyVersion older before ∧
      ((∃ error, result = .error error ∧ after = before) ∨
        ∃ seen answer, result = .ok answer ∧ SeenAmong seen (visited older before) ∧
          Transition casefold destination hmac keyVersion seen before call answer after) := by
  induction h with
  | start => simp at hsuffix
  | @step past room access seen called hpast hseen _ _ ih =>
    rcases List.suffix_cons_iff.mp hsuffix with heq | hsuffix
    · obtain ⟨hmoment, rfl⟩ := List.cons.inj heq
      obtain ⟨rfl, rfl, rfl, rfl⟩ := Moment.mk.inj hmoment
      refine ⟨hpast, ?_⟩
      cases hresult : before.answer casefold destination hmac keyVersion access seen call with
      | error error => exact .inl ⟨error, rfl, rfl⟩
      | ok written => exact .inr ⟨seen, written.1, rfl, hseen, answer_transition hresult⟩
    · exact ih hsuffix

theorem History.unchanged (h : History casefold destination hmac keyVersion past room) :
    ∀ moment ∈ past, ∀ submission, moment.call = .submitCommands submission →
      moment.acceptance = none → moment.after = moment.before := by
  rintro ⟨before, call, result, after⟩ hmem submission hcall haccepted
  obtain ⟨newer, older, hsplit⟩ := List.append_of_mem hmem
  obtain ⟨-, ⟨error, -, hsame⟩ | ⟨seen, answer, rfl, -, htransition⟩⟩ :=
    h.moment ⟨newer, hsplit.symm⟩
  · exact hsame
  · obtain rfl : call = .submitCommands submission := hcall
    cases htransition with
    | replayed _ _ => rfl
    | accepted _ _ _ _ => cases haccepted

/-- A stored receipt is that of the opening or of an accepted batch. -/
theorem Recorded.first {commandId : Uuid} {receipt : ProjectCommandReceipt}
    (h : Recorded past room) (hreceipt : room.receipts.get? commandId = some receipt) :
    (commandId, receipt) ∈
      openingRows past receipt.roomEpoch ++ (acceptancesOf past receipt.roomEpoch).map row := by
  rw [← h.receipts]
  exact List.mem_filter.mpr ⟨Dict.mem_of_get? hreceipt, by simp⟩

theorem History.replayed (h : History casefold destination hmac keyVersion past room) :
    ∀ moment older, moment :: older <:+ past → ∀ submission answer,
      moment.call = .submitCommands submission → moment.result = .ok (.submitted answer) →
      answer.receipt.outcome = .idempotentReplay → ∃ first : ProjectCommandReceipt,
        (submission.commandId, first) ∈
          openingRows older first.roomEpoch ++ (acceptancesOf older first.roomEpoch).map row ∧
        answer.receipt.acceptedSequence = first.acceptedSequence := by
  rintro ⟨before, call, result, after⟩ older hsuffix submission answer hcall hresult houtcome
  obtain rfl : call = .submitCommands submission := hcall
  obtain rfl : result = .ok (.submitted answer) := hresult
  obtain ⟨hpast, ⟨error, herror, -⟩ | ⟨seen, answered, hanswered, -, htransition⟩⟩ :=
    h.moment hsuffix
  · cases herror
  · cases hanswered
    cases htransition with
    | @replayed _ head existing _ hreceipt =>
      exact ⟨existing, hpast.recorded.first hreceipt, rfl⟩
    | accepted _ _ _ _ => cases houtcome

theorem Recorded.counted (h : Recorded past room) (epoch : Uuid) :
    (receiptsOf epoch room).map (fun entry => entry.2.acceptedSequence) =
      (openingRows past epoch).map (fun _ => 0) ++
        List.range' 1 (lastSequence past epoch room) := by
  rw [h.receipts, List.map_append, ← h.sequences, List.map_map]
  congr 1
  exact List.map_congr_left (h.zero epoch)

/-- A Project opened with a command id. -/
def openedCall : Call :=
  .openProject ⟨"user", "project", ⟨"workspace", "draft", "user"⟩, ⟨[]⟩, [], some "opening"⟩ "epoch"

/-- A rename of it, which the client may send again. -/
def renamedCall : Call :=
  .submitCommands ⟨"user", "workspace", "project", "rename", 0, "epoch",
    [.renameProject "final" "draft"]⟩

def granted : Access := fun _ _ => .ok ()

/-- The state after a call that found the state it locked. -/
def afterCall (room : Room) (call : Call) : Answered Answer × Room :=
  commit room (room.answer id (fun _ => none) (fun _ => "") 1 granted room.glimpse call)

theorem History.next (call : Call) (h : History id (fun _ => none) (fun _ => "") 1 past room)
    (hfresh : ∀ epoch ∈ epoch? call, ∀ head ∈ heads (visited past room), head.roomEpoch ≠ epoch)
    (hbuilt : Built call) : History id (fun _ => none) (fun _ => "") 1
      (⟨room, call, (afterCall room call).1, (afterCall room call).2⟩ :: past)
      (afterCall room call).2 :=
  .step granted room.glimpse call h ⟨List.mem_cons_self .., List.mem_cons_self ..,
    List.mem_cons_self .., List.mem_cons_self ..⟩ hfresh hbuilt

def openedRoom : Room := (afterCall .empty openedCall).2

def renamedRoom : Room := (afterCall openedRoom renamedCall).2

def openedPast : List Moment := [⟨.empty, openedCall, (afterCall .empty openedCall).1, openedRoom⟩]

def renamedPast : List Moment :=
  ⟨renamedRoom, renamedCall, (afterCall renamedRoom renamedCall).1, renamedRoom⟩ ::
    ⟨openedRoom, renamedCall, (afterCall openedRoom renamedCall).1, renamedRoom⟩ :: openedPast

theorem properName_samples : ProperName "draft" ∧ ProperName "final" :=
  ⟨validatedProjectName_ok.mpr (by decide), validatedProjectName_ok.mpr (by decide)⟩

theorem openedRoom_history : History id (fun _ => none) (fun _ => "") 1 openedPast openedRoom :=
  History.next openedCall .start (by intro _ _ head hhead; cases hhead) properName_samples.1

theorem renamedRoom_history : History id (fun _ => none)
    (fun _ => "") 1 renamedPast renamedRoom := by
  have hbuilt : Built renamedCall := by
    intro command hcommand
    obtain rfl := List.mem_singleton.mp hcommand
    exact ⟨properName_samples.2, properName_samples.1⟩
  have hrenamed := History.next renamedCall openedRoom_history (by intro _ h; cases h) hbuilt
  exact History.next renamedCall hrenamed (by intro _ h; cases h) hbuilt

end ExactlyOnce

end Grafy.CommandHistory
