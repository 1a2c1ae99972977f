import Grafy.Reachability
import Grafy.RoomSession

/-!
The head of a session and the history of the server. The server's states follow
one another: a batch leads to the next sequence of an epoch, a restore opens an
epoch that has not been met. A session hears of them in any order, with loss
and repetition. The head it holds is always one of them; but since epochs have
no order on the client, a late head of an older epoch takes the place of a
newer one.
-/
namespace Grafy.RoomSession

open CommandOutbox Commands Reachability

variable {D : Type}

/-- One state of the server. -/
structure Entry (D : Type) where
  epoch : String
  sequence : ℕ
  name : String
  document : D

def Head.entry (head : Head D) : Entry D :=
  ⟨head.roomEpoch, head.collaborationSequence, head.name, head.document⟩

section History

variable (serverApply : String × D → List ProjectCommand → Option (String × D))

/-- The states of the server, newest first, and the batches it has announced. -/
inductive History : List (Entry D) → List AcceptedMessage → Prop
  | opened (entry : Entry D) : History [entry] []
  | accepted {entry : Entry D} {older : List (Entry D)} {announced : List AcceptedMessage}
      (h : History (entry :: older) announced) (commandId : String) {commands : List ProjectCommand}
      {content : String × D}
        (happly : serverApply (entry.name, entry.document) commands = some content) :
      History (⟨entry.epoch, entry.sequence + 1, content.1, content.2⟩ :: entry :: older)
        (⟨commandId, entry.epoch, entry.sequence + 1, commands⟩ :: announced)
  | restored {entries : List (Entry D)} {announced : List AcceptedMessage}
    (h : History entries announced)
      (entry : Entry D) (hfresh : ∀ older ∈ entries, older.epoch ≠ entry.epoch) :
      History (entry :: entries) announced

variable {serverApply} {entries : List (Entry D)} {announced : List AcceptedMessage}

section

variable (h : History serverApply entries announced)
include h

/-- Within an epoch the newer states have the higher sequences. -/
theorem History.rising :
    entries.Pairwise (fun newer older => older.epoch = newer.epoch →
      older.sequence < newer.sequence) := by
  induction h with
  | opened entry => exact List.pairwise_singleton _ _
  | accepted h commandId happly ih =>
    obtain ⟨hfirst, -⟩ := List.pairwise_cons.mp ih
    refine List.pairwise_cons.mpr ⟨?_, ih⟩
    intro older holder hepoch
    rcases List.mem_cons.mp holder with rfl | holder
    · exact Nat.lt_succ_self _
    · exact (hfirst older holder hepoch).trans (Nat.lt_succ_self _)
  | restored h entry hfresh ih =>
    refine List.pairwise_cons.mpr ⟨?_, ih⟩
    intro older holder hepoch
    exact absurd hepoch (hfresh older holder)

/-- An epoch and a sequence name one state. -/
theorem History.unique {a b : Entry D} (ha : a ∈ entries) (hb : b ∈ entries)
    (hepoch : a.epoch = b.epoch) (hsequence : a.sequence = b.sequence) : a = b := by
  have hrising := h.rising
  clear h
  induction entries with
  | nil => simp at ha
  | cons entry older ih =>
    obtain ⟨hfirst, hrest⟩ := List.pairwise_cons.mp hrising
    rcases List.mem_cons.mp ha with rfl | ha'
    · rcases List.mem_cons.mp hb with rfl | hb'
      · rfl
      · have hless := hfirst b hb' hepoch.symm
        omega
    · rcases List.mem_cons.mp hb with rfl | hb'
      · have hless := hfirst a ha' hepoch
        omega
      · exact ih ha' hb' hrest

/-- An announced batch led from one state to the next. -/
theorem History.announces {message : AcceptedMessage} (hmessage : message ∈ announced) :
    ∃ entry ∈ entries, ∃ content,
      serverApply (entry.name, entry.document) message.commands = some content ∧
      message.roomEpoch = entry.epoch ∧ message.sequence = entry.sequence + 1 ∧
      ⟨entry.epoch, entry.sequence + 1, content.1, content.2⟩ ∈ entries := by
  induction h with
  | opened entry => simp at hmessage
  | accepted h commandId happly ih =>
    rcases List.mem_cons.mp hmessage with rfl | hmessage
    · exact ⟨_, List.mem_cons_of_mem _ (List.mem_cons_self ..), _, happly, rfl, rfl,
        List.mem_cons_self ..⟩
    · obtain ⟨entry, hentry, content, hcontent, hepoch, hsequence, hnext⟩ := ih hmessage
      exact ⟨entry, List.mem_cons_of_mem _ hentry, content, hcontent, hepoch, hsequence,
        List.mem_cons_of_mem _ hnext⟩
  | restored h entry hfresh ih =>
    obtain ⟨held, hheld, content, hcontent, hepoch, hsequence, hnext⟩ := ih hmessage
    exact ⟨held, List.mem_cons_of_mem _ hheld, content, hcontent, hepoch, hsequence,
      List.mem_cons_of_mem _ hnext⟩

end

end History

section Heads

variable (throws : Throws) (session : Session D)

theorem writeSend_head (outcome : Outcome D) (effect : Effect) :
    (writeSend throws outcome effect).1.head = outcome.1.head := by
  unfold writeSend
  split
  · split <;> rfl
  · rfl

theorem writeSends_head (reply : Reply) : (writeSends throws session reply).1.head =
    session.head := by
  have hfold : ∀ (effects : List Effect) (outcome : Outcome D),
      (effects.foldl (writeSend throws) outcome).1.head = outcome.1.head := by
    intro effects
    induction effects with
    | nil => exact fun _ => rfl
    | cons effect rest ih =>
      intro outcome
      rw [List.foldl_cons, ih, writeSend_head]
  exact hfold reply.2 _

theorem finishRehydration_head : (finishRehydration throws session).1.head = session.head :=
  writeSends_head throws session _

/-- The head stays or becomes the one that is handed over. -/
theorem replaceHead_head (head : Head D) :
    (replaceHead throws head session).1.head = some head ∧
        shouldReplaceCollaborativeHead session.head head = true ∨
      (replaceHead throws head session).1.head = session.head ∧
        shouldReplaceCollaborativeHead session.head head = false := by
  unfold replaceHead
  split_ifs with hreplace hcovered
  · exact Or.inl ⟨finishRehydration_head throws _, hreplace⟩
  · exact Or.inr ⟨finishRehydration_head throws _, by simpa using hreplace⟩
  · exact Or.inr ⟨rfl, by simpa using hreplace⟩

/-- The head an event hands over. -/
def Event.carried : Event D → Option (Head D)
  | .message (.ready head _) => some head
  | .message (.rehydrate head) => some head
  | .replaceHead head => some head
  | .reconcileCheckpointHead checkpoint _ => some checkpoint
  | _ => none

def Event.reconciles : Event D → Bool
  | .reconcileCheckpointHead _ _ => true
  | _ => false

variable (applyRoomCommandsToHead : Head D → List ProjectCommand → ℕ → Option (Head D))

/-- What an event makes of the head: it keeps its place and content, it is the
head that was handed over, or the next batch is replayed on it. -/
inductive HeadStep (session : Session D) (event : Event D) : Option (Head D) → Prop
  | kept {head : Option (Head D)} (h : head.map Head.entry = session.head.map Head.entry) :
      HeadStep session event head
  | adopted {carried head : Head D} (hcarried : event.carried = some carried)
      (hentry : head.entry = carried.entry)
      (hreplace : shouldReplaceCollaborativeHead session.head carried = true)
      (hreconciles : event.reconciles = true →
        ∀ current, session.head = some current → current.roomEpoch = carried.roomEpoch) :
      HeadStep session event (some head)
  | replayed {message : AcceptedMessage} {current next : Head D}
      (hevent : event = .message (.accepted message)) (hcurrent : session.head = some current)
      (hepoch : message.roomEpoch = current.roomEpoch)
      (hsequence : message.sequence = current.collaborationSequence + 1)
      (hnext : applyRoomCommandsToHead current message.commands message.sequence = some next) :
      HeadStep session event (some next)

variable {applyRoomCommandsToHead} {session} {event : Event D}

theorem replaceHead_step {head : Head D} (hcarried : event.carried = some head)
    (hreconciles : event.reconciles = true → ∀ current, session.head = some current →
      current.roomEpoch = head.roomEpoch) :
    HeadStep applyRoomCommandsToHead session event (replaceHead throws head session).1.head := by
  rcases replaceHead_head throws session head with ⟨hhead, hreplace⟩ | ⟨hhead, -⟩
  · rw [hhead]
    exact .adopted hcarried rfl hreplace hreconciles
  · rw [hhead]
    exact .kept rfl

theorem applyReady_step (head : Head D) (mayEdit : Bool) :
    HeadStep applyRoomCommandsToHead session (.message (.ready head mayEdit))
      (applyReady throws head mayEdit session).1.head := by
  unfold applyReady
  simp only
  rw [finishRehydration_head]
  cases hcurrent : session.head with
  | none =>
    exact .adopted rfl rfl (by simp [hcurrent, shouldReplaceCollaborativeHead])
      (by simp [Event.reconciles])
  | some current =>
    simp only
    split_ifs with hreplace
    · exact .adopted rfl rfl (by rw [hcurrent]; exact hreplace) (by simp [Event.reconciles])
    · exact .kept (by rw [hcurrent])

theorem applyRehydrate_step (head : Head D) :
    HeadStep applyRoomCommandsToHead session (.message (.rehydrate head))
      (applyRehydrate throws head session).1.head := by
  unfold applyRehydrate
  split_ifs with hkept
  · exact .kept rfl
  · rw [finishRehydration_head]
    refine .adopted rfl rfl ?_ (by simp [Event.reconciles])
    cases hcurrent : session.head with
    | none => rfl
    | some current => simpa [hcurrent] using hkept

theorem applyAccepted_step (message : AcceptedMessage) :
    HeadStep applyRoomCommandsToHead session (.message (.accepted message))
      (applyAccepted throws applyRoomCommandsToHead message session).1.head := by
  unfold applyAccepted refreshHead
  simp only
  split
  · exact .kept rfl
  · rename_i head hcurrent
    split_ifs with hepoch hold hgap
    · exact .kept rfl
    · exact .kept rfl
    · exact .kept rfl
    · split
      · exact .kept rfl
      · rename_i next hnext
        rw [writeSends_head]
        exact .replayed rfl hcurrent (not_not.mp hepoch) (not_not.mp hgap) hnext

/-- Only the place and the content of a head that was not replayed matter. -/
theorem HeadStep.of_entry {head head' : Option (Head D)}
    (h : HeadStep applyRoomCommandsToHead session event head) (hcarries : event.carried ≠ none)
    (hentry : head'.map Head.entry = head.map Head.entry) :
    HeadStep applyRoomCommandsToHead session event head' := by
  cases h with
  | kept hkept => exact .kept (hentry.trans hkept)
  | adopted hcarried hsame hreplace hreconciles =>
    cases head' with
    | none => simp at hentry
    | some head' =>
      have hsame' := Option.some.inj hentry
      exact .adopted hcarried (hsame'.trans hsame) hreplace hreconciles
  | replayed hevent =>
    subst hevent
    simp [Event.carried] at hcarries

/-- The merged head is the one in place, with the later checkpoint. -/
theorem reconcile_step {checkpoint : Head D} {expected : String} {outcome : Outcome D}
    (h : reconcileCheckpointHead throws checkpoint expected session = .ok outcome) :
    HeadStep applyRoomCommandsToHead session (.reconcileCheckpointHead checkpoint expected)
      outcome.1.head := by
  unfold reconcileCheckpointHead at h
  split at h
  · cases h
  · rename_i current hcurrent
    split_ifs at h with hother hmismatch
    · cases h
      exact .kept rfl
    · have hepoch : current.roomEpoch = checkpoint.roomEpoch :=
        (not_not.mp hother).trans (not_not.mp hmismatch).symm
      have hreplaced : HeadStep applyRoomCommandsToHead session
          (.reconcileCheckpointHead checkpoint expected)
            (replaceHead throws checkpoint session).1.head := by
        refine replaceHead_step throws rfl ?_
        rintro - other hsome
        cases hcurrent.symm.trans hsome
        exact hepoch
      simp only at h
      split at h
      · cases h
      · rename_i effective heffective
        rw [heffective] at hreplaced
        split_ifs at h with hmerges
        · cases h
          refine hreplaced.of_entry (by simp [Event.carried]) ?_
          rcases replaceHead_head throws (replaceHead throws checkpoint session).1 { effective with
              checkpointSequence := checkpoint.checkpointSequence
              checkpointRevision := checkpoint.checkpointRevision } with ⟨hhead, -⟩ | ⟨hhead, -⟩
          · rw [hhead]
            rfl
          · rw [hhead, heffective]
        · cases h
          rw [heffective]
          exact hreplaced

theorem handle_step (event : Event D) : HeadStep applyRoomCommandsToHead session event
    (session.handle applyRoomCommandsToHead throws event).1.head := by
  cases event with
  | submitCommands commandId commands =>
    simp only [Session.handle, submitCommands]
    split_ifs
    · exact .kept (by rw [writeSends_head])
    · exact .kept rfl
  | message message =>
    simp only [Session.handle]
    split
    · exact .kept rfl
    · cases message with
      | ready head mayEdit => exact applyReady_step throws head mayEdit
      | rehydrate head => exact applyRehydrate_step throws head
      | accepted message => exact applyAccepted_step throws message
      | receipt message => exact .kept (by simp only [handleMessage, writeSends_head])
      | rejected message => exact .kept rfl
  | replaceHead head => exact replaceHead_step throws rfl (by simp [Event.reconciles])
  | reconcileCheckpointHead checkpoint expected =>
    simp only [Session.handle]
    split
    · exact .kept rfl
    · rename_i outcome houtcome
      exact reconcile_step throws houtcome
  | openSocket =>
    simp only [Session.handle, openSocket]
    split_ifs <;> exact .kept rfl
  | retry =>
    simp only [Session.handle, retry, openSocket]
    split_ifs <;> exact .kept rfl
  | _ => exact .kept rfl

end Heads

section Runs

variable (applyRoomCommandsToHead : Head D → List ProjectCommand → ℕ → Option (Head D))

/-- An event beside what the transport throws at its frames. -/
def Session.step (session : Session D) (turn : Throws × Event D) : Option (Session D) :=
  some (session.handle applyRoomCommandsToHead turn.1 turn.2).1

/-- What the room and the snapshots say is true of the server at some time. -/
def Hears (entries : List (Entry D)) (announced : List AcceptedMessage) (turn : Throws × Event D) :
    Prop :=
  (∀ head, turn.2.carried = some head → head.entry ∈ entries) ∧
    ∀ message, turn.2 = .message (.accepted message) → message ∈ announced

/-- Replaying a batch on a head of the server gives the head the server has next. -/
def Agrees (serverApply : String × D → List ProjectCommand → Option (String × D)) : Prop :=
  ∀ head commands sequence content next, serverApply (head.name, head.document) commands =
    some content →
    applyRoomCommandsToHead head commands sequence = some next →
    next.entry = ⟨head.roomEpoch, sequence, content.1, content.2⟩

end Runs

section Counting

/-- A document that counts the commands applied to it. -/
def countCommands (content : String × ℕ) (commands : List ProjectCommand) : Option (String × ℕ) :=
  some (content.1, content.2 + commands.length)

def countCommandsOnHead (head : Head ℕ) (commands : List ProjectCommand) (sequence : ℕ) :
    Option (Head ℕ) :=
  some { head with collaborationSequence := sequence, document := head.document + commands.length }

theorem countCommands_agrees : Agrees countCommandsOnHead countCommands := by
  intro head commands sequence content next hserver hclient
  cases hserver
  cases hclient
  rfl

def countHead (epoch : String) (sequence document : ℕ) : Head ℕ :=
  ⟨epoch, sequence, "Project", document, 0, 0⟩

def firstBatch : AcceptedMessage := ⟨"first", "a", 1, [.renameProject "Project" "Project"]⟩

/-- One batch in the epoch `a`, then a restore that opens `b`. -/
def countEntries : List (Entry ℕ) :=
  [⟨"b", 0, "Project", 0⟩, ⟨"a", 1, "Project", 1⟩, ⟨"a", 0, "Project", 0⟩]

theorem countEntries_history : History countCommands countEntries [firstBatch] := by
  have hbatch : countCommands ("Project", 0) firstBatch.commands = some ("Project", 1) := rfl
  have hfirst : History countCommands [⟨"a", 1, "Project", 1⟩, ⟨"a", 0, "Project", 0⟩]
    [firstBatch] :=
    .accepted (.opened ⟨"a", 0, "Project", 0⟩) "first" hbatch
  exact .restored hfirst ⟨"b", 0, "Project", 0⟩ (by simp)

def calm (event : Event ℕ) : Throws × Event ℕ := (fun _ => none, event)

/-- The session hears of the batch before it hears of the head a second time. -/
def hearing : List (Throws × Event ℕ) :=
  [calm .openSocket, calm (.setSocket .opened), calm (.message (.ready (countHead "a" 0 0) true)),
    calm (.message (.accepted firstBatch)), calm (.message (.rehydrate (countHead "a" 0 0))),
    calm (.replaceHead (countHead "a" 0 0))]

end Counting

section Agreement

variable {applyRoomCommandsToHead : Head D → List ProjectCommand → ℕ → Option (Head D)}
variable {serverApply : String × D → List ProjectCommand → Option (String × D)}
variable {entries : List (Entry D)} {announced : List AcceptedMessage} {session : Session D}

/-- The head, if there is one, is a state of the server. -/
def Session.Holds (entries : List (Entry D)) (session : Session D) : Prop :=
  ∀ head, session.head = some head → head.entry ∈ entries

section

variable (hhistory : History serverApply entries announced)
  (hagrees : Agrees applyRoomCommandsToHead serverApply)
include hhistory hagrees

/-- The batch that is replayed is the one the server accepted in the state the
session holds. -/
theorem replayed_entry {message : AcceptedMessage} (hmessage : message ∈ announced)
    {current next : Head D} (hcurrent : current.entry ∈ entries)
    (hepoch : message.roomEpoch = current.roomEpoch)
    (hsequence : message.sequence = current.collaborationSequence + 1)
    (hnext : applyRoomCommandsToHead current message.commands message.sequence = some next) :
    next.entry ∈ entries ∧ next.roomEpoch = current.roomEpoch ∧
      next.collaborationSequence = current.collaborationSequence + 1 := by
  obtain ⟨entry, hentry, content, happly, hepoch', hsequence', hmem⟩ := hhistory.announces hmessage
  obtain rfl : entry = current.entry := by
    refine hhistory.unique hentry hcurrent (hepoch'.symm.trans hepoch) ?_
    simp only [Head.entry]
    omega
  have hafter := hagrees current message.commands message.sequence content next happly hnext
  rw [hsequence'] at hafter
  refine ⟨hafter ▸ hmem, congrArg Entry.epoch hafter, congrArg Entry.sequence hafter⟩

theorem HeadStep.holds (hholds : session.Holds entries) {turn : Throws × Event D}
    (hhears : Hears entries announced turn) {head : Option (Head D)}
    (h : HeadStep applyRoomCommandsToHead session turn.2 head) :
    ∀ held, head = some held → held.entry ∈ entries := by
  intro held hheld
  cases h with
  | kept hkept =>
    rw [hheld] at hkept
    obtain ⟨current, hcurrent, hentry⟩ := Option.map_eq_some_iff.mp hkept.symm
    rw [← hentry]
    exact hholds current hcurrent
  | adopted hcarried hentry =>
    cases hheld
    rw [hentry]
    exact hhears.1 _ hcarried
  | replayed hevent hcurrent hepoch hsequence hnext =>
    cases hheld
    exact (replayed_entry hhistory hagrees (hhears.2 _ hevent)
      (hholds _ hcurrent) hepoch hsequence hnext).1

theorem holds_of_reachable
    (h : Reachable (Session.step applyRoomCommandsToHead) (fun _ turn => Hears entries announced
      turn) .initial session) : session.Holds entries := by
  refine h.invariant (I := Session.Holds entries) (by simp [Session.Holds, Session.initial]) ?_
  intro s turn s' hs hhears hstep
  cases hstep
  exact (handle_step turn.1 turn.2).holds hhistory hagrees hs hhears

end

/-- The head a session holds carries the name and the document the server has,
or had, at its epoch and sequence. -/
theorem head_agrees (hhistory : History serverApply entries announced)
    (hagrees : Agrees applyRoomCommandsToHead serverApply)
    (h : Reachable (Session.step applyRoomCommandsToHead)
      (fun _ turn => Hears entries announced turn)
      .initial session) {head : Head D} (hhead : session.head = some head) :
    head.entry ∈ entries ∧ ∀ entry ∈ entries, entry.epoch = head.roomEpoch →
      entry.sequence = head.collaborationSequence →
      entry.name = head.name ∧ entry.document = head.document := by
  have hholds := holds_of_reachable hhistory hagrees h
  refine ⟨hholds head hhead, ?_⟩
  intro entry hentry hepoch hsequence
  obtain rfl := hhistory.unique hentry (hholds head hhead) hepoch hsequence
  exact ⟨rfl, rfl⟩

/-- The batch overtakes a repeated room message, and a late snapshot is ignored. -/
theorem counted_head_agrees :
    ∃ session head, Reachable (Session.step countCommandsOnHead)
        (fun _ turn => Hears countEntries [firstBatch] turn) .initial session ∧
      session.head = some head ∧ head.roomEpoch = "a" ∧ head.collaborationSequence = 1 ∧
      head.document = 1 ∧ head.entry ∈ countEntries := by
  have hears : ∀ turn ∈ hearing, Hears countEntries [firstBatch] turn := by
    simp [hearing, calm, Hears, Event.carried, countEntries, countHead, Head.entry]
  obtain ⟨session, hreached, htest⟩ := exists_reachable (Session.step countCommandsOnHead)
    (fun _ turn => Hears countEntries [firstBatch] turn) (fun _ _ => true) .initial hearing
    (fun s => decide (s.head = some (countHead "a" 1 1))) (fun turn hturn _ _ => hears turn hturn)
      (by decide)
  have hhead := of_decide_eq_true htest
  exact ⟨session, _, hreached, hhead, rfl, rfl, rfl,
    (head_agrees countEntries_history countCommands_agrees hreached hhead).1⟩

end Agreement

section Places

/-- How many states there are up to the newest one that is looked for. -/
def height (found : Entry D → Bool) : List (Entry D) → ℕ
  | [] => 0
  | entry :: older => if found entry then older.length + 1 else height found older

/-- The place of a state in the history of the server. -/
def position (entries : List (Entry D)) (entry : Entry D) : ℕ :=
  height (fun other => other.epoch = entry.epoch ∧ other.sequence = entry.sequence) entries

/-- The place at which an epoch ends. -/
def epochEnd (entries : List (Entry D)) (epoch : String) : ℕ :=
  height (fun other => other.epoch = epoch) entries

variable {serverApply : String × D → List ProjectCommand → Option (String × D)}
variable {entries older : List (Entry D)} {announced : List AcceptedMessage} {entry a b : Entry D}
  {epoch : String}

theorem height_le (found : Entry D → Bool) (entries : List (Entry D)) :
    height found entries ≤ entries.length := by
  induction entries with
  | nil => exact le_rfl
  | cons entry older ih =>
    unfold height
    split_ifs
    · exact le_rfl
    · exact ih.trans (Nat.le_succ _)

theorem position_self : position (entry :: older) entry = older.length + 1 := by
  simp [position, height]

theorem position_older (hne : ¬ (entry.epoch = a.epoch ∧ entry.sequence = a.sequence)) :
    position (entry :: older) a = position older a := by
  simp [position, height, hne]

theorem epochEnd_self (h : entry.epoch = epoch) :
    epochEnd (entry :: older) epoch = older.length + 1 := by
  simp [epochEnd, height, h]

theorem epochEnd_older (h : entry.epoch ≠ epoch) :
    epochEnd (entry :: older) epoch = epochEnd older epoch := by
  simp [epochEnd, height, h]

/-- Within an epoch the places follow the sequences. -/
theorem History.position_le_of_sequence (h : History serverApply entries announced)
    (ha : a ∈ entries)
    (hb : b ∈ entries) (hepoch : a.epoch = b.epoch) (hsequence : a.sequence ≤ b.sequence) :
    position entries a ≤ position entries b := by
  have hrising := h.rising
  clear h
  induction entries with
  | nil => simp at ha
  | cons entry older ih =>
    obtain ⟨hfirst, hrest⟩ := List.pairwise_cons.mp hrising
    rcases List.mem_cons.mp hb with rfl | hb'
    · rw [position_self]
      exact height_le _ _
    have hlater := hfirst b hb'
    rcases List.mem_cons.mp ha with rfl | ha'
    · have hless := hlater hepoch.symm
      omega
    -- neither is the newest state, whose sequence is above both of theirs
    have hlater' := hfirst a ha'
    rw [position_older, position_older]
    · exact ih ha' hb' hrest
    · rintro ⟨hsame, hequal⟩
      have hless := hlater hsame.symm
      omega
    · rintro ⟨hsame, hequal⟩
      have hless := hlater' hsame.symm
      omega

theorem position_le_cons : position older a ≤ position (entry :: older) a := by
  simp only [position, height]
  split_ifs
  · exact (height_le _ _).trans (Nat.le_succ _)
  · exact le_rfl

/-- One more state, which opens an epoch or goes on with the one before it. -/
theorem position_le_of_epoch_cons (ha : a ∈ entry :: older) (hb : b ∈ entry :: older)
    (hne : a.epoch ≠ b.epoch)
    (hends : epochEnd (entry :: older) a.epoch ≤ epochEnd (entry :: older) b.epoch)
    (hlast : b ∈ older → entry.epoch = b.epoch → epochEnd older b.epoch = older.length)
    (ih : a ∈ older → b ∈ older → epochEnd older a.epoch ≤ epochEnd older b.epoch →
      position older a ≤ position older b) :
    position (entry :: older) a ≤ position (entry :: older) b := by
  have hbound : ∀ epoch, epochEnd older epoch ≤ older.length := fun epoch => height_le _ _
  rcases List.mem_cons.mp hb with rfl | hb'
  · rw [position_self]
    exact height_le _ _
  by_cases haepoch : entry.epoch = a.epoch
  · -- the epoch of `a` is still open, so no other one ends later
    rw [epochEnd_self haepoch, epochEnd_older (by rw [haepoch]; exact hne)] at hends
    have hless := hbound b.epoch
    omega
  · have ha' : a ∈ older := (List.mem_cons.mp ha).resolve_left
      (fun hsame => haepoch (by rw [hsame]))
    rw [position_older (fun hsame => haepoch hsame.1)]
    refine le_trans (ih ha' hb' ?_) position_le_cons
    by_cases hbepoch : entry.epoch = b.epoch
    · rw [hlast hb' hbepoch]
      exact hbound a.epoch
    · rwa [epochEnd_older haepoch, epochEnd_older hbepoch] at hends

/-- An epoch is left for good: the states of an epoch that ends later come later. -/
theorem History.position_le_of_epoch (h : History serverApply entries announced) (ha : a ∈ entries)
    (hb : b ∈ entries) (hne : a.epoch ≠ b.epoch)
    (hends : epochEnd entries a.epoch ≤ epochEnd entries b.epoch) :
    position entries a ≤ position entries b := by
  induction h with
  | opened entry =>
    obtain rfl := List.mem_singleton.mp ha
    obtain rfl := List.mem_singleton.mp hb
    exact le_rfl
  | accepted h commandId happly ih =>
    refine position_le_of_epoch_cons ha hb hne hends ?_ ih
    intro _ hepoch
    exact epochEnd_self hepoch
  | restored h entry hfresh ih =>
    refine position_le_of_epoch_cons ha hb hne hends ?_ ih
    intro hb' hepoch
    exact absurd hepoch.symm (hfresh b hb')

variable (entries) in
/-- The place of the session's head, 0 while there is none. -/
def Session.position (session : Session D) : ℕ :=
  match session.head with
  | none => 0
  | some head => RoomSession.position entries head.entry

/-- No head of an epoch that ended before the one the session is in is handed
over, other than as a checkpoint to reconcile. -/
def Forward (entries : List (Entry D)) (session : Session D) (turn : Throws × Event D) : Prop :=
  ∀ carried current, turn.2.carried = some carried → session.head = some current →
    turn.2.reconciles = false → epochEnd entries current.roomEpoch ≤
      epochEnd entries carried.roomEpoch

variable {applyRoomCommandsToHead : Head D → List ProjectCommand → ℕ → Option (Head D)}
variable {session session' : Session D} {turn : Throws × Event D}

theorem HeadStep.position_le (hhistory : History serverApply entries announced)
    (hagrees : Agrees applyRoomCommandsToHead serverApply) (hholds : session.Holds entries)
    (hhears : Hears entries announced turn) (hforward : Forward entries session turn)
    (h : HeadStep applyRoomCommandsToHead session turn.2 session'.head) :
    session.position entries ≤ session'.position entries := by
  cases hcurrent : session.head with
  | none => simp [Session.position, hcurrent]
  | some current =>
    have hmem := hholds current hcurrent
    generalize hhead : session'.head = head' at h
    cases h with
    | kept hkept =>
      rw [hcurrent] at hkept
      obtain ⟨head, rfl, hentry⟩ := Option.map_eq_some_iff.mp hkept
      simp [Session.position, hcurrent, hhead, hentry]
    | adopted hcarried hentry hreplace hreconciles =>
      rename_i carried head
      simp only [Session.position, hcurrent, hhead, hentry]
      have hmem' := hhears.1 carried hcarried
      by_cases hepoch : current.roomEpoch = carried.roomEpoch
      · refine hhistory.position_le_of_sequence hmem hmem' hepoch ?_
        simpa [hcurrent, shouldReplaceCollaborativeHead, hepoch, Head.entry] using hreplace
      · refine hhistory.position_le_of_epoch hmem hmem' hepoch ?_
        refine hforward carried current hcarried hcurrent ?_
        by_contra hsome
        exact hepoch (hreconciles (by simpa using hsome) current hcurrent)
    | replayed hevent hsame hepoch hsequence hnext =>
      cases hcurrent.symm.trans hsame
      obtain ⟨hmem', hepoch', hsequence'⟩ :=
        replayed_entry hhistory hagrees (hhears.2 _ hevent) hmem hepoch hsequence hnext
      simp only [Session.position, hcurrent, hhead]
      refine hhistory.position_le_of_sequence hmem hmem' hepoch'.symm ?_
      simp only [Head.entry, hsequence']
      exact Nat.le_succ _

/-- As long as no head of an older epoch is handed over late, the head of a
session never goes back in the history of the server. -/
theorem position_never_falls (hhistory : History serverApply entries announced)
    (hagrees : Agrees applyRoomCommandsToHead serverApply)
    (h : Reachable (Session.step applyRoomCommandsToHead)
      (fun s turn => Hears entries announced turn ∧ Forward entries s turn) .initial session)
    (h' : Reachable (Session.step applyRoomCommandsToHead)
      (fun s turn => Hears entries announced turn ∧ Forward entries s turn) session session') :
    session.position entries ≤ session'.position entries := by
  have hholds : session.Holds entries :=
    holds_of_reachable hhistory hagrees (h.mono (fun _ _ hmeets => hmeets.1))
  have hkept : session'.Holds entries ∧ session.position entries ≤ session'.position entries := by
    refine h'.invariant (I := fun s => s.Holds entries ∧
      session.position entries ≤ s.position entries)
      ⟨hholds, le_rfl⟩ ?_
    rintro s turn s' ⟨hs, hle⟩ ⟨hhears, hforward⟩ hstep
    cases hstep
    have hhead : HeadStep applyRoomCommandsToHead s turn.2
        (s.handle applyRoomCommandsToHead turn.1 turn.2).1.head := handle_step turn.1 turn.2
    exact ⟨hhead.holds hhistory hagrees hs hhears,
      hle.trans (hhead.position_le hhistory hagrees hs hhears hforward)⟩
  exact hkept.2

/-- The condition, computed. -/
def forward (entries : List (Entry D)) (session : Session D) (turn : Throws × Event D) : Bool :=
  match turn.2.carried, session.head with
  | some carried, some current => turn.2.reconciles ||
      decide (epochEnd entries current.roomEpoch ≤ epochEnd entries carried.roomEpoch)
  | _, _ => true

theorem forward_sound (h : forward entries session turn = true) : Forward entries session turn := by
  intro carried current hcarried hcurrent hreconciles
  simpa [forward, hcarried, hcurrent, hreconciles] using h

/-- The restore's head takes the place of the one before it and stays when that
one is handed in as a late checkpoint. -/
def restoring : List (Throws × Event ℕ) :=
  [calm (.message (.rehydrate (countHead "b" 0 0))),
    calm (.reconcileCheckpointHead (countHead "a" 1 1) "a")]

theorem restored_head_stays :
    ∃ session session', Reachable (Session.step countCommandsOnHead) (fun s turn =>
        Hears countEntries [firstBatch] turn ∧ Forward countEntries s turn) .initial session ∧
      Reachable (Session.step countCommandsOnHead) (fun s turn =>
        Hears countEntries [firstBatch] turn ∧ Forward countEntries s turn) session session' ∧
      session.head = some (countHead "a" 1 1) ∧ session'.head = some (countHead "b" 0 0) ∧
      session.position countEntries ≤ session'.position countEntries := by
  have hears : ∀ turn ∈ hearing ++ restoring, Hears countEntries [firstBatch] turn := by
    simp [hearing, restoring, calm, Hears, Event.carried, countEntries, countHead, Head.entry]
  obtain ⟨session, hreached, htest⟩ := exists_reachable (Session.step countCommandsOnHead)
    (fun s turn => Hears countEntries [firstBatch] turn ∧ Forward countEntries s turn)
    (forward countEntries) .initial hearing
    (fun s => decide (s.head = some (countHead "a" 1 1)) &&
      (execute (Session.step countCommandsOnHead) (forward countEntries) s restoring).any
        (fun s' : Session ℕ => decide (s'.head = some (countHead "b" 0 0))))
    (fun turn hturn _ h => ⟨hears turn (List.mem_append_left _ hturn), forward_sound h⟩) (by decide)
  obtain ⟨hhead, hnext⟩ := Bool.and_eq_true_iff.mp htest
  obtain ⟨session', hreached', htest'⟩ := exists_reachable (Session.step countCommandsOnHead)
    (fun s turn => Hears countEntries [firstBatch] turn ∧ Forward countEntries s turn)
    (forward countEntries) session restoring
      (fun s' : Session ℕ => decide (s'.head = some (countHead "b" 0 0)))
    (fun turn hturn _ h => ⟨hears turn (List.mem_append_right _ hturn), forward_sound h⟩) hnext
  exact ⟨session, session', hreached, hreached', of_decide_eq_true hhead, of_decide_eq_true htest',
    position_never_falls countEntries_history countCommands_agrees hreached hreached'⟩

/-- A snapshot of the old epoch that comes after the restore's head replaces it. -/
theorem late_snapshot_goes_back :
    ∃ session session', Reachable (Session.step countCommandsOnHead)
        (fun _ turn => Hears countEntries [firstBatch] turn) .initial session ∧
      Reachable (Session.step countCommandsOnHead)
        (fun _ turn => Hears countEntries [firstBatch] turn) session session' ∧
      session.head = some (countHead "b" 0 0) ∧ session'.head = some (countHead "a" 0 0) ∧
      session'.position countEntries < session.position countEntries := by
  obtain ⟨session, hreached, htest⟩ := exists_reachable (Session.step countCommandsOnHead)
    (fun _ turn => Hears countEntries [firstBatch] turn) (fun _ _ => true) .initial
    [calm .openSocket, calm (.setSocket .opened), calm (.message (.ready (countHead "b" 0 0) true))]
    (fun s => decide (s.head = some (countHead "b" 0 0)))
    (by simp [calm, Hears, Event.carried, countEntries, countHead, Head.entry]) (by decide)
  have hhead := of_decide_eq_true htest
  have hlate :
    (session.handle countCommandsOnHead (fun _ => none) (.replaceHead (countHead "a" 0 0))).1.head =
      some (countHead "a" 0 0) := by
    rcases replaceHead_head (fun _ => none) session (countHead "a" 0 0) with ⟨hnew, -⟩ | ⟨-, hkept⟩
    · exact hnew
    · rw [hhead] at hkept
      exact absurd hkept (by decide)
  refine ⟨session, _, hreached, .next (a := calm (.replaceHead (countHead "a" 0 0))) .start ?_ rfl,
    hhead, hlate, ?_⟩
  · simp [calm, Hears, Event.carried, countEntries, countHead, Head.entry]
  · simp only [Session.position, hhead, calm, hlate]
    decide

end Places

end Grafy.RoomSession
