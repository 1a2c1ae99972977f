import Grafy.RoomHub
import Mathlib.Data.List.Nodup

/-!
A session that joins a room misses nothing. It is registered before it reads the
head, and a batch is published after it is committed: a publication that took
its list of sessions too early is of a batch the head already has. Its queue is
held back until `room.ready` is on the wire.
-/
namespace Grafy.RoomHub

open Reachability

variable {me : String} {room room' : Room} {action : Action}

variable {frames : List Frame}

section Enqueueing

/-- The session is closed, with some of the frames in its queue. -/
structure Shut (me : String) (frames : List Frame) (room room' : Room) : Prop where
  store : room'.store = room.store
  publications : room'.publications = room.publications
  members : room'.members = room.members ∨ room'.members = room.members.filter (· ≠ me)
  progress : room'.session.progress = room.session.progress
  sender : room'.session.sender = room.session.sender
  delivered : room'.session.delivered = room.session.delivered
  outbound : ∀ frame ∈ room'.session.outbound, frame ∈ room.session.outbound ++ frames
  closed : room'.session.closed = true

/-- What frames put into the queue of the session do: it is closed already, they
are all put there, or the queue overruns and the session is closed. -/
inductive Enqueued (me : String) (frames : List Frame) (room : Room) : Room → Prop
  | closed {room' : Room} (hshut : Shut me frames room room') : Enqueued me frames room room'
  | pushed (hopen : room.session.closed = false) : Enqueued me frames room
      { room with session := { room.session with outbound := room.session.outbound ++ frames } }

theorem enqueue_enqueued (me : String) (frame : Frame) (room : Room) :
    Enqueued me [frame] room (enqueue me frame room) := by
  unfold enqueue
  split_ifs with hclosed hspace
  · exact .closed ⟨rfl, rfl, Or.inl rfl, rfl, rfl, rfl, fun _ h => List.mem_append_left _ h,
      hclosed⟩
  · exact .pushed (by simpa using hclosed)
  · exact .closed ⟨rfl, rfl, Or.inr rfl, rfl, rfl, rfl, fun _ h => List.mem_append_left _ h, rfl⟩

theorem Enqueued.enqueue (h : Enqueued me frames room room') (frame : Frame) :
    Enqueued me (frames ++ [frame]) room (enqueue me frame room') := by
  have hmore := enqueue_enqueued me frame room'
  cases h with
  | closed hshut =>
    have hsame : RoomHub.enqueue me frame room' = room' := by
      unfold RoomHub.enqueue
      rw [if_pos hshut.closed]
    rw [hsame]
    refine .closed { hshut with outbound := ?_ }
    intro waiting hwaiting
    rcases List.mem_append.mp (hshut.outbound waiting hwaiting) with hold | hnew
    · exact List.mem_append_left _ hold
    · exact List.mem_append_right _ (List.mem_append_left _ hnew)
  | pushed hopen =>
    generalize hafter : RoomHub.enqueue me frame _ = after at hmore
    cases hmore with
    | closed hshut =>
      refine .closed { hshut with outbound := ?_ }
      intro waiting hwaiting
      simpa using hshut.outbound waiting hwaiting
    | pushed _ =>
      have hpushed : Enqueued me (frames ++ [frame]) room _ := .pushed hopen
      rw [← List.append_assoc] at hpushed
      exact hpushed

/-- The frames that a publication places in a queue. -/
def Served (i : ℕ) (batch : Place) (frames : List Frame) : Prop :=
  frames = [.accepted i batch] ∨ frames = [.accepted i batch, .receipt i]

theorem serve_enqueued (me : String) (i : ℕ) (batch : Place) (receiptSessionId : Option String)
    (room : Room) :
    ∃ frames, Served i batch frames ∧ Enqueued me frames room
      (serve me i batch receiptSessionId me room) := by
  unfold serve
  rw [if_pos rfl]
  simp only
  split_ifs with hreceipt
  · exact ⟨_, Or.inr rfl, (enqueue_enqueued me _ room).enqueue _⟩
  · exact ⟨_, Or.inl rfl, enqueue_enqueued me _ room⟩

end Enqueueing

/-- The room once the publication waits for these sessions. -/
abbrev Room.awaiting (room : Room) (i : ℕ) (publication : Publication)
    (waiting : Option (List String)) : Room :=
  { room with publications := room.publications.set i { publication with waiting := waiting } }

section Steps

/-- What one step can do. Publications and store change at their own steps; the
session's queue is filled by a publication that reaches it and by frames that
are no batches. -/
inductive Change (me : String) (room : Room) : Room → Prop
  | committed : Change me room { room with store := { room.store with
      head := ⟨room.store.head.roomEpoch, room.store.head.sequence + 1⟩
      accepted := ⟨room.store.head.roomEpoch, room.store.head.sequence + 1⟩ ::
        room.store.accepted } }
  | restored {epoch : String} (hfresh : epoch ∉ room.store.epochs) : Change me room
      { room with store := { room.store with head := ⟨epoch, 0⟩, epochs := epoch ::
        room.store.epochs } }
  | published {batch : Place} (receiptSessionId : Option String)
    (hbatch : batch ∈ room.store.accepted) :
      Change me room { room with publications := room.publications ++
        [⟨batch, receiptSessionId, none⟩] }
  | listed {i : ℕ} {publication : Publication} (h : room.publications[i]? = some publication)
      (hwaiting : publication.waiting = none) :
      Change me room (room.awaiting i publication (some room.members))
  | passed {i : ℕ} {publication : Publication} {id : String} {rest : List String}
      (h : room.publications[i]? = some publication)
      (hwaiting : publication.waiting = some (id :: rest)) (hother : id ≠ me) :
      Change me room (room.awaiting i publication (some rest))
  | reached {i : ℕ} {publication : Publication} {rest : List String} {frames : List Frame}
      {room' : Room} (h : room.publications[i]? = some publication)
      (hwaiting : publication.waiting = some (me :: rest))
      (hframes : Served i publication.batch frames)
      (henqueued : Enqueued me frames (room.awaiting i publication (some rest)) room') :
      Change me room room'
  | crowd {members : List String} (hnodup : room.members.Nodup → members.Nodup)
      (hme : me ∈ room.members → me ∈ members) : Change me room { room with members := members }
  | enqueued {frames : List Frame} {room' : Room} (hframes : frames = [.other])
      (henqueued : Enqueued me frames room room') : Change me room room'
  | unchanged : Change me room room
  | closed : Change me room (retire me room)
  | joined (hprogress : room.session.progress = .connecting) : Change me room { room with
      members := register me room.members, session := { room.session with progress := .joined } }
  | headRead (hprogress : room.session.progress = .joined) : Change me room
      { room with session := { room.session with progress := .headRead room.store.head } }
  | socketAccepted {head : Place} (hprogress : room.session.progress = .headRead head) :
    Change me room
      { room with session := { room.session with progress := .socketAccepted head } }
  | present {head : Place} (hprogress : room.session.progress = .socketAccepted head) :
      Change me room { room with
        members := register me room.members,
          session := { room.session with progress := .present head } }
  | readied {head : Place} (hprogress : room.session.progress = .present head) : Change me room
      { room with session := { room.session with
        progress := .readied head, delivered := room.session.delivered ++ [.ready head] } }
  | active {head : Place} (hprogress : room.session.progress = .readied head) : Change me room
      { room with session := { room.session with
        progress := .active head, sender := activate me room.session room.members } }
  | got {frame : Frame} {rest : List Frame} (hsender : room.session.sender = .waiting)
      (houtbound : room.session.outbound = frame :: rest) (hopen : room.session.closed = false) :
      Change me room { room with session := { room.session with
        sender := .sending frame, outbound := rest } }
  | stopped {frame : Frame} {rest : List Frame} (hsender : room.session.sender = .waiting)
      (houtbound : room.session.outbound = frame :: rest) (hclosed : room.session.closed = true) :
      Change me room
        { room with session := { room.session with sender := .stopped, outbound := rest } }
  | sent {frame : Frame} (hsender : room.session.sender = .sending frame) : Change me room
      { room with session := { room.session with
        sender := .waiting, delivered := room.session.delivered ++ [frame] } }

theorem offer_enqueued (me : String) (room : Room) :
    Enqueued me [.other] room (offer .other room) ∨ offer .other room = room := by
  unfold offer
  split_ifs with hclosed hfull
  · exact Or.inr rfl
  · exact Or.inr rfl
  · exact Or.inl (.pushed (by simpa using hclosed))

theorem step_change (h : step me room action = some room') : Change me room room' := by
  cases action with
  | commits =>
    cases h
    exact .committed
  | restores epoch =>
    simp only [step] at h
    split_ifs at h with hmet
    cases h
    exact .restored hmet
  | publishes batch receiptSessionId =>
    simp only [step] at h
    split_ifs at h with hbatch
    cases h
    exact .published receiptSessionId hbatch
  | listsSessions i =>
    simp only [step] at h
    split at h
    · rename_i batch receiptSessionId hget
      cases h
      exact .listed hget rfl
    · cases h
  | serves i =>
    simp only [step] at h
    split at h
    · rename_i batch receiptSessionId id rest hget
      cases h
      by_cases hid : id = me
      · subst hid
        obtain ⟨frames, hframes, henqueued⟩ := serve_enqueued id i batch receiptSessionId
          { room with publications := room.publications.set i ⟨batch, receiptSessionId, some rest⟩ }
        exact .reached hget rfl hframes henqueued
      · simp only [serve, if_neg hid]
        exact .passed hget rfl hid
    · cases h
  | memberJoins id =>
    simp only [step] at h
    split_ifs at h with hid
    cases h
    refine .crowd ?_ (List.mem_append_left _)
    intro hnodup
    rw [← List.concat_eq_append]
    exact hnodup.concat (fun hmem => hid (Or.inr hmem))
  | memberLeaves id =>
    simp only [step] at h
    split_ifs at h with hid
    cases h
    exact .crowd (fun hnodup => hnodup.filter _)
      (fun hme => List.mem_filter.mpr ⟨hme, by simpa using Ne.symm hid⟩)
  | enqueues =>
    simp only [step] at h
    split_ifs at h
    cases h
    exact .enqueued rfl (enqueue_enqueued me _ room)
  | offers =>
    simp only [step] at h
    split_ifs at h
    cases h
    rcases offer_enqueued me room with hpushed | hsame
    · exact .enqueued rfl hpushed
    · rw [hsame]
      exact .unchanged
  | closes =>
    simp only [step] at h
    split_ifs at h
    cases h
    exact .closed
  | joins =>
    simp only [step] at h
    split_ifs at h with hprogress
    cases h
    exact .joined hprogress
  | readsHead =>
    simp only [step] at h
    split_ifs at h with hprogress
    cases h
    exact .headRead hprogress
  | acceptsSocket | registersPresence | sendsReady | activates =>
    simp only [step] at h
    split at h
    · rename_i head hprogress
      cases h
      first
      | exact .socketAccepted hprogress
      | exact .present hprogress
      | exact .readied hprogress
      | exact .active hprogress
    · cases h
  | gets =>
    simp only [step] at h
    split at h
    · rename_i frame rest hsender houtbound
      cases h
      split_ifs with hclosed
      · exact .stopped hsender houtbound hclosed
      · exact .got hsender houtbound (by simpa using hclosed)
    · cases h
  | sends =>
    simp only [step] at h
    split at h
    · rename_i frame hsender
      cases h
      exact .sent hsender
    · cases h

end Steps

variable {i : ℕ} {publication : Publication}

section Histories

/-- The batches of the head's epoch are not beyond the head, and only committed
batches are published. -/
structure Committed (room : Room) : Prop where
  known : room.store.head.roomEpoch ∈ room.store.epochs
  behind : ∀ batch ∈ room.store.accepted, batch.roomEpoch ∈ room.store.epochs ∧
    (batch.roomEpoch = room.store.head.roomEpoch → batch.sequence ≤ room.store.head.sequence)
  published : ∀ publication ∈ room.publications, publication.batch ∈ room.store.accepted

theorem Committed.set (h : Committed room) (hget : room.publications[i]? = some publication)
    (waiting : Option (List String)) :
    Committed (room.awaiting i publication waiting) := by
  refine ⟨h.known, h.behind, ?_⟩
  intro other hother
  rcases List.mem_or_eq_of_mem_set hother with hold | rfl
  · exact h.published other hold
  · exact h.published publication (List.mem_of_getElem? hget)

theorem Committed.of_eq (h : Committed room) (hstore : room'.store = room.store)
    (hpublications : room'.publications = room.publications) : Committed room' := by
  refine ⟨?_, ?_, ?_⟩
  · rw [hstore]
    exact h.known
  · rw [hstore]
    exact h.behind
  · rw [hstore, hpublications]
    exact h.published

theorem Committed.enqueued (h : Committed room) (henqueued : Enqueued me frames room room') :
    Committed room' := by
  cases henqueued with
  | closed hshut => exact h.of_eq hshut.store hshut.publications
  | pushed => exact h.of_eq rfl rfl

theorem Change.committed_kept (h : Committed room) (hchange : Change me room room') :
    Committed room' := by
  cases hchange with
  | committed =>
    refine ⟨h.known, ?_, fun publication hmem => List.mem_cons_of_mem _
      (h.published publication hmem)⟩
    intro batch hbatch
    rcases List.mem_cons.mp hbatch with rfl | hold
    · exact ⟨h.known, fun _ => Nat.le_refl _⟩
    · obtain ⟨hepoch, hle⟩ := h.behind batch hold
      exact ⟨hepoch, fun hsame => Nat.le_succ_of_le (hle hsame)⟩
  | restored hfresh =>
    refine ⟨List.mem_cons_self .., ?_, h.published⟩
    intro batch hbatch
    obtain ⟨hepoch, -⟩ := h.behind batch hbatch
    refine ⟨List.mem_cons_of_mem _ hepoch, ?_⟩
    intro hsame
    rw [show batch.roomEpoch = _ from hsame] at hepoch
    exact absurd hepoch hfresh
  | published receiptSessionId hbatch =>
    refine ⟨h.known, h.behind, ?_⟩
    intro publication hmem
    rcases mem_snoc.mp hmem with hold | rfl
    · exact h.published publication hold
    · exact hbatch
  | listed hget hwaiting | passed hget hwaiting hother => exact h.set hget _
  | reached hget hwaiting hframes henqueued => exact (h.set hget _).enqueued henqueued
  | enqueued hframes henqueued => exact h.enqueued henqueued
  | _ => exact h.of_eq rfl rfl

end Histories

variable {waiting : List String}

section Members

/-- An open session is registered, once; so is everything a publication waits for. -/
structure Registered (me : String) (room : Room) : Prop where
  distinct : room.members.Nodup
  waiting : ∀ publication ∈ room.publications, ∀ waiting, publication.waiting = some waiting →
    waiting.Nodup
  member : room.session.progress ≠ .connecting → room.session.closed = false → me ∈ room.members

theorem register_nodup {members : List String} (h : members.Nodup) :
    (register me members).Nodup := by
  unfold register
  split_ifs with hmem
  · exact h
  · rw [← List.concat_eq_append]
    exact h.concat hmem

theorem mem_register (members : List String) : me ∈ register me members := by
  unfold register
  split_ifs with hmem
  · exact hmem
  · exact List.mem_append_right _ (List.mem_singleton_self _)

section

variable (h : Registered me room)
include h

theorem Registered.set (hnodup : waiting.Nodup) :
    Registered me (room.awaiting i publication (some waiting)) := by
  refine ⟨h.distinct, ?_, h.member⟩
  intro other hother held hheld
  rcases List.mem_or_eq_of_mem_set hother with hold | rfl
  · exact h.waiting other hold held hheld
  · cases hheld
    exact hnodup

theorem Registered.enqueued (henqueued : Enqueued me frames room room') : Registered me room' := by
  cases henqueued with
  | closed hshut =>
    refine ⟨?_, by rw [hshut.publications]; exact h.waiting, fun _ hopen => ?_⟩
    swap
    · simp [hshut.closed] at hopen
    rcases hshut.members with hsame | hfiltered
    · rw [hsame]
      exact h.distinct
    · rw [hfiltered]
      exact h.distinct.filter _
  | pushed => exact ⟨h.distinct, h.waiting, h.member⟩

theorem Registered.rest {id : String} {rest : List String}
    (hget : room.publications[i]? = some publication)
    (hwaiting : publication.waiting = some (id :: rest)) : id ∉ rest ∧ rest.Nodup :=
  List.nodup_cons.mp (h.waiting publication (List.mem_of_getElem? hget) _ hwaiting)

theorem Change.registered_kept (hchange : Change me room room') : Registered me room' := by
  cases hchange with
  | published receiptSessionId hbatch =>
    refine ⟨h.distinct, ?_, h.member⟩
    intro publication hmem held hheld
    rcases mem_snoc.mp hmem with hold | rfl
    · exact h.waiting publication hold held hheld
    · cases hheld
  | listed hget hwaiting => exact h.set h.distinct
  | passed hget hwaiting hother => exact h.set (h.rest hget hwaiting).2
  | reached hget hwaiting hframes henqueued =>
    exact (h.set (h.rest hget hwaiting).2).enqueued henqueued
  | crowd hnodup hme =>
    exact ⟨hnodup h.distinct, h.waiting, fun hjoined hopen => hme (h.member hjoined hopen)⟩
  | enqueued hframes henqueued => exact h.enqueued henqueued
  | closed => exact ⟨h.distinct.filter _, h.waiting, fun _ hopen => by cases hopen⟩
  | joined hprogress | present hprogress =>
    exact ⟨register_nodup h.distinct, h.waiting, fun _ _ => mem_register _⟩
  | headRead hprogress | socketAccepted hprogress | readied hprogress | active hprogress =>
    exact ⟨h.distinct, h.waiting, fun _ => h.member (by simp [hprogress])⟩
  | _ => exact ⟨h.distinct, h.waiting, h.member⟩

end

end Members

variable {session after : Session}

section Greeting

def Frame.isReady : Frame → Bool
  | .ready _ => true
  | _ => false

/-- What stands on the wire by how far the session has come: nothing before
`room.ready`, and nothing else before the sender is started. -/
def Greeted (session : Session) : Prop :=
  (match session.progress with
    | .readied head => session.sender = .unstarted ∧ session.delivered = [.ready head]
    | .active head => ∃ rest, session.delivered = .ready head :: rest ∧
      ∀ frame ∈ rest, frame.isReady = false
    | _ => session.sender = .unstarted ∧ session.delivered = []) ∧
  ∀ frame ∈ session.sender.hand ++ session.outbound, frame.isReady = false

theorem Greeted.of_outbound (h : Greeted session) (hprogress : after.progress = session.progress)
    (hsender : after.sender = session.sender) (hdelivered : after.delivered = session.delivered)
    (houtbound : ∀ frame ∈ after.outbound, frame ∈ session.outbound ∨ frame.isReady = false) :
    Greeted after := by
  refine ⟨?_, ?_⟩
  · rw [hprogress, hsender, hdelivered]
    exact h.1
  · intro frame hframe
    rw [hsender] at hframe
    rcases List.mem_append.mp hframe with hhand | hqueued
    · exact h.2 frame (List.mem_append_left _ hhand)
    · rcases houtbound frame hqueued with hold | hnew
      · exact h.2 frame (List.mem_append_right _ hold)
      · exact hnew

theorem Greeted.enqueued (h : Greeted room.session) {frames : List Frame}
    (hframes : ∀ frame ∈ frames, frame.isReady = false)
    (henqueued : Enqueued me frames room room') :
    Greeted room'.session := by
  cases henqueued with
  | closed hshut =>
    refine h.of_outbound hshut.progress hshut.sender hshut.delivered ?_
    intro frame hframe
    exact (List.mem_append.mp (hshut.outbound frame hframe)).imp_right (hframes frame)
  | pushed =>
    refine h.of_outbound rfl rfl rfl ?_
    intro frame hframe
    exact (List.mem_append.mp hframe).imp_right (hframes frame)

theorem activate_hand (h : room.session.sender = .unstarted) :
    (activate me room.session room.members).hand = [] := by
  unfold activate
  split_ifs
  · rw [h]
    rfl
  · rfl

/-- The sender runs in an active session only. -/
theorem Greeted.active_of_sender (h : Greeted session) (hsender : session.sender ≠ .unstarted) :
    ∃ head, session.progress = .active head := by
  have hgreeted := h.1
  split at hgreeted
  · exact absurd hgreeted.1 hsender
  · rename_i head hprogress
    exact ⟨head, hprogress⟩
  · exact absurd hgreeted.1 hsender

/-- Before `room.ready` the wire and the sender are untouched. -/
theorem Greeted.silent (h : Greeted session) (hready : ∀ head, session.progress ≠ .readied head)
    (hactive : ∀ head, session.progress ≠ .active head) :
    session.sender = .unstarted ∧ session.delivered = [] := by
  have hgreeted := h.1
  split at hgreeted
  · rename_i head hprogress
    exact absurd hprogress (hready head)
  · rename_i head hprogress
    exact absurd hprogress (hactive head)
  · exact hgreeted

theorem Greeted.advance (h : Greeted session) (hready : ∀ head, session.progress ≠ .readied head)
    (hactive : ∀ head, session.progress ≠ .active head) {progress : Progress}
    (hready' : ∀ head, progress ≠ .readied head) (hactive' : ∀ head, progress ≠ .active head) :
    Greeted { session with progress := progress } := by
  refine ⟨?_, h.2⟩
  have hsilent := h.silent hready hactive
  split
  · rename_i head hprogress
    exact absurd hprogress (hready' head)
  · rename_i head hprogress
    exact absurd hprogress (hactive' head)
  · exact hsilent

theorem Change.greeted_kept (h : Greeted room.session) (hchange : Change me room room') :
    Greeted room'.session := by
  cases hchange with
  | reached hget hwaiting hframes henqueued =>
    refine Greeted.enqueued ?_ ?_ henqueued
    · exact h
    · rcases hframes with rfl | rfl <;> simp [Frame.isReady]
  | enqueued hframes henqueued =>
    refine h.enqueued ?_ henqueued
    subst hframes
    simp [Frame.isReady]
  | closed => exact h.of_outbound rfl rfl rfl (fun _ hmem => Or.inl hmem)
  | joined hprogress | headRead hprogress | socketAccepted hprogress | present hprogress =>
    exact h.advance (by simp [hprogress]) (by simp [hprogress]) (by simp) (by simp)
  | readied hprogress =>
    obtain ⟨hsender, hdelivered⟩ := h.silent (by simp [hprogress]) (by simp [hprogress])
    exact ⟨⟨hsender, by simp [hdelivered]⟩, h.2⟩
  | active hprogress =>
    have hgreeted := h.1
    simp only [hprogress] at hgreeted
    refine ⟨⟨[], hgreeted.2, by simp⟩, ?_⟩
    intro frame hframe
    simp only [activate_hand hgreeted.1, List.nil_append] at hframe
    exact h.2 frame (List.mem_append_right _ hframe)
  | got hsender houtbound hopen =>
    obtain ⟨head, hprogress⟩ := h.active_of_sender (by simp [hsender])
    have hgreeted := h.1
    have hframes := h.2
    simp only [hprogress] at hgreeted
    refine ⟨by simpa only [hprogress] using hgreeted, ?_⟩
    simpa [hsender, houtbound, Sender.hand] using hframes
  | stopped hsender houtbound hclosed =>
    obtain ⟨head, hprogress⟩ := h.active_of_sender (by simp [hsender])
    have hgreeted := h.1
    have hframes := h.2
    simp only [hprogress] at hgreeted
    refine ⟨by simpa only [hprogress] using hgreeted, ?_⟩
    intro frame hframe
    refine hframes frame (List.mem_append_right _ ?_)
    rw [houtbound]
    exact List.mem_cons_of_mem _ (by simpa [Sender.hand] using hframe)
  | sent hsender =>
    obtain ⟨head, hprogress⟩ := h.active_of_sender (by simp [hsender])
    have hgreeted := h.1
    have hframes := h.2
    simp only [hprogress] at hgreeted
    obtain ⟨rest, hdelivered, hrest⟩ := hgreeted
    simp only [hsender, Sender.hand, List.singleton_append, List.mem_cons, forall_eq_or_imp]
      at hframes
    refine ⟨?_, ?_⟩
    · simp only [hprogress, hdelivered, List.cons_append]
      refine ⟨_, rfl, ?_⟩
      intro frame hframe
      rcases mem_snoc.mp hframe with hold | rfl
      · exact hrest frame hold
      · exact hframes.1
    · simpa [Sender.hand] using hframes.2
  | _ => exact h

end Greeting

section Counting

/-- A batch the head that was read does not have yet. -/
def Later (head batch : Place) : Prop :=
  batch.roomEpoch = head.roomEpoch ∧ head.sequence < batch.sequence

def Session.copies (session : Session) (i : ℕ) (batch : Place) : ℕ :=
  session.placed.count (.accepted i batch)

/-- A publication places nothing before it reaches the session, and one frame
when it does. One that never reaches it has a batch that is in the head. -/
def Reaches (me : String) (session : Session) (i : ℕ) (publication : Publication) : Prop :=
  match publication.waiting with
  | none => session.copies i publication.batch = 0
  | some waiting => (me ∈ waiting → session.copies i publication.batch = 0) ∧
    (me ∉ waiting → ∀ head, session.progress.head = some head → Later head publication.batch →
      session.copies i publication.batch = 1)

/-- The account of the publications, as long as the session is open. -/
structure Counted (me : String) (room : Room) : Prop where
  reaches : room.session.closed = false → ∀ i publication, room.publications[i]? =
    some publication →
    Reaches me room.session i publication
  bounded : ∀ i batch, .accepted i batch ∈ room.session.placed → i < room.publications.length

theorem Reaches.of_copies (h : Reaches me session i publication)
    (hcopies : after.copies i publication.batch = session.copies i publication.batch)
    (hhead : ∀ head, after.progress.head = some head → session.progress.head = some head) :
    Reaches me after i publication := by
  unfold Reaches at h ⊢
  rw [hcopies]
  split at h
  · exact h
  · exact ⟨h.1, fun hgone head hsome => h.2 hgone head (hhead head hsome)⟩

/-- The session goes on without a batch more or less. -/
theorem Counted.of_session (h : Counted me room)
    (hpublications : room'.publications = room.publications)
    (hclosed : room'.session.closed = room.session.closed)
    (hcopies : ∀ i batch, room'.session.copies i batch = room.session.copies i batch)
    (hhead : ∀ head, room'.session.progress.head = some head →
      room.session.progress.head = some head) :
    Counted me room' := by
  refine ⟨?_, ?_⟩
  · intro hopen i publication hget
    rw [hpublications] at hget
    exact (h.reaches (hclosed ▸ hopen) i publication hget).of_copies (hcopies i _) hhead
  · intro i batch hmem
    have hpositive : 0 < room.session.copies i batch := by
      rw [← hcopies i batch]
      exact List.count_pos_iff.mpr hmem
    rw [hpublications]
    exact h.bounded i batch (List.count_pos_iff.mp hpositive)

theorem Counted.enqueued (h : Counted me room) (hframes : frames = [.other])
    (henqueued : Enqueued me frames room room') : Counted me room' := by
  subst hframes
  cases henqueued with
  | closed hshut =>
    refine ⟨fun hopen => by simp [hshut.closed] at hopen, ?_⟩
    intro i batch hmem
    rw [hshut.publications]
    refine h.bounded i batch ?_
    simp only [Session.placed, hshut.sender, hshut.delivered, List.mem_append] at hmem ⊢
    rcases hmem with hwire | hqueued
    · exact Or.inl hwire
    · exact Or.inr (by simpa using hshut.outbound _ hqueued)
  | pushed hopen =>
    refine h.of_session rfl rfl ?_ (fun _ hsome => hsome)
    intro i batch
    simp [Session.copies, Session.placed, List.count_append]

/-- One publication goes on, the others stay as they are. -/
theorem Counted.set (h : Counted me room) {waiting : Option (List String)}
    (hget : room.publications[i]? = some publication)
    (hreaches : room.session.closed = false → Reaches me room.session i { publication with waiting
      := waiting }) :
    Counted me (room.awaiting i publication waiting) := by
  have hlength := (List.getElem?_eq_some_iff.mp hget).1
  refine ⟨?_, ?_⟩
  · intro hopen j other hother
    simp only [List.getElem?_set] at hother
    split_ifs at hother with hij
    · cases hother
      rw [← hij]
      exact hreaches hopen
    · exact h.reaches hopen j other hother
  · intro j batch hmem
    rw [List.length_set]
    exact h.bounded j batch hmem

/-- The frames of a publication that reaches the session. -/
theorem count_served {j : ℕ} {batch batch' : Place}
    (hframes : Served i batch frames) :
    frames.count (.accepted j batch') = if i = j ∧ batch = batch' then 1 else 0 := by
  rcases hframes with rfl | rfl <;> simp [List.count_cons]

theorem Counted.reached (h : Counted me room) (hregistered : Registered me room)
    {rest : List String} (hget : room.publications[i]? = some publication)
    (hwaiting : publication.waiting = some (me :: rest))
    (hframes : Served i publication.batch frames)
    (henqueued : Enqueued me frames (room.awaiting i publication (some rest)) room') :
    Counted me room' := by
  have hlength := (List.getElem?_eq_some_iff.mp hget).1
  have hgone := (hregistered.rest hget hwaiting).1
  cases henqueued with
  | closed hshut =>
    refine ⟨fun hopen => by simp [hshut.closed] at hopen, ?_⟩
    intro j batch hmem
    rw [hshut.publications, List.length_set]
    simp only [Session.placed, hshut.sender, hshut.delivered, List.mem_append] at hmem
    rcases hmem with hwire | hqueued
    · exact h.bounded j batch (List.mem_append_left _ (List.mem_append.mpr hwire))
    · rcases List.mem_append.mp (hshut.outbound _ hqueued) with hold | hnew
      · exact h.bounded j batch (List.mem_append_right _ hold)
      · have hcount := List.count_pos_iff.mpr hnew
        rw [count_served hframes] at hcount
        split_ifs at hcount with hsame
        · exact hsame.1 ▸ hlength
        · simp at hcount
  | pushed hopen =>
    have hcopies : ∀ j batch, Session.copies { room.session with
        outbound := room.session.outbound ++ frames } j batch =
        room.session.copies j batch + (if i = j ∧ publication.batch = batch then 1 else 0) := by
      intro j batch
      rw [← count_served hframes]
      simp [Session.copies, Session.placed, List.count_append, Nat.add_assoc]
    have hnone : room.session.copies i publication.batch = 0 := by
      have hreaches := h.reaches hopen i publication hget
      simp only [Reaches, hwaiting] at hreaches
      exact hreaches.1 (List.mem_cons_self ..)
    refine ⟨?_, ?_⟩
    · intro _ j other hother
      simp only [List.getElem?_set] at hother
      split_ifs at hother with hij
      · cases hother
        subst hij
        refine ⟨fun hmem => absurd hmem hgone, ?_⟩
        intro _ head _ _
        simp [hcopies, hnone]
      · refine (h.reaches hopen j other hother).of_copies ?_ (fun _ hsome => hsome)
        simp [hcopies, hij]
    · intro j batch hmem
      have hpositive := List.count_pos_iff.mpr hmem
      rw [show List.count _ _ = _ from hcopies j batch] at hpositive
      rw [List.length_set]
      split_ifs at hpositive with hsame
      · exact hsame.1 ▸ hlength
      · exact h.bounded j batch (List.count_pos_iff.mp hpositive)

theorem Change.counted_kept (hcommitted : Committed room) (hregistered : Registered me room)
    (hgreeted : Greeted room.session) (h : Counted me room) (hchange : Change me room room') :
    Counted me room' := by
  cases hchange with
  | published receiptSessionId hbatch =>
    refine ⟨?_, ?_⟩
    · intro hopen i publication hget
      rw [List.getElem?_append] at hget
      split_ifs at hget with hold
      · exact h.reaches hopen i publication hget
      · obtain rfl := List.mem_singleton.mp (List.mem_of_getElem? hget)
        exact List.count_eq_zero.mpr (fun hmem => hold (h.bounded i _ hmem))
    · intro i batch hmem
      rw [List.length_append]
      exact Nat.lt_add_right _ (h.bounded i batch hmem)
  | listed hget hwaiting =>
    refine h.set hget ?_
    intro hopen
    have hnone := h.reaches hopen _ _ hget
    simp only [Reaches, hwaiting] at hnone
    refine ⟨fun _ => hnone, ?_⟩
    -- once the head is read the session is registered
    intro hmissing head hhead
    refine absurd (hregistered.member ?_ hopen) hmissing
    intro hconnecting
    simp [hconnecting, Progress.head] at hhead
  | passed hget hwaiting hother =>
    refine h.set hget ?_
    intro hopen
    have hreaches := h.reaches hopen _ _ hget
    simp only [Reaches, hwaiting, List.mem_cons, Ne.symm hother, false_or] at hreaches
    exact hreaches
  | reached hget hwaiting hframes henqueued =>
    exact h.reached hregistered hget hwaiting hframes henqueued
  | enqueued hframes henqueued => exact h.enqueued hframes henqueued
  | closed => exact ⟨(fun hopen => by cases hopen), h.bounded⟩
  | joined hprogress => exact h.of_session rfl rfl (fun _ _ => rfl) (by simp [Progress.head])
  | headRead hprogress =>
    refine ⟨?_, h.bounded⟩
    intro hopen i publication hget
    have hreaches := h.reaches hopen i publication hget
    unfold Reaches at hreaches ⊢
    split at hreaches
    · exact hreaches
    · refine ⟨hreaches.1, ?_⟩
      -- what is published by now is in the head
      intro _ head hhead hlater
      cases hhead
      have hbatch := hcommitted.published publication (List.mem_of_getElem? hget)
      have hle := (hcommitted.behind _ hbatch).2 hlater.1
      exact absurd hlater.2 (Nat.not_lt.mpr hle)
  | socketAccepted hprogress | present hprogress =>
    exact h.of_session rfl rfl (fun _ _ => rfl) (by simp [hprogress, Progress.head])
  | readied hprogress =>
    refine h.of_session rfl rfl ?_ (by simp [hprogress, Progress.head])
    intro i batch
    simp [Session.copies, Session.placed, List.count_append]
  | active hprogress =>
    have hstarted := hgreeted.1
    simp only [hprogress] at hstarted
    have hhand : room.session.sender.hand = [] := by
      rw [hstarted.1]
      rfl
    refine h.of_session rfl rfl ?_ (by simp [hprogress, Progress.head])
    intro i batch
    simp [Session.copies, Session.placed, activate_hand hstarted.1, hhand]
  | got hsender houtbound hopen =>
    refine h.of_session rfl rfl ?_ (fun _ hsome => hsome)
    intro i batch
    simp [Session.copies, Session.placed, hsender, houtbound, Sender.hand]
  | stopped hsender houtbound hclosed =>
    refine ⟨fun hopen => by simp [hclosed] at hopen, ?_⟩
    intro i batch hmem
    refine h.bounded i batch ?_
    simp only [Session.placed, Sender.hand, hsender, houtbound, List.append_nil, List.mem_append]
      at hmem ⊢
    exact hmem.imp_right (List.mem_cons_of_mem _)
  | sent hsender =>
    refine h.of_session rfl rfl ?_ (fun _ hsome => hsome)
    intro i batch
    simp [Session.copies, Session.placed, hsender, Sender.hand]
  | unchanged => exact h
  | _ => exact ⟨h.reaches, h.bounded⟩

end Counting

section Runs

/-- The sender of an active open session is at work. -/
def Running (session : Session) : Prop :=
  ∀ head, session.progress = .active head → session.closed = false →
    session.sender = .waiting ∨ ∃ frame, session.sender = .sending frame

theorem Running.enqueued (h : Running room.session) (henqueued : Enqueued me frames room room') :
    Running room'.session := by
  cases henqueued with
  | closed hshut =>
    intro head _ hopen
    simp [hshut.closed] at hopen
  | pushed => exact h

theorem Change.running_kept (hregistered : Registered me room) (hgreeted : Greeted room.session)
    (h : Running room.session) (hchange : Change me room room') : Running room'.session := by
  cases hchange with
  | reached hget hwaiting hframes henqueued =>
    refine Running.enqueued ?_ henqueued
    exact h
  | enqueued hframes henqueued => exact h.enqueued henqueued
  | closed => exact fun _ _ hopen => by cases hopen
  | joined hprogress | headRead hprogress | socketAccepted hprogress | present hprogress
  | readied hprogress => exact fun _ hactive => by cases hactive
  | active hprogress =>
    intro head _ hopen
    have hstarted := hgreeted.1
    simp only [hprogress] at hstarted
    have hmember := hregistered.member (by simp [hprogress]) hopen
    have hopen' : room.session.closed = false := hopen
    exact Or.inl (by simp [activate, hopen', hmember, hstarted.1])
  | got hsender houtbound hopen => exact fun _ _ _ => Or.inr ⟨_, rfl⟩
  | stopped hsender houtbound hclosed =>
    intro _ _ hopen
    simp [hclosed] at hopen
  | sent hsender => exact fun _ _ _ => Or.inl rfl
  | _ => exact h

/-- What holds of every room a session joins. -/
structure Kept (me : String) (room : Room) : Prop where
  committed : Committed room
  registered : Registered me room
  greeted : Greeted room.session
  counted : Counted me room
  running : Running room.session

theorem Kept.step (h : Kept me room) (hstep : step me room action = some room') :
    Kept me room' := by
  have hchange := step_change hstep
  exact ⟨hchange.committed_kept h.committed, hchange.registered_kept h.registered,
    hchange.greeted_kept h.greeted,
      hchange.counted_kept h.committed h.registered h.greeted h.counted,
    hchange.running_kept h.registered h.greeted h.running⟩

theorem Kept.initial (me : String) (head : Place) : Kept me (initial head) where
  committed := ⟨List.mem_singleton_self _, by simp [RoomHub.initial], by simp [RoomHub.initial]⟩
  registered := ⟨by simp [RoomHub.initial], by simp [RoomHub.initial], by simp [RoomHub.initial]⟩
  greeted := ⟨⟨rfl, rfl⟩, by simp [RoomHub.initial, Sender.hand]⟩
  counted := ⟨by simp [RoomHub.initial], by simp [RoomHub.initial, Session.placed, Sender.hand]⟩
  running := by
    intro head hactive
    cases hactive

theorem Kept.reachable {meets : Room → Action → Prop} (h : Kept me room)
    (hreachable : Reachable (RoomHub.step me) meets room room') : Kept me room' :=
  hreachable.invariant (I := Kept me) h (fun _ _ _ hs _ hstep => hs.step hstep)

/-- The steps of the joining session and of its sender. -/
def Action.own : Action → Bool
  | .acceptsSocket => true
  | .registersPresence => true
  | .sendsReady => true
  | .activates => true
  | .gets => true
  | .sends => true
  | _ => false

/-- By its own steps alone the session comes to an empty queue. -/
def Empties (me : String) (head : Place) (room : Room) : Prop :=
  ∃ room', Reachable (step me) (fun _ action => action.own = true) room room' ∧
    room'.publications = room.publications ∧ room'.session.closed = false ∧
    room'.session.progress = .active head ∧ room'.session.sender = .waiting ∧
      room'.session.outbound = []

variable {head : Place}

theorem Empties.of_step (action : Action) {room₁ : Room} (h : Empties me head room₁)
    (hstep : step me room action = some room₁) (hown : action.own = true)
    (hpublications : room₁.publications = room.publications) : Empties me head room := by
  obtain ⟨room', hreach, hsame, hrest⟩ := h
  have hfirst : Reachable (step me) (fun _ action => action.own = true) room room₁ :=
    .next .start hown hstep
  exact ⟨room', hfirst.trans hreach, hsame.trans hpublications, hrest⟩

theorem empties_of_waiting (hopen : room.session.closed = false)
    (hprogress : room.session.progress = .active head) (hsender : room.session.sender = .waiting) :
    Empties me head room := by
  generalize hqueue : room.session.outbound = queue
  induction queue generalizing room with
  | nil => exact ⟨room, .start, rfl, hopen, hprogress, hsender, hqueue⟩
  | cons frame rest ih =>
    let getting : Room := { room with session := { room.session with
      sender := .sending frame, outbound := rest } }
    let sending : Room := { getting with session := { getting.session with
      sender := .waiting, delivered := getting.session.delivered ++ [frame] } }
    have hsent : Empties me head sending := ih hopen hprogress rfl rfl
    have hgot : Empties me head getting := hsent.of_step .sends rfl rfl rfl
    refine hgot.of_step .gets ?_ rfl rfl
    simp [step, hsender, hqueue, hopen, getting]

section

variable (h : Kept me room) (hopen : room.session.closed = false)
include h hopen

theorem Kept.empties_of_active (hprogress : room.session.progress = .active head) :
    Empties me head room := by
  rcases h.running head hprogress hopen with hwaiting | ⟨frame, hsending⟩
  · exact empties_of_waiting hopen hprogress hwaiting
  · let sent : Room := { room with session := { room.session with
      sender := .waiting, delivered := room.session.delivered ++ [frame] } }
    have hsent : Empties me head sent := empties_of_waiting hopen hprogress rfl
    refine hsent.of_step .sends ?_ rfl rfl
    simp [RoomHub.step, hsending, sent]

theorem Kept.empties_of_readied (hprogress : room.session.progress = .readied head) :
    Empties me head room := by
  have hstep : RoomHub.step me room .activates = some { room with session := { room.session with
      progress := .active head, sender := activate me room.session room.members } } := by
    simp [RoomHub.step, hprogress]
  exact ((h.step hstep).empties_of_active hopen rfl).of_step .activates hstep rfl rfl

theorem Kept.empties_of_present (hprogress : room.session.progress = .present head) :
    Empties me head room := by
  have hstep : RoomHub.step me room .sendsReady = some { room with session := { room.session with
      progress := .readied head, delivered := room.session.delivered ++ [.ready head] } } := by
    simp [RoomHub.step, hprogress]
  exact ((h.step hstep).empties_of_readied hopen rfl).of_step .sendsReady hstep rfl rfl

theorem Kept.empties_of_socketAccepted (hprogress : room.session.progress = .socketAccepted head) :
    Empties me head room := by
  have hstep : RoomHub.step me room .registersPresence = some { room with
      members := register me room.members,
        session := { room.session with progress := .present head } } := by
    simp [RoomHub.step, hprogress]
  exact ((h.step hstep).empties_of_present hopen rfl).of_step .registersPresence hstep rfl rfl

theorem Kept.empties (hhead : room.session.progress.head = some head) : Empties me head room := by
  have hread : ∀ read, room.session.progress.head = some read → read = head :=
    fun read hread => Option.some.inj (hread.symm.trans hhead)
  cases hprogress : room.session.progress with
  | connecting | joined => simp [hprogress, Progress.head] at hhead
  | headRead read =>
    obtain rfl := hread read (by rw [hprogress]; rfl)
    have hstep : RoomHub.step me room .acceptsSocket =
        some { room with session := { room.session with progress := .socketAccepted read } } := by
      simp [RoomHub.step, hprogress]
    exact ((h.step hstep).empties_of_socketAccepted hopen rfl).of_step .acceptsSocket hstep rfl rfl
  | socketAccepted read =>
    obtain rfl := hread read (by rw [hprogress]; rfl)
    exact h.empties_of_socketAccepted hopen hprogress
  | present read =>
    obtain rfl := hread read (by rw [hprogress]; rfl)
    exact h.empties_of_present hopen hprogress
  | readied read =>
    obtain rfl := hread read (by rw [hprogress]; rfl)
    exact h.empties_of_readied hopen hprogress
  | active read =>
    obtain rfl := hread read (by rw [hprogress]; rfl)
    exact h.empties_of_active hopen hprogress

end

/-- `room.ready` is the first frame on the wire and the only one of its kind. -/
theorem Greeted.first (h : Greeted session) :
    session.delivered = [] ∨ ∃ head rest, session.delivered = .ready head :: rest ∧
      session.progress.head = some head ∧ ∀ frame ∈ rest, frame.isReady = false := by
  have hgreeted := h.1
  split at hgreeted
  · rename_i head hprogress
    exact Or.inr ⟨head, [], hgreeted.2, by simp [hprogress, Progress.head], by simp⟩
  · rename_i head hprogress
    obtain ⟨rest, hdelivered, hrest⟩ := hgreeted
    exact Or.inr ⟨head, rest, hdelivered, by simp [hprogress, Progress.head], hrest⟩
  · exact Or.inl hgreeted.2

theorem Kept.copies_of_passed (h : Kept me room) (hopen : room.session.closed = false)
    (hhead : room.session.progress.head = some head)
    (hget : room.publications[i]? = some publication) (hlater : Later head publication.batch)
    (hwaiting : publication.waiting = some waiting) :
    room.session.copies i publication.batch = if me ∈ waiting then 0 else 1 := by
  have hreaches := h.counted.reaches hopen i publication hget
  simp only [Reaches, hwaiting] at hreaches
  split_ifs with hmem
  · exact hreaches.1 hmem
  · exact hreaches.2 hmem head hhead hlater

/-- Nothing is delivered before `room.ready`. A call of `publish_accepted` for a
batch the ready head does not have places one frame in an open session, which
the session's own steps bring onto the wire. -/
theorem joins_without_gap {first : Place}
    (h : Reachable (step me) (fun _ _ => True) (initial first) room) :
    (room.session.delivered = [] ∨ ∃ head rest, room.session.delivered = .ready head :: rest ∧
      room.session.progress.head = some head ∧ ∀ frame ∈ rest, frame.isReady = false) ∧
    (room.session.closed = false → ∀ head, room.session.progress.head = some head →
      ∀ i publication, room.publications[i]? = some publication → Later head publication.batch →
        (publication.waiting = none → room.session.copies i publication.batch = 0) ∧
        (∀ waiting, publication.waiting = some waiting →
          room.session.copies i publication.batch = if me ∈ waiting then 0 else 1) ∧
        (publication.waiting = some [] → ∃ room',
          Reachable (step me) (fun _ action => action.own = true) room room' ∧
          room'.session.closed = false ∧ room'.session.delivered.head? = some (.ready head) ∧
          room'.session.delivered.count (.accepted i publication.batch) = 1)) := by
  have hkept : Kept me room := (Kept.initial me first).reachable h
  refine ⟨hkept.greeted.first, ?_⟩
  intro hopen head hhead i publication hget hlater
  refine ⟨?_, ?_, ?_⟩
  · intro hwaiting
    have hreaches := hkept.counted.reaches hopen i publication hget
    simpa only [Reaches, hwaiting] using hreaches
  · intro waiting hwaiting
    exact hkept.copies_of_passed hopen hhead hget hlater hwaiting
  · intro hwaiting
    obtain ⟨room', hreach, hsame, hopen', hprogress, hsender, hqueue⟩ := hkept.empties hopen hhead
    have hkept' := hkept.reachable hreach
    refine ⟨room', hreach, hopen', ?_, ?_⟩
    · have hgreeted := hkept'.greeted.1
      simp only [hprogress] at hgreeted
      obtain ⟨rest, hdelivered, -⟩ := hgreeted
      simp [hdelivered]
    · have hcopies := hkept'.copies_of_passed hopen' (by simp [hprogress, Progress.head])
        (hsame ▸ hget)
        hlater hwaiting
      simpa [Session.copies, Session.placed, hsender, hqueue, Sender.hand] using hcopies

/-- A batch is committed between the head read and `room.ready`, and published
while another session is served first. -/
theorem joined_during_commit :
    ∃ room room', Reachable (step "me") (fun _ _ => True) (initial ⟨"a", 0⟩) room ∧
      Reachable (step "me") (fun _ action => action.own = true) room room' ∧
      room.session.delivered = [] ∧ Later ⟨"a", 0⟩ ⟨"a", 1⟩ ∧
      room'.session.delivered.head? = some (.ready ⟨"a", 0⟩) ∧
      room'.session.delivered.count (.accepted 0 ⟨"a", 1⟩) = 1 := by
  obtain ⟨room, hreached, htest⟩ := exists_reachable (step "me") (fun _ _ => True) (fun _ _ => true)
    (initial ⟨"a", 0⟩) [.memberJoins "peer", .joins, .readsHead, .commits, .publishes ⟨"a", 1⟩ none,
      .listsSessions 0, .serves 0, .acceptsSocket, .serves 0]
    (fun room : Room => decide (room.session.closed = false ∧ room.session.delivered = [] ∧
      room.session.progress.head = some ⟨"a", 0⟩ ∧
      room.publications[0]? = some (Publication.mk ⟨"a", 1⟩ none (some []))))
    (fun _ _ _ _ => trivial) (by decide)
  obtain ⟨hopen, hdelivered, hhead, hget⟩ := of_decide_eq_true htest
  have hlater : Later ⟨"a", 0⟩ ⟨"a", 1⟩ := ⟨rfl, by decide⟩
  obtain ⟨room', hreach, -, hfirst, hcount⟩ :=
    ((joins_without_gap hreached).2 hopen _ hhead 0 _ hget hlater).2.2 rfl
  exact ⟨room, room', hreached, hreach, hdelivered, hlater, hfirst, hcount⟩

end Runs

end Grafy.RoomHub
