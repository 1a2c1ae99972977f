import Grafy.OrderedDict
import Grafy.Reachability

/-!
The hub of a Project room, as one joining session meets it. Commands are
committed in their own transactions; each `publish_accepted` call takes the list
of registered sessions once and then serves them one by one; the joining session
registers, reads the head, says `room.ready` and only then starts its sender.
Whatever awaits may be overtaken by anything else.
-/
namespace Grafy.RoomHub

def outboundQueueMaxsize : ℕ := 64

def presenceDropQueueWatermark : ℕ := 48

/-- A place in the history of a Project: where a head stands, or what a batch led to. -/
structure Place where
  roomEpoch : String
  sequence : ℕ
  deriving DecidableEq

/-- The committed head, the batches committed so far and the epochs there were. -/
structure Store where
  head : Place
  accepted : List Place
  epochs : List String

/-- What is written to the socket. -/
inductive Frame
  | ready (head : Place)
  | accepted (publication : ℕ) (batch : Place)
  | receipt (publication : ℕ)
  | other
  deriving DecidableEq

/-- One call of `publish_accepted`, with the sessions it still has to serve once
`_sessions_for` has returned them. -/
structure Publication where
  batch : Place
  receiptSessionId : Option String
  waiting : Option (List String)
  deriving DecidableEq

/-- How far `join_project_room` has come. -/
inductive Progress
  | connecting
  | joined
  | headRead (head : Place)
  | socketAccepted (head : Place)
  | present (head : Place)
  | readied (head : Place)
  | active (head : Place)
  deriving DecidableEq

/-- The head that `room.ready` carries, once it is read. -/
def Progress.head : Progress → Option Place
  | .connecting => none
  | .joined => none
  | .headRead head => some head
  | .socketAccepted head => some head
  | .present head => some head
  | .readied head => some head
  | .active head => some head

/-- The single sender task of a session. -/
inductive Sender
  | unstarted
  | waiting
  | sending (frame : Frame)
  | stopped
  deriving DecidableEq

def Sender.hand : Sender → List Frame
  | .sending frame => [frame]
  | _ => []

structure Session where
  progress : Progress
  closed : Bool
  outbound : List Frame
  sender : Sender
  delivered : List Frame

/-- The frames that are delivered or on their way, in this order. -/
def Session.placed (session : Session) : List Frame :=
  session.delivered ++ session.sender.hand ++ session.outbound

structure Room where
  store : Store
  members : List String
  publications : List Publication
  session : Session

def initial (head : Place) : Room :=
  ⟨⟨head, [], [head.roomEpoch]⟩, [], [], ⟨.connecting, false, [], .unstarted, []⟩⟩

section Hub

variable (me : String)

/-- Registering a session id that is there already leaves it where it is. -/
def register (members : List String) : List String :=
  if me ∈ members then members else members ++ [me]

/-- The session is dead and dropped from its room. -/
def retire (room : Room) : Room :=
  { room with
    members := room.members.filter (· ≠ me)
    session := { room.session with closed := true } }

/-- A full queue closes a slow consumer. -/
def enqueue (frame : Frame) (room : Room) : Room :=
  if room.session.closed then room
  else if room.session.outbound.length < outboundQueueMaxsize then
    { room with session := { room.session with outbound := room.session.outbound ++ [frame] } }
  else retire me room

/-- Best-effort delivery: dropped under backpressure. -/
def offer (frame : Frame) (room : Room) : Room :=
  if room.session.closed then room
  else if presenceDropQueueWatermark ≤ room.session.outbound.length then room
  else { room with session := { room.session with outbound := room.session.outbound ++ [frame] } }

/-- One session of the loop in `publish_accepted`. -/
def serve (publication : ℕ) (batch : Place) (receiptSessionId : Option String) (id : String)
    (room : Room) : Room :=
  if id = me then
    let served := enqueue me (.accepted publication batch) room
    if receiptSessionId = some me then enqueue me (.receipt publication) served else served
  else room

def activate (session : Session) (members : List String) : Sender :=
  if session.closed || decide (me ∉ members) || decide (session.sender ≠ .unstarted) then
    session.sender
  else .waiting

inductive Action
  | commits
  | restores (epoch : String)
  | publishes (batch : Place) (receiptSessionId : Option String)
  | listsSessions (publication : ℕ)
  | serves (publication : ℕ)
  | memberJoins (id : String)
  | memberLeaves (id : String)
  | enqueues
  | offers
  | closes
  | joins
  | readsHead
  | acceptsSocket
  | registersPresence
  | sendsReady
  | activates
  | gets
  | sends

def step (room : Room) : Action → Option Room
  | .commits =>
    let head : Place := ⟨room.store.head.roomEpoch, room.store.head.sequence + 1⟩
    some { room with store := { room.store with head := head, accepted := head ::
      room.store.accepted } }
  | .restores epoch =>
    if epoch ∈ room.store.epochs then none
    else some { room with store := { room.store with
      head := ⟨epoch, 0⟩, epochs := epoch :: room.store.epochs } }
  -- a batch is published after its transaction is committed
  | .publishes batch receiptSessionId =>
    if batch ∈ room.store.accepted then
      some { room with publications := room.publications ++ [⟨batch, receiptSessionId, none⟩] }
    else none
  | .listsSessions i =>
    match room.publications[i]? with
    | some ⟨batch, receiptSessionId, none⟩ =>
      some { room with publications :=
        room.publications.set i ⟨batch, receiptSessionId, some room.members⟩ }
    | _ => none
  | .serves i =>
    match room.publications[i]? with
    | some ⟨batch, receiptSessionId, some (id :: rest)⟩ =>
      some (serve me i batch receiptSessionId id
        { room with publications := room.publications.set i ⟨batch, receiptSessionId, some rest⟩ })
    | _ => none
  | .memberJoins id =>
    if id = me ∨ id ∈ room.members then none else some { room with members := room.members ++ [id] }
  | .memberLeaves id =>
    if id = me then none else some { room with members := room.members.filter (· ≠ id) }
  | .enqueues => if room.session.progress = .connecting then none else some (enqueue me .other room)
  | .offers => if room.session.progress = .connecting then none else some (offer .other room)
  | .closes => if room.session.progress = .connecting then none else some (retire me room)
  | .joins =>
    if room.session.progress = .connecting then
      some { room with
        members := register me room.members
        session := { room.session with progress := .joined } }
    else none
  | .readsHead =>
    if room.session.progress = .joined then
      some { room with session := { room.session with progress := .headRead room.store.head } }
    else none
  | .acceptsSocket =>
    match room.session.progress with
    | .headRead head =>
      some { room with session := { room.session with progress := .socketAccepted head } }
    | _ => none
  | .registersPresence =>
    match room.session.progress with
    | .socketAccepted head => some { room with
        members := register me room.members
        session := { room.session with progress := .present head } }
    | _ => none
  | .sendsReady =>
    match room.session.progress with
    | .present head => some { room with session := { room.session with
        progress := .readied head, delivered := room.session.delivered ++ [.ready head] } }
    | _ => none
  | .activates =>
    match room.session.progress with
    | .readied head => some { room with session := { room.session with
        progress := .active head, sender := activate me room.session room.members } }
    | _ => none
  -- the sender returns once it finds the session closed
  | .gets =>
    match room.session.sender, room.session.outbound with
    | .waiting, frame :: rest => some { room with session := { room.session with
        sender := if room.session.closed then .stopped else .sending frame, outbound := rest } }
    | _, _ => none
  | .sends =>
    match room.session.sender with
    | .sending frame => some { room with session := { room.session with
        sender := .waiting, delivered := room.session.delivered ++ [frame] } }
    | _ => none

end Hub

end Grafy.RoomHub
