import Grafy.TurnAccess

/-!
Turns across Workspaces. The store answers a conversation of another Workspace as it
answers one that does not exist, but the live turns are found by the conversation alone:
a Stop without a turn id, a wait and a snapshot reach whatever is live there.
-/
namespace Grafy.TurnAccess

open Agents Identity

/-- What an operation does and answers when it finds these states, one at each look. -/
@[simp] def told : Talk → (ℕ → Service) → List Effect × Option (Except Problem Answer)
  | .query next, seen => told (next (seen 0)) (fun n => seen (n + 1))
  | .lock _ next, seen => told (next (seen 0)) (fun n => seen (n + 1))
  | .commit effect next, seen =>
    (effect :: (told (next true) seen).1, (told (next true) seen).2)
  | .finished result, _ => ([], result)

inductive Op
  | send (clientTurnId text : String) (scope : Option Scope) (turn : ℕ) (refused built : Bool)
  | cancel (turn : Option ℕ) (scope : Option Scope)
  | getTurn (turn : ℕ)
  | listTurns (limit : Option ℕ)
  | waitForTurn
  | activeTurnSnapshot
deriving DecidableEq

namespace Op

def talk (digest : String → String) (access : WorkspaceAccess) (conversation : ℕ) : Op → Talk
  | .send clientTurnId text scope turn refused built =>
    TurnAccess.send digest access conversation clientTurnId text scope turn refused built
  | .cancel turn scope => TurnAccess.cancel access conversation turn scope
  | .getTurn turn => TurnAccess.getTurn access turn
  | .listTurns limit => TurnAccess.listTurns access conversation limit
  | .waitForTurn => TurnAccess.waitForTurn access conversation
  | .activeTurnSnapshot => TurnAccess.activeTurnSnapshot access conversation

def capability : Op → WorkspaceCapability
  | .send _ _ _ _ _ _ => .startRun
  | .cancel _ _ => .startRun
  | _ => .viewProject

/-- The operations that look for a live turn of the conversation first. -/
def asksLive : Op → Bool
  | .cancel none _ => true
  | .waitForTurn => true
  | .activeTurnSnapshot => true
  | _ => false

/-- The guards an operation passes before it looks anything up. -/
def Admitted (op : Op) (access : WorkspaceAccess) (s : Service) : Prop :=
  access.membership.grants op.capability = true ∧
    match op with
    | .send _ text _ _ _ _ => Texts.strip text ≠ "" ∧ s.stopping = false
    | _ => True

/-- The operation finds no live turn of the conversation where it looks, or only one that its
scope refuses. -/
def MissesLive (op : Op) (conversation : ℕ) (seen : ℕ → Service) : Prop :=
  match op with
  | .cancel none scope => ∀ entry, (seen 0).active conversation = some entry →
      ∃ wanted, scope = some wanted ∧ wanted ≠ entry.turn.scope
  | .waitForTurn =>
    ((seen 0).active conversation = none ∨ (seen 1).active conversation = none)
  | .activeTurnSnapshot => (seen 0).active conversation = none
  | _ => True

end Op

/-- What the schema and the service keep: a receipt stands in its conversation's Workspace,
and a live turn is running, under its conversation. -/
structure WellFormed (s : Service) : Prop where
  nodup : (s.conversations.map (fun row => row.2.id)).Nodup
  home : ∀ row ∈ s.receipts, ∃ found, (row.1, found) ∈ s.conversations ∧
    found.id = row.2.conversation
  live : ∀ conversation entry, s.active conversation = some entry →
    entry.turn.conversation = conversation ∧ entry.turn.status = .running

/-- The conversation is not one of the Workspace, and neither is the turn that is named. -/
structure Foreign (workspace conversation : ℕ) (op : Op) (s : Service) : Prop where
  wellFormed : WellFormed s
  apart : ∀ row ∈ s.conversations, row.2.id = conversation → row.1 ≠ workspace
  named : ∀ turn, op = .getTurn turn → ∀ row ∈ s.receipts, row.2.id = turn →
    row.2.conversation = conversation

/-- Two states that differ only in the conversation, its rows and what it runs. -/
structure AgreeApart (conversation : ℕ) (s s' : Service) : Prop where
  conversations : s.conversations.filter (fun row => row.2.id ≠ conversation) =
    s'.conversations.filter (fun row => row.2.id ≠ conversation)
  receipts : s.receipts.filter (fun row => row.2.conversation ≠ conversation) =
    s'.receipts.filter (fun row => row.2.conversation ≠ conversation)
  events : s.events.filter (fun row => row.2.conversation ≠ conversation) =
    s'.events.filter (fun row => row.2.conversation ≠ conversation)
  active : ∀ other, other ≠ conversation → s.active other = s'.active other
  stopping : s.stopping = s'.stopping

/-- The operation answers that there is nothing, stops nothing and writes nothing. -/
def Untouched (result : List Effect × Option (Except Problem Answer)) : Prop :=
  (∃ kind id, result.2 = some (.error (.notFound kind id))) ∧
    ∀ effect ∈ result.1, ∃ turn, effect = .waitFor turn

variable {workspace conversation turn : ℕ} {op : Op} {s : Service}

section Store

theorem mem_rowsOf {A : Type} {rows : List (ℕ × A)} {row : A} :
    row ∈ rowsOf workspace rows ↔ (workspace, row) ∈ rows := by
  unfold rowsOf
  constructor
  · intro h
    obtain ⟨⟨home, found⟩, hmem, rfl⟩ := List.mem_map.mp h
    obtain ⟨hmem, hhome⟩ := List.mem_filter.mp hmem
    rw [← of_decide_eq_true hhome]
    exact hmem
  · intro h
    exact List.mem_map.mpr ⟨(workspace, row), List.mem_filter.mpr ⟨h, by simp⟩, rfl⟩

section

variable (h : Foreign workspace conversation op s)
include h

theorem Foreign.receipt_ne {row : Receipt} (hrow : row ∈ (s.within workspace).receipts) :
    row.conversation ≠ conversation := by
  obtain ⟨found, hfound, hid⟩ := h.wellFormed.home _ (mem_rowsOf.mp hrow)
  intro heq
  exact h.apart _ hfound (hid.trans heq) rfl

theorem Foreign.conversation? : (s.within workspace).conversation? conversation = none := by
  refine List.find?_eq_none.mpr ?_
  intro found hfound heq
  exact h.apart _ (mem_rowsOf.mp hfound) (of_decide_eq_true heq) rfl

theorem Foreign.running? : (s.within workspace).running? conversation = none := by
  refine List.find?_eq_none.mpr ?_
  intro row hrow heq
  exact h.receipt_ne hrow (of_decide_eq_true heq).1

theorem Foreign.latest? : (s.within workspace).latest? conversation = none := by
  unfold Database.latest?
  rw [List.filter_eq_nil_iff.mpr]
  · rfl
  · intro row hrow heq
    exact h.receipt_ne hrow (of_decide_eq_true heq)

end

theorem Foreign.receipt? (h : Foreign workspace conversation (.getTurn turn) s) :
    (s.within workspace).receipt? turn = none := by
  refine List.find?_eq_none.mpr ?_
  intro row hrow heq
  exact h.receipt_ne hrow
    (h.named turn rfl _ (mem_rowsOf.mp hrow) (of_decide_eq_true heq))

end Store

variable {access : WorkspaceAccess} {seen : ℕ → Service}

section Calls

variable {digest : String → String} {scope : Option Scope} {capability : WorkspaceCapability}
  {next : Talk} {s' : Service}

theorem told_require (h : access.membership.grants capability = true) :
    require access capability next = next := if_pos h

theorem told_denied (h : access.membership.grants capability = false) :
    told (require access capability next) seen =
      ([], some (.error (.capabilityDenied capability access.workspace))) := by
  rw [require, if_neg (by rw [h]; decide)]
  rfl

theorem told_send {clientTurnId text : String} {refused built : Bool}
    (hforeign : ∀ n, Foreign access.workspace conversation op (seen n))
    (hgrants : access.membership.grants .startRun = true) (htext : Texts.strip text ≠ "")
    (hstopping : (seen 0).stopping = false) :
    told (send digest access conversation clientTurnId text scope turn refused built) seen =
      ([], some (.error (.notFound "Agent conversation" conversation))) := by
  rw [send, told_require hgrants, if_neg htext, told, hstopping, if_neg (by decide), told]
  simp only [(hforeign 1).conversation?]
  rfl

/-- With nothing found, `cancel` looks for the conversation's last turn and raises. -/
theorem told_latest {s : ℕ → Service}
    (hforeign : ∀ n, Foreign access.workspace conversation op (s n))
    {next : Service → Option Receipt → Talk} :
    told (latest access.workspace conversation next) s =
      told (next (s 0) none) (fun n => s (n + 1)) := by
  rw [latest, told, (hforeign 0).latest?]

section

variable (hforeign : ∀ n, Foreign access.workspace conversation op (seen n))
  (hgrants : access.membership.grants .startRun = true)
include hforeign hgrants

/-- The id a cancel names when it raises: a turn of another conversation of the Workspace is
refused under its own. -/
theorem told_cancel_named :
    told (cancel access conversation (some turn) scope) seen =
      ([], some (.error (match ((seen 0).within access.workspace).receipt? turn with
        | none => .notFound "Agent turn for conversation" conversation
        | some found => .notFound "Agent turn" found.id))) := by
  rw [cancel, told_require hgrants]
  simp only [told]
  cases hfound : ((seen 0).within access.workspace).receipt? turn with
  | none =>
    simp only
    rw [told_latest (fun n => hforeign (n + 1))]
    rfl
  | some found =>
    have hne := (hforeign 0).receipt_ne (List.mem_of_find?_eq_some hfound)
    simp only [hne, ne_eq, not_false_eq_true, if_true]
    rfl

theorem told_cancel_none (hlive : (seen 0).active conversation = none) :
    told (cancel access conversation none scope) seen =
      ([], some (.error (.notFound "Agent turn for conversation" conversation))) := by
  rw [cancel, told_require hgrants]
  simp only [running, told, hlive, (hforeign 1).running?]
  rw [told_latest (fun n => hforeign (n + 2))]
  rfl

/-- A cancel without a turn id that finds a live turn refuses it by its scope, or asks it to
stop. -/
theorem told_cancel_live {entry : RunningTurn} (hlive : (seen 0).active conversation = some entry) :
    told (cancel access conversation none scope) seen =
      if scope.any (fun wanted => wanted ≠ entry.turn.scope) then
        ([], some (.error (.notFound "Agent turn" entry.turn.id)))
      else ([.requestStop entry.turn.id, .waitFor entry.turn.id],
        some (.ok (.turn ((((seen 1).within access.workspace).receipt? entry.turn.id).getD
          (entry.turn.ended .cancelled none))))) := by
  obtain ⟨hconversation, hrunning⟩ := (hforeign 0).wellFormed.live conversation entry hlive
  rw [cancel, told_require hgrants]
  simp only [running, told, hlive, hconversation, ne_eq, not_true_eq_false, if_false]
  unfold cancelFound
  split
  · rfl
  · simp only [hrunning, ne_eq, not_true_eq_false, if_false, hconversation, hlive, if_true]
    rfl

end

theorem told_getTurn
    (hforeign : ∀ n, Foreign access.workspace conversation (.getTurn turn) (seen n))
    (hgrants : access.membership.grants .viewProject = true) :
    told (getTurn access turn) seen = ([], some (.error (.notFound "Agent turn" turn))) := by
  rw [getTurn, told_require hgrants, receipt, told, (hforeign 0).receipt?]
  rfl

section

variable (hforeign : ∀ n, Foreign access.workspace conversation op (seen n))
  (hgrants : access.membership.grants .viewProject = true)
include hforeign hgrants

theorem told_listTurns {limit : Option ℕ} :
    told (listTurns access conversation limit) seen =
      ([], some (.error (.notFound "Agent conversation" conversation))) := by
  rw [listTurns, told_require hgrants, told]
  simp only [(hforeign 0).conversation?]
  rfl

theorem told_snapshot :
    told (activeTurnSnapshot access conversation) seen =
      ([], some (match (seen 0).active conversation with
        | some entry => .ok (.snapshot (some entry.snapshot))
        | none => .error (.notFound "Agent conversation" conversation))) := by
  rw [activeTurnSnapshot, told_require hgrants, told]
  cases hlive : (seen 0).active conversation with
  | some entry => rfl
  | none =>
    simp only [told, (hforeign 1).conversation?]
    rfl

/-- A wait that finds nothing live raises; one that waits looks once more when it is over. -/
theorem told_wait :
    told (waitForTurn access conversation) seen =
      match (seen 0).active conversation with
      | none => ([], some (.error (.notFound "Agent conversation" conversation)))
      | some entry =>
        ([.waitFor entry.turn.id], some (match (seen 1).active conversation with
          | some entry => .ok (.turn entry.turn)
          | none => .error (.notFound "Agent conversation" conversation))) := by
  rw [waitForTurn, told_require hgrants, told]
  cases hlive : (seen 0).active conversation with
  | none =>
    simp only [running, told, hlive, (hforeign 1).running?, (hforeign 2).conversation?]
    rfl
  | some entry =>
    cases hstill : (seen 1).active conversation with
    | some other =>
      simp only [running, told, hstill]
      rfl
    | none =>
      simp only [running, told, hstill, (hforeign 2).running?, (hforeign 3).conversation?]
      rfl

end

section

variable (h : AgreeApart conversation s s') (hs : Foreign workspace conversation op s)
  (hs' : Foreign workspace conversation op s')
include h hs hs'

/-- The Workspace's own receipts are the same in two states that differ in a foreign
conversation only. -/
theorem AgreeApart.receipts_eq : rowsOf workspace s.receipts = rowsOf workspace s'.receipts := by
  have hapart : ∀ t : Service, Foreign workspace conversation op t →
      rowsOf workspace t.receipts = rowsOf workspace
        (t.receipts.filter (fun row => row.2.conversation ≠ conversation)) := by
    intro t ht
    unfold rowsOf
    rw [List.filter_filter]
    congr 1
    refine List.filter_congr ?_
    intro row hrow
    by_cases hhome : row.1 = workspace
    · have hne := ht.receipt_ne (mem_rowsOf.mpr (by rw [← hhome]; exact hrow))
      simp [hhome, hne]
    · simp [hhome]
  rw [hapart s hs, hapart s' hs', h.receipts]

theorem AgreeApart.receipt? (turn : ℕ) :
    (s.within workspace).receipt? turn = (s'.within workspace).receipt? turn := by
  unfold Database.receipt?
  rw [show (s.within workspace).receipts = rowsOf workspace s.receipts from rfl,
    h.receipts_eq hs hs']
  rfl

end

end Calls

section Laws

variable (digest : String → String) (access : WorkspaceAccess) (conversation : ℕ) (op : Op)

/-- What each operation tells a caller of another Workspace, once it passed its guards. -/
theorem told_admitted (hforeign : ∀ n, Foreign access.workspace conversation op (seen n))
    (hadmitted : op.Admitted access (seen 0)) :
    Untouched (told (op.talk digest access conversation) seen) ↔
      op.MissesLive conversation seen := by
  obtain ⟨hgrants, hguard⟩ := hadmitted
  have huntouched : ∀ kind id, Untouched (([] : List Effect),
      some (.error (.notFound kind id) : Except Problem Answer)) := by
    intro kind id
    exact ⟨⟨kind, id, rfl⟩, fun effect heffect => nomatch heffect⟩
  cases op with
  | send clientTurnId text scope turn refused built =>
    rw [Op.talk, told_send hforeign hgrants hguard.1 hguard.2]
    exact iff_of_true (huntouched _ _) trivial
  | cancel turn scope =>
    cases turn with
    | some turn =>
      rw [Op.talk, told_cancel_named hforeign hgrants]
      refine iff_of_true ?_ trivial
      cases ((seen 0).within access.workspace).receipt? turn with
      | none | some found => exact huntouched _ _
    | none =>
      cases hlive : (seen 0).active conversation with
      | none =>
        rw [Op.talk, told_cancel_none hforeign hgrants hlive]
        refine iff_of_true (huntouched _ _) ?_
        intro entry hentry
        rw [hlive] at hentry
        cases hentry
      | some entry =>
        rw [Op.talk, told_cancel_live hforeign hgrants hlive]
        have hmisses : (Op.cancel none scope).MissesLive conversation seen ↔
            scope.any (fun wanted => wanted ≠ entry.turn.scope) = true := by
          rw [Option.any_eq_true]
          constructor
          · intro h
            obtain ⟨wanted, hwanted, hne⟩ := h entry hlive
            exact ⟨wanted, hwanted, by simpa using hne⟩
          · rintro ⟨wanted, hwanted, hne⟩ other hother
            rw [hlive] at hother
            cases hother
            exact ⟨wanted, hwanted, by simpa using hne⟩
        rw [hmisses]
        split
        · next hscope => exact iff_of_true (huntouched _ _) hscope
        · next hscope =>
          refine iff_of_false ?_ hscope
          rintro ⟨⟨kind, id, hresult⟩, _⟩
          cases hresult
  | getTurn turn =>
    rw [Op.talk, told_getTurn hforeign hgrants]
    exact iff_of_true (huntouched _ _) trivial
  | listTurns limit =>
    rw [Op.talk, told_listTurns hforeign hgrants]
    exact iff_of_true (huntouched _ _) trivial
  | waitForTurn =>
    rw [Op.talk, told_wait hforeign hgrants]
    show _ ↔ (seen 0).active conversation = none ∨ (seen 1).active conversation = none
    cases (seen 0).active conversation with
    | none => exact iff_of_true (huntouched _ _) (Or.inl rfl)
    | some entry =>
      cases (seen 1).active conversation with
      | none =>
        refine iff_of_true ⟨⟨_, _, rfl⟩, ?_⟩ (Or.inr rfl)
        intro effect heffect
        exact ⟨entry.turn.id, List.mem_singleton.mp heffect⟩
      | some other =>
        refine iff_of_false ?_ (by simp)
        rintro ⟨⟨kind, id, hresult⟩, _⟩
        cases hresult
  | activeTurnSnapshot =>
    rw [Op.talk, told_snapshot hforeign hgrants]
    show _ ↔ (seen 0).active conversation = none
    cases (seen 0).active conversation with
    | none => exact iff_of_true (huntouched _ _) rfl
    | some entry =>
      refine iff_of_false ?_ (by simp)
      rintro ⟨⟨kind, id, hresult⟩, _⟩
      cases hresult

theorem talk_denied (seen : ℕ → Service)
    (h : access.membership.grants op.capability = false) :
    told (op.talk digest access conversation) seen =
      ([], some (.error (.capabilityDenied op.capability access.workspace))) := by
  cases op <;> exact told_denied h

/-- A caller the guards refuse is told why, and that depends on nothing but the guards. -/
theorem told_refused (seen seen' : ℕ → Service) (hstopping : (seen 0).stopping = (seen' 0).stopping)
    (hrefused : ¬ op.Admitted access (seen 0)) :
    ¬ Untouched (told (op.talk digest access conversation) seen) ∧
      told (op.talk digest access conversation) seen =
        told (op.talk digest access conversation) seen' := by
  have hreason : ∃ problem, (∀ kind id, problem ≠ Problem.notFound kind id) ∧
      told (op.talk digest access conversation) seen = ([], some (.error problem)) ∧
      told (op.talk digest access conversation) seen' = ([], some (.error problem)) := by
    cases hgrants : access.membership.grants op.capability with
    | false =>
      exact ⟨.capabilityDenied op.capability access.workspace, (fun _ _ h => nomatch h),
        talk_denied digest access conversation op seen hgrants,
        talk_denied digest access conversation op seen' hgrants⟩
    | true =>
      cases op with
      | send clientTurnId text scope turn refused built =>
        have hstart : access.membership.grants .startRun = true := hgrants
        rw [Op.talk, send, told_require hstart]
        by_cases htext : Texts.strip text = ""
        · rw [if_pos htext]
          exact ⟨.emptyMessage, (fun _ _ h => nomatch h), rfl, rfl⟩
        · have hstop : (seen 0).stopping = true := by
            by_contra hstop
            exact hrefused ⟨hgrants, htext, by simpa using hstop⟩
          rw [if_neg htext]
          simp only [told, ← hstopping, hstop, if_true]
          exact ⟨.stopping, (fun _ _ h => nomatch h), rfl, rfl⟩
      | cancel turn scope | getTurn turn | listTurns limit | waitForTurn | activeTurnSnapshot =>
        exact absurd ⟨hgrants, trivial⟩ hrefused
  obtain ⟨problem, hproblem, htold, htold'⟩ := hreason
  rw [htold, htold']
  refine ⟨?_, rfl⟩
  rintro ⟨⟨kind, id, hresult⟩, _⟩
  exact hproblem kind id (Except.error.inj (Option.some.inj hresult))

/-- Two states that differ in the foreign conversation only, with nothing live for it or an
operation that does not ask: the same is told. -/
theorem told_eq {seen' : ℕ → Service}
    (hforeign : ∀ n, Foreign access.workspace conversation op (seen n))
    (hforeign' : ∀ n, Foreign access.workspace conversation op (seen' n))
    (hagree : ∀ n, AgreeApart conversation (seen n) (seen' n))
    (hlive : op.asksLive = true →
      ∀ n, (seen n).active conversation = none ∧ (seen' n).active conversation = none) :
    told (op.talk digest access conversation) seen =
      told (op.talk digest access conversation) seen' := by
  by_cases hadmitted : op.Admitted access (seen 0)
  swap
  · exact (told_refused digest access conversation op seen seen' (hagree 0).stopping hadmitted).2
  obtain ⟨hgrants, hguard⟩ := hadmitted
  cases op with
  | send clientTurnId text scope turn refused built =>
    rw [Op.talk, told_send hforeign hgrants hguard.1 hguard.2,
      told_send hforeign' hgrants hguard.1 ((hagree 0).stopping.symm.trans hguard.2)]
  | cancel turn scope =>
    cases turn with
    | some turn =>
      rw [Op.talk, told_cancel_named hforeign hgrants, told_cancel_named hforeign' hgrants,
        (hagree 0).receipt? (hforeign 0) (hforeign' 0) turn]
    | none =>
      rw [Op.talk, told_cancel_none hforeign hgrants (hlive rfl 0).1,
        told_cancel_none hforeign' hgrants (hlive rfl 0).2]
  | getTurn turn => rw [Op.talk, told_getTurn hforeign hgrants, told_getTurn hforeign' hgrants]
  | listTurns limit =>
    rw [Op.talk, told_listTurns hforeign hgrants, told_listTurns hforeign' hgrants]
  | waitForTurn =>
    rw [Op.talk, told_wait hforeign hgrants, told_wait hforeign' hgrants, (hlive rfl 0).1,
      (hlive rfl 0).2]
  | activeTurnSnapshot =>
    rw [Op.talk, told_snapshot hforeign hgrants, told_snapshot hforeign' hgrants, (hlive rfl 0).1,
      (hlive rfl 0).2]

end Laws

/-- Nothing stored and nothing live. -/
def idle : Service := ⟨[], [], [], fun _ => none, false⟩

def liveReceipt (conversation : ℕ) (scope : Scope) : Receipt :=
  ⟨0, conversation, scope, "k", .running, "", 1, none⟩

/-- One conversation, of one Workspace, with a live turn. -/
def oneLive (workspace conversation : ℕ) (scope : Scope) : Service where
  conversations := [(workspace, ⟨conversation, scope, none, 2⟩)]
  events := [(workspace, ⟨conversation, 1, 0, .userMessage "hello"⟩)]
  receipts := [(workspace, liveReceipt conversation scope)]
  active := fun other =>
    if other = conversation then
      some ⟨workspace, liveReceipt conversation scope, "so far", 6, 7⟩
    else none
  stopping := false

theorem foreign_idle (workspace conversation : ℕ) (op : Op) :
    Foreign workspace conversation op idle := by
  refine ⟨⟨List.nodup_nil, ?_, ?_⟩, ?_, ?_⟩
  · intro row hrow
    cases hrow
  · intro other entry hentry
    cases hentry
  · intro row hrow
    cases hrow
  · intro turn _ row hrow
    cases hrow

theorem foreign_oneLive {other : ℕ} {scope : Scope} (hne : other ≠ workspace) (op : Op) :
    Foreign workspace conversation op (oneLive other conversation scope) := by
  refine ⟨⟨List.nodup_singleton _, ?_, ?_⟩, ?_, ?_⟩
  · intro row hrow
    rw [List.mem_singleton.mp hrow]
    exact ⟨_, List.mem_singleton_self _, rfl⟩
  · intro found entry hentry
    change (if found = conversation then _ else _) = some entry at hentry
    split at hentry
    · next hfound =>
      rw [← Option.some.inj hentry, hfound]
      exact ⟨rfl, rfl⟩
    · cases hentry
  · intro row hrow _
    rw [List.mem_singleton.mp hrow]
    exact hne
  · intro turn _ row hrow _
    rw [List.mem_singleton.mp hrow]
    rfl

theorem agreeApart_idle_oneLive (workspace conversation : ℕ) (scope : Scope) :
    AgreeApart conversation idle (oneLive workspace conversation scope) := by
  refine ⟨?_, ?_, ?_, ?_, rfl⟩
  · simp [idle, oneLive]
  · simp [idle, oneLive, liveReceipt]
  · simp [idle, oneLive]
  · intro other hother
    simp [idle, oneLive, hother]

/-- A live turn of another Workspace is seen by the operations that ask for one. -/
theorem told_ne_of_asksLive (digest : String → String) (conversation : ℕ)
    (hasks : op.asksLive = true) (hgrants : access.membership.grants op.capability = true) :
    ∃ scope, told (op.talk digest access conversation) (fun _ => idle) ≠
      told (op.talk digest access conversation)
        (fun _ => oneLive (access.workspace + 1) conversation scope) := by
  have hidle : ∀ n : ℕ, Foreign access.workspace conversation op ((fun _ => idle) n) :=
    fun _ => foreign_idle _ _ _
  have hone : ∀ (scope : Scope) (n : ℕ), Foreign access.workspace conversation op
      ((fun _ => oneLive (access.workspace + 1) conversation scope) n) :=
    fun scope _ => foreign_oneLive (Nat.succ_ne_self _) _
  have hlive : ∀ scope, ∃ entry, (oneLive (access.workspace + 1) conversation scope).active
      conversation = some entry ∧ entry.turn.scope = scope :=
    fun scope => ⟨_, if_pos rfl, rfl⟩
  cases op with
  | cancel turn scope =>
    cases turn with
    | some turn => cases hasks
    | none =>
      obtain ⟨entry, hentry, hscope⟩ := hlive (scope.getD ⟨0, "", ""⟩)
      refine ⟨scope.getD ⟨0, "", ""⟩, ?_⟩
      have hcovers : scope.any (fun wanted => wanted ≠ entry.turn.scope) = false := by
        rw [hscope]
        cases scope <;> simp
      rw [Op.talk, told_cancel_none hidle hgrants rfl, told_cancel_live (hone _) hgrants hentry,
        hcovers, if_neg (by decide)]
      intro h
      cases congrArg Prod.fst h
  | waitForTurn | activeTurnSnapshot =>
    obtain ⟨entry, hentry, _⟩ := hlive ⟨0, "", ""⟩
    refine ⟨⟨0, "", ""⟩, ?_⟩
    simp only [Op.talk, told_wait hidle hgrants, told_wait (hone _) hgrants,
      told_snapshot hidle hgrants, told_snapshot (hone _) hgrants, hentry]
    intro h
    cases h
  | _ => cases hasks

/-- A call of another Workspace's conversation finds nothing, stops nothing and writes nothing
exactly where it passes its guards and misses a live turn. Two states that differ in that
conversation only are told apart by no operation while nothing is live for it; whatever may be
live, by none that does not look for a live turn. -/
theorem foreign_call (digest : String → String) (access : WorkspaceAccess) (conversation : ℕ)
    (op : Op) :
    (∀ seen : ℕ → Service, (∀ n, Foreign access.workspace conversation op (seen n)) →
      (Untouched (told (op.talk digest access conversation) seen) ↔
        op.Admitted access (seen 0) ∧ op.MissesLive conversation seen)) ∧
    ((∀ seen seen' : ℕ → Service, (∀ n, Foreign access.workspace conversation op (seen n)) →
        (∀ n, Foreign access.workspace conversation op (seen' n)) →
        (∀ n, AgreeApart conversation (seen n) (seen' n)) →
        told (op.talk digest access conversation) seen =
          told (op.talk digest access conversation) seen') ↔
      op.asksLive = false ∨ access.membership.grants op.capability = false) ∧
    (∀ seen seen' : ℕ → Service, (∀ n, Foreign access.workspace conversation op (seen n)) →
      (∀ n, Foreign access.workspace conversation op (seen' n)) →
      (∀ n, AgreeApart conversation (seen n) (seen' n)) →
      (∀ n, (seen n).active conversation = none) → (∀ n, (seen' n).active conversation = none) →
      told (op.talk digest access conversation) seen =
        told (op.talk digest access conversation) seen') := by
  refine ⟨?_, ⟨?_, ?_⟩, ?_⟩
  · intro seen hforeign
    by_cases hadmitted : op.Admitted access (seen 0)
    · rw [told_admitted digest access conversation op hforeign hadmitted]
      exact ⟨fun h => ⟨hadmitted, h⟩, And.right⟩
    · exact iff_of_false
        (told_refused digest access conversation op seen seen rfl hadmitted).1
        (fun h => hadmitted h.1)
  · intro hsame
    by_contra hneither
    rw [not_or, Bool.not_eq_false, Bool.not_eq_false] at hneither
    obtain ⟨scope, hne⟩ := told_ne_of_asksLive digest conversation hneither.1 hneither.2
    exact hne (hsame _ _ (fun _ => foreign_idle _ _ _)
      (fun _ => foreign_oneLive (Nat.succ_ne_self _) _)
      (fun _ => agreeApart_idle_oneLive _ _ _))
  · rintro (hasks | hdenied) seen seen' hforeign hforeign' hagree
    · refine told_eq digest access conversation op hforeign hforeign' hagree ?_
      intro h
      rw [hasks] at h
      cases h
    · rw [talk_denied digest access conversation op seen hdenied,
        talk_denied digest access conversation op seen' hdenied]
  · intro seen seen' hforeign hforeign' hagree hnone hnone'
    exact told_eq digest access conversation op hforeign hforeign' hagree
      (fun _ n => ⟨hnone n, hnone' n⟩)

theorem named_cancel_untouched :
    Untouched (told ((Op.cancel (some 0) none).talk id ⟨1, .new .editor⟩ 5)
      (fun _ => oneLive 2 5 ⟨3, "graph", "agent"⟩)) :=
  ((foreign_call id ⟨1, .new .editor⟩ 5 (.cancel (some 0) none)).1
    (fun _ => oneLive 2 5 ⟨3, "graph", "agent"⟩)
    (fun _ => foreign_oneLive (by decide) _)).mpr ⟨⟨by decide, trivial⟩, trivial⟩

/-- A viewer of one Workspace reads the text a turn of another one is streaming, and an editor
stops it. -/
theorem live_turn_reached :
    (∀ op, op = Op.activeTurnSnapshot ∨ op = Op.cancel none none →
      Foreign 1 5 op (oneLive 2 5 ⟨3, "graph", "agent"⟩)) ∧
    (told (Op.activeTurnSnapshot.talk id ⟨1, .new .viewer⟩ 5)
      (fun _ => oneLive 2 5 ⟨3, "graph", "agent"⟩)).2 =
        some (.ok (.snapshot
          (some ⟨liveReceipt 5 ⟨3, "graph", "agent"⟩, "so far", 6, some 7⟩))) ∧
    .requestStop 0 ∈ (told ((Op.cancel none none).talk id ⟨1, .new .editor⟩ 5)
      (fun _ => oneLive 2 5 ⟨3, "graph", "agent"⟩)).1 ∧
    ¬ Untouched (told (Op.activeTurnSnapshot.talk id ⟨1, .new .viewer⟩ 5)
      (fun _ => oneLive 2 5 ⟨3, "graph", "agent"⟩)) := by
  have hsnapshot : (told (Op.activeTurnSnapshot.talk id ⟨1, .new .viewer⟩ 5)
      (fun _ => oneLive 2 5 ⟨3, "graph", "agent"⟩)).2 =
        some (.ok (.snapshot
          (some ⟨liveReceipt 5 ⟨3, "graph", "agent"⟩, "so far", 6, some 7⟩))) := by rfl
  refine ⟨fun op _ => foreign_oneLive (by decide) op, hsnapshot, List.mem_cons_self, ?_⟩
  rintro ⟨⟨kind, id, hresult⟩, _⟩
  rw [hsnapshot] at hresult
  cases hresult

end Grafy.TurnAccess
