import Grafy.AgentTurnLog

/-!
Sends with a client turn id. One receipt, one user message and one task belong
to a client turn id of a conversation, whichever calls compete for it and in
whichever processes they run; the calls that lose are answered from what the
winner stored, and a send that raises wrote nothing. A send is followed from
step to step by the phases it goes through.
-/
namespace Grafy.Agents

variable {digest : String → String} {s s' : System} {act : Act} {db : Database} {phase : Phase}
  {r : Receipt} {mid : System} {next : System}

/-! The steps of a send -/

/-- The receipt of a send of the text with the client turn id. -/
def Receipt.Answers (digest : String → String) (r : Receipt) (conversation : ℕ)
    (clientTurnId text : String) : Prop :=
  r.conversation = conversation ∧ r.clientTurnId = clientTurnId ∧ r.matchesRequest digest text

/-- One step of a send, by the phase before and after it. -/
inductive SendStep (digest : String → String) (s : System) (act : Act) (p conversation : ℕ)
    (clientTurnId text : String) (scope : Option Scope) : Phase → Phase → Prop
  | move {before after} :
    SendMove digest s act p conversation clientTurnId text scope before after →
      SendStep digest s act p conversation clientTurnId text scope before after
  | admitted {found receipt} : s.db.receiptByClient? conversation clientTurnId = none →
      (∀ r ∈ s.db.receipts, r.conversation = conversation → r.status ≠ .running) →
      receipt.Answers digest conversation clientTurnId text →
      SendStep digest s act p conversation clientTurnId text scope (.sendFree found)
        (.sendAdmitted receipt)
  | started {turn} : SendStep digest s act p conversation clientTurnId text scope
      (.sendAdmitted turn) (.returned (some turn))
  | factory {turn} : SendStep digest s act p conversation clientTurnId text scope
      (.sendAdmitted turn) (.raised .modelFactory)

variable {turn : ℕ} {clientTurnId text : String} {permitted : Bool}

variable {i conversation k j p : ℕ} {call : Call} {scope : Option Scope} {task : Task}
  {acts : List Act}

section Calls

variable {text : String} {phase : Phase}

/-- A step of a send moves that call alone, and writes only when it admits. -/
theorem CallStep.send (hlog : LogOk s.db) (hfits : call.Fits digest)
    (hrequest : call.request = .send conversation clientTurnId text scope)
    (hstep : CallStep digest s i call act s') :
    ∃ phase, s'.calls = (s.setCall i phase).calls ∧
      SendStep digest s act call.process conversation clientTurnId text scope call.phase phase ∧
      (s'.db = s.db ∨ ∃ r, phase = .sendAdmitted r) := by
  have hstops (hstops : call.request.Stops) : False := by
    rw [hrequest] at hstops
    exact hstops
  cases hstep with
  | sent hrequest' hmove =>
    rw [hrequest] at hrequest'
    cases hrequest'
    exact ⟨_, rfl, .move hmove, .inl rfl⟩
  | @admitted _ _ _ _ turn found written receipt hrequest' hphase hnone hfound hid hadmitted =>
    rw [hrequest] at hrequest'
    cases hrequest'
    refine ⟨.sendAdmitted receipt, rfl, ?_, .inr ⟨receipt, rfl⟩⟩
    obtain ⟨-, -, -, hconv, hclient, -, hdigest, -⟩ := admitTurn_ok hlog hfound hadmitted
    rw [hphase]
    refine .admitted hnone ?_ ⟨hconv.trans hid, hclient, hdigest⟩
    rw [← hid]
    exact fun r hr hconv => ((admitTurn_stored hlog hfound hadmitted).2 r hr hconv).2
  | @factory turn k hphase _ =>
    refine ⟨_, rfl, ?_, .inl rfl⟩
    rw [hphase]
    exact .factory
  | @started turn k hphase _ =>
    refine ⟨.returned (some turn), rfl, ?_, .inl rfl⟩
    rw [hphase]
    exact .started
  | closed hphase _ =>
    unfold Call.Fits at hfits
    simp [hrequest, hphase] at hfits
  | other _ hother _ _ | stopped _ hother _ _ | orphan _ hother _ _ _ _ =>
    exact (hstops hother).elim

theorem setCall_calls_self (hcall : s.calls[i]? = some call) :
    (s.setCall i phase).calls[i]? = some { call with phase } := by
  unfold System.setCall
  rw [List.getElem?_modify_eq, hcall]
  rfl

theorem setCall_calls_ne (h : k ≠ i) : (s.setCall k phase).calls[i]? = s.calls[i]? :=
  List.getElem?_modify_ne _ _ h

theorem CallStep.calls (hstep : CallStep digest s i call act s') :
    ∃ phase, s'.calls = (s.setCall i phase).calls := by
  cases hstep <;> exact ⟨_, rfl⟩

theorem TaskStep.calls (hstep : TaskStep s j task act s') : s'.calls = s.calls := by
  cases hstep <;> rfl

/-- What a step does to a call that has begun: it takes a step of its own, or it stays where
it is, or it is lost with its process. -/
theorem Step.callAt (hstep : Step digest s act s') (hcall : s.calls[i]? = some call) :
    ∃ phase, s'.calls[i]? = some { call with phase } ∧
      ((act.callIndex ≠ some i ∧ (phase = call.phase ∨ phase = .gone)) ∨
        (act.callIndex = some i ∧ CallStep digest s i call act s')) := by
  have hsame (hcalls : s'.calls[i]? = s.calls[i]?) (hindex : act.callIndex ≠ some i) :
      ∃ phase, s'.calls[i]? = some { call with phase } ∧
        ((act.callIndex ≠ some i ∧ (phase = call.phase ∨ phase = .gone)) ∨
          (act.callIndex = some i ∧ CallStep digest s i call act s')) :=
    ⟨call.phase, hcalls.trans hcall, .inl ⟨hindex, .inl rfl⟩⟩
  cases hstep with
  | idle hnone | wrote hnone _ _ => exact hsame rfl (by simp [hnone])
  | @called p permitted request hnone =>
    obtain ⟨phase, hcalls, -, -⟩ := beginCall_calls digest s p permitted request
    refine hsame ?_ (by simp [hnone])
    rw [hcalls, List.getElem?_append_left (List.getElem?_eq_some_iff.mp hcall).1]
  | @crashed p hnone =>
    by_cases hlost : call.process = p ∧ call.phase.isOver = false
    · refine ⟨.gone, ?_, .inl ⟨by simp [hnone], .inr rfl⟩⟩
      simp [crashProcess, List.getElem?_map, hcall, hlost]
    · refine hsame ?_ (by simp [hnone])
      simp only [crashProcess, List.getElem?_map, hcall, Option.map_some, if_neg hlost]
  | @call k other _ hindex hother hcallstep =>
    obtain ⟨phase, hcalls⟩ := hcallstep.calls
    by_cases hk : k = i
    · subst hk
      rw [hcall] at hother
      cases hother
      refine ⟨phase, ?_, .inr ⟨hindex, hcallstep⟩⟩
      rw [hcalls]
      exact setCall_calls_self hcall
    · refine hsame ?_ ?_
      · rw [hcalls]
        exact setCall_calls_ne hk
      · rw [hindex]
        simpa using hk
  | task hnone _ _ htaskstep =>
    refine hsame ?_ (by simp [hnone])
    rw [htaskstep.calls]

theorem Step.sendCall (h : Sane digest s) (hstep : Step digest s act s')
    (hcall : s.calls[i]? = some call)
    (hrequest : call.request = .send conversation clientTurnId text scope) :
    ∃ phase, s'.calls[i]? = some { call with phase } ∧
      ((act.callIndex ≠ some i ∧ (phase = call.phase ∨ phase = .gone)) ∨
        (act.callIndex = some i ∧
          SendStep digest s act call.process conversation clientTurnId text scope call.phase phase ∧
          (s'.db = s.db ∨ ∃ r, phase = .sendAdmitted r))) := by
  obtain ⟨phase, hafter, hother | ⟨hindex, hcallstep⟩⟩ := hstep.callAt hcall
  · exact ⟨phase, hafter, .inl hother⟩
  · have hfits := h.held.fits call (List.mem_of_getElem? hcall)
    obtain ⟨phase', hcalls, hsend, hdb⟩ := hcallstep.send h.log hfits hrequest
    refine ⟨phase', ?_, .inr ⟨hindex, hsend, hdb⟩⟩
    rw [hcalls]
    exact setCall_calls_self hcall

/-- The phases a send can start in. -/
def Begun (s : System) (p : ℕ) (permitted : Bool) (text : String) (phase : Phase) : Prop :=
  phase = .sendBegun ∨ (phase = .raised .forbidden ∧ permitted = false) ∨
    (phase = .raised .blankMessage ∧ Texts.strip text = "") ∨
    (phase = .raised .stopping ∧ (s.procs p).stopping = true)

theorem beginCall_send
    (h : (beginCall s p permitted (.send conversation clientTurnId text scope)).calls =
      s.calls ++ [⟨p, permitted, .send conversation clientTurnId text scope, phase⟩]) :
    Begun s p permitted text phase := by
  obtain ⟨-, hlast⟩ := List.append_inj' h rfl
  cases hlast
  split_ifs with hforbidden hblank hstopping
  · exact .inr (.inl ⟨rfl, hforbidden⟩)
  · exact .inr (.inr (.inl ⟨rfl, hblank⟩))
  · exact .inr (.inr (.inr ⟨rfl, hstopping⟩))
  · exact .inl rfl

/-- A send that is new after a step has only begun. -/
theorem Step.newSend (hstep : Step digest s act s') (hnone : s.calls[i]? = none)
    (hcall : s'.calls[i]? = some call)
    (hrequest : call.request = .send conversation clientTurnId text scope) :
    Begun s call.process call.permitted text call.phase := by
  have habsurd (hcalls : s'.calls[i]? = s.calls[i]?) :
    Begun s call.process call.permitted text call.phase := by
    rw [hcalls, hnone] at hcall
    cases hcall
  cases hstep with
  | idle _ | wrote _ _ _ => exact habsurd rfl
  | @called p permitted request _ =>
    obtain ⟨phase, hcalls, -, -⟩ := beginCall_calls digest s p permitted request
    have hlength := List.getElem?_eq_none_iff.mp hnone
    rw [hcalls, List.getElem?_append_right hlength] at hcall
    obtain rfl := List.mem_singleton.mp (List.mem_of_getElem? hcall)
    simp only at hrequest
    subst hrequest
    exact beginCall_send hcalls
  | crashed _ =>
    refine habsurd ?_
    simp [crashProcess, List.getElem?_map, hnone]
  | @call k other _ _ hother hcallstep =>
    obtain ⟨phase, hcalls⟩ := hcallstep.calls
    refine habsurd ?_
    rw [hcalls]
    refine setCall_calls_ne ?_
    rintro rfl
    rw [hother] at hnone
    cases hnone
  | task _ _ _ htaskstep =>
    refine habsurd ?_
    rw [htaskstep.calls]

/-- A send followed along a run: what its phase satisfies where it begins, what every other
step and its own steps keep, and what holds of the phase of a send lost in a crash. -/
theorem run_send {I : System → Prop} {P : System → ℕ → Bool → Phase → Prop} (hsane : Sane digest s)
    (hI : I s) (hIkeep : ∀ t t' act, Sane digest t → I t → Step digest t act t' → I t')
    (hstart : ∀ call, s.calls[i]? = some call → call.request = .send conversation clientTurnId text
      scope → P s call.process call.permitted call.phase)
    (hbegun : ∀ t p permitted phase, I t → t.calls[i]? = none → Begun t p permitted text phase →
      P t p permitted phase)
    (hgone : ∀ t p permitted, P t p permitted .gone)
    (hkeep : ∀ t t' act p permitted phase, Sane digest t → Step digest t act t' →
      P t p permitted phase → P t' p permitted phase)
    (hown : ∀ t act p permitted before after, Sane digest t → I t → P t p permitted before →
      SendStep digest t act p conversation clientTurnId text scope before after →
      P t p permitted after)
    (hrun : run digest s acts = some s') :
    ∀ call, s'.calls[i]? = some call →
      call.request = .send conversation clientTurnId text scope →
      P s' call.process call.permitted call.phase := by
  refine (run_induction (P := fun t => I t ∧ ∀ call, t.calls[i]? = some call →
    call.request = .send conversation clientTurnId text scope →
    P t call.process call.permitted call.phase) hsane ⟨hI, hstart⟩ ?_ hrun).2.2
  intro t t' act htsane hholds hstep
  obtain ⟨htI, hcalls⟩ := hholds
  refine ⟨hIkeep t t' act htsane htI hstep, ?_⟩
  intro call hcall hrequest
  cases hbefore : t.calls[i]? with
  | none =>
    have hbegin := hstep.newSend hbefore hcall hrequest
    exact hkeep t t' act _ _ _ htsane hstep (hbegun t _ _ _ htI hbefore hbegin)
  | some old =>
    obtain ⟨phase, hafter, -⟩ := hstep.callAt hbefore
    rw [hcall] at hafter
    cases hafter
    obtain ⟨phase', hafter, hmoved⟩ := hstep.sendCall htsane hbefore hrequest
    rw [hcall] at hafter
    cases hafter
    have hP := hcalls old hbefore hrequest
    rcases hmoved with ⟨-, rfl | rfl⟩ | ⟨-, hsend, -⟩
    · exact hkeep t t' act _ _ _ htsane hstep hP
    · exact hgone t' _ _
    · exact hkeep t t' act _ _ _ htsane hstep
        (hown t act old.process old.permitted _ _ htsane htI hP hsend)

end Calls

/-! Where a send ends -/

variable {after before : Phase} {db' : Database} {excused : AgentError → Prop}

section Answers

variable {conversation : ℕ} {clientTurnId text : String} {scope : Option Scope} {db : Database}
  {r : Receipt} {p : ℕ}

theorem LogOk.client_unique (h : LogOk db) {r' : Receipt} (hr : r ∈ db.receipts)
    (hr' : r' ∈ db.receipts) (hconv : r.conversation = r'.conversation)
    (hclient : r.clientTurnId = r'.clientTurnId) : r = r' := by
  have hsymm : Std.Symm (fun a b : Receipt =>
      ¬ (a.conversation = b.conversation ∧ a.clientTurnId = b.clientTurnId)) :=
    ⟨fun a b hab hba => hab ⟨hba.1.symm, hba.2.symm⟩⟩
  by_contra hne
  exact h.clients.forall hr hr' hne ⟨hconv, hclient⟩

/-- A receipt once stored is what its client turn id is answered with. -/
theorem Copy.found (h : LogOk db) (hr : Copy db r) :
    ∃ stored, db.receiptByClient? r.conversation r.clientTurnId = some stored ∧
      stored.id = r.id ∧ stored.requestDigest = r.requestDigest := by
  obtain ⟨stored, hstored, hid, hconv, hclient, hdigest⟩ := hr
  cases hfound : db.receiptByClient? r.conversation r.clientTurnId with
  | none =>
    have hnot := List.find?_eq_none.mp hfound stored hstored
    simp [hconv, hclient] at hnot
  | some found =>
    obtain ⟨hmem, hconv', hclient'⟩ := receiptByClient?_mem hfound
    obtain rfl := h.client_unique hmem hstored (hconv'.trans hconv.symm)
      (hclient'.trans hclient.symm)
    exact ⟨found, rfl, hid, hdigest⟩

theorem Step.copy (h : Sane digest s) (hstep : Step digest s act s') (hr : Copy s.db r) :
    Copy s'.db r := by
  rcases hstep.effect h with hdb | heffect
  · rw [hdb]
    exact hr
  · exact heffect.copy hr

/-- Why a send may be refused before its client turn id is looked up: an access without
START_RUN, a blank message, a shutdown of its process, a conversation outside the scope it
was addressed with. -/
def Excused (s : System) (p : ℕ) (permitted : Bool) (conversation : ℕ) (text : String)
    (scope : Option Scope) : AgentError → Prop
  | .forbidden => permitted = false
  | .blankMessage => Texts.strip text = ""
  | .stopping => ∃ call ∈ s.calls, call.process = p ∧ call.request = .close
  | .notFound => ∃ c ∈ s.db.conversations, c.id = conversation ∧ scopeCovers scope c.scope = false
  | _ => False

theorem Step.call_made (hstep : Step digest s act s') (h : call ∈ s.calls) :
    ∃ call' ∈ s'.calls, call'.process = call.process ∧ call'.request = call.request := by
  obtain ⟨k, hk⟩ := List.mem_iff_getElem?.mp h
  obtain ⟨phase, hafter, -⟩ := hstep.callAt hk
  exact ⟨_, List.mem_of_getElem? hafter, rfl, rfl⟩

theorem Excused.step (hsane : Sane digest s) (hstep : Step digest s act s') {e : AgentError}
    (h : Excused s p permitted conversation text scope e) :
    Excused s' p permitted conversation text scope e := by
  cases e with
  | forbidden | blankMessage => exact h
  | stopping =>
    obtain ⟨call, hcall, hp, hrequest⟩ := h
    obtain ⟨call', hcall', hp', hrequest'⟩ := hstep.call_made hcall
    exact ⟨call', hcall', hp'.trans hp, hrequest'.trans hrequest⟩
  | notFound =>
    obtain ⟨c, hc, hid, hscope⟩ := h
    rcases hstep.effect hsane with hdb | heffect
    · exact ⟨c, by rw [hdb]; exact hc, hid, hscope⟩
    · obtain ⟨c', hc', hid', hscope', -⟩ := heffect.row (.of_mem hc)
      exact ⟨c', hc', hid'.trans hid, by rw [hscope']; exact hscope⟩
  | _ => exact h

/-- A process is stopping because a shutdown was asked of it. -/
def Stopped (s : System) : Prop :=
  ∀ p, (s.procs p).stopping = true → ∃ call ∈ s.calls, call.process = p ∧ call.request = .close

theorem setProc_stopping {s : System} {q : ℕ} {process : Process}
    (hsame : process.stopping = (s.procs p).stopping) :
    ((s.setProc p process).procs q).stopping = (s.procs q).stopping := by
  unfold System.setProc
  by_cases hq : q = p
  · simp [hq, hsame]
  · simp [hq]

theorem admitted_stopping (s : System) (i p q : ℕ) (written : Database) (receipt : Receipt) :
    ((s.admitted i p written receipt).procs q).stopping = (s.procs q).stopping :=
  setProc_stopping rfl

theorem started_stopping (s : System) (i p q : ℕ) (turn : Receipt) :
    ((s.started i p turn).procs q).stopping = (s.procs q).stopping :=
  setProc_stopping rfl

theorem forgotten_stopping (s : System) (j q : ℕ) (task : Task) :
    ((s.forgotten j task).procs q).stopping = (s.procs q).stopping :=
  setProc_stopping rfl

theorem close_procs (s : System) (p q : ℕ) (permitted : Bool) :
    (beginCall s p permitted .close).procs q =
      if q = p then { s.procs p with active := fun _ => none, stopping := true }
        else s.procs q := by
  simp only [beginCall, System.setProc, foldl_requestStop System.procs (fun _ _ => rfl)]

/-- A step stops a process by a shutdown alone. -/
theorem Step.stopping (hstep : Step digest s act s') (h : (s'.procs p).stopping = true) :
    (s.procs p).stopping = true ∨ ∃ call ∈ s'.calls, call.process = p ∧ call.request = .close := by
  cases hstep with
  | idle _ | wrote _ _ _ => exact .inl h
  | @called q permitted request _ =>
    cases request with
    | close =>
      by_cases hp : p = q
      · subst hp
        exact .inr ⟨_, List.mem_append_right _ (List.mem_singleton_self _), rfl, rfl⟩
      · rw [close_procs, if_neg hp] at h
        exact .inl h
    | _ => exact .inl h
  | @crashed q _ =>
    by_cases hp : p = q
    · subst hp
      simp [crashProcess, System.setProc, freshProcess] at h
    · simp only [crashProcess, System.setProc, if_neg hp] at h
      exact .inl h
  | call _ _ hcallstep =>
    cases hcallstep with
    | admitted =>
      rw [admitted_stopping] at h
      exact .inl h
    | started =>
      rw [started_stopping] at h
      exact .inl h
    | _ => exact .inl h
  | task _ _ _ htaskstep =>
    cases htaskstep with
    | forgets =>
      rw [forgotten_stopping] at h
      exact .inl h
    | _ => exact .inl h

theorem Step.stopped (hstep : Step digest s act s') (h : Stopped s) : Stopped s' := by
  intro p hp
  rcases hstep.stopping hp with hold | hnew
  · obtain ⟨call, hcall, hprocess, hrequest⟩ := h p hold
    obtain ⟨call', hcall', hprocess', hrequest'⟩ := hstep.call_made hcall
    exact ⟨call', hcall', hprocess'.trans hprocess, hrequest'.trans hrequest⟩
  · exact hnew

/-- The client turn id of the send has not met a stored receipt yet. -/
def Phase.undecided : Phase → Bool
  | .sendBegun => true
  | .sendLocked _ => true
  | .sendUnseen _ => true
  | .sendFree _ => true
  | _ => false

/-- The send has looked its client turn id up and not found it. -/
def Phase.lookedUp : Phase → Bool
  | .sendUnseen _ => true
  | .sendFree _ => true
  | _ => false

/-- How a send is refused that looked its client turn id up before another one stored it. -/
def AgentError.overtaken : AgentError → Bool
  | .busy _ => true
  | .refused => true
  | .invalid => true
  | .staleAppend => true
  | .concurrentWrite => true
  | _ => false

/-- Where a send stands whose client turn id is stored with another text. -/
inductive Phase.Conflicting (turn : ℕ) (excused : AgentError → Prop) (late : Prop) : Phase → Prop
  | begun : Conflicting turn excused late .sendBegun
  | locked {found} : Conflicting turn excused late (.sendLocked found)
  | unseen {found} : late → Conflicting turn excused late (.sendUnseen found)
  | free {found} : late → Conflicting turn excused late (.sendFree found)
  | lost : late → Conflicting turn excused late .sendLost
  | overtaken {e} : late → e.overtaken = true → Conflicting turn excused late (.raised e)
  | replay : Conflicting turn excused late .sendReplay
  | conflict : Conflicting turn excused late (.raised (.conflict turn))
  | excused {e} : excused e → Conflicting turn excused late (.raised e)
  | gone : Conflicting turn excused late .gone

theorem Phase.Conflicting.imp {excused' : AgentError → Prop} {late : Prop}
    (h : phase.Conflicting turn excused late) (himp : ∀ e, excused e → excused' e) :
    phase.Conflicting turn excused' late := by
  cases h with
  | begun => exact .begun
  | locked => exact .locked
  | unseen hlate => exact .unseen hlate
  | free hlate => exact .free hlate
  | lost hlate => exact .lost hlate
  | overtaken hlate he => exact .overtaken hlate he
  | replay => exact .replay
  | conflict => exact .conflict
  | excused he => exact .excused (himp _ he)
  | gone => exact .gone

theorem Refusal.overtaken {found : Conversation} {refused : Bool} {e : AgentError}
    (h : Refusal db found clientTurnId text turn refused e) : e.overtaken = true := by
  cases e <;> first | rfl | cases h

theorem SendStep.conflicting {late : Prop} (h : LogOk s.db) (hr : Copy s.db r)
    (hdigest : r.requestDigest ≠ digest text)
    (hbefore : before.Conflicting r.id (Excused s p permitted r.conversation text scope) late)
    (hstep : SendStep digest s act p r.conversation r.clientTurnId text scope before after) :
    after.Conflicting r.id (Excused s p permitted r.conversation text scope) late := by
  obtain ⟨stored, hfound, hid, hsame⟩ := hr.found h
  have hother : ∀ r', s.db.receiptByClient? r.conversation r.clientTurnId = some r' →
      r'.id = r.id ∧ ¬ r'.matchesRequest digest text := by
    intro r' hr'
    rw [hfound] at hr'
    cases hr'
    exact ⟨hid, fun hmatches => hdigest (hsame.symm.trans hmatches)⟩
  have hsome (hnone : s.db.receiptByClient? r.conversation r.clientTurnId = none) : False := by
    rw [hfound] at hnone
    cases hnone
  cases hstep with
  | move hmove =>
    cases hmove with
    | missing hscope =>
      obtain ⟨hmem, hconv, -⟩ := receiptByClient?_mem hfound
      obtain ⟨c, hc, hcid⟩ := h.receipt_conversation stored hmem
      refine .excused ?_
      exact ⟨c, hc, hcid.trans hconv, hscope c hc (hcid.trans hconv)⟩
    | locked _ _ => exact .locked
    | repeated _ => exact .replay
    | unseen hnone | lostBusy hnone | vanished hnone => exact (hsome hnone).elim
    | busy _ =>
      cases hbefore with
      | unseen hlate => exact .overtaken hlate rfl
    | free _ =>
      cases hbefore with
      | unseen hlate => exact .free hlate
    | refused _ hrefusal =>
      cases hbefore with
      | free hlate => exact .overtaken hlate hrefusal.overtaken
    | lost _ =>
      cases hbefore with
      | free hlate => exact .lost hlate
    | lostReplay hr' hmatches | replayed hr' hmatches => exact absurd hmatches (hother _ hr').2
    | lostConflict hr' _ | conflict hr' _ =>
      rw [(hother _ hr').1]
      exact .conflict
    | named => cases hbefore
  | admitted hnone _ _ => exact (hsome hnone).elim
  | started | factory => cases hbefore

/-- A send whose client turn id is stored with another text is answered with the conflict,
or by a check that is made before its id is looked up; one that had looked it up before
it was stored may be overtaken. -/
theorem run_conflicting (hsane : Sane digest s) (hstopped : Stopped s) (hr : r ∈ s.db.receipts)
    (hdigest : r.requestDigest ≠ digest text)
    (hundecided : ∀ call, s.calls[i]? = some call → call.phase.undecided = true)
    (hrun : run digest s acts = some s') :
    ∀ call, s'.calls[i]? = some call →
      call.request = .send r.conversation r.clientTurnId text scope →
      call.phase.Conflicting r.id (Excused s' call.process call.permitted r.conversation text scope)
        (∃ begun, s.calls[i]? = some begun ∧ begun.phase.lookedUp = true) := by
  refine run_send (I := fun t => Copy t.db r ∧ Stopped t)
    (P := fun t p permitted phase => phase.Conflicting r.id
      (Excused t p permitted r.conversation text scope)
      (∃ begun, s.calls[i]? = some begun ∧ begun.phase.lookedUp = true)) hsane
    ⟨.of_mem hr, hstopped⟩ ?_ ?_ ?_ ?_ ?_ ?_ hrun
  · intro t t' act htsane hholds hstep
    exact ⟨hstep.copy htsane hholds.1, hstep.stopped hholds.2⟩
  · intro call hcall _
    have hlate (hphase : call.phase.lookedUp = true) :
        ∃ begun, s.calls[i]? = some begun ∧ begun.phase.lookedUp = true := ⟨call, hcall, hphase⟩
    have hbefore := hundecided call hcall
    cases hphase : call.phase with
    | sendBegun => exact .begun
    | sendLocked found => exact .locked
    | sendUnseen found => exact .unseen (hlate (by rw [hphase]; rfl))
    | sendFree found => exact .free (hlate (by rw [hphase]; rfl))
    | _ =>
      rw [hphase] at hbefore
      cases hbefore
  · intro t p permitted phase hholds _ hbegun
    rcases hbegun with rfl | ⟨rfl, hforbidden⟩ | ⟨rfl, hblank⟩ | ⟨rfl, hstopping⟩
    · exact .begun
    · exact .excused hforbidden
    · exact .excused hblank
    · exact .excused (hholds.2 p hstopping)
  · intro t p permitted
    exact .gone
  · intro t t' act p permitted phase htsane hstep hphase
    exact hphase.imp (fun e he => he.step htsane hstep)
  · intro t act p permitted before after htsane hholds hbefore hstep
    exact hstep.conflicting htsane.log hholds.1 hdigest hbefore

/-- Where a send stands that met a running turn. -/
def Phase.TurnedAway (excused : AgentError → Prop) (phase : Phase) : Prop :=
  phase = .sendLost ∨ phase = .sendLostBusy ∨ (∃ turn, phase = .raised (.busy turn)) ∨
    (∃ e, excused e ∧ phase = .raised e) ∨ phase = .gone

/-- The client turn id is stored. -/
def Database.Known (db : Database) (conversation : ℕ) (clientTurnId : String) : Prop :=
  ∃ r ∈ db.receipts, r.conversation = conversation ∧ r.clientTurnId = clientTurnId

theorem Step.known (h : Sane digest s) (hstep : Step digest s act s')
    (hknown : s.db.Known conversation clientTurnId) : s'.db.Known conversation clientTurnId := by
  obtain ⟨r, hr, rfl, rfl⟩ := hknown
  obtain ⟨stored, hstored, -, hconv, hclient, -⟩ := hstep.copy h (.of_mem hr)
  exact ⟨stored, hstored, hconv, hclient⟩

theorem Database.known_of_found (h : db.receiptByClient? conversation clientTurnId = some r) :
    db.Known conversation clientTurnId :=
  ⟨r, receiptByClient?_mem h⟩

/-- The writes of a send with a fresh id do not admit over a running turn. -/
theorem SendStep.meets_running {found : Conversation} {refused : Bool} (hr : r ∈ s.db.receipts)
    (hconv : r.conversation = conversation) (hrunning : r.status = .running)
    (hstep : SendStep digest s (.admitTurn k turn refused) p conversation clientTurnId text scope
      (.sendFree found) after) :
    after.TurnedAway (Refusal s.db found clientTurnId text turn refused) := by
  cases hstep with
  | move hmove =>
    cases hmove with
    | refused hact hrefusal =>
      cases hact
      exact .inr (.inr (.inr (.inl ⟨_, hrefusal, rfl⟩)))
    | lost _ => exact .inl rfl
  | admitted _ hfree _ => exact absurd hrunning (hfree r hr hconv)

theorem SendStep.turnedAway (hbefore : before.TurnedAway excused)
    (hstep : SendStep digest s act p conversation clientTurnId text scope before after) :
    after.TurnedAway excused ∨ s.db.Known conversation clientTurnId := by
  cases hstep with
  | move hmove =>
    cases hmove with
    | lostBusy _ => exact .inl (.inr (.inl rfl))
    | lostReplay hfound _ | lostConflict hfound _ => exact .inr (Database.known_of_found hfound)
    | named => exact .inl (.inr (.inr (.inl ⟨_, rfl⟩)))
    | _ => simp [Phase.TurnedAway] at hbefore
  | _ => simp [Phase.TurnedAway] at hbefore

theorem Step.call_begun (hstep : Step digest s act s') (h : (s.calls[i]?).isSome) :
    (s'.calls[i]?).isSome := by
  obtain ⟨call, hcall⟩ := Option.isSome_iff_exists.mp h
  obtain ⟨phase, hafter, -⟩ := hstep.callAt hcall
  rw [hafter]
  rfl

/-- A send followed from a state it has begun in. -/
theorem run_begun {P : System → Phase → Prop} (hsane : Sane digest s)
    (hcall : s.calls[i]? = some call) (hstart : P s call.phase) (hgone : ∀ t, P t .gone)
    (hkeep : ∀ t t' act phase, Sane digest t → Step digest t act t' → P t phase → P t' phase)
    (hown : ∀ t act p before after, P t before → SendStep digest t act p conversation clientTurnId
      text scope before after → P t after) (hrun : run digest s acts = some s') :
    ∀ call, s'.calls[i]? = some call →
      call.request = .send conversation clientTurnId text scope → P s' call.phase := by
  refine run_send (I := fun t => (t.calls[i]?).isSome) (P := fun t _ _ phase => P t phase) hsane
    (by rw [hcall]; rfl) (fun t t' act _ hbegun hstep => hstep.call_begun hbegun) ?_ ?_
    (fun t _ _ => hgone t) (fun t t' act _ _ phase => hkeep t t' act phase)
    (fun t act p _ before after _ _ => hown t act p before after) hrun
  · intro begun hbegun _
    rw [hcall] at hbegun
    cases hbegun
    exact hstart
  · intro t p permitted phase hsome hnone _
    rw [hnone] at hsome
    cases hsome

/-- A send turned away stays so, unless another send stores its id. -/
theorem run_turnedAway (hsane : Sane digest s) (hcall : s.calls[i]? = some call)
    (haway : call.phase.TurnedAway excused) (hrun : run digest s acts = some s') :
    ∀ call, s'.calls[i]? = some call →
      call.request = .send conversation clientTurnId text scope →
      call.phase.TurnedAway excused ∨ s'.db.Known conversation clientTurnId := by
  refine run_begun
    (P := fun t phase => phase.TurnedAway excused ∨ t.db.Known conversation clientTurnId)
    hsane hcall (.inl haway) ?_ ?_ ?_ hrun
  · intro t
    exact .inl (.inr (.inr (.inr (.inr rfl))))
  · intro t t' act phase htsane hstep hphase
    rcases hphase with hphase | hknown
    · exact .inl hphase
    · exact .inr (hstep.known htsane hknown)
  · intro t act p before after hbefore hstep
    rcases hbefore with hbefore | hknown
    · exact hstep.turnedAway hbefore
    · exact .inr hknown

/-- Where a send stands once it has committed. -/
def Phase.Committed (phase : Phase) : Prop :=
  (∃ r, phase = .sendAdmitted r) ∨ (∃ r, phase = .returned r) ∨ phase = .raised .modelFactory ∨
    phase = .gone

/-- A send that has committed raises nothing but what building the model raises. -/
theorem run_committed (hsane : Sane digest s) (hcall : s.calls[i]? = some call)
    (hcommitted : call.phase.Committed) (hrun : run digest s acts = some s') :
    ∀ call, s'.calls[i]? = some call →
      call.request = .send conversation clientTurnId text scope → call.phase.Committed := by
  refine run_begun (P := fun _ phase => phase.Committed) hsane hcall hcommitted ?_ ?_ ?_ hrun
  · intro t
    simp [Phase.Committed]
  · intro t t' act phase _ _ hphase
    exact hphase
  · intro t act p before after hbefore hstep
    cases hstep with
    | move hmove => cases hmove <;> simp [Phase.Committed] at hbefore
    | admitted _ _ _ => simp [Phase.Committed] at hbefore
    | started | factory => simp [Phase.Committed]

/-- The receipts a send holds or returns are its own. -/
def Phase.Own (digest : String → String) (conversation : ℕ) (clientTurnId text : String)
    (phase : Phase) : Prop :=
  ∀ r, phase = .sendAdmitted r ∨ phase = .returned (some r) →
    r.Answers digest conversation clientTurnId text

theorem run_own (hrun : run digest initialSystem acts = some s) :
    ∀ call, s.calls[i]? = some call →
      call.request = .send conversation clientTurnId text scope →
      call.phase.Own digest conversation clientTurnId text := by
  refine run_send (I := fun _ => True) (P := fun _ _ _ phase =>
    phase.Own digest conversation clientTurnId text) sane_initialSystem trivial
    (fun _ _ _ _ _ _ => trivial) ?_ ?_ ?_ (fun _ _ _ _ _ _ _ _ => id) ?_ hrun
  · intro call hcall
    cases hcall
  · intro t p permitted phase _ _ hbegun r hr
    rcases hbegun with rfl | ⟨rfl, -⟩ | ⟨rfl, -⟩ | ⟨rfl, -⟩
    · simp at hr
    · simp at hr
    · simp at hr
    · simp at hr
  · intro t p permitted r hr
    simp at hr
  · intro t act p permitted before after _ _ hbefore hstep r hr
    cases hstep with
    | move hmove =>
      cases hmove with
      | replayed hfound hmatches =>
        obtain ⟨-, hconv, hclient⟩ := receiptByClient?_mem hfound
        obtain rfl : _ = r := by simpa using hr
        exact ⟨hconv, hclient, hmatches⟩
      | _ => simp at hr
    | admitted _ _ hown =>
      obtain rfl : _ = r := by simpa using hr
      exact hown
    | @started turn =>
      obtain rfl : turn = r := by simpa using hr
      exact hbefore turn (.inl rfl)
    | factory => simp at hr

end Answers

/-! Messages and tasks -/

/-- The user message of a receipt is the text of its request. -/
def Told (digest : String → String) (db : Database) : Prop :=
  ∀ e ∈ db.events, ∀ text, e.payload = .userMessage text →
    ∀ r ∈ db.receipts, r.id = e.turnId → r.requestDigest = digest text

theorem Effect.told (hlog : LogOk db) (h : Told digest db) (heffect : Effect digest db db') :
    Told digest db' := by
  intro e he text hpayload r hr hturn
  cases heffect with
  | start conversation hfresh hsource hnext => exact h e he text hpayload r hr hturn
  | admitTurn conversation receipt sent hconversation hfresh hrules hreceipt hstatus hdigest =>
    rcases List.mem_append.mp he with he | he
    · rcases List.mem_append.mp hr with hr | hr
      · exact h e he text hpayload r hr hturn
      · obtain ⟨old, hold, hid⟩ := hlog.event_turn e he
        rw [List.mem_singleton.mp hr] at hturn
        exact absurd (hid.trans hturn.symm) (hfresh old hold)
    · obtain ⟨-, hentry⟩ := mem_place he
      simp only [List.mem_singleton, Prod.mk.injEq, hpayload, Payload.userMessage.injEq] at hentry
      obtain ⟨hid, rfl⟩ := hentry
      rcases mem_snoc.mp hr with hr | rfl
      · exact absurd (hturn.trans hid) (hfresh r hr)
      · exact hdigest
  | finish conversation receipt answer outcome detail hreceipt hstatus hconversation hid =>
    obtain ⟨old, hold, rfl⟩ := List.mem_map.mp hr
    have hsame : ∀ x : Receipt, x = (if old.id = receipt.id then old.ended outcome detail
      else old) →
        x.id = old.id ∧ x.requestDigest = old.requestDigest := by
      rintro x rfl
      split <;> exact ⟨rfl, rfl⟩
    obtain ⟨hid', hdigest⟩ := hsame _ rfl
    rw [hid'] at hturn
    rw [hdigest]
    rcases List.mem_append.mp he with he | he
    · exact h e he text hpayload old hold hturn
    · obtain ⟨-, hentry⟩ := mem_place he
      cases answer <;> simp [ending, hpayload] at hentry
  | fork source fork count hsource hcount hrange hfresh hfork hnext =>
    rcases List.mem_append.mp he with he | he
    · exact h e he text hpayload r hr hturn
    · obtain ⟨-, hentry⟩ := mem_place he
      obtain ⟨copied, hcopied, hsame⟩ := List.mem_map.mp hentry
      obtain ⟨hid, hpayload'⟩ := Prod.mk.inj hsame
      have hmem : copied ∈ db.events := (mem_eventsOf.mp (List.mem_of_mem_take hcopied)).1
      exact h copied hmem text (hpayload'.trans hpayload) r hr (hturn.trans hid.symm)

theorem Step.told (hsane : Sane digest s) (hstep : Step digest s act s') (h : Told digest s.db) :
    Told digest s'.db := by
  rcases hstep.effect hsane with hdb | heffect
  · rw [hdb]
    exact h
  · exact heffect.told hsane.log h

/-- Every turn is started at most once: no two tasks are for one turn, and the turns that
wait for their start have no task and are apart. -/
structure Started (s : System) : Prop where
  tasks : ((s.tasks.map Task.turn).map Receipt.id).Nodup
  waiting : ∀ (i : ℕ) (call : Call) (turn : Receipt), s.calls[i]? = some call →
    call.phase = .sendAdmitted turn → ∀ r ∈ s.tasks.map Task.turn, r.id ≠ turn.id
  apart : ∀ (i i' : ℕ) (call call' : Call) (turn turn' : Receipt), s.calls[i]? = some call →
    s.calls[i']? = some call' → call.phase = .sendAdmitted turn →
    call'.phase = .sendAdmitted turn' → turn.id = turn'.id → i = i'

/-- No call of `s'` waits for its start that did not in `s`. -/
def NoneNew (s s' : System) : Prop :=
  ∀ (i : ℕ) (call : Call) (turn : Receipt), s'.calls[i]? = some call →
    call.phase = .sendAdmitted turn →
    ∃ old : Call, s.calls[i]? = some old ∧ old.phase = .sendAdmitted turn

theorem Started.keep (h : Started s) (hturns : s'.tasks.map Task.turn = s.tasks.map Task.turn)
    (hnone : NoneNew s s') : Started s' := by
  refine ⟨?_, ?_, ?_⟩
  · rw [hturns]
    exact h.tasks
  · intro i call turn hcall hphase
    obtain ⟨old, hold, hphase'⟩ := hnone i call turn hcall hphase
    rw [hturns]
    exact h.waiting i old turn hold hphase'
  · intro i i' call call' turn turn' hcall hcall' hphase hphase' hid
    obtain ⟨old, hold, hold'⟩ := hnone i call turn hcall hphase
    obtain ⟨other, hother, hother'⟩ := hnone i' call' turn' hcall' hphase'
    exact h.apart i i' old other turn turn' hold hother hold' hother' hid

/-- The calls of `s` with one of them moved: one as it was, or the one moved. -/
theorem setCall_calls_cases {phase : Phase} (h : (s.setCall i phase).calls[k]? = some call) :
    (k ≠ i ∧ s.calls[k]? = some call) ∨ (k = i ∧ call.phase = phase) := by
  by_cases hk : i = k
  · subst hk
    unfold System.setCall at h
    rw [List.getElem?_modify_eq] at h
    obtain ⟨old, -, rfl⟩ := Option.map_eq_some_iff.mp h
    exact .inr ⟨rfl, rfl⟩
  · rw [setCall_calls_ne hk] at h
    exact .inl ⟨fun heq => hk heq.symm, h⟩

theorem NoneNew.of_setCall (hcalls : s'.calls = (s.setCall i phase).calls)
    (hphase : ∀ turn, phase ≠ .sendAdmitted turn) : NoneNew s s' := by
  intro k call turn hcall hturn
  rw [hcalls] at hcall
  rcases setCall_calls_cases hcall with ⟨-, hold⟩ | ⟨-, hmoved⟩
  · exact ⟨call, hold, hturn⟩
  · exact absurd (hmoved.symm.trans hturn) (hphase turn)

theorem NoneNew.of_calls (hcalls : s'.calls = s.calls) : NoneNew s s' := by
  intro k call turn hcall hturn
  rw [hcalls] at hcall
  exact ⟨call, hcall, hturn⟩

theorem SendMove.not_admitted
    (h : SendMove digest s act p conversation clientTurnId text scope before after) :
    ∀ turn, after ≠ .sendAdmitted turn := by
  cases h <;> simp

theorem Call.Fits.not_admitted (hfits : Call.Fits digest { call with phase })
    (hstops : call.request.Stops) : ∀ turn, phase ≠ .sendAdmitted turn := by
  rintro turn rfl
  cases hrequest : call.request <;> simp_all [Call.Fits, Request.Stops]

theorem Copy.id_ne (h : Copy db r) (hfresh : ∀ stored ∈ db.receipts, stored.id ≠ turn) :
    r.id ≠ turn := by
  obtain ⟨stored, hstored, hid, -⟩ := h
  intro heq
  exact hfresh stored hstored (hid.trans heq)

theorem CallStep.startedOk (hsane : Sane digest s) (h : Started s) (hcall : s.calls[i]? = some call)
    (hstep : CallStep digest s i call act s') : Started s' := by
  cases hstep with
  | sent _ hmove => exact h.keep rfl (.of_setCall rfl hmove.not_admitted)
  | @admitted _ _ _ _ turn found written receipt _ _ _ hfound _ hadmitted =>
    obtain ⟨-, -, hid, -, -, -, -, hfresh⟩ := admitTurn_ok hsane.log hfound hadmitted
    simp only at hid
    have hturns : ∀ r ∈ s.tasks.map Task.turn, r.id ≠ receipt.id := by
      intro r hr
      obtain ⟨task, htask, rfl⟩ := List.mem_map.mp hr
      rw [hid]
      exact (hsane.held.tasks task htask).id_ne hfresh
    have hcalls : ∀ (k : ℕ) (other : Call) (turn' : Receipt), s.calls[k]? = some other →
        other.phase = .sendAdmitted turn' → turn'.id ≠ receipt.id := by
      intro k other turn' hother hphase
      have hholds := hsane.held.calls other (List.mem_of_getElem? hother)
      rw [hphase] at hholds
      rw [hid]
      exact Copy.id_ne hholds hfresh
    refine ⟨h.tasks, ?_, ?_⟩
    · intro k other turn' hother hphase
      rcases setCall_calls_cases hother with ⟨-, hold⟩ | ⟨-, hmoved⟩
      · exact h.waiting k other turn' hold hphase
      · obtain rfl : receipt = turn' := Phase.sendAdmitted.inj (hmoved.symm.trans hphase)
        exact hturns
    · intro k k' other other' t t' hother hother' hphase hphase' hsame
      rcases setCall_calls_cases hother with ⟨-, hold⟩ | ⟨hk, hmoved⟩
      · rcases setCall_calls_cases hother' with ⟨-, hold'⟩ | ⟨-, hmoved'⟩
        · exact h.apart k k' other other' t t' hold hold' hphase hphase' hsame
        · obtain rfl : receipt = t' := Phase.sendAdmitted.inj (hmoved'.symm.trans hphase')
          exact absurd hsame (hcalls k other t hold hphase)
      · obtain rfl : receipt = t := Phase.sendAdmitted.inj (hmoved.symm.trans hphase)
        rcases setCall_calls_cases hother' with ⟨-, hold'⟩ | ⟨hk', -⟩
        · exact absurd hsame.symm (hcalls k' other' t' hold' hphase')
        · exact hk.trans hk'.symm
  | factory _ _ | closed _ _ => exact h.keep rfl (.of_setCall rfl (by simp))
  | @started turn k hphase _ =>
    have hstill : ∀ (k : ℕ) (other : Call) (turn' : Receipt),
        (s.started i call.process turn).calls[k]? = some other →
        other.phase = .sendAdmitted turn' → k ≠ i ∧ s.calls[k]? = some other := by
      intro k other turn' hother hphase'
      rcases setCall_calls_cases hother with hold | ⟨-, hmoved⟩
      · exact hold
      · cases hmoved.symm.trans hphase'
    refine ⟨?_, ?_, ?_⟩
    · rw [turns_started, List.map_append, List.map_singleton]
      refine List.nodup_append.mpr ⟨h.tasks, List.nodup_singleton _, ?_⟩
      intro id hid id' hid'
      obtain ⟨r, hr, rfl⟩ := List.mem_map.mp hid
      rw [List.mem_singleton.mp hid']
      exact h.waiting i call turn hcall hphase r hr
    · intro k other turn' hother hphase' r hr
      obtain ⟨hne, hold⟩ := hstill k other turn' hother hphase'
      rw [turns_started] at hr
      rcases List.mem_append.mp hr with hr | hr
      · exact h.waiting k other turn' hold hphase' r hr
      · rw [List.mem_singleton.mp hr]
        intro hsame
        exact hne (h.apart k i other call turn' turn hold hcall hphase' hphase hsame.symm)
    · intro k k' other other' t t' hother hother' hphase' hphase'' hsame
      exact h.apart k k' other other' t t' (hstill k other t hother hphase').2
        (hstill k' other' t' hother' hphase'').2 hphase' hphase'' hsame
  | other _ hstops _ hfits | orphan _ hstops _ _ _ hfits =>
    exact h.keep rfl (.of_setCall rfl (hfits.not_admitted hstops))
  | stopped _ hstops _ hfits =>
    exact h.keep (turns_requestStop _ _ _) (.of_setCall rfl (hfits.not_admitted hstops))

theorem TaskStep.turns (hstep : TaskStep s j task act s') :
    s'.tasks.map Task.turn = s.tasks.map Task.turn := by
  cases hstep with
  | forgets _ _ => exact turns_forgotten s j task
  | _ => exact turns_setTask s j _

theorem Step.startedOk (hsane : Sane digest s) (hstep : Step digest s act s') (h : Started s) :
    Started s' := by
  cases hstep with
  | idle _ => exact h
  | wrote _ _ _ => exact h.keep rfl (.of_calls rfl)
  | @called p permitted request _ =>
    refine h.keep (turns_beginCall s p permitted request) ?_
    intro k call turn hcall hphase
    cases hold : s.calls[k]? with
    | none =>
      obtain ⟨phase, hcalls, hholds, hfits⟩ := beginCall_calls digest s p permitted request
      have hlength := List.getElem?_eq_none_iff.mp hold
      rw [hcalls, List.getElem?_append_right hlength] at hcall
      obtain rfl := List.mem_singleton.mp (List.mem_of_getElem? hcall)
      cases request with
      | send conversation clientTurnId text scope =>
        have hbegun := beginCall_send hcalls
        rcases hbegun with hbegun | ⟨hbegun, -⟩ | ⟨hbegun, -⟩ | ⟨hbegun, -⟩
        · cases hbegun.symm.trans hphase
        · cases hbegun.symm.trans hphase
        · cases hbegun.symm.trans hphase
        · cases hbegun.symm.trans hphase
      | _ =>
        simp only at hphase
        subst hphase
        cases hfits
    | some old =>
      obtain ⟨phase, hcalls, -, -⟩ := beginCall_calls digest s p permitted request
      rw [hcalls, List.getElem?_append_left (List.getElem?_eq_some_iff.mp hold).1, hold] at hcall
      cases hcall
      exact ⟨_, rfl, hphase⟩
  | @crashed p _ =>
    refine h.keep (turns_crashProcess s p) ?_
    intro k call turn hcall hphase
    simp only [crashProcess, List.getElem?_map] at hcall
    obtain ⟨old, hold, rfl⟩ := Option.map_eq_some_iff.mp hcall
    split at hphase
    · cases hphase
    · exact ⟨old, hold, hphase⟩
  | call _ hcall hcallstep => exact hcallstep.startedOk hsane h hcall
  | task _ _ _ htaskstep => exact h.keep htaskstep.turns (.of_calls htaskstep.calls)

theorem run_callAt (hsane : Sane digest s) (hcall : s.calls[i]? = some call)
    (hrun : run digest s acts = some s') : ∃ phase, s'.calls[i]? = some { call with phase } := by
  refine (run_induction (P := fun t => ∃ phase, t.calls[i]? = some { call with phase }) hsane
    ⟨call.phase, hcall⟩ ?_ hrun).2
  rintro t t' act - ⟨phase, hphase⟩ hstep
  obtain ⟨phase', hafter, -⟩ := hstep.callAt hphase
  exact ⟨phase', hafter⟩

theorem Step.call_of_index (hstep : Step digest s act s') (h : act.callIndex = some i) :
    ∃ call, s.calls[i]? = some call := by
  cases hstep with
  | @call k call _ hindex hcall _ =>
    obtain rfl : k = i := Option.some.inj (hindex.symm.trans h)
    exact ⟨call, hcall⟩
  | _ => simp_all

/-! Exactly once -/

/-- What else holds along a run. -/
structure Ordered (digest : String → String) (s : System) : Prop where
  told : Told digest s.db
  started : Started s
  stopped : Stopped s

theorem run_ordered (hrun : run digest initialSystem acts = some s) :
    Sane digest s ∧ Ordered digest s := by
  refine run_induction sane_initialSystem ⟨nofun, ⟨List.nodup_nil, ?_, ?_⟩, ?_⟩ ?_ hrun
  · intro i call turn hcall
    cases hcall
  · intro i i' call call' turn turn' hcall
    cases hcall
  · intro p hp
    cases hp
  · intro t t' act htsane hholds hstep
    exact ⟨hstep.told htsane hholds.told, hstep.startedOk htsane hholds.started,
      hstep.stopped hholds.stopped⟩

def Payload.isUserMessage : Payload → Bool
  | .userMessage _ => true
  | _ => false

theorem Block.message {block : List Event} (h : Block r block) :
    ∃ e text, block.filter (fun e => e.payload.isUserMessage) = [e] ∧
      e.payload = .userMessage text := by
  cases h with
  | @pending user text _ _ huser =>
    exact ⟨user, text, by simp [huser, Payload.isUserMessage], huser⟩
  | @closed user last text outcome detail _ huser _ hlast _ =>
    exact ⟨user, text, by simp [huser, hlast, Payload.isUserMessage], huser⟩
  | @answered user answer last text reply outcome detail _ huser _ hanswer _ hlast _ =>
    exact ⟨user, text, by simp [huser, hanswer, hlast, Payload.isUserMessage], huser⟩

/-- One receipt, one user message and one task for a client turn id, and the sends that
return a turn for it all return that receipt's. -/
structure SentOnce (s : System) : Prop where
  receipts : ∀ r ∈ s.db.receipts, ∀ r' ∈ s.db.receipts, r.conversation = r'.conversation →
    r.clientTurnId = r'.clientTurnId → r = r'
  messages : ∀ r ∈ s.db.receipts, ∃ e text,
    (s.db.turnEvents r).filter (fun e => e.payload.isUserMessage) = [e] ∧
      e.payload = .userMessage text
  tasks : ∀ (j j' : ℕ) (task task' : Task), s.tasks[j]? = some task → s.tasks[j']? = some task' →
    task.turn.conversation = task'.turn.conversation →
    task.turn.clientTurnId = task'.turn.clientTurnId → j = j'
  returned : ∀ call ∈ s.calls, ∀ conversation clientTurnId text scope turn,
    call.request = .send conversation clientTurnId text scope →
    call.phase = .returned (some turn) →
    ∃ r ∈ s.db.receipts, r.id = turn.id ∧ r.conversation = conversation ∧
      r.clientTurnId = clientTurnId ∧
      ∀ e ∈ s.db.turnEvents r, ∀ sent, e.payload = .userMessage sent → sent = text

theorem Told.message (h : Told digest db) (hr : r ∈ db.receipts) {e : Event}
    (he : e ∈ db.turnEvents r) {sent : String} (hsent : e.payload = .userMessage sent) :
    r.requestDigest = digest sent := by
  obtain ⟨hof, hturn⟩ := List.mem_filter.mp he
  exact h e (mem_eventsOf.mp hof).1 sent hsent r hr (of_decide_eq_true hturn).symm

theorem run_sentOnce (hdigest : Function.Injective digest)
    (hrun : run digest initialSystem acts = some s) : SentOnce s := by
  obtain ⟨hsane, hordered⟩ := run_ordered hrun
  refine ⟨?_, ?_, ?_, ?_⟩
  · intro r hr r' hr' hconv hclient
    exact hsane.log.client_unique hr hr' hconv hclient
  · intro r hr
    exact (hsane.log.block hr).message
  · intro j j' task task' htask htask' hconv hclient
    obtain ⟨r, hr, hid, hrconv, hrclient, -⟩ := hsane.held.tasks task (List.mem_of_getElem? htask)
    obtain ⟨r', hr', hid', hrconv', hrclient', -⟩ :=
      hsane.held.tasks task' (List.mem_of_getElem? htask')
    have hsame : r = r' := hsane.log.client_unique hr hr'
      (hrconv.trans (hconv.trans hrconv'.symm)) (hrclient.trans (hclient.trans hrclient'.symm))
    have hids : task.turn.id = task'.turn.id := by rw [← hid, ← hid', hsame]
    have hlength : j < ((s.tasks.map Task.turn).map Receipt.id).length := by
      simpa using (List.getElem?_eq_some_iff.mp htask).1
    refine (List.getElem?_inj hlength hordered.started.tasks).mp ?_
    simp [htask, htask', hids]
  · intro call hcall conversation clientTurnId text scope turn hrequest hphase
    obtain ⟨i, hi⟩ := List.mem_iff_getElem?.mp hcall
    obtain ⟨hconv, hclient, hmatches⟩ := run_own hrun call hi hrequest turn (.inr hphase)
    have hholds := hsane.held.calls call hcall
    rw [hphase] at hholds
    obtain ⟨r, hr, hid, hrconv, hrclient, hrdigest⟩ := hholds turn rfl
    refine ⟨r, hr, hid, hrconv.trans hconv, hrclient.trans hclient, ?_⟩
    intro e he sent hsent
    have htold := hordered.told.message hr he hsent
    exact hdigest (htold.symm.trans (hrdigest.trans hmatches))

/-- How a send of another text ends once the client turn id is stored: with the conflict, or
by a check made before its id is looked up, or, when it had looked the id up before it was
stored, overtaken. -/
def ConflictAnswered (mid s : System) : Prop :=
  ∀ r ∈ mid.db.receipts, ∀ e ∈ mid.db.turnEvents r, ∀ sent, e.payload = .userMessage sent →
    ∀ (i : ℕ) (call : Call) (text : String) (scope : Option Scope),
      (∀ begun, mid.calls[i]? = some begun → begun.phase.undecided = true) →
      s.calls[i]? = some call → call.request = .send r.conversation r.clientTurnId text scope →
      text ≠ sent →
      (∀ turn, call.phase ≠ .returned turn) ∧
        ∀ error, call.phase = .raised error →
          error = .conflict r.id ∨
            Excused s call.process call.permitted r.conversation text scope error ∨
            ((∃ begun, mid.calls[i]? = some begun ∧ begun.phase.lookedUp = true) ∧
              error.overtaken = true)

/-- How a send with a fresh id ends that comes to write while a turn is running: as busy, or
by another check, unless another call stores its id. -/
def BusyAnswered (mid : System) (act : Act) (s : System) : Prop :=
  ∀ (i turn : ℕ) (refused : Bool) (call call' : Call) (conversation : ℕ)
    (clientTurnId text : String) (scope : Option Scope) (found : Conversation),
    act = .admitTurn i turn refused → mid.calls[i]? = some call →
    call.request = .send conversation clientTurnId text scope → call.phase = .sendFree found →
    (∃ r ∈ mid.db.receipts, r.conversation = conversation ∧ r.status = .running) →
    ¬ mid.db.Known conversation clientTurnId → s.calls[i]? = some call' →
    s.db.Known conversation clientTurnId ∨
      (∀ turn, call'.phase ≠ .returned turn) ∧
        ∀ error, call'.phase = .raised error →
          (∃ running, error = .busy running) ∨
            Refusal mid.db found clientTurnId text turn refused error

/-- A send that raises, other than over its model, wrote nothing. -/
def RaisesClean (mid : System) (act : Act) (next s : System) : Prop :=
  ∀ (i : ℕ) (call : Call) (conversation : ℕ) (clientTurnId text : String) (scope : Option Scope)
    (error : AgentError), act.callIndex = some i → s.calls[i]? = some call →
    call.request = .send conversation clientTurnId text scope → call.phase = .raised error →
    error ≠ .modelFactory → next.db = mid.db

theorem run_conflictAnswered (hdigest : Function.Injective digest) (hsane : Sane digest mid)
    (hordered : Ordered digest mid) (hrun : run digest mid acts = some s) :
    ConflictAnswered mid s := by
  intro r hr e he sent hsent i call text scope hundecided hcall hrequest hne
  have hother : r.requestDigest ≠ digest text := by
    rw [hordered.told.message hr he hsent]
    exact fun hsame => hne (hdigest hsame).symm
  have hphase :=
    run_conflicting hsane hordered.stopped hr hother hundecided hrun call hcall hrequest
  refine ⟨?_, ?_⟩
  · intro turn hreturned
    rw [hreturned] at hphase
    cases hphase
  · intro error hraised
    rw [hraised] at hphase
    cases hphase with
    | overtaken hlate he => exact .inr (.inr ⟨hlate, he⟩)
    | conflict => exact .inl rfl
    | excused he => exact .inr (.inl he)

section

variable (hsane : Sane digest mid) (hstep : Step digest mid act next)
  (hrun : run digest next acts = some s)
include hsane hstep hrun

theorem run_busyAnswered : BusyAnswered mid act s := by
  rintro i turn refused call call' conversation clientTurnId text scope found rfl hcall hrequest
    hfree ⟨r, hr, hconv, hrunning⟩ hfresh hcall'
  obtain ⟨phase, hafter, ⟨hindex, -⟩ | ⟨-, hcallstep⟩⟩ := hstep.callAt hcall
  · exact absurd rfl hindex
  · have hfits := hsane.held.fits call (List.mem_of_getElem? hcall)
    obtain ⟨phase', hcalls, hsend, -⟩ := hcallstep.send hsane.log hfits hrequest
    rw [hfree] at hsend
    have haway := hsend.meets_running hr hconv hrunning
    have hnext : next.calls[i]? = some { call with phase := phase' } := by
      rw [hcalls]
      exact setCall_calls_self hcall
    have hrequest' : call'.request = .send conversation clientTurnId text scope := by
      obtain ⟨phase, hlater⟩ := run_callAt (hstep.sane hsane) hnext hrun
      rw [hcall'] at hlater
      cases hlater
      exact hrequest
    rcases run_turnedAway (hstep.sane hsane) hnext haway hrun call' hcall' hrequest' with
      hphase | hknown
    · refine .inr ⟨?_, ?_⟩
      · intro turn' hreturned
        rw [hreturned] at hphase
        simp [Phase.TurnedAway] at hphase
      · intro error hraised
        rw [hraised] at hphase
        simpa [Phase.TurnedAway] using hphase
    · exact .inl hknown

theorem run_raisesClean : RaisesClean mid act next s := by
  intro i call conversation clientTurnId text scope error hindex hcall hrequest hraised hfactory
  obtain ⟨begun, hbegun⟩ := hstep.call_of_index hindex
  obtain ⟨phase, hnext, -⟩ := hstep.callAt hbegun
  obtain ⟨phase', hlater⟩ := run_callAt (hstep.sane hsane) hnext hrun
  rw [hcall] at hlater
  cases hlater
  obtain ⟨phase', hnext', ⟨hother, -⟩ | ⟨-, -, hdb | ⟨r, rfl⟩⟩⟩ :=
    hstep.sendCall hsane hbegun hrequest
  · exact absurd hindex hother
  · exact hdb
  · have hcommitted : Phase.Committed (.sendAdmitted r) := .inl ⟨r, rfl⟩
    have hlast := run_committed (hstep.sane hsane) hnext' hcommitted hrun _ hcall hrequest
    simp only at hraised
    simp [Phase.Committed, hraised, hfactory] at hlast

end

theorem run_append {before after : List Act} (hbefore : run digest s before = some mid)
    (hafter : run digest mid after = some s') : run digest s (before ++ after) = some s' := by
  induction before generalizing s with
  | nil =>
    cases hbefore
    exact hafter
  | cons act before ih =>
    obtain ⟨next, hnext, hrest⟩ := Option.bind_eq_some_iff.mp hbefore
    exact Option.bind_eq_some_iff.mpr ⟨next, hnext, ih hrest⟩

theorem run_cons (hstep : step digest s act = some next) (hafter : run digest next acts = some s') :
    run digest s (act :: acts) = some s' :=
  Option.bind_eq_some_iff.mpr ⟨next, hstep, hafter⟩

/-- Along every run, seen from every step of it. -/
theorem sends_exactly_once (hdigest : Function.Injective digest) {before after : List Act}
    {mid next : System} (hbefore : run digest initialSystem before = some mid)
    (hstep : step digest mid act = some next) (hafter : run digest next after = some s) :
    SentOnce s ∧ ConflictAnswered mid s ∧ BusyAnswered mid act s ∧ RaisesClean mid act next s := by
  obtain ⟨hsane, hordered⟩ := run_ordered hbefore
  have hmoved := step_cases hsane.log hsane.held hstep
  have hrest := run_cons hstep hafter
  exact ⟨run_sentOnce hdigest (run_append hbefore hrest),
    run_conflictAnswered hdigest hsane hordered hrest, run_busyAnswered hsane hmoved hafter,
    run_raisesClean hsane hmoved hafter⟩

/-- Three sends up to the start of the first one: the second, in another process, has only
read the conversation, the third has found its own id fresh and no turn running. -/
def racingSends : List Act :=
  [.startConversation 1 ⟨1, "g", "a"⟩, .call 0 true (.send 1 "k" "hi" none),
    .call 1 true (.send 1 "k" "hi" none), .call 1 true (.send 1 "l" "ho" none),
    .lockConversation 0, .readReceipt 0, .checkActive 0, .lockConversation 2, .readReceipt 2,
    .checkActive 2, .lockConversation 1, .admitTurn 0 10 false, .start 0 true]

/-- The repeated send is answered with the turn of the first, the other one is overtaken. -/
theorem repeated_send_exactly_once :
    ∃ mid next s, run id initialSystem racingSends = some mid ∧
      step id mid (.admitTurn 2 11 false) = some next ∧
      run id next [.readReceipt 1, .replay 1] = some s ∧
      s.tasks.length = 1 ∧ s.calls[2]?.map Call.phase = some (.raised .staleAppend) ∧
      SentOnce s ∧ ConflictAnswered mid s ∧ BusyAnswered mid (.admitTurn 2 11 false) s ∧
      RaisesClean mid (.admitTurn 2 11 false) next s := by
  have hrows : (((run id initialSystem racingSends).bind
      (fun mid => step id mid (.admitTurn 2 11 false))).bind
      (fun next => run id next [.readReceipt 1, .replay 1])).map
      (fun s => (s.tasks.length, s.calls[2]?.map Call.phase)) =
      some (1, some (.raised .staleAppend)) := by
    decide
  obtain ⟨s, hs, hparts⟩ := Option.map_eq_some_iff.mp hrows
  obtain ⟨htasks, hphase⟩ := Prod.mk.inj hparts
  obtain ⟨next, hnext, hafter⟩ := Option.bind_eq_some_iff.mp hs
  obtain ⟨mid, hmid, hstep⟩ := Option.bind_eq_some_iff.mp hnext
  exact ⟨mid, next, s, hmid, hstep, hafter, htasks, hphase,
    sends_exactly_once Function.injective_id hmid hstep hafter⟩

/-- A blank message sent with a used client turn id is refused as blank, not as a conflict. -/
theorem blank_repeat_not_conflict :
    ¬ ∀ (acts : List Act) (s : System), run id initialSystem acts = some s →
      ∀ r ∈ s.db.receipts, ∀ call ∈ s.calls, ∀ text scope error,
        call.request = .send r.conversation r.clientTurnId text scope →
        text ≠ r.requestDigest → call.phase = .raised error → error = .conflict r.id := by
  intro h
  have hrows : (run id initialSystem (.startConversation 1 ⟨1, "g", "a"⟩ ::
      sendActs 0 0 1 "k" "hi" 10 ++ [.start 0 true, .call 0 true (.send 1 "k" " " none)])).map
      (fun s => (s.db.receipts, s.calls.getLast?)) =
      some ([⟨10, 1, ⟨1, "g", "a"⟩, "k", .running, "hi", 1, none⟩],
        some ⟨0, true, .send 1 "k" " " none, .raised .blankMessage⟩) := by
    decide
  obtain ⟨s, hs, hparts⟩ := Option.map_eq_some_iff.mp hrows
  obtain ⟨hreceipts, hcalls⟩ := Prod.mk.inj hparts
  have hconflict := h _ s hs ⟨10, 1, ⟨1, "g", "a"⟩, "k", .running, "hi", 1, none⟩
    (by rw [hreceipts]; exact List.mem_singleton_self _)
    ⟨0, true, .send 1 "k" " " none, .raised .blankMessage⟩ (List.mem_of_getLast? hcalls) " " none
    .blankMessage rfl (by decide) rfl
  cases hconflict

end Grafy.Agents
