import Grafy.AgentSends

/-!
How a conversation is released. A receipt that a process admitted is running
while a send waits to start it or a live task is behind it, in `_active` or among
the tasks a shutdown waits for; a task that ends takes its receipt out of
`running`. This holds as long as every start builds its model and finds no
other entry of the conversation, every recorded text fits its event, and no
shutdown cancels a task that is writing its ending.
-/
namespace Grafy.Agents

variable {digest : String → String} {s s' : System} {act : Act} {p : ℕ} {conversation j : ℕ} {k : ℕ}
  {phase : Phase} {request : Request} {permitted : Bool}

/-- The task has not ended. -/
def TaskPhase.live : TaskPhase → Bool
  | .streaming => true
  | .ending _ _ _ => true
  | _ => false

/-- A send of the process waits to start the turn. -/
def Awaited (s : System) (p turn : ℕ) : Prop :=
  ∃ (k : ℕ) (call : Call) (r : Receipt), s.calls[k]? = some call ∧ call.process = p ∧
    call.phase = .sendAdmitted r ∧ r.id = turn

/-- A live task of the process is behind the turn. -/
def Behind (s : System) (p turn j : ℕ) : Prop :=
  ∃ task, s.tasks[j]? = some task ∧ task.process = p ∧ task.turn.id = turn ∧ task.phase.live = true

/-- The process still owns the task: by its entry for the conversation, or in a shutdown. -/
def Owned (s : System) (p conversation j : ℕ) : Prop :=
  (s.procs p).active conversation = some j ∨
    ∃ (k : ℕ) (call : Call) (js : List ℕ), s.calls[k]? = some call ∧ call.process = p ∧
      call.phase = .closing js ∧ j ∈ js

/-- Every running receipt is tended by the process that admitted it. -/
structure Tended (s : System) : Prop where
  running : ∀ p, ∀ r ∈ s.db.receipts, r.status = .running → r.id ∈ (s.procs p).admitted →
    Awaited s p r.id ∨ ∃ j, Behind s p r.id j ∧ Owned s p r.conversation j
  ended : ∀ task ∈ s.tasks, task.phase = .finished → ∀ r ∈ s.db.receipts, r.id = task.turn.id →
    r.status ≠ .running
  details : ∀ task ∈ s.tasks, ∀ outcome text detail, task.phase = .ending outcome text detail →
    ∀ d ∈ detail, String.length d ≤ maxDetailChars
  entries : ∀ p c j, (s.procs p).active c = some j → ∃ task, s.tasks[j]? = some task ∧
    task.process = p ∧ task.turn.conversation = c ∧ task.forgotten = false ∧ task.phase ≠ .gone
  stored : ∀ p, ∀ id ∈ (s.procs p).admitted, ∃ r ∈ s.db.receipts, r.id = id

/-- A turn that waits for its start finds no entry of its conversation. -/
def Phase.free (process : Process) : Phase → Bool
  | .sendAdmitted turn => process.active turn.conversation = none
  | _ => true

/-- A text about to be recorded is one that an assistant message may hold. -/
def TaskPhase.fits : TaskPhase → Bool
  | .ending _ text _ => text.length ≤ maxMessageChars
  | _ => true

/-- What each step must meet: a start builds the model and finds no entry of the
conversation, a recorded text fits, a cancelled task is still streaming. -/
def Careful (s : System) : Act → Bool
  | .start i built => built && (s.calls[i]?).all
    (fun call => call.phase.free (s.procs call.process))
  | .record j => (s.tasks[j]?).all (fun task => task.phase.fits)
  | .kill j _ => (s.tasks[j]?).all (fun task => task.phase = .streaming)
  | _ => true

def CarefulRun (digest : String → String) : System → List Act → Bool
  | _, [] => true
  | s, act :: acts =>
    Careful s act && (step digest s act).all (fun next => CarefulRun digest next acts)

theorem Awaited.keep {turn : ℕ} (h : Awaited s p turn)
    (hwaits : ∀ (k : ℕ) (call : Call) (r : Receipt), s.calls[k]? = some call → call.process = p →
      call.phase = .sendAdmitted r → r.id = turn → s'.calls[k]? = some call) :
    Awaited s' p turn := by
  obtain ⟨k, call, r, hcall, hp, hphase, hid⟩ := h
  exact ⟨k, call, r, hwaits k call r hcall hp hphase hid, hp, hphase, hid⟩

theorem Owned.keep (h : Owned s p conversation j)
    (hactive : (s.procs p).active conversation = some j → (s'.procs p).active conversation = some j)
    (hcloses : ∀ (k : ℕ) (call : Call) (js : List ℕ), s.calls[k]? = some call → call.process = p →
      call.phase = .closing js → j ∈ js → s'.calls[k]? = some call) :
    Owned s' p conversation j := by
  rcases h with h | ⟨k, call, js, hcall, hp, hphase, hj⟩
  · exact .inl (hactive h)
  · exact .inr ⟨k, call, js, hcloses k call js hcall hp hphase hj, hp, hphase, hj⟩

variable {i : ℕ} {call : Call}

theorem setCall_stays {other : Call} (hcall : s.calls[i]? = some call)
    (hother : s.calls[k]? = some other) (hne : other.phase ≠ call.phase) :
    (s.setCall i phase).calls[k]? = some other := by
  rw [setCall_calls_ne, hother]
  rintro rfl
  rw [hcall] at hother
  cases hother
  exact hne rfl

/-! Steps that leave the turns alone -/

/-- What the bookkeeping of a task says, its stop request aside. -/
def Task.standing (task : Task) : ℕ × Receipt × TaskPhase × Bool :=
  (task.process, task.turn, task.phase, task.forgotten)

variable {task : Task}

theorem standing_at {tasks tasks' : List Task}
    (h : tasks'.map Task.standing = tasks.map Task.standing) (htask : tasks[j]? = some task) :
    ∃ task', tasks'[j]? = some task' ∧ task'.process = task.process ∧ task'.turn = task.turn ∧
      task'.phase = task.phase ∧ task'.forgotten = task.forgotten := by
  have hat : (tasks'.map Task.standing)[j]? = some task.standing := by
    rw [h, List.getElem?_map, htask]
    rfl
  rw [List.getElem?_map] at hat
  obtain ⟨task', htask', hsame⟩ := Option.map_eq_some_iff.mp hat
  simp only [Task.standing, Prod.mk.injEq] at hsame
  exact ⟨task', htask', hsame⟩

theorem standing_requestStop (s : System) (j : ℕ) (outcome : Outcome) :
    (s.requestStop j outcome).tasks.map Task.standing = s.tasks.map Task.standing :=
  map_modify_same (by intro t; rfl) _ _

/-- A step after which every turn is where it was: receipts may end, and calls that neither
wait for a start nor shut down may move. -/
structure Calm (s s' : System) : Prop where
  procs : s'.procs = s.procs
  receipts : ∀ r ∈ s'.db.receipts, r.status = .running → r ∈ s.db.receipts
  stored : ∀ r ∈ s.db.receipts, ∃ r' ∈ s'.db.receipts, r'.id = r.id
  tasks : s'.tasks.map Task.standing = s.tasks.map Task.standing
  waits : ∀ (k : ℕ) (call : Call) (turn : Receipt), s.calls[k]? = some call →
    call.phase = .sendAdmitted turn → s'.calls[k]? = some call
  closes : ∀ (k : ℕ) (call : Call) (js : List ℕ), s.calls[k]? = some call →
    call.phase = .closing js → s'.calls[k]? = some call

theorem Tended.calm (h : Tended s) (hcalm : Calm s s') : Tended s' := by
  refine ⟨?_, ?_, ?_, ?_, ?_⟩
  · intro p r hr hrunning hadmitted
    rw [hcalm.procs] at hadmitted
    rcases h.running p r (hcalm.receipts r hr hrunning) hrunning hadmitted with hawaited | hbehind
    · exact .inl (hawaited.keep (fun k call turn hcall _ hphase _ =>
        hcalm.waits k call turn hcall hphase))
    · obtain ⟨j, ⟨task, htask, hp, hid, hlive⟩, howned⟩ := hbehind
      obtain ⟨task', htask', hp', hturn', hphase', -⟩ := standing_at hcalm.tasks htask
      refine .inr ⟨j, ⟨task', htask', hp'.trans hp, by rw [hturn']; exact hid,
        by rw [hphase']; exact hlive⟩, ?_⟩
      refine howned.keep ?_ (fun k call js hcall _ hphase _ => hcalm.closes k call js hcall hphase)
      rw [hcalm.procs]
      exact id
  · intro task htask hover r hr hid hrunning
    obtain ⟨j, hj⟩ := List.mem_iff_getElem?.mp htask
    obtain ⟨old, hold, -, hturn, hphase, -⟩ := standing_at hcalm.tasks.symm hj
    rw [← hphase] at hover
    rw [← hturn] at hid
    exact h.ended old (List.mem_of_getElem? hold) hover r
      (hcalm.receipts r hr hrunning) hid hrunning
  · intro task htask outcome text detail hphase
    obtain ⟨j, hj⟩ := List.mem_iff_getElem?.mp htask
    obtain ⟨old, hold, -, -, hphase', -⟩ := standing_at hcalm.tasks.symm hj
    rw [← hphase'] at hphase
    exact h.details old (List.mem_of_getElem? hold) outcome text detail hphase
  · intro p c j hactive
    rw [hcalm.procs] at hactive
    obtain ⟨task, htask, hp, hconv, hforgotten, hgone⟩ := h.entries p c j hactive
    obtain ⟨task', htask', hp', hturn', hphase', hforgotten'⟩ := standing_at hcalm.tasks htask
    exact ⟨task', htask', hp'.trans hp, by rw [hturn']; exact hconv, hforgotten'.trans hforgotten,
      by rw [hphase']; exact hgone⟩
  · intro p id hid
    rw [hcalm.procs] at hid
    obtain ⟨r, hr, rfl⟩ := h.stored p id hid
    exact hcalm.stored r hr

/-- A call that neither waits for its start nor shuts down moves, and receipts may end. -/
theorem Calm.of_call (hcall : s.calls[i]? = some call)
    (hwaits : ∀ turn, call.phase ≠ .sendAdmitted turn) (hcloses : ∀ js, call.phase ≠ .closing js)
    (hprocs : s'.procs = s.procs) (hcalls : s'.calls = (s.setCall i phase).calls)
    (htasks : s'.tasks.map Task.standing = s.tasks.map Task.standing)
    (hreceipts : s'.db.receipts = s.db.receipts ∨ ∃ turn outcome detail, s'.db.receipts = endReceipt
      turn outcome detail s.db.receipts) :
    Calm s s' := by
  refine ⟨hprocs, ?_, ?_, htasks, ?_, ?_⟩
  · intro r hr hrunning
    rcases hreceipts with hreceipts | ⟨turn, outcome, detail, hreceipts⟩
    · rwa [hreceipts] at hr
    · rw [hreceipts] at hr
      obtain ⟨old, hold, -, -, -, -, hsame⟩ := mem_endReceipt hr
      rw [← hsame hrunning]
      exact hold
  · intro r hr
    rcases hreceipts with hreceipts | ⟨turn, outcome, detail, hreceipts⟩
    · rw [hreceipts]
      exact ⟨r, hr, rfl⟩
    · rw [hreceipts]
      refine ⟨_, List.mem_map.mpr ⟨r, hr, rfl⟩, ?_⟩
      split <;> rfl
  · intro k other turn hother hphase
    rw [hcalls]
    exact setCall_stays hcall hother (fun hsame => hwaits turn (hsame.symm.trans hphase))
  · intro k other js hother hphase
    rw [hcalls]
    exact setCall_stays hcall hother (fun hsame => hcloses js (hsame.symm.trans hphase))

theorem Call.Fits.not_closing (hfits : call.Fits digest) (hstops : call.request.Stops) :
    ∀ js, call.phase ≠ .closing js := by
  intro js hphase
  cases hrequest : call.request <;> simp_all [Call.Fits, Request.Stops]

variable {clientTurnId text : String}

theorem SendMove.before {scope : Option Scope} {before after : Phase}
    (h : SendMove digest s act p conversation clientTurnId text scope before after) :
    (∀ turn, before ≠ .sendAdmitted turn) ∧ ∀ js, before ≠ .closing js := by
  cases h <;> simp

/-! One step -/

section Steps

variable {turn : ℕ} {db : Database} {outcome : Outcome} {detail : Option String} {j : ℕ}
  {written : Database} {receipt : Receipt} {receipts : List Receipt}

theorem mem_admitted {p q id : ℕ} (h : id ∈ ((s.admitted i p written receipt).procs q).admitted) :
    id ∈ (s.procs q).admitted ∨ (q = p ∧ id = receipt.id) := by
  simp only [System.admitted, System.setProc] at h
  split at h
  · rename_i hq
    subst hq
    rcases List.mem_append.mp h with h | h
    · exact .inl h
    · exact .inr ⟨rfl, List.mem_singleton.mp h⟩
  · exact .inl h

/-- A send is admitted: its receipt is running, and its call waits to start it. -/
theorem Tended.admitted (hsane : Sane digest s) (h : Tended s) {found : Conversation}
    (hcall : s.calls[i]? = some call) (hphase : call.phase = .sendFree found)
    (hfound : found ∈ s.db.conversations)
    (hadmitted : admitTurn digest s.db found turn clientTurnId text = .ok (written, receipt)) :
    Tended (s.admitted i call.process written receipt) := by
  obtain ⟨hreceipts, -⟩ := admitTurn_stored hsane.log hfound hadmitted
  obtain ⟨-, -, hid, -, -, -, -, hfresh⟩ := admitTurn_ok hsane.log hfound hadmitted
  simp only at hreceipts hid
  have hnew : ∀ r ∈ s.db.receipts, r.id ≠ receipt.id := by
    rw [hid]
    exact hfresh
  have hactive (q : ℕ) : ((s.admitted i call.process written receipt).procs q).active =
      (s.procs q).active := by
    simp only [System.admitted, System.setProc]
    split
    · rename_i hq
      rw [hq]
    · rfl
  refine ⟨?_, ?_, h.details, ?_, ?_⟩
  · intro q r hr hrunning hin
    rcases mem_admitted hin with hin | ⟨rfl, hrid⟩
    · obtain ⟨old, hold, holdid⟩ := h.stored q r.id hin
      have hr' : r ∈ s.db.receipts := by
        rcases mem_snoc.mp (hreceipts ▸ hr) with hr | rfl
        · exact hr
        · exact absurd holdid (hnew old hold)
      rcases h.running q r hr' hrunning hin with hawaited | ⟨j, hbehind, howned⟩
      · refine .inl (hawaited.keep (fun k other turn' hother _ hwaits _ => ?_))
        exact setCall_stays hcall hother (by simp [hwaits, hphase])
      · refine .inr ⟨j, hbehind, howned.keep ?_ (fun k other js hother _ hcloses _ => ?_)⟩
        · rw [hactive]
          exact id
        · exact setCall_stays hcall hother (by simp [hcloses, hphase])
    · exact .inl ⟨i, _, receipt, setCall_calls_self hcall, rfl, rfl, hrid.symm⟩
  · intro task htask hover r hr hrid
    rcases mem_snoc.mp (hreceipts ▸ hr) with hr | rfl
    · exact h.ended task htask hover r hr hrid
    · exact absurd hrid.symm ((hsane.held.tasks task htask).id_ne hnew)
  · intro q c j hentry
    rw [hactive] at hentry
    exact h.entries q c j hentry
  · intro q id hin
    rcases mem_admitted hin with hin | ⟨-, rfl⟩
    · obtain ⟨old, hold, hid⟩ := h.stored q id hin
      exact ⟨old, hreceipts ▸ List.mem_append_left _ hold, hid⟩
    · exact ⟨receipt, hreceipts ▸ List.mem_append_right _ (List.mem_singleton_self _), rfl⟩

theorem started_tasks (s : System) (i p : ℕ) (turn : Receipt) :
    (s.started i p turn).tasks = s.tasks ++ [⟨p, turn, none, .streaming, false⟩] :=
  rfl

theorem started_admitted (s : System) (i p q : ℕ) (turn : Receipt) :
    ((s.started i p turn).procs q).admitted = (s.procs q).admitted := by
  simp only [System.started, System.setProc]
  split
  · rename_i hq
    rw [hq]
  · rfl

theorem started_active (s : System) (i p q c : ℕ) (turn : Receipt) :
    ((s.started i p turn).procs q).active c =
      if q = p ∧ c = turn.conversation then some s.tasks.length else (s.procs q).active c := by
  simp only [System.started, System.setProc]
  by_cases hq : q = p
  · subst hq
    by_cases hc : c = turn.conversation <;> simp [hc]
  · simp only [hq, false_and, if_false]
    rfl

/-- A turn is started: its task takes the entry of its conversation. -/
theorem Tended.started (hsane : Sane digest s) (h : Tended s) {turn : Receipt}
    (hcall : s.calls[i]? = some call) (hphase : call.phase = .sendAdmitted turn)
    (hfree : (s.procs call.process).active turn.conversation = none) :
    Tended (s.started i call.process turn) := by
  have hturn := hsane.held.calls call (List.mem_of_getElem? hcall)
  rw [hphase] at hturn
  have hold (j : ℕ) (task : Task) (htask : s.tasks[j]? = some task) :
      (s.started i call.process turn).tasks[j]? = some task := by
    rw [started_tasks, List.getElem?_append_left (List.getElem?_eq_some_iff.mp htask).1]
    exact htask
  have hnew : (s.started i call.process turn).tasks[s.tasks.length]? =
      some ⟨call.process, turn, none, .streaming, false⟩ := by
    rw [started_tasks, List.getElem?_append_right (Nat.le_refl _), Nat.sub_self]
    rfl
  refine ⟨?_, ?_, ?_, ?_, ?_⟩
  · intro q r hr hrunning hin
    rw [started_admitted] at hin
    rcases h.running q r hr hrunning hin with hawaited | ⟨j, hbehind, howned⟩
    · obtain ⟨k, other, waiting, hother, rfl, hwaits, hrid⟩ := hawaited
      by_cases hk : i = k
      · subst hk
        rw [hcall] at hother
        cases hother
        obtain rfl : turn = waiting := Phase.sendAdmitted.inj (hphase.symm.trans hwaits)
        refine .inr ⟨_, ⟨_, hnew, rfl, hrid, rfl⟩, .inl ?_⟩
        rw [started_active, Copy.conversation hturn hsane.log r hr hrid.symm]
        simp
      · refine .inl ⟨k, other, waiting, ?_, rfl, hwaits, hrid⟩
        exact (setCall_calls_ne hk).trans hother
    · obtain ⟨task, htask, hbehind⟩ := hbehind
      refine .inr ⟨j, ⟨task, hold j task htask, hbehind⟩, howned.keep ?_ ?_⟩
      · intro hactive
        rw [started_active]
        split
        · rename_i hnewest
          rw [hnewest.1, hnewest.2, hfree] at hactive
          cases hactive
        · exact hactive
      · intro k other js hother _ hcloses _
        exact setCall_stays hcall hother (by simp [hcloses, hphase])
  · intro task htask hover r hr hrid
    rw [started_tasks] at htask
    rcases mem_snoc.mp htask with htask | rfl
    · exact h.ended task htask hover r hr hrid
    · cases hover
  · intro task htask outcome text detail hending
    rw [started_tasks] at htask
    rcases mem_snoc.mp htask with htask | rfl
    · exact h.details task htask outcome text detail hending
    · cases hending
  · intro q c j hactive
    rw [started_active] at hactive
    split at hactive
    · rename_i hnewest
      cases hactive
      exact ⟨_, hnew, hnewest.1.symm, hnewest.2.symm, rfl, by simp⟩
    · obtain ⟨task, htask, hentry⟩ := h.entries q c j hactive
      exact ⟨task, hold j task htask, hentry⟩
  · intro q id hin
    rw [started_admitted] at hin
    exact h.stored q id hin

/-- A shutdown returns once the tasks it waited for are over. -/
theorem Tended.closed (h : Tended s) {tasks : List ℕ} (hcall : s.calls[i]? = some call)
    (hphase : call.phase = .closing tasks)
    (hover : ∀ j ∈ tasks, ∃ task, s.tasks[j]? = some task ∧ task.phase = .finished) :
    Tended (s.setCall i (.returned none)) := by
  refine ⟨?_, h.ended, h.details, h.entries, h.stored⟩
  intro q r hr hrunning hin
  rcases h.running q r hr hrunning hin with hawaited | ⟨j, hbehind, howned⟩
  · refine .inl (hawaited.keep (fun k other waiting hother _ hwaits _ => ?_))
    exact setCall_stays hcall hother (by simp [hwaits, hphase])
  · refine .inr ⟨j, hbehind, howned.keep id ?_⟩
    intro k other js hother hp hcloses hj
    by_cases hk : i = k
    · subst hk
      rw [hcall] at hother
      cases hother
      obtain rfl : tasks = js := Phase.closing.inj (hphase.symm.trans hcloses)
      obtain ⟨task, htask, hended⟩ := hover j hj
      obtain ⟨behind, hbehind, -, -, hlive⟩ := hbehind
      rw [htask] at hbehind
      cases hbehind
      rw [hended] at hlive
      cases hlive
    · exact (setCall_calls_ne hk).trans hother

theorem CallStep.tended (hsane : Sane digest s) (h : Tended s) (hcall : s.calls[i]? = some call)
    (hindex : act.callIndex = some i) (hcareful : Careful s act = true)
    (hstep : CallStep digest s i call act s') : Tended s' := by
  have hmem := List.mem_of_getElem? hcall
  cases hstep with
  | sent _ hmove =>
    exact h.calm (.of_call hcall hmove.before.1 hmove.before.2 rfl rfl rfl (.inl rfl))
  | admitted _ hphase _ hfound _ hadmitted =>
    exact h.admitted hsane hcall hphase hfound hadmitted
  | factory _ hact =>
    subst hact
    cases hcareful
  | started hphase hact =>
    subst hact
    obtain rfl : _ = i := Option.some.inj hindex
    rw [Careful, hcall, Option.all_some, hphase, Bool.true_and] at hcareful
    exact h.started hsane hcall hphase (of_decide_eq_true hcareful)
  | closed hphase hover => exact h.closed hcall hphase hover
  | other _ hstops _ _ =>
    have hfits := hsane.held.fits call hmem
    exact h.calm (.of_call hcall (hfits.not_admitted hstops) (hfits.not_closing hstops) rfl rfl rfl
      (.inl rfl))
  | stopped _ hstops _ _ =>
    have hfits := hsane.held.fits call hmem
    exact h.calm (.of_call hcall (hfits.not_admitted hstops) (hfits.not_closing hstops) rfl rfl
      (standing_requestStop _ _ _) (.inl rfl))
  | orphan _ hstops hturn hclose _ _ =>
    have hfits := hsane.held.fits call hmem
    obtain ⟨-, hreceipts⟩ : Effect digest s.db _ ∧ _ :=
      recordOutcome_ok hsane.log (hturn.conversation hsane.log) hclose
    exact h.calm (.of_call hcall (hfits.not_admitted hstops) (hfits.not_closing hstops) rfl rfl rfl
      (.inr ⟨_, _, _, hreceipts⟩))

/-- What is stored keeps its ids when a receipt ends. -/
theorem stored_endReceipt (h : receipts = endReceipt turn outcome detail db.receipts) :
    ∀ r ∈ db.receipts, ∃ r' ∈ receipts, r'.id = r.id := by
  intro r hr
  rw [h]
  refine ⟨_, List.mem_map.mpr ⟨r, hr, rfl⟩, ?_⟩
  split <;> rfl

theorem running_endReceipt (h : receipts = endReceipt turn outcome detail db.receipts) :
    ∀ r ∈ receipts, r.status = .running → r ∈ db.receipts ∧ r.id ≠ turn := by
  intro r hr hrunning
  rw [h] at hr
  obtain ⟨old, hold, -, -, -, -, hsame⟩ := mem_endReceipt hr
  refine ⟨hsame hrunning ▸ hold, ?_⟩
  intro hid
  rw [status_endReceipt hr hid] at hrunning
  cases outcome <;> cases hrunning

/-- A live task moves to another phase, and ends only with its receipt terminal. -/
theorem Tended.setTask (h : Tended s) {phase : TaskPhase} (htask : s.tasks[j]? = some task)
    (hphase : phase = .finished ∨ phase.live = true)
    (hreceipts : ∀ r ∈ db.receipts, r.status = .running → r ∈ s.db.receipts)
    (hstored : ∀ r ∈ s.db.receipts, ∃ r' ∈ db.receipts, r'.id = r.id)
    (hover : phase = .finished → ∀ r ∈ db.receipts, r.id = task.turn.id → r.status ≠ .running)
    (hdetails : ∀ outcome text detail, phase = .ending outcome text detail → ∀ d ∈ detail,
      String.length d ≤ maxDetailChars) :
    Tended { s.setTask j phase with db := db } := by
  have hself : (s.setTask j phase).tasks[j]? = some { task with phase } := by
    unfold System.setTask
    rw [List.getElem?_modify_eq, htask]
    rfl
  have hother (k : ℕ) (hk : j ≠ k) : (s.setTask j phase).tasks[k]? = s.tasks[k]? :=
    List.getElem?_modify_ne _ _ hk
  have hmem : ∀ moved ∈ (s.setTask j phase).tasks, moved ∈ s.tasks ∨
    moved = { task with phase } := by
    intro moved hmoved
    rcases mem_modify hmoved with hmoved | ⟨old, hold, rfl⟩
    · exact .inl hmoved
    · rw [htask] at hold
      cases hold
      exact .inr rfl
  refine ⟨?_, ?_, ?_, ?_, ?_⟩
  · intro p r hr hrunning hin
    rcases h.running p r (hreceipts r hr hrunning) hrunning hin with hawaited | ⟨k, hbehind, howned⟩
    · exact .inl hawaited
    · refine .inr ⟨k, ?_, howned⟩
      obtain ⟨behind, hbehind, hp, hid, hlive⟩ := hbehind
      by_cases hk : j = k
      · subst hk
        rw [htask] at hbehind
        cases hbehind
        rcases hphase with hphase | hphase
        · exact absurd hrunning (hover hphase r hr hid.symm)
        · exact ⟨_, hself, hp, hid, hphase⟩
      · exact ⟨behind, (hother k hk).trans hbehind, hp, hid, hlive⟩
  · intro moved hmoved hmovedOver r hr hid
    rcases hmem moved hmoved with hold | rfl
    · intro hrunning
      exact h.ended moved hold hmovedOver r (hreceipts r hr hrunning) hid hrunning
    · exact hover hmovedOver r hr hid
  · intro moved hmoved outcome text detail hending
    rcases hmem moved hmoved with hold | rfl
    · exact h.details moved hold outcome text detail hending
    · exact hdetails outcome text detail hending
  · intro p c k hactive
    obtain ⟨entry, hentry, hp, hconv, hforgotten, hgone⟩ := h.entries p c k hactive
    by_cases hk : j = k
    · subst hk
      rw [htask] at hentry
      cases hentry
      refine ⟨_, hself, hp, hconv, hforgotten, ?_⟩
      rintro rfl
      rcases hphase with hphase | hphase
      · cases hphase
      · cases hphase
    · exact ⟨entry, (hother k hk).trans hentry, hp, hconv, hforgotten, hgone⟩
  · intro p id hin
    obtain ⟨r, hr, rfl⟩ := h.stored p id hin
    exact hstored r hr

theorem forgotten_admitted (s : System) (j q : ℕ) (task : Task) :
    ((s.forgotten j task).procs q).admitted = (s.procs q).admitted := by
  simp only [System.forgotten, System.setProc]
  split
  · rename_i hq
    rw [hq]
  · rfl

theorem forgotten_active (s : System) (j q c : ℕ) (task : Task) :
    ((s.forgotten j task).procs q).active c =
      if q = task.process ∧ c = task.turn.conversation ∧ (s.procs q).active c = some j then none
      else (s.procs q).active c := by
  simp only [System.forgotten, System.setProc]
  by_cases hq : q = task.process
  · subst hq
    simp
  · simp [hq]

/-- A finished task leaves `_active`. -/
theorem Tended.forgotten (h : Tended s) (htask : s.tasks[j]? = some task)
    (hover : task.phase = .finished) : Tended (s.forgotten j task) := by
  have hself : (s.forgotten j task).tasks[j]? = some { task with forgotten := true } := by
    unfold System.forgotten
    rw [List.getElem?_modify_eq, htask]
    rfl
  have hother (k : ℕ) (hk : j ≠ k) : (s.forgotten j task).tasks[k]? = s.tasks[k]? :=
    List.getElem?_modify_ne _ _ hk
  have hback : ∀ moved ∈ (s.forgotten j task).tasks, ∃ old ∈ s.tasks,
      old.turn = moved.turn ∧ old.phase = moved.phase := by
    intro moved hmoved
    rcases mem_modify hmoved with hmoved | ⟨old, hold, rfl⟩
    · exact ⟨moved, hmoved, rfl, rfl⟩
    · exact ⟨old, List.mem_of_getElem? hold, rfl, rfl⟩
  have hlive_ne (k : ℕ) (behind : Task) (hbehind : s.tasks[k]? = some behind)
      (hlive : behind.phase.live = true) : j ≠ k := by
    rintro rfl
    rw [htask] at hbehind
    cases hbehind
    rw [hover] at hlive
    cases hlive
  refine ⟨?_, ?_, ?_, ?_, ?_⟩
  · intro p r hr hrunning hin
    rw [forgotten_admitted] at hin
    rcases h.running p r hr hrunning hin with hawaited | ⟨k, ⟨behind, hbehind, hrest⟩, howned⟩
    · exact .inl hawaited
    · have hk := hlive_ne k behind hbehind hrest.2.2
      refine .inr ⟨k, ⟨behind, (hother k hk).trans hbehind, hrest⟩, howned.keep ?_ ?_⟩
      · intro hactive
        rw [forgotten_active, if_neg]
        · exact hactive
        · rintro ⟨-, -, hentry⟩
          rw [hactive] at hentry
          exact hk (Option.some.inj hentry).symm
      · exact fun _ _ _ hcall _ _ _ => hcall
  · intro moved hmoved hmovedOver
    obtain ⟨old, hold, hturn, hphase⟩ := hback moved hmoved
    rw [← hturn]
    exact h.ended old hold (hphase.trans hmovedOver)
  · intro moved hmoved outcome text detail hending
    obtain ⟨old, hold, -, hphase⟩ := hback moved hmoved
    exact h.details old hold outcome text detail (hphase.trans hending)
  · intro q c k hactive
    rw [forgotten_active] at hactive
    split at hactive
    · cases hactive
    · rename_i hnot
      obtain ⟨entry, hentry, hq, hconv, hrest⟩ := h.entries q c k hactive
      have hk : j ≠ k := by
        rintro rfl
        rw [htask] at hentry
        cases hentry
        exact hnot ⟨hq.symm, hconv.symm, hactive⟩
      exact ⟨entry, (hother k hk).trans hentry, hq, hconv, hrest⟩
  · intro q id hin
    rw [forgotten_admitted] at hin
    exact h.stored q id hin

/-- An ending that comes late found the receipt terminal. -/
theorem late_ended {turn : Receipt} (h : recordOutcome db turn outcome text detail = .ok none) :
    ∀ r ∈ db.receipts, r.id = turn.id → r.status ≠ .running := by
  unfold recordOutcome at h
  split at h
  · rename_i hnone
    exact finish_eq_none hnone
  · split at h
    · cases h
    · rename_i claimed _ _ conversation _
      cases hwrite : writeEnding claimed conversation turn.id outcome text detail with
      | ok written | error e => simp [hwrite, Except.map] at h

theorem TaskStep.tended (hsane : Sane digest s) (h : Tended s) (hindex : act.taskIndex = some j)
    (htask : s.tasks[j]? = some task) (hcareful : Careful s act = true)
    (hstep : TaskStep s j task act s') : Tended s' := by
  have hmem := List.mem_of_getElem? htask
  have hturn := hsane.held.tasks task hmem
  cases hstep with
  | ends hphase hdetail =>
    refine h.setTask htask (.inr rfl) (fun _ hr _ => hr) (fun r hr => ⟨r, hr, rfl⟩) nofun ?_
    intro outcome text detail hending
    cases hending
    exact hdetail
  | recorded hphase hrecord =>
    obtain ⟨-, hreceipts⟩ : Effect digest s.db _ ∧ _ :=
      recordOutcome_ok hsane.log (hturn.conversation hsane.log) hrecord
    have hrunning := running_endReceipt hreceipts
    exact h.setTask htask (.inl rfl) (fun r hr hr' => (hrunning r hr hr').1)
      (stored_endReceipt hreceipts) (fun _ r hr hid hr' => (hrunning r hr hr').2 hid) nofun
  | late hphase hrecord =>
    refine h.setTask htask (.inl rfl) (fun _ hr _ => hr) (fun r hr => ⟨r, hr, rfl⟩) ?_ nofun
    intro _ r hr hid
    exact late_ended hrecord r hr hid
  | @failed k outcome text detail e hphase hact hrecord =>
    subst hact
    obtain rfl : k = j := Option.some.inj hindex
    rw [Careful, htask, Option.all_some, hphase] at hcareful
    have htext := of_decide_eq_true hcareful
    have hdetail := h.details task hmem outcome text detail hphase
    obtain ⟨result, hresult⟩ :=
      exists_recordOutcome hsane.log outcome (hturn.conversation hsane.log) htext hdetail
    rw [hrecord] at hresult
    cases hresult
  | @killed k last outcome text detail hphase hact =>
    subst hact
    obtain rfl : k = j := Option.some.inj hindex
    rw [Careful, htask, Option.all_some, hphase] at hcareful
    cases hcareful
  | forgets hover _ => exact h.forgotten htask hover

end Steps

theorem standing_beginCall (s : System) (p : ℕ) (permitted : Bool) (request : Request) :
    (beginCall s p permitted request).tasks.map Task.standing = s.tasks.map Task.standing := by
  cases request with
  | close =>
    exact foldl_requestStop (fun t => t.tasks.map Task.standing)
      (fun t j => standing_requestStop t j _) _ s
  | _ => rfl

theorem beginCall_stays (h : s.calls[k]? = some call) :
    (beginCall s p permitted request).calls[k]? = some call := by
  obtain ⟨phase, hcalls, -, -⟩ := beginCall_calls id s p permitted request
  rw [hcalls, List.getElem?_append_left (List.getElem?_eq_some_iff.mp h).1]
  exact h

theorem Tended.called (h : Tended s) (p : ℕ) (permitted : Bool) (hclose : request ≠ .close) :
    Tended (beginCall s p permitted request) := by
  refine h.calm ⟨?_, ?_, ?_, standing_beginCall s p permitted request,
    fun _ _ _ hcall _ => beginCall_stays hcall, fun _ _ _ hcall _ => beginCall_stays hcall⟩
  · cases request with
    | close => exact absurd rfl hclose
    | _ => rfl
  · intro r hr _
    rwa [beginCall_db] at hr
  · intro r hr
    rw [beginCall_db]
    exact ⟨r, hr, rfl⟩

/-- The process of an entry owns its task. -/
theorem Tended.mem_owned (h : Tended s) {c : ℕ} (hactive : (s.procs p).active c = some j) :
    j ∈ s.owned p := by
  obtain ⟨task, htask, -, hconv, -⟩ := h.entries p c j hactive
  unfold System.owned
  rw [List.mem_filter, List.mem_range]
  refine ⟨(List.getElem?_eq_some_iff.mp htask).1, ?_⟩
  rw [htask, Option.any_some, hconv, hactive]
  simp

/-- A shutdown takes the entries over. -/
theorem Tended.shutDown (h : Tended s) (p : ℕ) (permitted : Bool) :
    Tended (beginCall s p permitted .close) := by
  have hstanding := standing_beginCall s p permitted .close
  have hnew : (beginCall s p permitted .close).calls[s.calls.length]? =
      some ⟨p, permitted, .close, .closing (s.owned p)⟩ := by
    have hcalls : (beginCall s p permitted .close).calls =
        s.calls ++ [⟨p, permitted, .close, .closing (s.owned p)⟩] := rfl
    rw [hcalls, List.getElem?_append_right (Nat.le_refl _), Nat.sub_self]
    rfl
  have hadmitted (q : ℕ) :
      ((beginCall s p permitted .close).procs q).admitted = (s.procs q).admitted := by
    rw [close_procs]
    split
    · rename_i hq
      rw [hq]
    · rfl
  refine ⟨?_, ?_, ?_, ?_, ?_⟩
  · intro q r hr hrunning hin
    rw [beginCall_db] at hr
    rw [hadmitted] at hin
    rcases h.running q r hr hrunning hin with hawaited | ⟨j, ⟨task, htask, hp, hid, hlive⟩, howned⟩
    · exact .inl (hawaited.keep (fun _ _ _ hcall _ _ _ => beginCall_stays hcall))
    · obtain ⟨task', htask', hp', hturn', hphase', -⟩ := standing_at hstanding htask
      refine .inr ⟨j, ⟨task', htask', hp'.trans hp, by rw [hturn']; exact hid,
        by rw [hphase']; exact hlive⟩, ?_⟩
      by_cases hq : q = p
      · subst hq
        rcases howned with hactive | ⟨k, call, js, hcall, hrest⟩
        · exact .inr ⟨_, _, _, hnew, rfl, rfl, h.mem_owned hactive⟩
        · exact .inr ⟨k, call, js, beginCall_stays hcall, hrest⟩
      · refine howned.keep ?_ (fun _ _ _ hcall _ _ _ => beginCall_stays hcall)
        rw [close_procs, if_neg hq]
        exact id
  · intro task htask hover r hr hid
    obtain ⟨k, hk⟩ := List.mem_iff_getElem?.mp htask
    obtain ⟨old, hold, -, hturn, hphase, -⟩ := standing_at hstanding.symm hk
    rw [beginCall_db] at hr
    rw [← hturn] at hid
    exact h.ended old (List.mem_of_getElem? hold) (hphase.trans hover) r hr hid
  · intro task htask outcome text detail hending
    obtain ⟨k, hk⟩ := List.mem_iff_getElem?.mp htask
    obtain ⟨old, hold, -, -, hphase, -⟩ := standing_at hstanding.symm hk
    exact h.details old (List.mem_of_getElem? hold) outcome text detail (hphase.trans hending)
  · intro q c j hactive
    rw [close_procs] at hactive
    split at hactive
    · cases hactive
    · obtain ⟨task, htask, hq, hconv, hforgotten, hgone⟩ := h.entries q c j hactive
      obtain ⟨task', htask', hp', hturn', hphase', hforgotten'⟩ := standing_at hstanding htask
      exact ⟨task', htask', hp'.trans hq, by rw [hturn']; exact hconv,
        hforgotten'.trans hforgotten, by rw [hphase']; exact hgone⟩
  · intro q id hin
    rw [hadmitted] at hin
    rw [beginCall_db]
    exact h.stored q id hin

/-- A process that crashes leaves the turns of the others alone. -/
theorem Tended.crashed (h : Tended s) (p : ℕ) : Tended (crashProcess s p) := by
  have hprocs (q : ℕ) (hq : q ≠ p) : (crashProcess s p).procs q = s.procs q := by
    simp only [crashProcess, System.setProc, if_neg hq]
  have hfresh : (crashProcess s p).procs p = freshProcess := by
    simp only [crashProcess, System.setProc, if_true]
  have hcall (k : ℕ) (call : Call) (hcall : s.calls[k]? = some call) (hp : call.process ≠ p) :
      (crashProcess s p).calls[k]? = some call := by
    simp [crashProcess, List.getElem?_map, hcall, hp]
  have htask (j : ℕ) (task : Task) (htask : s.tasks[j]? = some task) (hp : task.process ≠ p) :
      (crashProcess s p).tasks[j]? = some task := by
    simp [crashProcess, List.getElem?_map, htask, hp]
  have hback : ∀ task ∈ (crashProcess s p).tasks, task.phase = .gone ∨ task ∈ s.tasks := by
    intro task hmem
    obtain ⟨old, hold, rfl⟩ := List.mem_map.mp hmem
    split
    · exact .inl rfl
    · exact .inr hold
  refine ⟨?_, ?_, ?_, ?_, ?_⟩
  · intro q r hr hrunning hin
    by_cases hq : q = p
    · subst hq
      rw [hfresh] at hin
      cases hin
    · rw [hprocs q hq] at hin
      rcases h.running q r hr hrunning hin with hawaited | ⟨j, ⟨task, hbehind, hp, hrest⟩, howned⟩
      · exact .inl (hawaited.keep (fun k call _ hat hcp _ _ => hcall k call hat (hcp ▸ hq)))
      · refine .inr ⟨j, ⟨task, htask j task hbehind (hp ▸ hq), hp, hrest⟩, howned.keep ?_ ?_⟩
        · rw [hprocs q hq]
          exact id
        · exact fun k call _ hat hcp _ _ => hcall k call hat (hcp ▸ hq)
  · intro task hmem hover
    rcases hback task hmem with hgone | hold
    · rw [hover] at hgone
      cases hgone
    · exact h.ended task hold hover
  · intro task hmem outcome text detail hending
    rcases hback task hmem with hgone | hold
    · rw [hending] at hgone
      cases hgone
    · exact h.details task hold outcome text detail hending
  · intro q c j hactive
    by_cases hq : q = p
    · subst hq
      rw [hfresh] at hactive
      cases hactive
    · rw [hprocs q hq] at hactive
      obtain ⟨task, hentry, hp, hrest⟩ := h.entries q c j hactive
      exact ⟨task, htask j task hentry (hp ▸ hq), hp, hrest⟩
  · intro q id hin
    by_cases hq : q = p
    · subst hq
      rw [hfresh] at hin
      cases hin
    · rw [hprocs q hq] at hin
      exact h.stored q id hin

theorem Step.tended (hsane : Sane digest s) (h : Tended s) (hcareful : Careful s act = true)
    (hstep : Step digest s act s') : Tended s' := by
  cases hstep with
  | idle _ => exact h
  | wrote _ _ hreceipts =>
    refine h.calm ⟨rfl, ?_, ?_, rfl, fun _ _ _ hcall _ => hcall, fun _ _ _ hcall _ => hcall⟩
    · intro r hr _
      rwa [hreceipts] at hr
    · intro r hr
      exact ⟨r, by rw [hreceipts]; exact hr, rfl⟩
  | @called p permitted request _ =>
    by_cases hclose : request = .close
    · subst hclose
      exact h.shutDown p permitted
    · exact h.called p permitted hclose
  | crashed _ => exact h.crashed _
  | call hindex hcall hcallstep => exact hcallstep.tended hsane h hcall hindex hcareful
  | task _ hindex htask htaskstep => exact htaskstep.tended hsane h hindex htask hcareful

theorem run_tended (hsane : Sane digest s) (h : Tended s) {acts : List Act}
    (hcareful : CarefulRun digest s acts = true) (hrun : run digest s acts = some s') :
      Tended s' := by
  induction acts generalizing s with
  | nil =>
    cases hrun
    exact h
  | cons act acts ih =>
    obtain ⟨next, hnext, hrest⟩ := Option.bind_eq_some_iff.mp hrun
    have hstep := step_cases hsane.log hsane.held hnext
    rw [CarefulRun, hnext, Option.all_some, Bool.and_eq_true] at hcareful
    exact ih (hstep.sane hsane) (hstep.tended hsane h hcareful.1) hcareful.2 hrest

/-! Conversations are released -/

theorem tended_initialSystem : Tended initialSystem := by
  refine ⟨?_, ?_, ?_, ?_, ?_⟩
  · intro p r hr
    cases hr
  · intro task htask
    cases htask
  · intro task htask
    cases htask
  · intro p c j hactive
    cases hactive
  · intro p id hin
    cases hin

/-- No call of the process is in progress. -/
def Quiet (s : System) (p : ℕ) : Prop :=
  ∀ call ∈ s.calls, call.process = p → call.phase.isOver = true

/-- What a send decides when nothing comes between its reads and its writes. -/
def nextSend (digest : String → String) (s : System) (p conversation : ℕ)
    (clientTurnId text : String) (scope : Option Scope) (turn : ℕ) (refused : Bool) : Phase :=
  match lockConversation s conversation scope with
  | .sendLocked found =>
    match readReceipt s found clientTurnId with
    | .sendUnseen found =>
      match checkActive s p found with
      | .sendFree found => (admission digest s found clientTurnId text turn refused).2
      | phase => phase
    | phase => phase
  | phase => phase

/-- No conversation of the process is busy with nothing running: a running receipt it
admitted is that of a live task in `_active`, a task that has ended left its receipt
terminal, and then the next send is not refused as busy. -/
structure Released (digest : String → String) (s : System) (p : ℕ) : Prop where
  tended : Quiet s p → ∀ r ∈ s.db.receipts, r.status = .running → r.id ∈ (s.procs p).admitted →
    ∃ j task, (s.procs p).active r.conversation = some j ∧ s.tasks[j]? = some task ∧
      task.turn.id = r.id ∧ task.phase.live = true
  ended : ∀ task ∈ s.tasks, task.phase = .finished → ∀ r ∈ s.db.receipts, r.id = task.turn.id →
    r.status ≠ .running
  sendable : Quiet s p → ∀ conversation,
    (∀ task ∈ s.tasks, task.process = p → task.turn.conversation = conversation →
      task.phase = .finished ∧ task.forgotten = true ∨ task.phase = .gone) →
    (∀ r ∈ s.db.receipts, r.conversation = conversation → r.status = .running →
      r.id ∈ (s.procs p).admitted) →
    ∀ clientTurnId text scope turn refused,
      nextSend digest s p conversation clientTurnId text scope turn refused ≠ .sendLost ∧
        ∀ busy, nextSend digest s p conversation clientTurnId text scope turn refused ≠
          .raised (.busy busy)

theorem Tended.quiet (h : Tended s) (hquiet : Quiet s p) {r : Receipt} (hr : r ∈ s.db.receipts)
    (hrunning : r.status = .running) (hin : r.id ∈ (s.procs p).admitted) :
    ∃ j task, (s.procs p).active r.conversation = some j ∧ s.tasks[j]? = some task ∧
      task.turn.id = r.id ∧ task.phase.live = true := by
  rcases h.running p r hr hrunning hin with hawaited | ⟨j, ⟨task, htask, -, hid, hlive⟩, howned⟩
  · obtain ⟨k, call, turn, hcall, hp, hphase, -⟩ := hawaited
    have hover := hquiet call (List.mem_of_getElem? hcall) hp
    rw [hphase] at hover
    cases hover
  · rcases howned with hactive | ⟨k, call, js, hcall, hp, hphase, -⟩
    · exact ⟨j, task, hactive, htask, hid, hlive⟩
    · have hover := hquiet call (List.mem_of_getElem? hcall) hp
      rw [hphase] at hover
      cases hover

/-- The writes of a send are refused as busy only over a running receipt. -/
theorem admission_not_busy (digest : String → String) (h : LogOk s.db) {found : Conversation}
    (hfound : found ∈ s.db.conversations)
    (hnone : s.db.receiptByClient? found.id clientTurnId = none)
    (hrunning : ∀ r ∈ s.db.receipts, r.conversation = found.id → r.status ≠ .running)
    (text : String) (turn : ℕ) (refused : Bool) :
    (admission digest s found clientTurnId text turn refused).2 ≠ .sendLost ∧
      ∀ busy, (admission digest s found clientTurnId text turn refused).2 ≠
        .raised (.busy busy) := by
  cases hadmission : admission digest s found clientTurnId text turn refused with
  | mk written phase =>
  have hcases := admission_cases h (.of_mem hfound) 0 0 none hadmission
  refine ⟨?_, ?_⟩
  · rintro rfl
    rcases hcases with ⟨-, hmove, -⟩ | ⟨receipt, heq, -⟩
    · cases hmove with
      | lost hother =>
        rcases hother with ⟨r, hr⟩ | ⟨r, hr⟩
        · rw [hnone] at hr
          cases hr
        · have hsome := List.find?_some hr
          simp only [decide_eq_true_eq] at hsome
          exact hrunning _ (List.mem_of_find?_eq_some hr) hsome.1 hsome.2
    · cases heq
  · rintro busy rfl
    rcases hcases with ⟨-, hmove, -⟩ | ⟨receipt, heq, -⟩
    · cases hmove with
      | refused _ hrefusal => cases hrefusal
    · cases heq

/-- A send is busy only over an entry of its conversation or a running receipt. -/
theorem nextSend_not_busy (h : LogOk s.db) (hactive : (s.procs p).active conversation = none)
    (hrunning : ∀ r ∈ s.db.receipts, r.conversation = conversation → r.status ≠ .running)
    (clientTurnId text : String) (scope : Option Scope) (turn : ℕ) (refused : Bool) :
    nextSend digest s p conversation clientTurnId text scope turn refused ≠ .sendLost ∧
      ∀ busy, nextSend digest s p conversation clientTurnId text scope turn refused ≠
        .raised (.busy busy) := by
  unfold nextSend lockConversation
  cases hlooked : s.db.conversation? conversation with
  | none => simp
  | some found =>
    obtain ⟨hfound, rfl⟩ := (conversation?_eq_some_iff h.ids).mp hlooked
    by_cases hscope : scopeCovers scope found.scope = false
    · simp [hscope]
    · cases hread : s.db.receiptByClient? found.id clientTurnId with
      | some r => simp [hscope, readReceipt, hread]
      | none =>
        have hfree := admission_not_busy digest h hfound hread hrunning text turn refused
        simpa [hscope, readReceipt, hread, checkActive, hactive] using hfree

/-- In every run of careful steps, in every state it reaches. -/
theorem run_released {acts : List Act} (hrun : run digest initialSystem acts = some s)
    (hcareful : CarefulRun digest initialSystem acts = true) : ∀ p, Released digest s p := by
  intro p
  have hsane := run_sane sane_initialSystem hrun
  have htended := run_tended sane_initialSystem tended_initialSystem hcareful hrun
  refine ⟨fun hquiet r hr hrunning hin => htended.quiet hquiet hr hrunning hin, htended.ended, ?_⟩
  intro hquiet conversation htasks hown clientTurnId text scope turn refused
  have hactive : (s.procs p).active conversation = none := by
    cases hentry : (s.procs p).active conversation with
    | none => rfl
    | some j =>
      obtain ⟨task, htask, hp, hconv, hforgotten, hgone⟩ := htended.entries p conversation j hentry
      rcases htasks task (List.mem_of_getElem? htask) hp hconv with ⟨-, hdone⟩ | hlost
      · rw [hforgotten] at hdone
        cases hdone
      · exact absurd hlost hgone
  refine nextSend_not_busy hsane.log hactive ?_ clientTurnId text scope turn refused
  intro r hr hconv hrunning
  obtain ⟨j, task, hentry, -⟩ := htended.quiet hquiet hr hrunning (hown r hr hconv hrunning)
  rw [hconv, hactive] at hentry
  cases hentry

/-- A turn that runs to its end, and the send after it. -/
def releasedTurn : List Act :=
  .startConversation 1 ⟨1, "g", "a"⟩ :: sendActs 0 0 1 "k" "hi" 10 ++
    [.start 0 true, .streamEnds 0 (.failed "no" "timeout"), .record 0, .forget 0] ++
    sendActs 0 1 1 "l" "ho" 11

theorem releasedTurn_released :
    ∃ s, run id initialSystem releasedTurn = some s ∧ s.db.receipts.length = 2 ∧
      ∀ p, Released id s p := by
  have hlength : (run id initialSystem releasedTurn).map (fun s => s.db.receipts.length) =
      some 2 := by
    decide
  obtain ⟨s, hs, hreceipts⟩ := Option.map_eq_some_iff.mp hlength
  have hcareful : CarefulRun id initialSystem releasedTurn = true := by
    decide
  exact ⟨s, hs, hreceipts, run_released hs hcareful⟩

/-- A model that cannot be built leaves the receipt running with nothing behind it. -/
theorem factory_strands :
    ¬ ∀ (acts : List Act) (s : System), run id initialSystem acts = some s →
      ∀ p, Quiet s p → ∀ r ∈ s.db.receipts, r.status = .running →
        r.id ∈ (s.procs p).admitted →
        ∃ j task, (s.procs p).active r.conversation = some j ∧ s.tasks[j]? = some task ∧
          task.turn.id = r.id ∧ task.phase.live = true := by
  intro h
  have hrows : (run id initialSystem
      (.startConversation 1 ⟨1, "g", "a"⟩ :: sendActs 0 0 1 "k" "hi" 10 ++ [.start 0 false])).map
      (fun s => (s.db.receipts, s.calls, (s.procs 0).admitted, (s.procs 0).active 1)) =
      some ([⟨10, 1, ⟨1, "g", "a"⟩, "k", .running, "hi", 1, none⟩],
        [⟨0, true, .send 1 "k" "hi" none, .raised .modelFactory⟩], [10], none) := by
    decide
  obtain ⟨s, hs, hparts⟩ := Option.map_eq_some_iff.mp hrows
  obtain ⟨hreceipts, hparts⟩ := Prod.mk.inj hparts
  obtain ⟨hcalls, hparts⟩ := Prod.mk.inj hparts
  obtain ⟨hadmitted, hactive⟩ := Prod.mk.inj hparts
  have hquiet : Quiet s 0 := by
    intro call hcall _
    rw [hcalls] at hcall
    rw [List.mem_singleton.mp hcall]
    rfl
  obtain ⟨j, task, hentry, -⟩ := h _ s hs 0 hquiet ⟨10, 1, ⟨1, "g", "a"⟩, "k", .running, "hi", 1,
    none⟩
    (by rw [hreceipts]; exact List.mem_singleton_self _) rfl
    (by rw [hadmitted]; exact List.mem_singleton_self _)
  rw [hactive] at hentry
  cases hentry

end Grafy.Agents
