import Grafy.AgentSteps

/-!
The conversation log under the runtime. Whatever a step commits is one of the
effects on the log, and what the processes hold stays a copy of what is stored,
so the stored conversations keep their shape along every run.
-/
namespace Grafy.Agents

variable {digest : String → String} {s s' : System} {act : Act} {i : ℕ} {call : Call}
  {phase : Phase} {A : Type} {f : A → A} {phase' : Phase} {conversation p : ℕ}
  {clientTurnId text : String} {scope : Option Scope} {j : ℕ} {task : Task} {acts : List Act}

/-! What is held stays stored -/

theorem mem_modify {l : List A} {a : A} (h : a ∈ l.modify i f) :
    a ∈ l ∨ ∃ old, l[i]? = some old ∧ a = f old := by
  obtain ⟨k, hk⟩ := List.mem_iff_getElem?.mp h
  by_cases hik : i = k
  · subst hik
    rw [List.getElem?_modify_eq] at hk
    obtain ⟨old, hold, heq⟩ := Option.map_eq_some_iff.mp hk
    exact .inr ⟨old, hold, heq.symm⟩
  · rw [List.getElem?_modify_ne f l hik] at hk
    exact .inl (List.mem_of_getElem? hk)

/-- A change at one place that a reading does not see. -/
theorem map_modify_same {B : Type} {g : A → B} (h : ∀ a, g (f a) = g a) (l : List A) (j : ℕ) :
    (l.modify j f).map g = l.map g := by
  refine List.ext_getElem? ?_
  intro k
  rw [List.getElem?_map, List.getElem?_map, List.getElem?_modify]
  cases l[k]? with
  | none => rfl
  | some a =>
    by_cases hk : j = k
    · simp [hk, h]
    · simp [hk]

theorem turns_requestStop (s : System) (j : ℕ) (outcome : Outcome) :
    (s.requestStop j outcome).tasks.map Task.turn = s.tasks.map Task.turn :=
  map_modify_same (by intro t; rfl) _ _

theorem turns_setTask (s : System) (j : ℕ) (phase : TaskPhase) :
    (s.setTask j phase).tasks.map Task.turn = s.tasks.map Task.turn :=
  map_modify_same (by intro t; rfl) _ _

theorem turns_forgotten (s : System) (j : ℕ) (task : Task) :
    (s.forgotten j task).tasks.map Task.turn = s.tasks.map Task.turn :=
  map_modify_same (by intro t; rfl) _ _

theorem turns_started (s : System) (i p : ℕ) (turn : Receipt) :
    (s.started i p turn).tasks.map Task.turn = s.tasks.map Task.turn ++ [turn] :=
  List.map_append

/-- What no request to stop changes, the requests of a shutdown leave. -/
theorem foldl_requestStop {A : Type} (f : System → A)
    (hstop : ∀ t j, f (t.requestStop j .interrupted) = f t) (js : List ℕ) (t : System) :
    f (js.foldl (fun next j => next.requestStop j .interrupted) t) = f t := by
  induction js generalizing t with
  | nil => rfl
  | cons j js ih => exact (ih _).trans (hstop t j)

theorem turns_beginCall (s : System) (p : ℕ) (permitted : Bool) (request : Request) :
    (beginCall s p permitted request).tasks.map Task.turn = s.tasks.map Task.turn := by
  cases request with
  | close =>
    exact foldl_requestStop (fun t => t.tasks.map Task.turn)
      (fun t j => turns_requestStop t j _) _ s
  | _ => rfl

theorem turns_crashProcess (s : System) (p : ℕ) :
    (crashProcess s p).tasks.map Task.turn = s.tasks.map Task.turn := by
  unfold crashProcess
  rw [List.map_map]
  refine List.map_congr_left ?_
  intro task _
  simp only [Function.comp_apply]
  split <;> rfl

/-- A step that keeps what is held: the rows only grow, and every task and call is an old
one or holds a copy of its own. -/
theorem Held.keep (h : Held digest s) (hgrown : Grown s.db s'.db)
    (hturns : ∀ turn ∈ s'.tasks.map Task.turn, turn ∈ s.tasks.map Task.turn ∨ Copy s'.db turn)
    (hcalls : ∀ call ∈ s'.calls,
      call ∈ s.calls ∨ (call.phase.Holds s'.db ∧ call.Fits digest)) : Held digest s' := by
  refine ⟨?_, ?_, ?_⟩
  · intro task htask
    rcases hturns task.turn (List.mem_map_of_mem htask) with hold | hnew
    · obtain ⟨old, hold, hturn⟩ := List.mem_map.mp hold
      rw [← hturn]
      exact hgrown.copy _ (h.tasks old hold)
    · exact hnew
  · intro call hcall
    rcases hcalls call hcall with hold | ⟨hnew, -⟩
    · exact (h.calls call hold).mono hgrown
    · exact hnew
  · intro call hcall
    rcases hcalls call hcall with hold | ⟨-, hnew⟩
    · exact h.fits call hold
    · exact hnew

/-- One call moved to another phase, over rows that only grew. -/
theorem Held.setCall (h : Held digest s) (hcall : s.calls[i]? = some call)
    (hgrown : Grown s.db s'.db)
    (hturns : ∀ turn ∈ s'.tasks.map Task.turn, turn ∈ s.tasks.map Task.turn ∨ Copy s'.db turn)
    (hcalls : s'.calls = (s.setCall i phase).calls) (hphase : phase.Holds s'.db)
    (hfits : Call.Fits digest { call with phase }) : Held digest s' := by
  refine h.keep hgrown hturns ?_
  intro moved hmoved
  rw [hcalls] at hmoved
  rcases mem_modify hmoved with hmoved | ⟨old, hold, rfl⟩
  · exact .inl hmoved
  · rw [hcall] at hold
    cases hold
    exact .inr ⟨hphase, hfits⟩

theorem SendMove.holds {phase : Phase}
    (h : SendMove digest s act p conversation clientTurnId text scope phase phase')
    (hholds : phase.Holds s.db) : phase'.Holds s.db := by
  cases h with
  | replayed hfound _ =>
    rintro r ⟨⟩
    exact .of_mem (receiptByClient?_mem hfound).1
  | locked hfound _ => exact .of_mem hfound
  | unseen _ | free _ => exact hholds
  | _ => trivial

theorem SendMove.fits
    (h : SendMove digest s act p conversation clientTurnId text scope phase phase')
    (hrequest : call.request = .send conversation clientTurnId text scope)
    (hphase : call.phase = phase) (hfits : call.Fits digest) :
    Call.Fits digest { call with phase := phase' } := by
  cases h with
  | locked _ hid => simpa [Call.Fits, hrequest] using hid
  | unseen _ | free _ => simpa [Call.Fits, hrequest, hphase] using hfits
  | _ => simp [Call.Fits, hrequest]

theorem CallStep.held (hlog : LogOk s.db) (h : Held digest s) (hcall : s.calls[i]? = some call)
    (hstep : CallStep digest s i call act s') : Held digest s' := by
  have hmem := List.mem_of_getElem? hcall
  cases hstep with
  | sent hrequest hmove =>
    exact h.setCall hcall (.refl _) (fun _ => .inl) rfl
      (hmove.holds (h.calls call hmem)) (hmove.fits hrequest rfl (h.fits call hmem))
  | @admitted conversation clientTurnId text scope turn found written receipt hrequest _ _ hfound
      hid hadmitted =>
    obtain ⟨heffect, hstored, -, hconv, hclient, -, hdigest, -⟩ :=
      admitTurn_ok hlog hfound hadmitted
    have hfits : Call.Fits digest { call with phase := .sendAdmitted receipt } := by
      simp only [Call.Fits, hrequest]
      exact ⟨hconv.trans hid, hclient, hdigest⟩
    exact h.setCall hcall heffect.grown (fun _ => .inl) rfl (.of_mem hstored) hfits
  | factory hphase _ =>
    exact h.setCall hcall (.refl _) (fun _ => .inl) rfl trivial (Call.fits_over rfl)
  | @started turn k hphase _ =>
    have hturn := h.calls call hmem
    rw [hphase] at hturn
    have hfits : Call.Fits digest { call with phase := .returned (some turn) } := Call.fits_over rfl
    refine h.setCall hcall (.refl _) ?_ rfl ?_ hfits
    · intro r hr
      rw [turns_started] at hr
      rcases mem_snoc.mp hr with hr | rfl
      · exact .inl hr
      · exact .inr hturn
    · rintro r ⟨⟩
      exact hturn
  | closed _ _ =>
    exact h.setCall hcall (.refl _) (fun _ => .inl) rfl (by rintro r ⟨⟩) (Call.fits_over rfl)
  | other _ _ hholds hfits => exact h.setCall hcall (.refl _) (fun _ => .inl) rfl hholds hfits
  | stopped _ _ hturn hfits =>
    refine h.setCall hcall (.refl _) ?_ rfl hturn hfits
    intro r hr
    rw [turns_requestStop] at hr
    exact .inl hr
  | orphan _ _ hturn hclose hholds hfits =>
    obtain ⟨heffect, -⟩ : Effect digest s.db _ ∧ _ :=
      recordOutcome_ok hlog (hturn.conversation hlog) hclose
    exact h.setCall hcall heffect.grown (fun _ => .inl) rfl hholds hfits

theorem TaskStep.held (hlog : LogOk s.db) (h : Held digest s) (htask : s.tasks[j]? = some task)
    (hstep : TaskStep s j task act s') : Held digest s' := by
  have hturn := h.tasks task (List.mem_of_getElem? htask)
  have hkept (phase : TaskPhase) : ∀ turn ∈ (s.setTask j phase).tasks.map Task.turn,
      turn ∈ s.tasks.map Task.turn := by
    intro turn hturn
    rwa [turns_setTask] at hturn
  have hset (phase : TaskPhase) : Held digest (s.setTask j phase) :=
    h.keep (.refl _) (fun turn hturn => .inl (hkept phase turn hturn)) (fun _ => .inl)
  cases hstep with
  | ends _ _ | late _ _ | failed _ _ _ | killed _ _ => exact hset _
  | recorded _ hrecord =>
    obtain ⟨heffect, -⟩ : Effect digest s.db _ ∧ _ :=
      recordOutcome_ok hlog (hturn.conversation hlog) hrecord
    exact h.keep heffect.grown (fun turn hturn => .inl (hkept _ turn hturn)) (fun _ => .inl)
  | forgets _ _ =>
    refine h.keep (.refl _) ?_ (fun _ => .inl)
    intro r hr
    rw [turns_forgotten] at hr
    exact .inl hr

theorem beginCall_db (s : System) (p : ℕ) (permitted : Bool) (request : Request) :
    (beginCall s p permitted request).db = s.db := by
  cases request with
  | close => exact foldl_requestStop System.db (fun _ _ => rfl) _ s
  | _ => rfl

theorem beginCall_calls (digest : String → String) (s : System) (p : ℕ) (permitted : Bool)
    (request : Request) :
    ∃ phase, (beginCall s p permitted request).calls = s.calls ++ [⟨p, permitted, request, phase⟩] ∧
      phase.Holds s.db ∧ Call.Fits digest ⟨p, permitted, request, phase⟩ := by
  cases request with
  | send conversation clientTurnId text scope =>
    refine ⟨_, rfl, ?_, ?_⟩
    · split_ifs <;> trivial
    · split_ifs <;> trivial
  | cancel conversation turn scope =>
    refine ⟨_, rfl, ?_, ?_⟩
    · split_ifs <;> trivial
    · split_ifs <;> trivial
  | _ => exact ⟨_, rfl, trivial, trivial⟩

theorem beginCall_held (h : Held digest s) (p : ℕ) (permitted : Bool) (request : Request) :
    Held digest (beginCall s p permitted request) := by
  obtain ⟨phase, hcalls, hholds, hfits⟩ := beginCall_calls digest s p permitted request
  refine h.keep ?_ ?_ ?_
  · rw [beginCall_db]
    exact .refl _
  · intro r hr
    rw [turns_beginCall] at hr
    exact .inl hr
  · intro call hcall
    rw [hcalls] at hcall
    rcases mem_snoc.mp hcall with hcall | rfl
    · exact .inl hcall
    · rw [beginCall_db]
      exact .inr ⟨hholds, hfits⟩

theorem crashProcess_held (h : Held digest s) (p : ℕ) : Held digest (crashProcess s p) := by
  refine h.keep (.refl _) ?_ ?_
  · intro r hr
    rw [turns_crashProcess] at hr
    exact .inl hr
  · intro call hcall
    obtain ⟨old, hold, rfl⟩ := List.mem_map.mp hcall
    split
    · exact .inr ⟨trivial, Call.fits_over rfl⟩
    · exact .inl hold

/-! The log along a run -/

/-- The rows are well formed, and what the processes hold is stored. -/
structure Sane (digest : String → String) (s : System) : Prop where
  log : LogOk s.db
  held : Held digest s

theorem sane_initialSystem : Sane digest initialSystem := by
  refine ⟨logOk_empty, ?_, ?_, ?_⟩
  · intro task htask
    cases htask
  · intro call hcall
    cases hcall
  · intro call hcall
    cases hcall

theorem CallStep.effect (h : Sane digest s) (hstep : CallStep digest s i call act s') :
    s'.db = s.db ∨ Effect digest s.db s'.db := by
  cases hstep with
  | admitted _ _ _ hfound _ hadmitted => exact .inr (admitTurn_ok h.log hfound hadmitted).1
  | orphan _ _ hturn hclose _ _ =>
    obtain ⟨heffect, -⟩ : Effect digest s.db _ ∧ _ :=
      recordOutcome_ok h.log (hturn.conversation h.log) hclose
    exact .inr heffect
  | _ => exact .inl rfl

theorem TaskStep.effect (h : Sane digest s) (htask : s.tasks[j]? = some task)
    (hstep : TaskStep s j task act s') : s'.db = s.db ∨ Effect digest s.db s'.db := by
  cases hstep with
  | recorded _ hrecord =>
    have hturn := h.held.tasks task (List.mem_of_getElem? htask)
    obtain ⟨heffect, -⟩ : Effect digest s.db _ ∧ _ :=
      recordOutcome_ok h.log (hturn.conversation h.log) hrecord
    exact .inr heffect
  | _ => exact .inl rfl

/-- A step commits one effect, or nothing. -/
theorem Step.effect (h : Sane digest s) (hstep : Step digest s act s') :
    s'.db = s.db ∨ Effect digest s.db s'.db := by
  cases hstep with
  | idle _ | crashed _ => exact .inl rfl
  | wrote _ heffect _ => exact .inr heffect
  | called _ => exact .inl (beginCall_db _ _ _ _)
  | call _ _ hcallstep => exact hcallstep.effect h
  | task _ _ htask htaskstep => exact htaskstep.effect h htask

theorem Step.sane (h : Sane digest s) (hstep : Step digest s act s') : Sane digest s' := by
  refine ⟨?_, ?_⟩
  · rcases hstep.effect h with hdb | heffect
    · rw [hdb]
      exact h.log
    · exact h.log.effect heffect
  · cases hstep with
    | idle _ => exact h.held
    | wrote _ heffect _ =>
      exact h.held.keep heffect.grown (fun _ => .inl) (fun _ => .inl)
    | called _ => exact beginCall_held h.held _ _ _
    | crashed _ => exact crashProcess_held h.held _
    | call _ hcall hcallstep => exact hcallstep.held h.log h.held hcall
    | task _ _ htask htaskstep => exact htaskstep.held h.log h.held htask

/-- What holds at the start and is kept by the steps from sane states holds along runs. -/
theorem run_induction {P : System → Prop} (hsane : Sane digest s) (hstart : P s)
    (hkeep : ∀ t t' act, Sane digest t → P t → Step digest t act t' → P t')
    (hrun : run digest s acts = some s') : Sane digest s' ∧ P s' := by
  induction acts generalizing s with
  | nil =>
    cases hrun
    exact ⟨hsane, hstart⟩
  | cons act acts ih =>
    obtain ⟨next, hnext, hrest⟩ := Option.bind_eq_some_iff.mp hrun
    have hstep := step_cases hsane.log hsane.held hnext
    exact ih (hstep.sane hsane) (hkeep s next act hsane hstart hstep) hrest

theorem run_sane (h : Sane digest s) (hrun : run digest s acts = some s') : Sane digest s' :=
  (run_induction h trivial (fun _ _ _ _ _ _ => trivial) hrun).1

/-! Whole turns -/

section Turns

variable {db : Database} {events : List Event} {r : Receipt} {receipts : List Receipt}
  {c : Conversation}

def Payload.isOutcome : Payload → Bool
  | .turnOutcome _ _ => true
  | _ => false

/-- The events of a receipt in its own conversation. -/
def Database.turnEvents (db : Database) (r : Receipt) : List Event :=
  (db.eventsOf r.conversation).filter (fun e => e.turnId = r.id)

theorem filter_turn_nil {turn : ℕ} (h : ∀ e ∈ events, e.turnId ≠ turn) :
    events.filter (fun e => e.turnId = turn) = [] := by
  rw [List.filter_eq_nil_iff]
  intro e he hturn
  exact h e he (of_decide_eq_true hturn)

theorem Block.filter_turn {block : List Event} (h : Block r block) :
    block.filter (fun e => e.turnId = r.id) = block := by
  rw [List.filter_eq_self]
  intro e he
  exact decide_eq_true (h.mem_turnId he)

theorem Blocks.mem_turnId (h : Blocks receipts events) {e : Event} (he : e ∈ events) :
    ∃ r ∈ receipts, e.turnId = r.id := by
  induction h with
  | nil => cases he
  | @cons r receipts block rest hblock _ ih =>
    rcases List.mem_append.mp he with he | he
    · exact ⟨r, List.mem_cons_self, hblock.mem_turnId he⟩
    · obtain ⟨r', hr', hturn⟩ := ih he
      exact ⟨r', List.mem_cons_of_mem _ hr', hturn⟩

/-- Among the blocks of receipts with ids of their own, the events of one are its block. -/
theorem Blocks.filter_turn (h : Blocks receipts events) (hids : (receipts.map Receipt.id).Nodup)
    (hr : r ∈ receipts) : Block r (events.filter (fun e => e.turnId = r.id)) := by
  induction h with
  | nil => cases hr
  | @cons first receipts block rest hblock hblocks ih =>
    rw [List.map_cons, List.nodup_cons] at hids
    rw [List.filter_append]
    by_cases hfirst : r = first
    · subst hfirst
      have hrest : rest.filter (fun e => e.turnId = r.id) = [] := by
        refine filter_turn_nil ?_
        intro e he hturn
        obtain ⟨r', hr', hturn'⟩ := hblocks.mem_turnId he
        exact hids.1 (List.mem_map.mpr ⟨r', hr', hturn'.symm.trans hturn⟩)
      rw [hrest, List.append_nil, hblock.filter_turn]
      exact hblock
    · have hmem : r ∈ receipts := (List.mem_cons.mp hr).resolve_left hfirst
      have hblock' : block.filter (fun e => e.turnId = r.id) = [] := by
        refine filter_turn_nil ?_
        intro e he hturn
        have hsame : first.id = r.id := (hblock.mem_turnId he).symm.trans hturn
        exact hids.1 (List.mem_map.mpr ⟨r, hmem, hsame.symm⟩)
      rw [hblock', List.nil_append]
      exact ih hids.2 hmem

theorem LogOk.receiptsOf_nodup (h : LogOk db) (id : ℕ) :
    ((db.receiptsOf id).map Receipt.id).Nodup :=
  h.receipt_ids.sublist (List.filter_sublist.map Receipt.id)

theorem LogOk.block (h : LogOk db) (hr : r ∈ db.receipts) : Block r (db.turnEvents r) := by
  obtain ⟨c, hc, hid⟩ := h.receipt_conversation r hr
  obtain ⟨copied, own, hsplit, hblocks, hforeign, -, -⟩ := (h.conversations c hc).log
  have hmem : r ∈ db.receiptsOf c.id := mem_receiptsOf.mpr ⟨hr, hid.symm⟩
  have hcopied : copied.filter (fun e => e.turnId = r.id) = [] :=
    filter_turn_nil (fun e he => hforeign e he r hmem)
  rw [Database.turnEvents, ← hid, hsplit, List.filter_append, hcopied]
  exact hblocks.filter_turn (h.receiptsOf_nodup c.id) hmem

/-- The events of a terminal receipt hold one outcome, of its status. -/
theorem Block.outcome {block : List Event} (h : Block r block) (hstatus : r.status ≠ .running) :
    ∃ e outcome detail, block.filter (fun e => e.payload.isOutcome) = [e] ∧
      e.payload = .turnOutcome outcome detail ∧ r.status = outcome.status := by
  cases h with
  | pending hrunning _ _ => exact absurd hrunning hstatus
  | @closed user last text outcome detail _ huser _ hlast hsame =>
    refine ⟨last, outcome, detail, ?_, hlast, hsame⟩
    simp [huser, hlast, Payload.isOutcome]
  | @answered user answer last text reply outcome detail _ huser _ hanswer _ hlast hsame =>
    refine ⟨last, outcome, detail, ?_, hlast, hsame⟩
    simp [huser, hanswer, hlast, Payload.isOutcome]

theorem LogOk.running_unique (h : LogOk db) {r' : Receipt} (hr : r ∈ db.receipts)
    (hr' : r' ∈ db.receipts) (hconv : r.conversation = r'.conversation)
    (hstatus : r.status = .running) (hstatus' : r'.status = .running) : r = r' := by
  obtain ⟨before, hbefore, -⟩ := h.receiptsOf_running hr hstatus
  obtain ⟨before', hbefore', -⟩ := h.receiptsOf_running hr' hstatus'
  rw [hconv, hbefore'] at hbefore
  obtain ⟨-, hlast⟩ := List.append_inj' hbefore rfl
  exact (List.singleton_inj.mp hlast).symm

/-- The conversation's terminal receipts, and the running one if there is one. -/
theorem LogOk.receiptsOf_split (h : LogOk db) (id : ℕ) :
    (∀ r ∈ db.receiptsOf id, r.status ≠ .running) ∨
      ∃ ended r, db.receiptsOf id = ended ++ [r] ∧ r.status = .running ∧
        ∀ r' ∈ ended, r'.status ≠ .running := by
  by_cases hrunning : ∃ r ∈ db.receiptsOf id, r.status = .running
  · obtain ⟨r, hr, hstatus⟩ := hrunning
    obtain ⟨hmem, rfl⟩ := mem_receiptsOf.mp hr
    obtain ⟨ended, hended, -⟩ := h.receiptsOf_running hmem hstatus
    refine .inr ⟨ended, r, hended, hstatus, ?_⟩
    intro r' hr'
    refine h.running_last r.conversation r' ?_
    rw [hended, List.dropLast_concat]
    exact hr'
  · refine .inl ?_
    intro r hr hstatus
    exact hrunning ⟨r, hr, hstatus⟩

/-- In a conversation that was not forked: closed blocks, and one open block for the
receipt still running. -/
theorem LogOk.own_turns (h : LogOk db) (hc : c ∈ db.conversations) (hsource : c.source = none) :
    ∃ ended closed, (∀ r ∈ ended, r.status ≠ .running) ∧ Blocks ended closed ∧
      ((db.receiptsOf c.id = ended ∧ db.eventsOf c.id = closed) ∨
        ∃ r user text, r.status = .running ∧ db.receiptsOf c.id = ended ++ [r] ∧
          db.eventsOf c.id = closed ++ [user] ∧ user.turnId = r.id ∧
          user.payload = .userMessage text) := by
  obtain ⟨copied, own, hsplit, hblocks, -, hnone, -⟩ := (h.conversations c hc).log
  rw [hnone hsource, List.nil_append] at hsplit
  subst hsplit
  rcases h.receiptsOf_split c.id with hended | ⟨ended, r, hreceipts, hstatus, hended⟩
  · exact ⟨_, _, hended, hblocks, .inl ⟨rfl, rfl⟩⟩
  · rw [hreceipts] at hblocks
    obtain ⟨closed, block, hevents, hclosed, hblock⟩ := hblocks.split_last
    obtain ⟨user, text, rfl, hturn, hpayload⟩ := hblock.open_of_running hstatus
    exact ⟨ended, closed, hended, hclosed,
      .inr ⟨r, user, text, hstatus, hreceipts, hevents, hturn, hpayload⟩⟩

/-- A fork starts with what its source had said up to the sequence it was cut at. -/
theorem LogOk.fork_copies (h : LogOk db) (hc : c ∈ db.conversations) {source count : ℕ}
    (hsource : c.source = some (source, count)) :
    count ≤ (db.eventsOf c.id).length ∧
      ((db.eventsOf c.id).take count).map (fun e => (e.turnId, e.payload)) =
        ((db.eventsOf source).take count).map (fun e => (e.turnId, e.payload)) := by
  obtain ⟨copied, own, hsplit, -, -, -, hcopied⟩ := (h.conversations c hc).log
  obtain ⟨hlength, hentries⟩ := hcopied source count hsource
  refine ⟨?_, ?_⟩
  · rw [hsplit, List.length_append]
    omega
  · rw [hsplit, List.take_left' hlength]
    exact hentries

/-- The log of every conversation is a sequence of whole turns. -/
structure WholeTurns (db : Database) : Prop where
  sequences : ∀ c ∈ db.conversations,
    (db.eventsOf c.id).map Event.sequence = List.range' 1 (c.nextSequence - 1)
  own_turns : ∀ c ∈ db.conversations, c.source = none →
    ∃ ended closed, (∀ r ∈ ended, r.status ≠ .running) ∧ Blocks ended closed ∧
      ((db.receiptsOf c.id = ended ∧ db.eventsOf c.id = closed) ∨
        ∃ r user text, r.status = .running ∧ db.receiptsOf c.id = ended ++ [r] ∧
          db.eventsOf c.id = closed ++ [user] ∧ user.turnId = r.id ∧
          user.payload = .userMessage text)
  outcome : ∀ r ∈ db.receipts, r.status ≠ .running →
    ∃ e outcome detail, (db.turnEvents r).filter (fun e => e.payload.isOutcome) = [e] ∧
      e.payload = .turnOutcome outcome detail ∧ r.status = outcome.status
  running_unique : ∀ r ∈ db.receipts, ∀ r' ∈ db.receipts, r.conversation = r'.conversation →
    r.status = .running → r'.status = .running → r = r'
  fork_copies : ∀ c ∈ db.conversations, ∀ source count, c.source = some (source, count) →
    count ≤ (db.eventsOf c.id).length ∧
      ((db.eventsOf c.id).take count).map (fun e => (e.turnId, e.payload)) =
        ((db.eventsOf source).take count).map (fun e => (e.turnId, e.payload))

/-- In every run, of any number of processes, calls, tasks and crashes. -/
theorem run_wholeTurns {acts : List Act} (hrun : run digest initialSystem acts = some s) :
    WholeTurns s.db := by
  have hlog := (run_sane sane_initialSystem hrun).log
  exact
    { sequences := fun c hc => (hlog.conversations c hc).sequences
      own_turns := fun c hc hsource => hlog.own_turns hc hsource
      outcome := fun r hr hstatus => (hlog.block hr).outcome hstatus
      running_unique := fun r hr r' hr' hconv hstatus hstatus' =>
        hlog.running_unique hr hr' hconv hstatus hstatus'
      fork_copies := fun c hc source count hsource => hlog.fork_copies hc hsource }

/-- A send, the call with the number, up to the commit of its receipt. -/
def sendActs (process call conversation : ℕ) (clientTurnId text : String) (turn : ℕ) : List Act :=
  [.call process true (.send conversation clientTurnId text none), .lockConversation call,
    .readReceipt call, .checkActive call, .admitTurn call turn false]

/-- A turn that is answered while a second send is refused, and a turn left running. -/
def answeredTurn : List Act :=
  .startConversation 1 ⟨1, "g", "a"⟩ :: sendActs 0 0 1 "k" "hi" 10 ++
    [.start 0 true, .call 0 true (.send 1 "l" "ho" none), .lockConversation 1, .readReceipt 1,
      .checkActive 1, .streamEnds 0 (.completed "yes"), .record 0, .forget 0] ++
    sendActs 0 2 1 "l" "ho" 11

theorem answeredTurn_wholeTurns :
    ∃ s, run id initialSystem answeredTurn = some s ∧ s.db.events.length = 4 ∧ WholeTurns s.db := by
  have hlength : (run id initialSystem answeredTurn).map (fun s => s.db.events.length) =
    some 4 := by
    decide
  obtain ⟨s, hs, hevents⟩ := Option.map_eq_some_iff.mp hlength
  exact ⟨s, hs, hevents, run_wholeTurns hs⟩

end Turns

end Grafy.Agents
