import Grafy.Transactions
import Grafy.UploadPromotion

/-!
The sweep against the clock. A row is deleted only after the time in which a receive may be
admitted, and the time that it then has to store its bytes, have both passed, so no store
comes after the object was deleted for that row.
-/
namespace Grafy.Uploads

open Inspection

variable {service : Service} {r : Reservation}

section Clock

/-- The upload and its calls, what time it is, and when each receive passed
`_require_pending`. -/
structure Timed where
  state : State
  clock : ℤ
  passed : ℕ → ℤ

def Timed.passing (t : Timed) (i : ℕ) (now : ℤ) : ℕ → ℤ :=
  match t.state.calls[i]? with
  | some (.receive _ .begun) => Function.update t.passed i now
  | _ => t.passed

/-- A step under a clock that never goes back, where a receive that stores its bytes does so
within the receive timeout of passing, and sweeps take the default age. -/
def Service.tick (service : Service) (t : Timed) : Act → Option Timed
  | .next i given => do
    let state ← service.step t.state (.next i given)
    if t.clock ≤ given.now ∧ given.now ≤ given.later ∧
        (t.state.object.isNone ∧ state.object.isSome →
          given.later ≤ t.passed i + service.config.uploadReceiveTimeout) then
      some ⟨state, given.later, t.passing i given.later⟩
    else none
  | .cleanup (some _) _ => none
  | act => do
    let state ← service.step t.state act
    some { t with state }

/-- The states that a run under the clock leads to. -/
def Service.Ticks (service : Service) : Timed → Timed → Prop :=
  Relation.ReflTransGen (fun t t' => ∃ act, service.tick t act = some t')

def Reservation.timed (r : Reservation) (passed : ℕ → ℤ) : Timed := ⟨r.state, r.createdAt, passed⟩

/-- No receive stores its bytes after this. -/
def Service.deadline (service : Service) (r : Reservation) : ℤ :=
  r.createdAt + service.config.uploadTargetTtl + service.config.uploadReceiveTimeout

end Clock

variable {passed' : ℤ} {u : Upload} {limit : ℕ}

section Statements

variable {s s' : State} {given : Given} {clock clock' passed : ℤ} {object object' : Option Bytes}
  {call call' : Call}

/-- What a call relies on for the deadline, given when it passed. -/
def CallTimely (service : Service) (r : Reservation) (clock passed : ℤ) (object : Option Bytes) :
    Call → Prop
  | .receive _ (.admitted _) => passed ≤ r.createdAt + service.config.uploadTargetTtl
  | .receive _ _ | .complete _ => True
  | .cleanup olderThan _ phase => olderThan = none ∧
    match phase with
    | .candidate record terminalBefore => record.createdAt = r.createdAt ∧
        terminalBefore - r.createdAt + service.deadline r ≤ clock
    | .deleting _ => service.deadline r < clock
    | .removing _ => service.deadline r < clock ∧ object = none
    | _ => True

theorem CallTimely.later (h : CallTimely service r clock passed object call)
    (hclock : clock ≤ clock')
    (hempty : service.deadline r < clock → object = none → object' = none) :
    CallTimely service r clock' passed object' call := by
  cases call with
  | receive stream phase => cases phase <;> exact h
  | complete phase => trivial
  | cleanup olderThan limit phase =>
    refine ⟨h.1, ?_⟩
    cases phase with
    | candidate record terminalBefore => exact ⟨h.2.1, h.2.2.trans hclock⟩
    | deleting terminal => exact lt_of_lt_of_le h.2 hclock
    | removing terminal => exact ⟨h.2.1.trans_le hclock, hempty h.2.1 h.2.2⟩
    | _ => trivial

theorem failed_timely (h : CallTimely service r clock passed object call)
    (hfailed : Service.failed call = some call') :
    CallTimely service r clock' passed' object' call' := by
  cases call with
  | receive stream phase | complete phase => cases phase <;> cases hfailed <;> trivial
  | cleanup olderThan limit phase => cases phase <;> cases hfailed <;> exact ⟨h.1, trivial⟩

theorem lost_timely (h : CallTimely service r clock passed object call) :
    CallTimely service r clock passed object (Service.lostCall call) := by
  cases call with
  | cleanup olderThan limit phase => exact ⟨h.1, trivial⟩
  | _ => trivial

theorem createdAt_eq {row : Option Upload} {artifacts : List ArtifactObject}
    (h : Standing service r row object artifacts) (hrow : row = some u) :
    u.createdAt = r.createdAt := by
  cases h <;> cases hrow <;> rfl

/-- A sweep goes on to delete only what the deadline has passed for. -/
theorem sweep_timely {terminalBefore : ℤ} (hcreated : u.createdAt = r.createdAt)
    (hbefore : terminalBefore - r.createdAt + service.deadline r ≤ clock) :
    CallTimely service r clock passed object
      (.cleanup none limit (Service.sweepTerminal u terminalBefore)) := by
  refine ⟨rfl, ?_⟩
  unfold Service.sweepTerminal
  split_ifs
  · trivial
  · trivial
  · change service.deadline r < clock
    omega

/-- What the next statement of a call does: the call still relies on what is so, a row goes
only after the deadline and with the object gone, and only an admitted receive stores. -/
structure Sweeps (service : Service) (r : Reservation) (s s' : State) (clock passed : ℤ)
    (call call' : Call) : Prop where
  timely : CallTimely service r clock passed s'.object call'
  removed : s'.row = none → s.row = none ∨ service.deadline r < clock ∧ s'.object = none
  emptied : s.object = none → s'.object ≠ none → ∃ stream record,
    call = .receive stream (.admitted record)

theorem Sweeps.of_read (h : CallTimely service r clock passed s.object call') :
    Sweeps service r s s clock passed call call' :=
  ⟨h, .inl, fun hnone hsome => absurd hnone hsome⟩

theorem receive_sweeps {stream : Bytes} {phase phase' : ReceivePhase}
    (h : Standing service r s.row s.object s.artifacts)
    (hnext : service.receiveNext s given stream phase = some (s', phase'))
    (hpassed : phase = .begun → passed = given.later) :
    Sweeps service r s s' given.later passed (.receive stream phase) (.receive stream phase') := by
  cases phase with
  | begun =>
    simp only [Service.receiveNext] at hnext
    split at hnext <;> cases hnext
    · refine .of_read ?_
      unfold Service.requirePending
      split
      · trivial
      · next record hrow =>
        split_ifs with hready hpending hpast hlate
        any_goals trivial
        have hcreated := createdAt_eq h hrow
        change passed ≤ r.createdAt + service.config.uploadTargetTtl
        rw [hpassed rfl, ← hcreated]
        exact not_lt.mp hlate
    · exact .of_read trivial
  | expiring record =>
    cases hnext
    exact ⟨trivial, fun hnone => .inl (Option.or_eq_none_iff.mp hnone).2,
      fun hnone hsome => absurd hnone hsome⟩
  | admitted record =>
    simp only [Service.receiveNext] at hnext
    split at hnext
    · cases hnext
      exact ⟨trivial, .inl, fun _ _ => ⟨_, _, rfl⟩⟩
    · split at hnext <;> cases hnext <;>
        exact ⟨trivial, .inl, fun _ _ => ⟨_, _, rfl⟩⟩
  | finished error | lost => cases hnext

/-- A completion leaves the object, and a row where there is one. -/
theorem complete_sweeps {phase phase' : CompletePhase}
    (hnext : service.completeNext s given phase = some (s', phase')) :
    s'.object = s.object ∧ (s'.row = none → s.row = none) := by
  cases phase with
  | begun | finalized result =>
    cases hnext
    exact ⟨rfl, id⟩
  | pending record =>
    simp only [Service.completeNext] at hnext
    split at hnext
    · cases hnext
      exact ⟨rfl, id⟩
    · split at hnext <;> cases hnext <;> exact ⟨rfl, id⟩
  | inspecting record declared =>
    simp only [Service.completeNext] at hnext
    split at hnext
    · cases hnext
      exact ⟨rfl, id⟩
    · split at hnext
      · split at hnext <;> cases hnext <;> exact ⟨rfl, id⟩
      · cases hnext
  | inspected record inspection =>
    simp only [Service.completeNext] at hnext
    split at hnext
    · cases hnext
      exact ⟨rfl, fun hnone => by cases hnone⟩
    · cases hnext
      exact ⟨rfl, id⟩
  | failing record status error =>
    cases hnext
    exact ⟨rfl, fun hnone => (Option.or_eq_none_iff.mp hnone).2⟩
  | finished result | lost => cases hnext

theorem cleanup_sweeps {olderThan : Option ℤ} {phase phase' : CleanupPhase}
    (h : Standing service r s.row s.object s.artifacts)
    (htimely : CallTimely service r given.now passed s.object (.cleanup olderThan limit phase))
    (hclock : given.now ≤ given.later)
    (hnext : service.cleanupNext s given olderThan limit phase = some (s', phase')) :
    Sweeps service r s s' given.later passed (.cleanup olderThan limit phase)
      (.cleanup olderThan limit phase') := by
  obtain ⟨rfl, hrelies⟩ := htimely
  cases phase with
  | begun =>
    simp only [Service.cleanupNext] at hnext
    split at hnext <;> cases hnext
    · exact .of_read ⟨rfl, trivial⟩
    · next hlisted =>
      have hcreated := createdAt_eq h (listed_row hlisted).1
      refine .of_read ⟨rfl, hcreated, ?_⟩
      unfold Service.deadline
      omega
  | candidate record terminalBefore =>
    simp only [Service.cleanupNext] at hnext
    obtain ⟨hcreated, hbefore⟩ := hrelies
    have hbefore := hbefore.trans hclock
    split at hnext
    · split at hnext <;> cases hnext
      · exact .of_read ⟨rfl, trivial⟩
      · next marked hmarked =>
        obtain ⟨u, hu, rfl⟩ := Option.map_eq_some_iff.mp hmarked
        have hcreated := createdAt_eq h (Option.filter_eq_some_iff.mp hu).1
        exact ⟨sweep_timely hcreated hbefore,
          fun hnone => (by cases hnone), fun hnone hsome => absurd hnone hsome⟩
    · cases hnext
      exact .of_read (sweep_timely hcreated hbefore)
  | deleting terminal =>
    cases hnext
    exact ⟨⟨rfl, lt_of_lt_of_le hrelies hclock, rfl⟩, .inl, fun _ hsome => absurd rfl hsome⟩
  | removing terminal =>
    cases hnext
    exact ⟨⟨rfl, trivial⟩, fun _ => .inr ⟨lt_of_lt_of_le hrelies.1 hclock, hrelies.2⟩,
      fun hnone hsome => absurd hnone hsome⟩
  | finished discarded | lost => cases hnext

theorem call_sweeps (h : Standing service r s.row s.object s.artifacts)
    (htimely : CallTimely service r given.now passed s.object call)
    (hclock : given.now ≤ given.later) (hnext : service.callNext s given call = some (s', call'))
    (hpassed : (∃ stream, call = .receive stream .begun) → passed' = given.later) :
    Sweeps service r s s' given.later passed' call call' := by
  cases call with
  | receive stream phase =>
    obtain ⟨⟨_, phase'⟩, hphase, hcall⟩ := Option.map_eq_some_iff.mp hnext
    cases hcall
    exact receive_sweeps h hphase (fun hbegun => hpassed ⟨stream, by rw [hbegun]⟩)
  | complete phase =>
    obtain ⟨⟨_, phase'⟩, hphase, hcall⟩ := Option.map_eq_some_iff.mp hnext
    cases hcall
    obtain ⟨hobject, hrow⟩ := complete_sweeps hphase
    exact ⟨trivial, fun hnone => .inl (hrow hnone),
      fun hnone hsome => absurd (hobject.trans hnone) hsome⟩
  | cleanup olderThan limit phase =>
    obtain ⟨⟨_, phase'⟩, hphase, hcall⟩ := Option.map_eq_some_iff.mp hnext
    cases hcall
    exact cleanup_sweeps h htimely hclock hphase

end Statements

variable {i : ℕ}

section Runs

variable {t t' : Timed}

/-- The row is gone only with the object, and after the deadline. -/
structure Swept (service : Service) (r : Reservation) (t : Timed) : Prop where
  kept : Kept service r t.state
  calls : ∀ i call, t.state.calls[i]? = some call →
    CallTimely service r t.clock (t.passed i) t.state.object call
  removed : t.state.row = none → service.deadline r < t.clock ∧ t.state.object = none

theorem Timed.passing_of_ne (t : Timed) {j : ℕ} (now : ℤ) (h : j ≠ i) :
    t.passing i now j = t.passed j := by
  have heq : t.passing i now = Function.update t.passed i now ∨ t.passing i now = t.passed := by
    unfold Timed.passing
    split
    · exact .inl rfl
    · exact .inr rfl
  rcases heq with heq | heq <;> rw [heq]
  exact Function.update_of_ne h _ _

/-- The calls of a state in which one call has moved. -/
theorem set_timely {calls : List Call} {call' : Call} {P : ℕ → Call → Prop}
    (h : ∀ j call, calls[j]? = some call → j ≠ i → P j call) (hmoved : P i call') :
    ∀ j call, (calls.set i call')[j]? = some call → P j call := by
  intro j call hget
  rw [List.getElem?_set] at hget
  split at hget
  · next hsame =>
    subst hsame
    split at hget
    · cases hget
      exact hmoved
    · cases hget
  · next hne => exact h j call hget (Ne.symm hne)

theorem Swept.begin (h : Swept service r t) {call : Call}
    (htimely : ∀ passed, CallTimely service r t.clock passed t.state.object call)
    (hkept : Kept service r { t.state with calls := t.state.calls ++ [call] }) :
    Swept service r { t with state := { t.state with calls := t.state.calls ++ [call] } } := by
  refine ⟨hkept, fun i c hget => ?_, h.removed⟩
  rcases Transactions.getElem?_concat hget with hold | rfl
  · exact h.calls i c hold
  · exact htimely _

/-- A statement of call `i`, at a later time. -/
theorem Swept.goes (h : Swept service r t) {given : Given} {call call' : Call} {s : State}
    (hget : t.state.calls[i]? = some call) (hclock : t.clock ≤ given.later)
    (hmoves : Sweeps service r t.state s given.later (t.passing i given.later i) call call')
    (hkept : Kept service r { s with calls := t.state.calls.set i call' })
    (hintime : t.state.object.isNone ∧ s.object.isSome → given.later ≤ t.passed i +
      service.config.uploadReceiveTimeout) :
    Swept service r ⟨{ s with calls := t.state.calls.set i call' }, given.later,
      t.passing i given.later⟩ := by
  have hempty : service.deadline r < given.later → t.state.object = none → s.object = none := by
    intro hpast hnone
    by_contra hsome
    obtain ⟨stream, record, rfl⟩ := hmoves.emptied hnone hsome
    have hpassed : t.passed i ≤ r.createdAt + service.config.uploadTargetTtl := h.calls i _ hget
    have hstored := hintime ⟨by rw [hnone]; rfl, Option.isSome_iff_ne_none.mpr hsome⟩
    unfold Service.deadline at hpast
    omega
  refine ⟨hkept, set_timely (fun j c hold hne => ?_) hmoves.timely, fun hnone => ?_⟩
  · change CallTimely service r given.later (t.passing i given.later j) s.object c
    rw [t.passing_of_ne _ hne]
    exact (h.calls j c hold).later hclock fun hpast => hempty (hpast.trans_le hclock)
  · rcases hmoves.removed hnone with hbefore | hnow
    · obtain ⟨hpast, hobject⟩ := h.removed hbefore
      exact ⟨hpast.trans_le hclock, hempty (hpast.trans_le hclock) hobject⟩
    · exact hnow

theorem tick_step {act : Act} (htick : service.tick t act = some t') :
    service.step t.state act = some t'.state := by
  cases act with
  | cleanup olderThan limit =>
    cases olderThan with
    | some age => cases htick
    | none =>
      cases htick
      rfl
  | lose i =>
    obtain ⟨state, hstep, hdone⟩ := Option.bind_eq_some_iff.mp htick
    cases hdone
    exact hstep
  | next i given =>
    obtain ⟨state, hstep, hdone⟩ := Option.bind_eq_some_iff.mp htick
    split at hdone
    · cases hdone
      exact hstep
    · cases hdone
  | _ =>
    cases htick
    rfl

theorem tick_swept {act : Act} (htick : service.tick t act = some t') (h : Swept service r t) :
    Swept service r t' := by
  have hkept := (step_kept (tick_step htick) h.kept).1
  cases act with
  | receive stream | complete =>
    cases htick
    exact h.begin (fun _ => trivial) hkept
  | cleanup olderThan limit =>
    cases olderThan with
    | some age => cases htick
    | none =>
      cases htick
      exact h.begin (fun _ => ⟨rfl, trivial⟩) hkept
  | lose i =>
    obtain ⟨state, hstep, hdone⟩ := Option.bind_eq_some_iff.mp htick
    obtain ⟨call, hget, hlost⟩ := Option.bind_eq_some_iff.mp hstep
    cases hlost
    cases hdone
    exact ⟨hkept, set_timely (fun j c hold _ => h.calls j c hold)
      (lost_timely (h.calls i call hget)), h.removed⟩
  | next i given =>
    obtain ⟨state, hstep, hdone⟩ := Option.bind_eq_some_iff.mp htick
    obtain ⟨call, hget, hnext⟩ := Option.bind_eq_some_iff.mp hstep
    split at hdone
    · next hgiven =>
      obtain ⟨hnow, hlater, hintime⟩ := hgiven
      cases hdone
      have htimely := (h.calls i call hget).later hnow (fun _ hnone => hnone)
      split at hnext
      · obtain ⟨call', hfailed, hset⟩ := Option.bind_eq_some_iff.mp hnext
        cases hset
        exact h.goes hget (hnow.trans hlater)
          (.of_read (failed_timely htimely hfailed)) hkept hintime
      · obtain ⟨⟨s, call'⟩, hcall, hset⟩ := Option.bind_eq_some_iff.mp hnext
        cases hset
        refine h.goes hget (hnow.trans hlater) (call_sweeps h.kept.standing htimely hlater hcall ?_)
          hkept hintime
        rintro ⟨stream, rfl⟩
        unfold Timed.passing
        rw [hget]
        exact Function.update_self _ _ _
    · cases hdone

theorem ticks_runs (hticks : service.Ticks t t') : service.Runs t.state t'.state := by
  induction hticks with
  | refl => exact .refl
  | tail _ hstep ih =>
    obtain ⟨act, htick⟩ := hstep
    exact ih.tail ⟨act, tick_step htick⟩

theorem ticks_swept (h : Swept service r t) (hticks : service.Ticks t t') : Swept service r t' := by
  induction hticks with
  | refl => exact h
  | tail _ hstep ih =>
    obtain ⟨act, htick⟩ := hstep
    exact tick_swept htick ih

/-- Over every run under the clock from the reservation of an upload, in which receives store
their bytes in time and sweeps take the default age: once the row is deleted there is no
object, then or later. -/
theorem swept_leaves_no_object (service : Service) (r : Reservation) {passed : ℕ → ℤ} {t : Timed}
    (h : service.Ticks (r.timed passed) t) (hrow : t.state.row = none) :
    t.state.object = none ∧ ∀ t', service.Ticks t t' → t'.state.object = none := by
  have hswept : Swept service r t := ticks_swept ⟨reserved_kept, fun _ _ hget => (by cases hget),
    fun hnone => (by cases hnone)⟩ h
  refine ⟨(hswept.removed hrow).2, fun t' hticks => ?_⟩
  have hswept' := ticks_swept hswept hticks
  exact (hswept'.removed ((runs_kept (ticks_runs hticks) hswept.kept).2.removed hrow)).2

/-- A completion finds nothing stored and fails the upload; the receive that has passed at the
last moment stores its bytes at the last moment; a sweep follows. -/
def lateActs : List Act :=
  let at_ (now : ℤ) : Given := { given "" with now, later := now }
  [.receive [97], .complete, .next 0 (at_ 900), .next 1 (at_ 900), .next 1 (at_ 900),
    .next 1 (at_ 900), .next 0 (at_ 2700), .cleanup none 500, .next 2 (at_ 2701),
    .next 2 (at_ 2701), .next 2 (at_ 2701), .next 2 (at_ 2701)]

theorem lateReceive_swept : ∃ t, blobService.Ticks (letterUpload.timed fun _ => 0) t ∧
    t.state.row = none ∧ t.state.object = none := by
  have hrun : (lateActs.foldlM blobService.tick (letterUpload.timed fun _ => 0)).map
      (fun t => t.state.row) = some none := by
    decide
  obtain ⟨t, ht, hrow⟩ := Option.map_eq_some_iff.mp hrun
  have hticks : blobService.Ticks (letterUpload.timed fun _ => 0) t := runs_of_foldlM ht
  exact ⟨t, hticks, hrow, (swept_leaves_no_object blobService letterUpload hticks hrow).1⟩

end Runs

end Grafy.Uploads
