import Grafy.RunService
import Grafy.SchedulerRuns

/-!
The finish of a Run is written once. At any time at most one call may still
write it: `start` until it has handed the Run to the watcher, the watcher, or a
cancel that found no watcher. This needs such a cancel to be alone: one that
finds no watcher because there is none yet, or none any more, writes a second
finish.
-/
namespace Grafy.RunService

open Scheduler

section Claims

/-- What a call may still do to the finish of the Run: nothing, write it, or
announce what it has written. -/
inductive Claim
  | idle
  | pending
  | unannounced
  deriving DecidableEq

def Claim.stands : Claim → Bool
  | .idle => false
  | _ => true

/-- The row and the announcements, with the claims of the calls upon them. -/
structure Board where
  row : Option Run
  announced : List Run
  claims : List Claim

/-- At most one call has a claim, and its claim is not out of date. -/
structure Board.Sound (board : Board) : Prop where
  one : board.claims.countP Claim.stands ≤ 1
  pending : .pending ∈ board.claims →
    (∀ run, board.row = some run → run.isActive = true) ∧ board.announced = []
  unannounced : .unannounced ∈ board.claims →
    (∀ run, board.row = some run → run.isActive = false) ∧ board.announced = []
  announced : board.announced ≠ [] → ∀ run, board.row = some run → run.isActive = false
  once : board.announced.length ≤ 1

/-- What one step of one call does to the board. -/
inductive Change : Board → Board → Prop
  | keep (row : Option Run) (announced : List Run) (before after : List Claim) {c c' : Claim}
      (h : c' = c ∨ c' = .idle) :
      Change ⟨row, announced, before ++ c :: after⟩ ⟨row, announced, before ++ c' :: after⟩
  | call (row : Option Run) (announced : List Run) (claims : List Claim) :
      Change ⟨row, announced, claims⟩ ⟨row, announced, claims ++ [.idle]⟩
  | record (announced : List Run) (after : List Claim) {run : Run} (h : run.isActive = true) :
      Change ⟨none, announced, .pending :: after⟩ ⟨some run, announced, .pending :: after⟩
  | handOver (row : Option Run) (announced : List Run) (after : List Claim) :
      Change ⟨row, announced, .pending :: .idle :: after⟩
        ⟨row, announced, .idle :: .pending :: after⟩
  | take (announced : List Run) {before after : List Claim} {run : Run} (h : run.isActive = true)
      (hbefore : ∀ d ∈ before, d = .idle) (hafter : ∀ d ∈ after, d = .idle) :
      Change ⟨some run, announced, before ++ .idle :: after⟩
        ⟨some run, announced, before ++ .pending :: after⟩
  | save (row : Option Run) (announced : List Run) (before after : List Claim) (run : FinishedRun) :
      Change ⟨row, announced, before ++ .pending :: after⟩
        ⟨row.map (fun _ => run.toRun), announced, before ++ .unannounced :: after⟩
  | announce (row : Option Run) (announced : List Run) (before after : List Claim)
      (run : FinishedRun) :
      Change ⟨row, announced, before ++ .unannounced :: after⟩
        ⟨row, run.toRun :: announced, before ++ .idle :: after⟩

variable {board' board : Board}

theorem Change.row_kept (h : Change board board') (hsound : board.Sound) {run : Run}
    (hrow : board.row = some run) (hfinished : run.isActive = false) : board'.row = some run := by
  cases h with
  | record => simp at hrow
  | save =>
    have hactive := (hsound.pending (by simp)).1 run hrow
    simp [hfinished] at hactive
  | _ => exact hrow

variable {c : Claim}

theorem stands_iff : c.stands = true ↔ c ≠ .idle := by
  cases c <;> simp [Claim.stands]

variable {after before : List Claim} {row : Option Run} {announced : List Run}

theorem others_idle (hc : c ≠ .idle) (h : (before ++ c :: after).countP Claim.stands ≤ 1) :
    ∀ d ∈ before ++ after, d = .idle := by
  have hnone : (before ++ after).countP Claim.stands = 0 := by
    rw [List.countP_append, List.countP_cons, if_pos (stands_iff.mpr hc)] at h
    rw [List.countP_append]
    omega
  intro d hd
  by_contra hne
  exact List.countP_eq_zero.mp hnone d hd (stands_iff.mpr hne)

/-- The board where one call alone may have a claim. -/
theorem Board.Sound.of_alone (hothers : ∀ d ∈ before ++ after, d = .idle)
    (hpending : c = .pending → (∀ run, row = some run → run.isActive = true) ∧ announced = [])
    (hunannounced : c = .unannounced → (∀ run, row = some run → run.isActive = false) ∧ announced =
      []) (hannounced : announced ≠ [] → ∀ run, row = some run → run.isActive = false)
    (honce : announced.length ≤ 1) : Board.Sound ⟨row, announced, before ++ c :: after⟩ := by
  have hmem : ∀ d ∈ before ++ c :: after, d ≠ .idle → c = d := by
    intro d hd hne
    by_contra hcd
    refine hne (hothers d ?_)
    simp only [List.mem_append, List.mem_cons] at hd ⊢
    rcases hd with hd | rfl | hd
    · exact Or.inl hd
    · exact absurd rfl hcd
    · exact Or.inr hd
  refine ⟨?_, fun h => hpending (hmem _ h (by simp)), fun h => hunannounced (hmem _ h (by simp)),
    hannounced, honce⟩
  have hnone : (before ++ after).countP Claim.stands = 0 :=
    List.countP_eq_zero.mpr (fun d hd => by simp [hothers d hd, Claim.stands])
  rw [List.countP_append] at hnone
  rw [List.countP_append, List.countP_cons]
  split_ifs <;> omega

/-- A call without a claim changes nothing about the others. -/
theorem Board.Sound.drop (h : Board.Sound ⟨row, announced, before ++ c :: after⟩) :
    Board.Sound ⟨row, announced, before ++ .idle :: after⟩ := by
  have hmem : ∀ d, d ≠ Claim.idle → d ∈ before ++ .idle :: after → d ∈ before ++ c :: after := by
    intro d hne hd
    simp only [List.mem_append, List.mem_cons, hne, false_or] at hd ⊢
    exact hd.imp_right Or.inr
  refine ⟨?_, fun hd => h.pending (hmem _ (by simp) hd),
    fun hd => h.unannounced (hmem _ (by simp) hd), h.announced, h.once⟩
  have hone := h.one
  rw [List.countP_append, List.countP_cons] at hone
  rw [List.countP_append, List.countP_cons, if_neg (by simp [Claim.stands])]
  omega

theorem Change.sound (h : Change board board') (hsound : board.Sound) : board'.Sound := by
  cases h with
  | keep row announced before after hc =>
    rcases hc with rfl | rfl
    · exact hsound
    · exact hsound.drop
  | call row announced claims =>
    refine ⟨?_, fun hmem => hsound.pending ?_, fun hmem => hsound.unannounced ?_, hsound.announced,
      hsound.once⟩
    · simpa [List.countP_append, Claim.stands] using hsound.one
    · simpa using hmem
    · simpa using hmem
  | record announced after hactive =>
    have hothers : ∀ d ∈ [] ++ after, d = .idle := others_idle (by simp) hsound.one
    obtain ⟨-, hnone⟩ := hsound.pending (by simp)
    refine .of_alone hothers (fun _ => ⟨?_, hnone⟩) (by simp) (absurd hnone) hsound.once
    rintro run ⟨⟩
    exact hactive
  | handOver row announced after =>
    have hothers : ∀ d ∈ [] ++ .idle :: after, d = .idle := others_idle (by simp) hsound.one
    have hpending := hsound.pending (by simp)
    have hmoved : ∀ d ∈ [Claim.idle] ++ after, d = .idle := hothers
    exact .of_alone hmoved (fun _ => hpending) (by simp) hsound.announced hsound.once
  | take announced hactive hbefore hafter =>
    have hothers := List.forall_mem_append.mpr ⟨hbefore, hafter⟩
    have hnone : announced = [] := by
      by_contra hne
      have hfinished := hsound.announced hne _ rfl
      simp [hactive] at hfinished
    refine .of_alone hothers (fun _ => ⟨?_, hnone⟩) (by simp) hsound.announced hsound.once
    rintro run ⟨⟩
    exact hactive
  | save row announced before after run =>
    have hothers := others_idle (by simp) hsound.one
    obtain ⟨-, hnone⟩ := hsound.pending (by simp)
    have hfinished : ∀ other, row.map (fun _ => run.toRun) = some other →
      other.isActive = false := by
      intro other hother
      obtain ⟨_, -, rfl⟩ := Option.map_eq_some_iff.mp hother
      exact run.finished
    exact .of_alone hothers (by simp) (fun _ => ⟨hfinished, hnone⟩) (fun _ => hfinished) hsound.once
  | announce row announced before after run =>
    have hothers := others_idle (by simp) hsound.one
    obtain ⟨hfinished, hnone⟩ := hsound.unannounced (by simp)
    refine .of_alone hothers (by simp) (by simp) (fun _ => hfinished) ?_
    simp [show announced = [] from hnone]

end Claims

section Finish

def Writing.claim : Writing → Claim
  | .saving _ => .pending
  | .saved _ => .unannounced
  | .announcing => .idle
  | .publishing => .idle

/-- Until it ends, `start` may finish the Run or leave that to a watcher. -/
def StartPoint.claim : StartPoint → Claim
  | .writing point => point.claim
  | .ended => .idle
  | _ => .pending

def WatchPoint.claim : WatchPoint → Claim
  | .waiting => .pending
  | .writing point => point.claim
  | _ => .idle

/-- A cancel that has found no watcher finishes the Run itself. -/
def CancelPoint.claim : CancelPoint → Claim
  | .withdrawing _ _ false => .pending
  | .writing point => point.claim
  | _ => .idle

def board (s : State) : Board :=
  ⟨s.row, s.announced, s.start.claim :: s.watch.claim :: s.cancels.map CancelPoint.claim⟩

/-- The cancel has read the Run as active and finds no watcher for it. -/
def findsUnwatched (s : State) (i : ℕ) : Bool :=
  match s.cancels[i]? with
  | some (.read (some copy)) => copy.isActive && !s.watched
  | _ => false

/-- A cancel that finds no watcher is alone: `start` has ended, the Run is
still active and no other cancel is finishing it. -/
def Unrivalled (s : State) : Action → Prop
  | .cancelAdvances i _ => findsUnwatched s i = true → s.start = .ended ∧
    (∃ run, s.row = some run ∧ run.isActive = true) ∧ ∀ point ∈ s.cancels, point.claim = .idle
  | _ => True

/-- The watcher is known as long as it lives, and comes after `start`. -/
structure Attended (s : State) : Prop where
  watched : s.watched = false → s.watch = .absent ∨ s.watch = .ended
  handedOver : s.start = .ended ∨ s.watch = .absent
  recording : (s.start = .planning ∨ ∃ plan, s.start = .recording plan) →
    s.row = none ∧ s.run.isActive = true

theorem Writing.advance_change (s : State) (point : Writing) (before after : List Claim) :
    Change ⟨s.row, s.announced, before ++ point.claim :: after⟩
      ⟨(point.advance s).1.row, (point.advance s).1.announced,
        before ++ (point.advance s).2.elim .idle Writing.claim :: after⟩ := by
  cases point with
  | saving run => exact .save s.row s.announced before after run
  | saved run => exact .announce s.row s.announced before after run
  | announcing | publishing => exact .keep s.row s.announced before after (Or.inl rfl)

theorem Writing.advance_frame (s : State) (point : Writing) :
    ∃ row announced, (point.advance s).1 = { s with row := row, announced := announced } ∧
      (s.row = none → row = none) := by
  cases point with
  | saving run => exact ⟨_, _, rfl, fun h => by simp [h]⟩
  | _ => exact ⟨_, _, rfl, fun h => h⟩

variable {i : ℕ}

theorem exists_split_of_getElem? {A : Type} {l : List A} {a : A} (h : l[i]? = some a) :
    ∃ before after, l = before ++ a :: after ∧ ∀ b, l.set i b = before ++ b :: after := by
  obtain ⟨hlt, rfl⟩ := List.getElem?_eq_some_iff.mp h
  refine ⟨l.take i, l.drop (i + 1), ?_, ?_⟩
  · rw [List.getElem_cons_drop, List.take_append_drop]
  · intro b
    rw [List.set_eq_take_append_cons_drop, if_pos hlt]

section

variable (concurrency : ℕ) (store : Results.ResultStore) (runId : RunId) (s : State)

/-- The scheduler stays as it is or takes a step. -/
inductive Stepped (before : Option Scheduler.State) : Option Scheduler.State → Prop
  | kept : Stepped before before
  | step {t t' : Scheduler.State} {action : Scheduler.Action} (hbefore : before = some t)
      (hstep : Scheduler.step concurrency t action = some t') : Stepped before (some t')

/-- What one step does: a stretch of one of the calls, up to its next await, or what the
scheduler does besides. A cancel keeps its claim, drops it, or takes the finish upon itself. -/
inductive Stretch : Action → State → Prop
  | plans {plan : RunPlan} (hpoint : s.start = .planning) :
      Stretch (.planned plan) { s with start := .recording plan }
  | records {plan : RunPlan} {stamp : ℕ} (hpoint : s.start = .recording plan) :
      Stretch (.startAdvances stamp) { s with row := some s.run, start := .recorded plan }
  | skips {plan : RunPlan} {stamp : ℕ} (hpoint : s.start = .recorded plan) :
      Stretch (.startAdvances stamp) { s with start := .starting true }
  | submits {plan : RunPlan} {stamp : ℕ} {before after : Scheduler.State}
      (hpoint : s.start = .recorded plan)
      (hbefore : s.scheduler.getD (Scheduler.initial store) = before)
      (hstep : Scheduler.step concurrency before (.submit runId plan) = some after) :
      Stretch (.startAdvances stamp)
        { s with scheduler := some after, start := afterSubmit before after before.nextSubmit }
  | resumes {call stamp : ℕ} {before after : Scheduler.State} (hpoint : s.start = .submitting call)
      (hbefore : s.scheduler = some before)
      (hstep : Scheduler.step concurrency before (.submitResumes call) = some after) :
      Stretch (.startAdvances stamp)
        { s with scheduler := some after, start := afterSubmit before after call }
  | finishes {stamp : ℕ} {run : FinishedRun} (hpoint : s.start = .starting true) :
      Stretch (.startAdvances stamp) { s with run := run.toRun, start := .writing (.saving run) }
  | fails {stamp : ℕ} {error : RunTransitionError} (hpoint : s.start = .starting true)
      (hfinish : s.run.finish .succeeded none stamp = .error error) :
      Stretch (.startAdvances stamp) { s with start := .ended }
  | handsOver {stamp : ℕ} (hpoint : s.start = .starting false) :
      Stretch (.startAdvances stamp) { s with start := .ended, watch := .waiting, watched := true }
  | writes {stamp : ℕ} {point : Writing} (hpoint : s.start = .writing point) :
      Stretch (.startAdvances stamp)
        { (point.advance s).1 with start := (point.advance s).2.elim .ended .writing }
  | submitRaises {call : ℕ} {before after : Scheduler.State} (hpoint : s.start = .submitting call)
      (hbefore : s.scheduler = some before)
      (hstep : Scheduler.step concurrency before (.submitRaises call) = some after) :
      Stretch .startRaises { s with scheduler := some after, start := .ended }
  | startRaises (hpoint : s.start ≠ .ended) : Stretch .startRaises { s with start := .ended }
  | watchFinishes {stamp : ℕ} {run : FinishedRun} (hpoint : s.watch = .waiting) :
      Stretch (.watchAdvances stamp) { s with run := run.toRun, watch := .writing (.saving run) }
  | watchFails {stamp : ℕ} {result : RunResult} {error : RunTransitionError}
      (hpoint : s.watch = .waiting)
      (hfinish : s.run.finish (statusOf result.status) (runError result) stamp = .error error) :
      Stretch (.watchAdvances stamp) { s with watch := .closing }
  | watchWrites {stamp : ℕ} {point : Writing} (hpoint : s.watch = .writing point) :
      Stretch (.watchAdvances stamp)
        { (point.advance s).1 with watch := (point.advance s).2.elim .closing .writing }
  | watchEnds {stamp : ℕ} (hpoint : s.watch = .closing) :
      Stretch (.watchAdvances stamp) { s with watch := .ended, watched := false }
  | watchEndsRaising (hpoint : s.watch = .closing) :
      Stretch .watchRaises { s with watch := .ended, watched := false }
  | watchRaises (habsent : s.watch ≠ .absent) (hended : s.watch ≠ .ended) :
      Stretch .watchRaises { s with watch := .closing }
  | called : Stretch .cancelCalled { s with cancels := s.cancels ++ [.reading] }
  | cancels {i stamp : ℕ} {point point' : CancelPoint} {scheduler : Option Scheduler.State}
      (hpoint : s.cancels[i]? = some point)
      (hscheduler : Stepped concurrency s.scheduler scheduler)
      (hclaim : point'.claim = point.claim ∨ point'.claim = .idle ∨
        findsUnwatched s i = true ∧ point'.claim = .pending) :
      Stretch (.cancelAdvances i stamp) (setCancel { s with scheduler := scheduler } i point')
  | cancelWrites {i stamp : ℕ} {point : Writing} (hpoint : s.cancels[i]? = some (.writing point)) :
      Stretch (.cancelAdvances i stamp)
        (setCancel (point.advance s).1 i ((point.advance s).2.elim .ended .writing))
  | cancelRaises {i : ℕ} {point : CancelPoint} (hpoint : s.cancels[i]? = some point) :
      Stretch (.cancelRaises i) (setCancel s i .ended)
  | builds (hnone : s.scheduler = none) :
      Stretch .built { s with scheduler := some (Scheduler.initial store) }
  | schedules {action : Scheduler.Action} {before after : Scheduler.State}
      (hbefore : s.scheduler = some before)
      (hstep : Scheduler.step concurrency before action = some after) :
      Stretch (.schedules action) { s with scheduler := some after }

end

variable {concurrency : ℕ} {store : Results.ResultStore} {runId : RunId} {s s' : State} {stamp : ℕ}
  {point : CancelPoint} {action : Action} {point' : CancelPoint}

theorem startAdvances_cases (h : startAdvances concurrency store runId s stamp = some s') :
    Stretch concurrency store runId s (.startAdvances stamp) s' := by
  unfold startAdvances at h
  split at h
  case h_1 => cases h
  case h_2 hpoint =>
    cases h
    exact .records hpoint
  case h_3 hpoint =>
    split_ifs at h
    · cases h
      exact .skips hpoint
    · obtain ⟨after, hstep, rfl⟩ := Option.map_eq_some_iff.mp h
      exact .submits hpoint rfl hstep
  case h_4 hpoint =>
    obtain ⟨before, hbefore, h⟩ := Option.bind_eq_some_iff.mp h
    obtain ⟨after, hstep, rfl⟩ := Option.map_eq_some_iff.mp h
    exact .resumes hpoint hbefore hstep
  case h_5 hpoint =>
    split at h
    · cases h
      exact .finishes hpoint
    · rename_i hfinish
      cases h
      exact .fails hpoint hfinish
  case h_6 hpoint =>
    cases h
    exact .handsOver hpoint
  case h_7 hpoint =>
    cases h
    exact .writes hpoint
  case h_8 => cases h

theorem startRaises_cases (h : startRaises concurrency s = some s') :
    Stretch concurrency store runId s .startRaises s' := by
  unfold startRaises at h
  split at h
  case h_1 => cases h
  case h_2 hpoint =>
    obtain ⟨before, hbefore, h⟩ := Option.bind_eq_some_iff.mp h
    obtain ⟨after, hstep, rfl⟩ := Option.map_eq_some_iff.mp h
    exact .submitRaises hpoint hbefore hstep
  case h_3 hpoint _ =>
    cases h
    exact .startRaises hpoint

theorem watchAdvances_cases (h : watchAdvances runId s stamp = some s') :
    Stretch concurrency store runId s (.watchAdvances stamp) s' := by
  unfold watchAdvances at h
  split at h
  case h_1 => cases h
  case h_2 hpoint =>
    obtain ⟨result, -, rfl⟩ := Option.map_eq_some_iff.mp h
    split
    · exact .watchFinishes hpoint
    · rename_i hfinish
      exact .watchFails hpoint hfinish
  case h_3 hpoint =>
    cases h
    exact .watchWrites hpoint
  case h_4 hpoint =>
    cases h
    exact .watchEnds hpoint
  case h_5 => cases h

theorem watchRaises_cases (h : watchRaises s = some s') :
    Stretch concurrency store runId s .watchRaises s' := by
  unfold watchRaises at h
  split at h
  case h_1 => cases h
  case h_2 => cases h
  case h_3 hpoint =>
    cases h
    exact .watchEndsRaising hpoint
  case h_4 habsent hended _ =>
    cases h
    exact .watchRaises habsent hended

theorem afterWithdrawal_point (copy : Run) (watched : Bool) (stamp : ℕ) :
    ∃ point : CancelPoint, (point.claim = .idle ∨ point.claim = .pending ∧ watched = false) ∧
      ∀ (s : State) (i : ℕ), afterWithdrawal s i copy watched stamp = setCancel s i point := by
  unfold afterWithdrawal
  cases watched with
  | true => exact ⟨.joining, Or.inl rfl, fun s i => by simp⟩
  | false =>
    cases hfinish : copy.finish .cancelled none stamp with
    | ok run => exact ⟨.writing (.saving run), Or.inr ⟨rfl, rfl⟩, fun s i => by simp⟩
    | error e => exact ⟨.ended, Or.inl rfl, fun s i => by simp⟩

/-- The step in which a cancel looks for the watcher. -/
theorem Stretch.looksUp {scheduler : Option Scheduler.State} {copy : Run}
    (hpoint : s.cancels[i]? = some (.read (some copy))) (hactive : copy.isActive = true)
    (hscheduler : Stepped concurrency s.scheduler scheduler)
    (hclaim : point.claim = .idle ∨ point.claim = .pending ∧ s.watched = false) :
    Stretch concurrency store runId s (.cancelAdvances i stamp)
      (setCancel { s with scheduler := scheduler } i point) := by
  refine .cancels hpoint hscheduler (Or.inr (hclaim.imp_right ?_))
  rintro ⟨hpending, hunwatched⟩
  exact ⟨by simp [findsUnwatched, hpoint, hactive, hunwatched], hpending⟩

theorem cancelAdvances_cases (h : cancelAdvances concurrency runId s i stamp = some s') :
    Stretch concurrency store runId s (.cancelAdvances i stamp) s' := by
  unfold cancelAdvances at h
  split at h
  case h_1 => cases h
  case h_2 hpoint | h_3 hpoint | h_7 hpoint =>
    cases h
    exact .cancels hpoint .kept (Or.inr (Or.inl rfl))
  case h_4 copy hpoint =>
    split_ifs at h with hactive
    · obtain ⟨point, hclaim, hafter⟩ := afterWithdrawal_point copy s.watched stamp
      split at h
      · cases h
        rw [hafter]
        exact .looksUp hpoint hactive .kept hclaim
      · rename_i before hbefore
        obtain ⟨after, hstep, rfl⟩ := Option.map_eq_some_iff.mp h
        split_ifs
        · rw [hafter]
          exact .looksUp hpoint hactive (.step hbefore hstep) hclaim
        · refine .looksUp hpoint hactive (.step hbefore hstep) ?_
          cases s.watched <;> simp [CancelPoint.claim]
    · cases h
      exact .cancels hpoint .kept (Or.inr (Or.inl rfl))
  case h_5 call copy watched hpoint =>
    obtain ⟨before, hbefore, h⟩ := Option.bind_eq_some_iff.mp h
    obtain ⟨after, hstep, rfl⟩ := Option.map_eq_some_iff.mp h
    obtain ⟨point, hclaim, hafter⟩ := afterWithdrawal_point copy watched stamp
    rw [hafter]
    refine .cancels hpoint (.step hbefore hstep) ?_
    rcases hclaim with hidle | ⟨hpending, rfl⟩
    · exact Or.inr (Or.inl hidle)
    · exact Or.inl hpending
  case h_6 hpoint =>
    split at h <;> cases h
    exact .cancels hpoint .kept (Or.inr (Or.inl rfl))
  case h_8 hpoint =>
    cases h
    exact .cancelWrites hpoint
  case h_9 => cases h

theorem step_cases (h : step concurrency store runId s action = some s') :
    Stretch concurrency store runId s action s' := by
  cases action with
  | planned plan =>
    simp only [step] at h
    split at h
    · rename_i hpoint
      cases h
      exact .plans hpoint
    · cases h
  | startAdvances stamp => exact startAdvances_cases h
  | startRaises => exact startRaises_cases h
  | watchAdvances stamp => exact watchAdvances_cases h
  | watchRaises => exact watchRaises_cases h
  | cancelCalled =>
    cases h
    exact .called
  | cancelAdvances i stamp => exact cancelAdvances_cases h
  | cancelRaises i =>
    simp only [step, cancelRaises] at h
    split at h
    case h_1 | h_2 | h_3 => cases h
    case h_4 hpoint =>
      cases h
      exact .cancelRaises hpoint
  | built =>
    simp only [step] at h
    split at h
    · rename_i hnone
      cases h
      exact .builds hnone
    · cases h
  | schedules other =>
    simp only [step] at h
    split_ifs at h
    obtain ⟨before, hbefore, h⟩ := Option.bind_eq_some_iff.mp h
    obtain ⟨after, hstep, rfl⟩ := Option.map_eq_some_iff.mp h
    exact .schedules hbefore hstep

theorem board_same (hrow : s'.row = s.row) (hannounced : s'.announced = s.announced)
    (hstart : s'.start.claim = s.start.claim ∨ s'.start.claim = .idle) (hwatch : s'.watch = s.watch)
    (hcancels : s'.cancels = s.cancels) : Change (board s) (board s') := by
  unfold board
  rw [hrow, hannounced, hwatch, hcancels]
  exact .keep s.row s.announced [] _ hstart

theorem afterSubmit_claim (before after : Scheduler.State) (call : ℕ) :
    (afterSubmit before after call).claim = .pending ∨ (afterSubmit before after call).claim =
      .idle := by
  unfold afterSubmit
  split_ifs <;> simp [StartPoint.claim]

/-- Only the watcher's claim is another. -/
theorem watch_change {watch : WatchPoint} {watched : Bool} {run : Run}
    (hclaim : watch.claim = s.watch.claim ∨ watch.claim = .idle) :
    Change (board s) (board { s with run := run, watch := watch, watched := watched }) :=
  .keep s.row s.announced [s.start.claim] _ hclaim

/-- Only the claim of one cancel is another. -/
theorem cancel_change (hpoint : s.cancels[i]? = some point)
    (hclaim : point'.claim = point.claim ∨ point'.claim = .idle)
    (scheduler : Option Scheduler.State) :
    Change (board s) (board (setCancel { s with scheduler := scheduler } i point')) := by
  obtain ⟨before, after, hsplit, hset⟩ := exists_split_of_getElem? hpoint
  unfold board setCancel
  rw [hset, hsplit, List.map_append, List.map_append, List.map_cons, List.map_cons]
  exact .keep s.row s.announced (s.start.claim :: s.watch.claim ::
    before.map CancelPoint.claim) _ hclaim

/-- A cancel alone takes the finish upon itself. -/
theorem cancel_takes (hpoint : s.cancels[i]? = some point) (hclaim : point'.claim = .pending)
    (hstart : s.start = .ended) (hwatch : s.watch.claim = .idle)
    (hrow : ∃ run, s.row = some run ∧ run.isActive = true)
    (hidle : ∀ other ∈ s.cancels, other.claim = .idle) (scheduler : Option Scheduler.State) :
    Change (board s) (board (setCancel { s with scheduler := scheduler } i point')) := by
  obtain ⟨before, after, hsplit, hset⟩ := exists_split_of_getElem? hpoint
  obtain ⟨run, hrow, hactive⟩ := hrow
  rw [hsplit, List.forall_mem_append, List.forall_mem_cons] at hidle
  obtain ⟨hbefore, hself, hafter⟩ := hidle
  unfold board setCancel
  rw [hset, hsplit, List.map_append, List.map_append, List.map_cons, List.map_cons, hclaim, hself,
    hrow]
  have hothers : ∀ d ∈ s.start.claim :: s.watch.claim :: before.map CancelPoint.claim, d =
    .idle := by
    simp only [List.forall_mem_cons, List.forall_mem_map, hstart, StartPoint.claim, hwatch,
      true_and]
    exact hbefore
  exact .take s.announced hactive hothers (List.forall_mem_map.mpr hafter)

theorem unwatched_of_finds (h : findsUnwatched s i = true) : s.watched = false := by
  unfold findsUnwatched at h
  split at h
  · simp only [Bool.and_eq_true, Bool.not_eq_true'] at h
    exact h.2
  · cases h

/-- What a point that writes the finish waits for next has the claim of the writing. -/
theorem elim_claim {P : Type} (claim : P → Claim) {ended : P} {writing : Writing → P}
    (hended : claim ended = .idle) (hwriting : ∀ point, claim (writing point) = point.claim)
    (next : Option Writing) : claim (next.elim ended writing) = next.elim .idle Writing.claim := by
  cases next with
  | none => exact hended
  | some point => exact hwriting point

theorem step_change (hattended : Attended s) (hmeets : Unrivalled s action)
    (h : step concurrency store runId s action = some s') : Change (board s) (board s') := by
  cases step_cases h with
  | plans hpoint | skips hpoint =>
    exact board_same rfl rfl (Or.inl (by simp [hpoint, StartPoint.claim])) rfl rfl
  | records hpoint =>
    obtain ⟨hnone, hactive⟩ := hattended.recording (Or.inr ⟨_, hpoint⟩)
    unfold board
    rw [hnone, hpoint]
    exact .record s.announced _ hactive
  | submits hpoint | resumes hpoint =>
    refine board_same rfl rfl ?_ rfl rfl
    simpa [hpoint, StartPoint.claim] using afterSubmit_claim _ _ _
  | finishes hpoint =>
    exact board_same rfl rfl (Or.inl (by simp [hpoint, StartPoint.claim, Writing.claim])) rfl rfl
  | fails | submitRaises | startRaises => exact board_same rfl rfl (Or.inr rfl) rfl rfl
  | handsOver hpoint =>
    have habsent : s.watch = .absent := hattended.handedOver.resolve_left (by simp [hpoint])
    unfold board
    rw [hpoint, habsent]
    exact .handOver s.row s.announced _
  | @writes _ point hpoint =>
    obtain ⟨row, announced, hframe, -⟩ := point.advance_frame s
    have hchange := point.advance_change s [] (s.watch.claim :: s.cancels.map CancelPoint.claim)
    unfold board
    rw [hpoint, elim_claim StartPoint.claim rfl (fun _ => rfl)]
    rw [hframe] at hchange ⊢
    exact hchange
  | watchFinishes hpoint =>
    exact watch_change (Or.inl (by simp [hpoint, WatchPoint.claim, Writing.claim]))
  | watchFails | watchEnds | watchEndsRaising | watchRaises => exact watch_change (Or.inr rfl)
  | @watchWrites _ point hpoint =>
    obtain ⟨row, announced, hframe, -⟩ := point.advance_frame s
    have hchange := point.advance_change s [s.start.claim] (s.cancels.map CancelPoint.claim)
    unfold board
    rw [hpoint, elim_claim WatchPoint.claim rfl (fun _ => rfl)]
    rw [hframe] at hchange ⊢
    exact hchange
  | called =>
    unfold board
    rw [List.map_append]
    exact .call s.row s.announced _
  | @cancels _ _ _ _ scheduler hpoint _ hclaim =>
    rcases hclaim with hsame | hidle | ⟨hfinds, hpending⟩
    · exact cancel_change hpoint (Or.inl hsame) scheduler
    · exact cancel_change hpoint (Or.inr hidle) scheduler
    · obtain ⟨hstart, hrow, hothers⟩ := hmeets hfinds
      have hwatch : s.watch.claim = .idle := by
        rcases hattended.watched (unwatched_of_finds hfinds) with h | h <;>
          simp [h, WatchPoint.claim]
      exact cancel_takes hpoint hpending hstart hwatch hrow hothers scheduler
  | @cancelWrites _ _ point hpoint =>
    obtain ⟨before, after, hsplit, hset⟩ := exists_split_of_getElem? hpoint
    obtain ⟨row, announced, hframe, -⟩ := point.advance_frame s
    have hchange := point.advance_change s
      (s.start.claim :: s.watch.claim :: before.map CancelPoint.claim) (after.map CancelPoint.claim)
    rw [hframe] at hchange ⊢
    unfold board setCancel
    rw [hset, hsplit, List.map_append, List.map_append, List.map_cons, List.map_cons,
      elim_claim CancelPoint.claim rfl (fun _ => rfl)]
    exact hchange
  | cancelRaises hpoint => exact cancel_change hpoint (Or.inr rfl) s.scheduler
  | builds | schedules => exact board_same rfl rfl (Or.inl rfl) rfl rfl

section

variable (hattended : Attended s)
include hattended

/-- The Run is recorded, or `start` has ended before it was. -/
theorem attended_start (hpoint : s.start ≠ .ended) (hwatch : s'.watch = s.watch)
    (hlater : s'.start ≠ .planning ∧ ∀ plan, s'.start ≠ .recording plan) : Attended s' := by
  have habsent : s.watch = .absent := hattended.handedOver.resolve_left hpoint
  rw [habsent] at hwatch
  refine ⟨fun _ => Or.inl hwatch, Or.inr hwatch, ?_⟩
  rintro (h | ⟨plan, h⟩)
  · exact absurd h hlater.1
  · exact absurd h (hlater.2 plan)

/-- A watcher that is there and does not end is known, and `start` has ended. -/
theorem attended_watch (hpoint : s.watch ≠ .absent) (hstart : s'.start = s.start)
    (hwatched : s'.watched = false → s'.watch = .absent ∨ s'.watch = .ended) : Attended s' := by
  have hended : s.start = .ended := hattended.handedOver.resolve_right hpoint
  rw [hended] at hstart
  exact ⟨hwatched, Or.inl hstart, by simp [hstart]⟩

theorem attended_other (hstart : s'.start = s.start) (hwatch : s'.watch = s.watch)
    (hwatched : s'.watched = s.watched) (hrun : s'.run = s.run)
    (hrow : s.row = none → s'.row = none) : Attended s' := by
  refine ⟨?_, ?_, ?_⟩
  · rw [hwatched, hwatch]
    exact hattended.watched
  · rw [hstart, hwatch]
    exact hattended.handedOver
  · rw [hstart, hrun]
    intro hpoint
    obtain ⟨hnone, hactive⟩ := hattended.recording hpoint
    exact ⟨hrow hnone, hactive⟩

theorem step_attended {action : Action} (h : step concurrency store runId s action = some s') :
    Attended s' := by
  have hsubmit : ∀ before after call, afterSubmit before after call ≠ .planning ∧
      ∀ plan, afterSubmit before after call ≠ .recording plan := by
    intro before after call
    unfold afterSubmit
    split_ifs <;> simp
  have hknown : s.watch ≠ .absent → s.watch ≠ .ended → s.watched = true := by
    intro habsent hended
    by_contra hunwatched
    rcases hattended.watched (by simpa using hunwatched) with hpoint | hpoint
    · exact habsent hpoint
    · exact hended hpoint
  cases step_cases h with
  | plans hpoint =>
    have habsent := hattended.handedOver.resolve_left (by simp [hpoint])
    exact ⟨hattended.watched, Or.inr habsent, fun _ => hattended.recording (Or.inl hpoint)⟩
  | records hpoint | skips hpoint | finishes hpoint | fails hpoint | submitRaises hpoint =>
    exact attended_start hattended (by simp [hpoint]) rfl (by simp)
  | submits hpoint | resumes hpoint =>
    exact attended_start hattended (by simp [hpoint]) rfl (hsubmit _ _ _)
  | handsOver => exact ⟨by simp, Or.inl rfl, by simp⟩
  | @writes _ point hpoint =>
    obtain ⟨row, announced, hframe, -⟩ := point.advance_frame s
    rw [hframe]
    refine attended_start hattended (by simp [hpoint]) rfl ?_
    cases (point.advance s).2 <;> simp
  | startRaises hpoint => exact attended_start hattended hpoint rfl (by simp)
  | watchFinishes hpoint | watchFails hpoint =>
    have hwatched := hknown (by simp [hpoint]) (by simp [hpoint])
    exact attended_watch hattended (by simp [hpoint]) rfl (by simp [hwatched])
  | @watchWrites _ point hpoint =>
    have hwatched := hknown (by simp [hpoint]) (by simp [hpoint])
    obtain ⟨row, announced, hframe, -⟩ := point.advance_frame s
    rw [hframe]
    exact attended_watch hattended (by simp [hpoint]) rfl (by simp [hwatched])
  | watchEnds hpoint | watchEndsRaising hpoint =>
    exact attended_watch hattended (by simp [hpoint]) rfl (by simp)
  | watchRaises habsent hended =>
    have hwatched := hknown habsent hended
    exact attended_watch hattended habsent rfl (by simp [hwatched])
  | @cancelWrites _ _ point =>
    obtain ⟨row, announced, hframe, hnone⟩ := point.advance_frame s
    rw [hframe]
    exact attended_other hattended rfl rfl rfl rfl hnone
  | called | cancels | cancelRaises | builds | schedules =>
    exact attended_other hattended rfl rfl rfl rfl (fun h => h)

end

/-- What every run keeps whose cancels are unrivalled. -/
structure Settled (s : State) : Prop where
  attended : Attended s
  sound : (board s).Sound

theorem Settled.initial (scheduler : Option Scheduler.State) : Settled (initial scheduler) := by
  refine ⟨⟨fun _ => Or.inl rfl, Or.inr rfl, fun _ => ⟨rfl, rfl⟩⟩, ?_⟩
  have hothers : ∀ d ∈ [] ++ [Claim.idle], d = .idle := by simp
  exact .of_alone (c := .pending) hothers (by simp [RunService.initial]) (by simp)
    (by simp [RunService.initial]) (by simp [RunService.initial])

theorem Settled.step (h : Settled s) (hmeets : Unrivalled s action)
    (hstep : RunService.step concurrency store runId s action = some s') : Settled s' :=
  ⟨step_attended h.attended hstep, (step_change h.attended hmeets hstep).sound h.sound⟩

open Reachability

/-- A finish that has been written stays, and is announced at most once. -/
theorem finish_written_once {scheduler : Option Scheduler.State} {s₁ s₂ : State}
    (h₁ : Reachable (step concurrency store runId) Unrivalled (initial scheduler) s₁)
    (h₂ : Reachable (step concurrency store runId) Unrivalled s₁ s₂) :
    (∀ run, s₁.row = some run → run.isActive = false → s₂.row = some run) ∧
      s₂.announced.length ≤ 1 := by
  have hsettled₁ : Settled s₁ := h₁.invariant (Settled.initial scheduler) (fun _ _ _ h => h.step)
  have hsettled₂ : Settled s₂ := h₂.invariant hsettled₁ (fun _ _ _ h => h.step)
  refine ⟨?_, hsettled₂.sound.once⟩
  intro run hrow hfinished
  have hkept : Settled s₂ ∧ s₂.row = some run := by
    refine h₂.invariant (I := fun s => Settled s ∧ s.row = some run) ⟨hsettled₁, hrow⟩ ?_
    rintro s action s' ⟨hsettled, hrow⟩ hmeets hstep
    have hchange := step_change hsettled.attended hmeets hstep
    exact ⟨hsettled.step hmeets hstep, hchange.row_kept hsettled.sound hrow hfinished⟩
  exact hkept.2

/-- The condition, computed. -/
def unrivalled (s : State) : Action → Bool
  | .cancelAdvances i _ => !findsUnwatched s i ||
    ((match s.start with
      | .ended => true
      | _ => false) && s.row.any Run.isActive && s.cancels.all (fun point => point.claim = .idle))
  | _ => true

theorem unrivalled_sound (h : unrivalled s action = true) : Unrivalled s action := by
  cases action with
  | cancelAdvances i stamp =>
    intro hfinds
    simp only [unrivalled, hfinds, Bool.not_true, Bool.false_or, Bool.and_eq_true] at h
    obtain ⟨⟨hstart, hrow⟩, hidle⟩ := h
    refine ⟨?_, ?_, ?_⟩
    · split at hstart
      · assumption
      · simp at hstart
    · simpa [Option.any_eq_true] using hrow
    · simpa using hidle
  | _ => trivial

/-- A Run of one computation, its watcher registered, cancelled once. -/
def watchedCancel : List Action :=
  [.planned ⟨[], [computationOf "x" []], distinct_one "x"⟩, .startAdvances 1, .startAdvances 1,
    .schedules (.submitAnswered 0), .startAdvances 1, .startAdvances 1, .cancelCalled,
    .cancelAdvances 0 2, .cancelAdvances 0 2, .schedules (.taskUnwinds 0), .cancelAdvances 0 2,
    .watchAdvances 3, .watchAdvances 3]

theorem watched_cancel_written_once :
    ∃ s s', Reachable (step 1 .empty "1") Unrivalled (initial none) s ∧
      Reachable (step 1 .empty "1") Unrivalled s s' ∧ s'.announced.length = 1 ∧
      s.row = some ⟨.cancelled, some 3, none⟩ ∧ s'.row = some ⟨.cancelled, some 3, none⟩ := by
  obtain ⟨s, hs, htest⟩ := exists_reachable (step 1 .empty "1") Unrivalled unrivalled (initial none)
    watchedCancel (fun s => s.row = some ⟨.cancelled, some 3, none⟩ ∧
      (execute (step 1 .empty "1") unrivalled s [.watchAdvances 4]).any (·.announced.length = 1))
    (fun _ _ _ h => unrivalled_sound h) (by decide)
  obtain ⟨hrow, hnext⟩ := of_decide_eq_true htest
  obtain ⟨s', hs', hannounced⟩ := exists_reachable (step 1 .empty "1") Unrivalled unrivalled s
    [.watchAdvances 4] (·.announced.length = 1) (fun _ _ _ h => unrivalled_sound h) hnext
  exact ⟨s, s', hs, hs', of_decide_eq_true hannounced, hrow,
    (finish_written_once hs hs').1 _ hrow rfl⟩

/-- A cancel that reads the row while `start` announces a Run with nothing to
compute: the cancel finishes it, and `start` finishes it again. -/
theorem cancelled_then_succeeded :
    ∃ s s', Reachable (step 1 .empty "1") (fun _ _ => True) (initial none) s ∧
      Reachable (step 1 .empty "1") (fun _ _ => True) s s' ∧
      s.row = some ⟨.cancelled, some 2, none⟩ ∧ s'.row = some ⟨.succeeded, some 3, none⟩ ∧
      s'.announced.length = 2 := by
  obtain ⟨s, hs, htest⟩ := exists_reachable (step 1 .empty "1") (fun _ _ => True) (fun _ _ => true)
    (initial none) [.planned ⟨[], [], by decide⟩, .startAdvances 1, .startAdvances 1, .cancelCalled,
      .cancelAdvances 0 2, .cancelAdvances 0 2, .cancelAdvances 0 2]
    (fun s => s.row = some ⟨.cancelled, some 2, none⟩ ∧
      (execute (step 1 .empty "1") (fun _ _ => true) s [.cancelAdvances 0 2, .startAdvances 3,
        .startAdvances 3, .startAdvances 3]).any
          (fun s => s.row = some ⟨.succeeded, some 3, none⟩ ∧ s.announced.length = 2))
    (fun _ _ _ _ => trivial) (by decide)
  obtain ⟨hrow, hnext⟩ := of_decide_eq_true htest
  obtain ⟨s', hs', hlast⟩ := exists_reachable (step 1 .empty "1") (fun _ _ => True)
    (fun _ _ => true) s
    [.cancelAdvances 0 2, .startAdvances 3, .startAdvances 3, .startAdvances 3]
    (fun s => s.row = some ⟨.succeeded, some 3, none⟩ ∧ s.announced.length = 2)
    (fun _ _ _ _ => trivial) hnext
  exact ⟨s, s', hs, hs', hrow, of_decide_eq_true hlast⟩

end Finish

end Grafy.RunService
