import Grafy.Uploads

/-!
An upload over every run of its calls. Its row stands in one of four ways: pending as it was
reserved, ready beside the artifact of what was inspected, terminal, or removed; and it moves
only forward. An inspection stays true of the object while the row is pending, because what
deletes the object has seen the row terminal first.
-/
namespace Grafy.Uploads

open GraphDocuments Inspection

variable {service : Service} {r : Reservation}

section Standings

/-- The row that `finalize_if_pending` leaves. -/
def promoted (u : Upload) (inspection : UploadInspection) (artifactId : String)
    (completedAt : ℤ) : Upload :=
  { u with
    status := .ready
    actualSize := some inspection.byteSize
    sha256 := some inspection.sha256
    artifactType := some inspection.artifactType.id
    artifactSchemaVersion := some inspection.artifactType.schemaVersion
    artifactId := some artifactId
    completedAt := some completedAt }

variable (service r)

/-- What an inspection of the reserved upload has found in some stored bytes. -/
def Inspected (content : Bytes) (inspection : UploadInspection) : Prop :=
  ∃ (declared : ℕ) (chunks : List Bytes), chunks.flatten = content ∧
    service.inspector.inspectChunks r.originalFilename r.expectedSize
      service.config.maxUploadBytes (some declared) chunks = .ok inspection

/-- How the row, the object and the artifacts of an upload stand. -/
inductive Standing : Option Upload → Option Bytes → List ArtifactObject → Prop
  | pending (object : Option Bytes) : Standing (some r.upload) object []
  | ready {content : Bytes} {inspection : UploadInspection} (artifactId : String)
      (completedAt : ℤ) (h : Inspected service r content inspection) :
      Standing (some (promoted r.upload inspection artifactId completedAt)) (some content)
        [service.newArtifact r.upload inspection artifactId]
  | terminal {status : UploadStatus} (object : Option Bytes) (h : status.isTerminal) :
      Standing (some { r.upload with status }) object []
  | removed (object : Option Bytes) : Standing none object []

end Standings

/-- What may have become of an upload: a row that is not pending keeps its status, a terminal
one may be removed, the object stays while the row is pending or ready. -/
structure Later (row : Option Upload) (object : Option Bytes) (row' : Option Upload)
    (object' : Option Bytes) : Prop where
  settled : ∀ u, row = some u → u.status ≠ .pending →
    row' = some u ∨ (row' = none ∧ u.status ≠ .ready)
  removed : row = none → row' = none
  stored : ∀ u, row' = some u → u.status = .pending →
    row = some u ∧ ∀ content, object = some content → object' = some content
  kept : ∀ u, row = some u → u.status = .ready → object' = object

variable {row row' : Option Upload} {object object' : Option Bytes} {u : Upload}

namespace Later

variable {row'' : Option Upload} {object'' : Option Bytes}

theorem refl : Later row object row object :=
  ⟨fun _ hrow _ => .inl hrow, id, fun _ hrow _ => ⟨hrow, fun _ hobject => hobject⟩,
    fun _ _ _ => rfl⟩

theorem trans (h : Later row object row' object') (h' : Later row' object' row'' object'') :
    Later row object row'' object'' where
  settled u hrow hstatus := by
    rcases h.settled u hrow hstatus with hsame | ⟨hnone, hready⟩
    · exact h'.settled u hsame hstatus
    · exact .inr ⟨h'.removed hnone, hready⟩
  removed hrow := h'.removed (h.removed hrow)
  stored u hrow hstatus := by
    obtain ⟨hrow', hkept'⟩ := h'.stored u hrow hstatus
    obtain ⟨hrow, hkept⟩ := h.stored u hrow' hstatus
    exact ⟨hrow, fun content hobject => hkept' content (hkept content hobject)⟩
  kept u hrow hstatus := by
    rcases h.settled u hrow (by rw [hstatus]; decide) with hsame | ⟨_, hready⟩
    · rw [h'.kept u hsame hstatus, h.kept u hrow hstatus]
    · exact absurd hstatus hready

theorem ready (h : Later row object row' object') (hrow : row = some u)
    (hstatus : u.status = .ready) : row' = some u := by
  rcases h.settled u hrow (by rw [hstatus]; decide) with hsame | ⟨_, hready⟩
  · exact hsame
  · exact absurd hstatus hready

end Later

/-- The row is terminal or removed. -/
def Gone (row : Option Upload) : Prop := ∀ u, row = some u → u.status.isTerminal

theorem Gone.later (h : Gone row) (hlater : Later row object row' object') : Gone row' := by
  intro u hu
  cases row with
  | none => rw [hlater.removed rfl] at hu; cases hu
  | some v =>
    have hterminal := h v rfl
    have hstatus : v.status ≠ .pending := by
      intro hpending
      rw [hpending] at hterminal
      cases hterminal
    rcases hlater.settled v rfl hstatus with hsame | ⟨hnone, _⟩
    · cases hsame.symm.trans hu
      exact hterminal
    · rw [hnone] at hu
      cases hu

namespace Later

variable {u' : Upload}

theorem of_saved (hempty : object = none) (hready : ∀ u, row = some u → u.status ≠ .ready) :
    Later row object row object' where
  settled _ hrow _ := .inl hrow
  removed hrow := hrow
  stored _ hrow _ := ⟨hrow, fun _ hobject => by rw [hempty] at hobject; cases hobject⟩
  kept u hrow hstatus := absurd hstatus (hready u hrow)

theorem of_gone (h : Gone row) : Later row object row object' where
  settled _ hrow _ := .inl hrow
  removed hrow := hrow
  stored u hrow hstatus := by
    have hterminal := h u hrow
    rw [hstatus] at hterminal
    cases hterminal
  kept u hrow hstatus := by
    have hterminal := h u hrow
    rw [hstatus] at hterminal
    cases hterminal

theorem of_removed (h : Gone row) : Later row object none object' where
  settled u hrow _ := by
    refine .inr ⟨rfl, fun hstatus => ?_⟩
    have hterminal := h u hrow
    rw [hstatus] at hterminal
    cases hterminal
  removed _ := rfl
  stored _ hrow _ := by cases hrow
  kept u hrow hstatus := by
    have hterminal := h u hrow
    rw [hstatus] at hterminal
    cases hterminal

theorem of_pending (hpending : u.status = .pending) (hstatus : u'.status ≠ .pending) :
    Later (some u) object (some u') object where
  settled v hv hne := by
    cases hv
    exact absurd hpending hne
  removed hnone := by cases hnone
  stored v hv hstill := by
    cases hv
    exact absurd hstill hstatus
  kept _ _ _ := rfl

end Later

/-- What a call may rely on, as far as it has come. -/
def CallSafe (service : Service) (r : Reservation) (row : Option Upload) (object : Option Bytes) :
    Call → Prop
  | .complete (.pending record) | .complete (.inspecting record _) => record = r.upload
  | .complete (.inspected record inspection) => record = r.upload ∧
      (row = some r.upload → ∃ content, object = some content ∧
        Inspected service r content inspection)
  | .complete (.failing _ status _) => status.isTerminal
  | .complete (.finalized result) | .complete (.finished (.ok result)) =>
      row = some result.upload ∧ result.upload.status = .ready ∧
        result.upload.artifactType = some result.artifactType.id ∧
        result.upload.artifactSchemaVersion = some result.artifactType.schemaVersion
  | .cleanup _ _ (.candidate record _) => record.status ≠ .pending → Gone row
  | .cleanup _ _ (.deleting _) | .cleanup _ _ (.removing _) => Gone row
  | _ => True

variable {call : Call}

theorem CallSafe.later (h : CallSafe service r row object call)
    (hlater : Later row object row' object') : CallSafe service r row' object' call := by
  match call with
  | .complete (.pending _) | .complete (.inspecting _ _) | .complete (.failing _ _ _) => exact h
  | .complete (.inspected _ inspection) =>
    refine ⟨h.1, fun hrow => ?_⟩
    obtain ⟨hbefore, hkept⟩ := hlater.stored r.upload hrow rfl
    obtain ⟨content, hobject, hinspected⟩ := h.2 hbefore
    exact ⟨content, hkept content hobject, hinspected⟩
  | .complete (.finalized _) | .complete (.finished (.ok _)) =>
    exact ⟨hlater.ready h.1 h.2.1, h.2⟩
  | .cleanup _ _ (.candidate _ _) => exact fun hstatus => (h hstatus).later hlater
  | .cleanup _ _ (.deleting _) | .cleanup _ _ (.removing _) => exact Gone.later h hlater
  | .complete .begun | .complete (.finished (.error _)) | .complete .lost => trivial
  | .receive _ _ => trivial
  | .cleanup _ _ .begun | .cleanup _ _ (.finished _) | .cleanup _ _ .lost => trivial

section Statements

variable {artifacts : List ArtifactObject} {s : State} {s' : State} {given : Given} {limit : ℕ}
  {status : UploadStatus} {record : Upload} {terminalBefore : ℤ} {olderThan : Option ℤ}
  {pendingBefore : ℤ} {rest : List Upload}

theorem markTerminalIfPending_settled (h : u.status ≠ .pending) (status : UploadStatus) :
    markTerminalIfPending (some u) status = none := by
  simp [markTerminalIfPending, h]

theorem ne_pending_of_terminal (h : status.isTerminal) : status ≠ .pending := by
  rintro rfl
  cases h

/-- Only a pending row is marked, and stands terminal then. -/
theorem mark_later (h : Standing service r row object artifacts) (hstatus : status.isTerminal) :
    Standing service r ((markTerminalIfPending row status).or row) object artifacts ∧
      Later row object ((markTerminalIfPending row status).or row) object := by
  cases h with
  | pending =>
    exact ⟨.terminal object hstatus, .of_pending rfl (ne_pending_of_terminal hstatus)⟩
  | ready artifactId completedAt hinspected =>
    exact ⟨.ready artifactId completedAt hinspected, .refl⟩
  | terminal _ hmarked =>
    rw [markTerminalIfPending_settled (ne_pending_of_terminal hmarked), Option.none_or]
    exact ⟨.terminal object hmarked, .refl⟩
  | removed => exact ⟨.removed object, .refl⟩

/-- What the next statement of a call does: the upload stands as it may, the call relies on
what is so, and an artifact is committed only with the row. -/
structure Moved (service : Service) (r : Reservation) (s s' : State) (call : Call) : Prop where
  standing : Standing service r s'.row s'.object s'.artifacts
  later : Later s.row s.object s'.row s'.object
  safe : CallSafe service r s'.row s'.object call
  committed : s'.artifacts = s.artifacts ∨ ∃ result, call = .complete (.finalized result)

theorem Moved.of_read (h : Standing service r s.row s.object s.artifacts)
    (hsafe : CallSafe service r s.row s.object call) : Moved service r s s call :=
  ⟨h, .refl, hsafe, .inl rfl⟩

theorem receive_moved {stream : Bytes} {phase phase' : ReceivePhase}
    (h : Standing service r s.row s.object s.artifacts)
    (hnext : service.receiveNext s given stream phase = some (s', phase')) :
    Moved service r s s' (.receive stream phase') := by
  cases phase with
  | begun =>
    simp only [Service.receiveNext] at hnext
    split at hnext <;> cases hnext <;>
      exact .of_read h trivial
  | expiring record =>
    cases hnext
    obtain ⟨hstanding, hlater⟩ := mark_later h (rfl : UploadStatus.expired.isTerminal)
    exact ⟨hstanding, hlater, trivial, .inl rfl⟩
  | admitted record =>
    simp only [Service.receiveNext] at hnext
    split at hnext
    · cases hnext
      exact .of_read h trivial
    · split at hnext
      · cases hnext
        exact .of_read h trivial
      · next hempty =>
        cases hnext
        obtain ⟨workspaceId, uploadId, row, object, artifacts, calls⟩ := s
        subst hempty
        -- An upload that is ready has its object, so nothing is saved over one.
        cases h with
        | pending =>
          exact ⟨.pending _, .of_saved rfl
            (fun u hu => (by obtain rfl := Option.some.inj hu; nofun)), trivial, .inl rfl⟩
        | terminal _ hterminal =>
          refine ⟨.terminal _ hterminal, .of_gone fun u hu => ?_, trivial, .inl rfl⟩
          cases hu
          exact hterminal
        | removed =>
          exact ⟨.removed _, .of_gone (fun u hu => (by cases hu)), trivial, .inl rfl⟩
  | finished error | lost => cases hnext

theorem eq_reserved (h : Standing service r (some u) object artifacts)
    (hpending : u.status = .pending) : u = r.upload := by
  cases h with
  | pending => rfl
  | ready => cases hpending
  | terminal _ hterminal => exact absurd hpending (ne_pending_of_terminal hterminal)

/-- There is no artifact but that of a ready upload. -/
theorem artifacts_nil (h : Standing service r row object artifacts)
    (hready : ∀ u, row = some u → u.status ≠ .ready) : artifacts = [] := by
  cases h with
  | ready => exact absurd rfl (hready _ rfl)
  | _ => rfl

theorem Gone.ne_ready (h : Gone row) : ∀ u, row = some u → u.status ≠ .ready := by
  intro u hu hready
  have hterminal := h u hu
  rw [hready] at hterminal
  cases hterminal

theorem resultFromReady_ok {result : UploadResult} (h : Service.resultFromReady u = .ok result) :
    result.upload = u ∧
      u.artifactType = some result.artifactType.id ∧
      u.artifactSchemaVersion = some result.artifactType.schemaVersion := by
  unfold Service.resultFromReady at h
  split at h
  · next htype hversion _ =>
    cases h
    exact ⟨rfl, htype, hversion⟩
  · cases h

/-- An answer that names a ready row is right. -/
theorem callSafe_ready (hready : u.status = .ready) :
    CallSafe service r (some u) object (.complete (.finished (Service.resultFromReady u))) := by
  cases hresult : Service.resultFromReady u with
  | error error => trivial
  | ok result =>
    obtain ⟨hupload, htype, hversion⟩ := resultFromReady_ok hresult
    refine ⟨by rw [hupload], by rw [hupload]; exact hready, ?_, ?_⟩
    · rw [hupload]; exact htype
    · rw [hupload]; exact hversion

theorem finalizeIfPending_some {inspection : UploadInspection} {artifactId : String}
    {completedAt notOlderThan : ℤ} {finalized : Upload}
    (h : finalizeIfPending row inspection artifactId completedAt notOlderThan = some finalized) :
    ∃ u, row = some u ∧ u.status = .pending ∧
      finalized = promoted u inspection artifactId completedAt := by
  obtain ⟨u, hfilter, hfinalized⟩ := Option.map_eq_some_iff.mp h
  obtain ⟨hrow, hpending⟩ := Option.filter_eq_some_iff.mp hfilter
  simp only [decide_eq_true_eq] at hpending
  exact ⟨u, hrow, hpending.1, hfinalized.symm⟩

theorem load_safe (h : Standing service r s.row s.object s.artifacts) :
    CallSafe service r s.row s.object (.complete (service.loadPending s given)) := by
  unfold Service.loadPending
  cases hrow : s.row with
  | none => trivial
  | some record =>
    rw [hrow] at h
    dsimp only
    split
    · next hready => exact callSafe_ready hready
    · split
      · trivial
      · next hpending =>
        split
        · exact rfl
        · exact eq_reserved h (by simpa using hpending)

theorem lostFinalize_safe :
    CallSafe service r row object (.complete (.finished (service.lostFinalize record row))) := by
  unfold Service.lostFinalize
  cases row with
  | none => trivial
  | some u =>
    dsimp only
    split
    · next hready => exact callSafe_ready hready
    · split <;> trivial

theorem complete_moved {phase phase' : CompletePhase}
    (h : Standing service r s.row s.object s.artifacts)
    (hsafe : CallSafe service r s.row s.object (.complete phase))
    (hnext : service.completeNext s given phase = some (s', phase')) :
    Moved service r s s' (.complete phase') := by
  cases phase with
  | begun =>
    cases hnext
    exact .of_read h (load_safe h)
  | pending record =>
    simp only [Service.completeNext] at hnext
    split at hnext
    · cases hnext
      exact .of_read h rfl
    · split at hnext <;> cases hnext
      · exact .of_read h rfl
      · exact .of_read h hsafe
  | inspecting record declared =>
    obtain rfl : record = r.upload := hsafe
    simp only [Service.completeNext] at hnext
    split at hnext
    · cases hnext
      exact .of_read h trivial
    · next content hobject =>
      split at hnext
      · next hchunks =>
        split at hnext <;> cases hnext
        · exact .of_read h rfl
        · next inspection hinspection =>
          exact .of_read h ⟨rfl, fun _ =>
            ⟨content, hobject, declared, _, hchunks.1, hinspection⟩⟩
      · cases hnext
  | inspected record inspection =>
    obtain ⟨rfl, hinspected⟩ := hsafe
    simp only [Service.completeNext] at hnext
    split at hnext <;> cases hnext
    · next finalized hfinalized =>
      obtain ⟨u, hrow, hpending, rfl⟩ := finalizeIfPending_some hfinalized
      rw [hrow] at h hinspected
      obtain rfl := eq_reserved h hpending
      obtain ⟨content, hobject, hfound⟩ := hinspected rfl
      have hnone : s.artifacts = [] := artifacts_nil h (fun v hv => by
        cases hv
        rw [hpending]
        decide)
      refine ⟨?_, ?_, ⟨rfl, rfl, rfl, rfl⟩, .inr ⟨_, rfl⟩⟩
      · rw [hobject, hnone, List.nil_append]
        exact .ready _ _ hfound
      · rw [hrow]
        exact .of_pending hpending (by simp [promoted])
    · exact .of_read h lostFinalize_safe
  | failing record status error =>
    cases hnext
    obtain ⟨hstanding, hlater⟩ := mark_later h hsafe
    exact ⟨hstanding, hlater, trivial, .inl rfl⟩
  | finalized result =>
    cases hnext
    exact .of_read h hsafe
  | finished result | lost => cases hnext

/-- What a sweep deletes for a row that is not pending has been terminal before. -/
theorem sweep_safe (h : u.status ≠ .ready → Gone row) :
    CallSafe service r row object
      (.cleanup olderThan limit (Service.sweepTerminal u terminalBefore)) := by
  unfold Service.sweepTerminal
  split
  · trivial
  · next hready =>
    split
    · trivial
    · exact h hready

section

variable (h : listCleanupCandidates row pendingBefore terminalBefore limit = record :: rest)
include h

theorem listed_row : row = some record ∧ (record.status = .pending ∨ record.status.isTerminal) := by
  have hlisted : record ∈ listCleanupCandidates row pendingBefore terminalBefore limit := by
    rw [h]
    exact List.mem_cons_self
  obtain ⟨hrow, hmeets⟩ := List.mem_filter.mp (List.mem_of_mem_take hlisted)
  simp only [decide_eq_true_eq] at hmeets
  exact ⟨Option.mem_toList.mp hrow, hmeets.imp And.left And.left⟩

theorem listed_safe : record.status ≠ .pending → Gone row := by
  intro hstatus
  obtain ⟨rfl, hmeets⟩ := listed_row h
  intro u hu
  cases hu
  exact hmeets.resolve_left hstatus

end

/-- A ready upload has the artifact and the object that one inspection found. -/
theorem standing_ready (h : Standing service r (some u) object artifacts)
    (hready : u.status = .ready) : ∃ content inspection artifactId completedAt,
      u = promoted r.upload inspection artifactId completedAt ∧ object = some content ∧
      artifacts = [service.newArtifact r.upload inspection artifactId] ∧
      Inspected service r content inspection := by
  cases h with
  | pending => cases hready
  | ready artifactId completedAt hinspected =>
    exact ⟨_, _, artifactId, completedAt, rfl, rfl, rfl, hinspected⟩
  | @terminal status _ hterminal =>
    obtain rfl : status = .ready := hready
    cases hterminal

theorem standing_artifacts (h : Standing service r row object artifacts) :
    artifacts.length ≤ 1 ∧ (artifacts ≠ [] ↔ ∃ u, row = some u ∧ u.status = .ready) := by
  by_cases hready : ∃ u, row = some u ∧ u.status = .ready
  · obtain ⟨u, rfl, hstatus⟩ := hready
    obtain ⟨_, _, _, _, _, _, rfl, _⟩ := standing_ready h hstatus
    exact ⟨le_rfl, by simpa using hstatus⟩
  · have hnil : artifacts = [] := artifacts_nil h (fun u hu hstatus => hready ⟨u, hu, hstatus⟩)
    exact ⟨by simp [hnil], by simpa [hnil] using hready⟩

theorem standing_emptied (h : Standing service r row object artifacts) (hgone : Gone row) :
    Standing service r row none artifacts := by
  cases h with
  | pending | ready => cases hgone _ rfl
  | terminal _ hterminal => exact .terminal _ hterminal
  | removed => exact .removed _

theorem cleanup_moved {phase phase' : CleanupPhase}
    (h : Standing service r s.row s.object s.artifacts)
    (hsafe : CallSafe service r s.row s.object (.cleanup olderThan limit phase))
    (hnext : service.cleanupNext s given olderThan limit phase = some (s', phase')) :
    Moved service r s s' (.cleanup olderThan limit phase') := by
  cases phase with
  | begun =>
    simp only [Service.cleanupNext] at hnext
    split at hnext <;> cases hnext
    · exact .of_read h trivial
    · next hlisted => exact .of_read h (listed_safe hlisted)
  | candidate record terminalBefore =>
    simp only [Service.cleanupNext] at hnext
    split at hnext
    · split at hnext <;> cases hnext
      · exact .of_read h trivial
      · next marked hmarked =>
        obtain ⟨hstanding, hlater⟩ := mark_later h (rfl : UploadStatus.expired.isTerminal)
        rw [hmarked, Option.some_or] at hstanding hlater
        refine ⟨hstanding, hlater, sweep_safe fun _ => ?_, .inl rfl⟩
        obtain ⟨u, _, hexpired⟩ := Option.map_eq_some_iff.mp hmarked
        intro v hv
        cases hv
        rw [← hexpired]
        rfl
    · next hstatus =>
      cases hnext
      exact .of_read h (sweep_safe fun _ => hsafe hstatus)
  | deleting terminal =>
    cases hnext
    exact ⟨standing_emptied h hsafe, .of_gone hsafe, hsafe, .inl rfl⟩
  | removing terminal =>
    simp only [Service.cleanupNext, deleteTerminal] at hnext
    cases hnext
    split
    · refine ⟨?_, .of_removed hsafe, trivial, .inl rfl⟩
      rw [artifacts_nil h (Gone.ne_ready hsafe)]
      exact .removed _
    · exact .of_read h trivial
  | finished discarded | lost => cases hnext

end Statements

section Runs

/-- The upload stands well, and its calls rely on what is so. -/
structure Kept (service : Service) (r : Reservation) (s : State) : Prop where
  standing : Standing service r s.row s.object s.artifacts
  calls : ∀ call ∈ s.calls, CallSafe service r s.row s.object call

variable {call' : Call} {s' s : State} {act : Act} {i : ℕ}

theorem call_moved {given : Given} (h : Standing service r s.row s.object s.artifacts)
    (hsafe : CallSafe service r s.row s.object call)
    (hnext : service.callNext s given call = some (s', call')) : Moved service r s s' call' := by
  cases call with
  | receive stream phase | complete phase | cleanup olderThan limit phase =>
    obtain ⟨⟨_, phase'⟩, hphase, hcall⟩ := Option.map_eq_some_iff.mp hnext
    cases hcall
    first
    | exact receive_moved h hphase
    | exact complete_moved h hsafe hphase
    | exact cleanup_moved h hsafe hphase

theorem failed_safe (h : Service.failed call = some call') :
    CallSafe service r row object call' := by
  cases call with
  | receive stream phase | complete phase | cleanup olderThan limit phase =>
    cases phase <;> cases h <;> trivial

theorem lost_safe (call : Call) : CallSafe service r row object (Service.lostCall call) := by
  cases call <;> trivial

/-- What one step does: the upload stands as it may, and a step that commits an artifact is
the finalizing statement of a completion. -/
theorem step_kept (hstep : service.step s act = some s') (h : Kept service r s) :
    Kept service r s' ∧ Later s.row s.object s'.row s'.object ∧
      (s'.artifacts = s.artifacts ∨ ∃ i given result, act = .next i given ∧
        s'.calls[i]? = some (.complete (.finalized result))) := by
  have hadd : ∀ call, CallSafe service r s.row s.object call →
      Kept service r { s with calls := s.calls ++ [call] } := by
    intro call hsafe
    refine ⟨h.standing, fun c hc => ?_⟩
    rcases mem_snoc.mp hc with hold | rfl
    · exact h.calls c hold
    · exact hsafe
  have hset : ∀ i call, CallSafe service r s.row s.object call →
      Kept service r { s with calls := s.calls.set i call } := by
    intro i call hsafe
    refine ⟨h.standing, fun c hc => ?_⟩
    rcases List.mem_or_eq_of_mem_set hc with hold | rfl
    · exact h.calls c hold
    · exact hsafe
  cases act with
  | receive stream | complete | cleanup olderThan limit =>
    cases hstep
    exact ⟨hadd _ trivial, .refl, .inl rfl⟩
  | next i given =>
    obtain ⟨call, hget, hnext⟩ := Option.bind_eq_some_iff.mp hstep
    split at hnext
    · obtain ⟨call', hfailed, hdone⟩ := Option.bind_eq_some_iff.mp hnext
      cases hdone
      exact ⟨hset i call' (failed_safe hfailed), .refl, .inl rfl⟩
    · obtain ⟨⟨t, call'⟩, hcall, hdone⟩ := Option.bind_eq_some_iff.mp hnext
      cases hdone
      have hmoved := call_moved h.standing (h.calls call (List.mem_of_getElem? hget)) hcall
      refine ⟨⟨hmoved.standing, fun c hc => ?_⟩, hmoved.later, ?_⟩
      · rcases List.mem_or_eq_of_mem_set hc with hold | rfl
        · exact (h.calls c hold).later hmoved.later
        · exact hmoved.safe
      · refine hmoved.committed.imp_right ?_
        rintro ⟨result, rfl⟩
        refine ⟨i, given, result, rfl, ?_⟩
        obtain ⟨hi, _⟩ := List.getElem?_eq_some_iff.mp hget
        exact List.getElem?_set_self hi
  | lose i =>
    obtain ⟨call, _, hdone⟩ := Option.bind_eq_some_iff.mp hstep
    cases hdone
    exact ⟨hset i _ (lost_safe call), .refl, .inl rfl⟩

theorem runs_kept (hruns : service.Runs s s') (h : Kept service r s) :
    Kept service r s' ∧ Later s.row s.object s'.row s'.object := by
  induction hruns with
  | refl => exact ⟨h, .refl⟩
  | tail _ hstep ih =>
    obtain ⟨act, hact⟩ := hstep
    obtain ⟨hkept, hlater, _⟩ := step_kept hact ih.1
    exact ⟨hkept, ih.2.trans hlater⟩

theorem reserved_kept : Kept service r r.state := ⟨.pending none, fun _ hcall => by cases hcall⟩

/-- The completion has committed, and answers with that if it comes to answer. -/
def CompletePhase.Committed : CompletePhase → Prop
  | .finalized _ | .lost => True
  | .finished result => result.isOk
  | _ => False

def Call.Committed : Call → Prop
  | .complete phase => phase.Committed
  | _ => False

theorem next_committed {given : Given} (h : call.Committed)
    (hnext : service.callNext s given call = some (s', call')) : call'.Committed := by
  cases call with
  | receive stream phase | cleanup olderThan limit phase => exact h.elim
  | complete phase =>
    cases phase with
    | finalized result =>
      cases hnext
      exact rfl
    | finished result | lost => cases hnext
    | _ => exact h.elim

theorem failed_committed (h : call.Committed) : Service.failed call = none := by
  cases call with
  | receive stream phase | cleanup olderThan limit phase => exact h.elim
  | complete phase =>
    cases phase with
    | finalized result | finished result | lost => rfl
    | _ => exact h.elim

theorem lost_committed (h : call.Committed) : (Service.lostCall call).Committed := by
  cases call with
  | receive stream phase | cleanup olderThan limit phase => exact h.elim
  | complete phase => trivial

theorem step_committed (hstep : service.step s act = some s') (hget : s.calls[i]? = some call)
    (h : call.Committed) : ∃ call', s'.calls[i]? = some call' ∧ call'.Committed := by
  have hset : ∀ (calls : List Call) j c, calls[i]? = some call →
      (j = i → c.Committed) → ∃ call', (calls.set j c)[i]? = some call' ∧ call'.Committed := by
    intro calls j c hget hcommitted
    by_cases hji : j = i
    · subst hji
      obtain ⟨hj, _⟩ := List.getElem?_eq_some_iff.mp hget
      exact ⟨c, List.getElem?_set_self hj, hcommitted rfl⟩
    · exact ⟨call, by rw [List.getElem?_set_ne hji]; exact hget, h⟩
  have hadd : ∀ c, ∃ call', (s.calls ++ [c])[i]? = some call' ∧ call'.Committed := fun c =>
    ⟨call, by rw [List.getElem?_append_left (List.getElem?_eq_some_iff.mp hget).1, hget], h⟩
  cases act with
  | receive stream | complete | cleanup olderThan limit =>
    cases hstep
    exact hadd _
  | next j given =>
    obtain ⟨c, hc, hnext⟩ := Option.bind_eq_some_iff.mp hstep
    split at hnext
    · obtain ⟨c', hfailed, hdone⟩ := Option.bind_eq_some_iff.mp hnext
      cases hdone
      refine hset s.calls j c' hget ?_
      rintro rfl
      cases hget.symm.trans hc
      rw [failed_committed h] at hfailed
      cases hfailed
    · obtain ⟨⟨t, c'⟩, hcall, hdone⟩ := Option.bind_eq_some_iff.mp hnext
      cases hdone
      refine hset s.calls j c' hget ?_
      rintro rfl
      cases hget.symm.trans hc
      exact next_committed h hcall
  | lose j =>
    obtain ⟨c, hc, hdone⟩ := Option.bind_eq_some_iff.mp hstep
    cases hdone
    refine hset s.calls j _ hget ?_
    rintro rfl
    cases hget.symm.trans hc
    exact lost_committed h

theorem runs_committed (hruns : service.Runs s s') (hget : s.calls[i]? = some call)
    (h : call.Committed) : ∃ call', s'.calls[i]? = some call' ∧ call'.Committed := by
  induction hruns with
  | refl => exact ⟨call, hget, h⟩
  | tail _ hstep ih =>
    obtain ⟨act, hact⟩ := hstep
    obtain ⟨call', hget', h'⟩ := ih
    exact step_committed hact hget' h'

/-- Over every run of its calls an upload settles at most once; it has one artifact exactly
when it is ready, which every completion that succeeds returns; the stored object is then the
one that was inspected, and stays; and a completion that fails has committed nothing. -/
theorem upload_promoted_once (service : Service) (r : Reservation) {s : State}
    (h : service.Runs r.state s) :
    (∀ s', service.Runs s s' → (s.row = none → s'.row = none) ∧
      ∀ u, s.row = some u → u.status ≠ .pending →
        s'.row = some u ∨ (s'.row = none ∧ u.status ≠ .ready)) ∧
    s.artifacts.length ≤ 1 ∧
    (s.artifacts ≠ [] ↔ ∃ u, s.row = some u ∧ u.status = .ready) ∧
    (∀ u, s.row = some u → u.status = .ready → ∃ content inspection artifact,
      s.object = some content ∧ Inspected service r content inspection ∧
      s.artifacts = [artifact] ∧ u.artifactId = some artifact.id ∧
      u.actualSize = some content.length ∧ artifact.byteSize = content.length ∧
      u.sha256 = some (service.inspector.sha256 content) ∧
      artifact.sha256 = service.inspector.sha256 content ∧
      artifact.bucket = u.bucket ∧ artifact.objectKey = u.objectKey ∧
      ∀ act s', service.step s act = some s' → s'.object = some content) ∧
    (∀ result, .complete (.finished (.ok result)) ∈ s.calls → s.row = some result.upload ∧
      result.upload.status = .ready ∧ ∃ artifact, s.artifacts = [artifact] ∧
        result.upload.artifactId = some artifact.id ∧
        result.artifactType = ⟨artifact.artifactType, artifact.schemaVersion⟩) ∧
    ∀ act s', service.step s act = some s' → s'.artifacts ≠ s.artifacts →
      ∃ i given, act = .next i given ∧ ∀ s'', service.Runs s' s'' → ∀ error,
        s''.calls[i]? ≠ some (.complete (.finished (.error error))) := by
  obtain ⟨hkept, -⟩ := runs_kept h reserved_kept
  obtain ⟨hone, hexactly⟩ := standing_artifacts hkept.standing
  refine ⟨fun s' hruns => ?_, hone, hexactly, fun u hrow hready => ?_, fun result hanswer => ?_,
    fun act s' hstep hcommitted => ?_⟩
  · obtain ⟨_, hlater⟩ := runs_kept hruns hkept
    exact ⟨hlater.removed, hlater.settled⟩
  · have hstanding := hkept.standing
    rw [hrow] at hstanding
    obtain ⟨content, inspection, artifactId, completedAt, rfl, hobject, hartifacts, hinspected⟩ :=
      standing_ready hstanding hready
    obtain ⟨declared, chunks, rfl, hinspection⟩ := hinspected
    obtain ⟨hsize, hdigest, _⟩ := Inspector.inspectChunks_ok _ hinspection
    refine ⟨chunks.flatten, inspection, _, hobject, ⟨declared, chunks, rfl, hinspection⟩,
      hartifacts, rfl, ?_, hsize, ?_, hdigest, rfl, rfl, fun act s' hstep => ?_⟩
    · rw [← hsize]
      rfl
    · rw [← hdigest]
      rfl
    · obtain ⟨_, hlater, _⟩ := step_kept hstep hkept
      rw [hlater.kept _ hrow hready, hobject]
  · obtain ⟨hrow, hready, htype, hversion⟩ := hkept.calls _ hanswer
    have hstanding := hkept.standing
    rw [hrow] at hstanding
    obtain ⟨_, inspection, artifactId, completedAt, hupload, _, hartifacts, _⟩ :=
      standing_ready hstanding hready
    rw [hupload] at htype hversion
    refine ⟨hrow, hready, _, hartifacts, by rw [hupload]; rfl, ?_⟩
    exact congrArg₂ ArtifactTypeKey.mk (Option.some.inj htype).symm (Option.some.inj hversion).symm
  · obtain ⟨_, _, hsame | ⟨i, given, result, rfl, hget⟩⟩ := step_kept hstep hkept
    · exact absurd hsame hcommitted
    · refine ⟨i, given, rfl, fun s'' hruns error hfailed => ?_⟩
      obtain ⟨call', hget', hcommitted'⟩ := runs_committed hruns hget trivial
      rw [hfailed] at hget'
      cases hget'
      cases hcommitted'

theorem runs_of_foldlM {S A : Type} {step : S → A → Option S} {s s' : S} {acts : List A}
    (h : acts.foldlM step s = some s') :
    Relation.ReflTransGen (fun s s' => ∃ act, step s act = some s') s s' := by
  induction acts generalizing s with
  | nil =>
    cases h
    exact .refl
  | cons act rest ih =>
    obtain ⟨next, hstep, hrest⟩ := Option.bind_eq_some_iff.mp h
    exact .head ⟨act, hstep⟩ (ih hrest)

/-- A deployment of blobs alone, with the digest of the one file that is sent. -/
def blobService : Service where
  config := ⟨1024, 86400, 900, 1800, by decide, by decide⟩
  inspector :=
    { extensionClaims := fun _ => none
      artifactTypes := fun _ => none
      sha256 := fun _ => "ca978112ca1bbdcafac231b39a23dc4da786eff8147c4e72b9807785afee48bb"
      casefold := id
      upper := id
      repr := fun text => "'" ++ text ++ "'"
      confirmsJson := fun _ _ => true }
  storageBackend := "local"
  acceptsDirectUpload := true

def letterUpload : Reservation := ⟨"harbour", "u", "letter.bin", "artifacts", 1, none, 0⟩

def given (artifactId : String) : Given := ⟨60, 60, artifactId, [[97]], false⟩

/-- Two completions race, and a sweep that takes everything older than now. -/
def racingActs : List Act :=
  [.receive [97], .next 0 (given ""), .next 0 (given ""), .complete, .complete,
    .cleanup (some 0) 500, .next 1 (given ""), .next 2 (given ""), .next 1 (given ""),
    .next 2 (given ""), .next 1 (given ""), .next 2 (given ""), .next 3 (given ""),
    .next 1 (given "first"), .next 2 (given "second"), .next 3 (given ""), .next 1 (given "")]

def Call.answer : Call → Option (Option String)
  | .complete (.finished (.ok result)) => some result.upload.artifactId
  | _ => none

theorem racing_completions_agree : ∃ s, blobService.Runs letterUpload.state s ∧
    s.calls.filterMap Call.answer = [some "first", some "first"] ∧ s.artifacts.length ≤ 1 := by
  have hrun : (racingActs.foldlM blobService.step letterUpload.state).map
      (fun s => s.calls.filterMap Call.answer) = some [some "first", some "first"] := by
    decide
  obtain ⟨s, hs, hanswers⟩ := Option.map_eq_some_iff.mp hrun
  have hruns : blobService.Runs letterUpload.state s := runs_of_foldlM hs
  obtain ⟨_, hone, _⟩ := upload_promoted_once blobService letterUpload hruns
  exact ⟨s, hruns, hanswers, hone⟩

end Runs

end Grafy.Uploads
