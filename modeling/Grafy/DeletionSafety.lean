import Grafy.ArtifactNames
import Grafy.CopiedReferences

/-!
What a deletion of an artifact takes away. Nothing names the artifact when its row goes, and
no row names the object when it goes, where no other client writes such a name after the
search for it, and where nothing of another Workspace names the artifact or the object.
-/
namespace Grafy.ArtifactDeletion

open CrossWorkspaceCopies Fingerprints OrderedDict Project Validation

section Names

/-- Some head or checkpoint names the artifact. -/
def Rows.projectsName (s : Rows) (id : ArtifactId) : Bool :=
  s.projects.any (fun entry => entry.2.documents.any (fun document => names document id))

/-- Some stored result names the artifact. -/
def Rows.resultsName (s : Rows) (id : ArtifactId) : Bool :=
  s.results.any (fun entry => outputsReference entry.2 id)

/-- Two artifacts with one stored object. -/
def ArtifactObject.shares (a b : ArtifactObject) : Bool :=
  b.bucket.isSome && b.objectKey.isSome && a.bucket = b.bucket && a.objectKey = b.objectKey

theorem ArtifactObject.shares_iff {a b : ArtifactObject} : a.shares b ↔
    ∃ bucket objectKey, b.bucket = some bucket ∧ b.objectKey = some objectKey ∧
      a.bucket = some bucket ∧ a.objectKey = some objectKey := by
  simp only [shares, Bool.and_eq_true, decide_eq_true_eq, Option.isSome_iff_exists]
  constructor
  · rintro ⟨⟨⟨⟨bucket, hbucket⟩, ⟨objectKey, hkey⟩⟩, hb⟩, hk⟩
    exact ⟨bucket, objectKey, hbucket, hkey, by rw [hb, hbucket], by rw [hk, hkey]⟩
  · rintro ⟨bucket, objectKey, hbucket, hkey, hb, hk⟩
    exact ⟨⟨⟨⟨bucket, hbucket⟩, objectKey, hkey⟩, by rw [hb, hbucket]⟩, by rw [hk, hkey]⟩

end Names

section Deletions

/-- The deletion has found no Project that names the artifact, and has not committed. -/
def Deletion.pastProjects (d : Deletion) : Bool :=
  match d.phase with
  | .titled _ [] | .unused _ | .counted _ _ => true
  | _ => false

/-- The deletion has found no result that names the artifact either. -/
def Deletion.pastResults (d : Deletion) : Bool :=
  match d.phase with
  | .unused _ | .counted _ _ => true
  | _ => false

/-- The deletion is about to delete the object that an artifact is stored in. -/
def Deletion.claims (d : Deletion) (artifact : ArtifactObject) : Bool :=
  match d.phase with
  | .counted row 0 | .committed row => artifact.shares row
  | _ => false

/-- What a run may do for no name to break: no client writes the name of an artifact that a
deletion has searched for already, nor a row with an object that a deletion has found to be
its own, and nothing of another Workspace has the name, or the object, when a deletion looks
for it in its own. -/
def quiet (s : State) : Act → Bool
  | .openProject _ _ _ document | .acceptCommand _ _ document =>
    s.deletions.all (fun d => !(d.pastProjects && names document d.artifact))
  | .putResult workspace fingerprint outputs =>
    (s.rows.results.get? (workspace, fingerprint)).isSome ||
      s.deletions.all (fun d => !(d.pastResults && outputsReference outputs d.artifact))
  | .addArtifact _ artifact => s.deletions.all (fun d => !d.claims artifact)
  | .next i =>
    match s.deletions[i]? with
    | some ⟨workspace, id, .found _⟩ => s.rows.projects.all (fun entry =>
        entry.1.1 = workspace || !entry.2.documents.any (fun document => names document id))
    | some ⟨workspace, id, .titled _ []⟩ => s.rows.results.all (fun entry =>
        entry.1.1 = workspace || !outputsReference entry.2 id)
    | some ⟨workspace, _, .unused row⟩ => s.rows.artifacts.all (fun entry =>
        entry.2.workspace = workspace || !entry.2.shares row)
    | _ => true
  | _ => true

/-- What a deletion has made sure of, as far as it has come. -/
structure Deletion.Safe (s : Rows) (d : Deletion) : Prop where
  projects : d.pastProjects → s.projectsName d.artifact = false
  results : d.pastResults → s.resultsName d.artifact = false
  objects : ∀ entry ∈ s.artifacts, d.claims entry.2 →
    (∃ row shared, d.phase = .counted row shared) ∧ entry.1 = d.artifact ∧
      entry.2.workspace = d.workspace

structure Safe (s : State) : Prop where
  keys : s.rows.artifacts.keys.Nodup
  deletions : ∀ d ∈ s.deletions, d.Safe s.rows

end Deletions

variable {s s' : Rows} {d : Deletion} {id : ArtifactId} {deletions : List Deletion} {act : Act}

section Writers

theorem Rows.projectsName_iff : s.projectsName id ↔
    ∃ entry ∈ s.projects, ∃ document ∈ entry.2.documents, names document id := by
  simp [projectsName]

theorem Rows.resultsName_iff : s.resultsName id ↔
    ∃ entry ∈ s.results, outputsReference entry.2 id := by
  simp [resultsName]

/-- A deletion stays safe where no name is added that it has searched for. -/
theorem Deletion.Safe.of_rows (h : d.Safe s)
    (hprojects : d.pastProjects → s'.projectsName d.artifact → s.projectsName d.artifact)
    (hresults : d.pastResults → s'.resultsName d.artifact → s.resultsName d.artifact)
    (hobjects : ∀ entry ∈ s'.artifacts, d.claims entry.2 →
      ∃ row, (entry.1, row) ∈ s.artifacts ∧ row.workspace = entry.2.workspace ∧ d.claims row) :
    d.Safe s' where
  projects hpast := by
    have hnone := h.projects hpast
    cases hname : s'.projectsName d.artifact with
    | false => rfl
    | true => rw [hprojects hpast hname] at hnone; exact hnone
  results hpast := by
    have hnone := h.results hpast
    cases hname : s'.resultsName d.artifact with
    | false => rfl
    | true => rw [hresults hpast hname] at hnone; exact hnone
  objects := by
    intro entry hentry hclaims
    obtain ⟨row, hrow, hworkspace, hclaimed⟩ := hobjects entry hentry hclaims
    obtain ⟨hphase, hartifact, hown⟩ := h.objects _ hrow hclaimed
    exact ⟨hphase, hartifact, hworkspace ▸ hown⟩

/-- Written to a Project, a document leaves no name but its own and those there were. -/
theorem Rows.projectsName_set {key : String × String} {p p' : ProjectRow}
    (hget : s.projects.get? key = some p)
    (hdocuments : ∀ document ∈ p'.documents, names document id → document ∈ p.documents)
    (h : { s with projects := s.projects.set key p' }.projectsName id) : s.projectsName id := by
  obtain ⟨entry, hentry, document, hdocument, hnames⟩ := projectsName_iff.mp h
  rw [projectsName_iff]
  rcases Dict.mem_set hentry with rfl | hold
  · exact ⟨(key, p), Dict.mem_of_get? hget, document, hdocuments document hdocument hnames, hnames⟩
  · exact ⟨entry, hold, document, hdocument, hnames⟩

theorem quiet_documents {document : ProjectDocument}
    (h : deletions.all (fun d => !(d.pastProjects && names document d.artifact)))
    (hd : d ∈ deletions) (hpast : d.pastProjects) : ¬ names document d.artifact := by
  have := List.all_eq_true.mp h d hd
  simpa [hpast] using this

theorem write_safe (hwrite : s.write act = some s') (hquiet : quiet ⟨s, deletions⟩ act)
    (hd : d ∈ deletions) (h : d.Safe s) : d.Safe s' := by
  cases act with
  | openProject workspace project name document =>
    simp only [Rows.write] at hwrite
    split at hwrite
    · cases hwrite
    · cases hwrite
      refine h.of_rows ?_ (fun _ => id) (fun entry hentry hclaims => ⟨_, hentry, rfl, hclaims⟩)
      intro hpast hname
      obtain ⟨entry, hentry, document', hdocument, hnames⟩ := Rows.projectsName_iff.mp hname
      rcases mem_snoc.mp hentry with hold | rfl
      · exact Rows.projectsName_iff.mpr ⟨entry, hold, document', hdocument, hnames⟩
      · have hsame : document' = document := by
          simpa [ProjectRow.documents] using hdocument
        exact absurd (hsame ▸ hnames) (quiet_documents hquiet hd hpast)
  | acceptCommand workspace project document =>
    obtain ⟨p, hget, rfl⟩ := Option.map_eq_some_iff.mp hwrite
    refine h.of_rows ?_ (fun _ => id) (fun entry hentry hclaims => ⟨_, hentry, rfl, hclaims⟩)
    intro hpast
    refine Rows.projectsName_set hget ?_
    intro document' hdocument hnames
    rcases List.mem_cons.mp hdocument with rfl | hold
    · exact absurd hnames (quiet_documents hquiet hd hpast)
    · exact List.mem_cons_of_mem _ hold
  | checkpoint workspace project =>
    obtain ⟨p, hget, rfl⟩ := Option.map_eq_some_iff.mp hwrite
    refine h.of_rows ?_ (fun _ => id) (fun entry hentry hclaims => ⟨_, hentry, rfl, hclaims⟩)
    intro _
    refine Rows.projectsName_set hget ?_
    intro document hdocument _
    simpa [ProjectRow.documents, or_comm, or_assoc] using hdocument
  | putResult workspace fingerprint outputs =>
    simp only [Rows.write] at hwrite
    split at hwrite
    · cases hwrite
      exact h
    · next habsent =>
      cases hwrite
      refine h.of_rows (fun _ => id) ?_ (fun entry hentry hclaims => ⟨_, hentry, rfl, hclaims⟩)
      intro hpast hname
      obtain ⟨entry, hentry, href⟩ := Rows.resultsName_iff.mp hname
      rcases mem_snoc.mp hentry with hold | rfl
      · exact Rows.resultsName_iff.mpr ⟨entry, hold, href⟩
      · simp only [quiet, Bool.or_eq_true, List.all_eq_true] at hquiet
        have hnone := (hquiet.resolve_left habsent) d hd
        simp [hpast, href] at hnone
  | addArtifact id artifact =>
    simp only [Rows.write] at hwrite
    split at hwrite
    · cases hwrite
    · cases hwrite
      refine h.of_rows (fun _ hname => hname) (fun _ hname => hname) ?_
      intro entry hentry hclaims
      rcases mem_snoc.mp hentry with hold | rfl
      · exact ⟨entry.2, hold, rfl, hclaims⟩
      · have hnone := List.all_eq_true.mp hquiet d hd
        simp [hclaims] at hnone
  | saveToLibrary workspace id =>
    obtain ⟨row, hget, rfl⟩ := Option.map_eq_some_iff.mp hwrite
    refine h.of_rows (fun _ hname => hname) (fun _ hname => hname) ?_
    intro entry hentry hclaims
    rcases Dict.mem_set hentry with rfl | hold
    · have hrow : s.artifacts.get? id = some row := (Option.filter_eq_some_iff.mp hget).1
      exact ⟨row, Dict.mem_of_get? hrow, rfl, hclaims⟩
    · exact ⟨entry.2, hold, rfl, hclaims⟩
  | _ => cases hwrite

end Writers

variable {phase : Phase} {workspace : String}

section Statements

theorem write_keys (hwrite : s.write act = some s') (h : s.artifacts.keys.Nodup) :
    s'.artifacts.keys.Nodup := by
  cases act with
  | addArtifact id artifact =>
    simp only [Rows.write] at hwrite
    split at hwrite
    · cases hwrite
    · next habsent =>
      cases hwrite
      have hnone : s.artifacts.get? id = none := by simpa using habsent
      rw [← Dict.set_of_get?_none hnone]
      exact Dict.keys_set_nodup h id artifact
  | saveToLibrary workspace id =>
    obtain ⟨row, _, rfl⟩ := Option.map_eq_some_iff.mp hwrite
    exact Dict.keys_set_nodup h id _
  | openProject workspace project name document =>
    simp only [Rows.write] at hwrite
    split at hwrite
    · cases hwrite
    · cases hwrite
      exact h
  | acceptCommand workspace project document | checkpoint workspace project =>
    obtain ⟨p, _, rfl⟩ := Option.map_eq_some_iff.mp hwrite
    exact h
  | putResult workspace fingerprint outputs =>
    simp only [Rows.write] at hwrite
    split at hwrite <;> cases hwrite <;> exact h
  | _ => cases hwrite

section

variable (h : d.next s = some (s', phase))
include h

/-- The statements of a deletion write no name, and keep every row but that of its artifact. -/
theorem next_rows :
    s'.projects = s.projects ∧ s'.results = s.results ∧
      (s'.artifacts = s.artifacts ∨ s'.artifacts = s.artifacts.erase d.artifact) := by
  unfold Deletion.next at h
  split at h
  · split at h
    · cases h
      exact ⟨rfl, rfl, .inl rfl⟩
    · split at h <;> cases h <;>
        exact ⟨rfl, rfl, .inl rfl⟩
  · cases h
    exact ⟨rfl, rfl, .inl rfl⟩
  · dsimp only at h
    split at h <;> cases h <;>
      exact ⟨rfl, rfl, .inl rfl⟩
  · cases h
    exact ⟨rfl, rfl, .inl rfl⟩
  · cases h
    refine ⟨rfl, rfl, ?_⟩
    unfold Rows.removeArtifact
    dsimp only
    split
    · exact .inr rfl
    · exact .inl rfl
  · cases h
    unfold Rows.deleteObject
    split <;> exact ⟨rfl, rfl, .inl rfl⟩
  · cases h
  · cases h

theorem next_keys (hkeys : s.artifacts.keys.Nodup) : s'.artifacts.keys.Nodup := by
  obtain ⟨_, _, hartifacts | hartifacts⟩ := next_rows h <;> rw [hartifacts]
  · exact hkeys
  · exact Dict.keys_erase_nodup hkeys _

/-- No deletion takes from another what it has made sure of. -/
theorem next_safe_other {e : Deletion} (hsafe : e.Safe s) : e.Safe s' := by
  obtain ⟨hprojects, hresults, hartifacts⟩ := next_rows h
  refine hsafe.of_rows (fun _ hname => ?_) (fun _ hname => ?_) (fun entry hentry hclaims => ?_)
  · rwa [Rows.projectsName, hprojects] at hname
  · rwa [Rows.resultsName, hresults] at hname
  · have hold : entry ∈ s.artifacts := by
      rcases hartifacts with heq | heq
      · rwa [heq] at hentry
      · exact Dict.mem_of_mem_erase (heq ▸ hentry)
    exact ⟨entry.2, hold, rfl, hclaims⟩

end

/-- A search that finds no Project leaves no name in the Workspace. -/
theorem names_of_titles_nil (htitles : s.titlesReferencingArtifact workspace id = []) :
    ∀ entry ∈ s.projects, entry.1.1 = workspace → ∀ document ∈ entry.2.documents,
      ¬ names document id := by
  intro entry hentry hworkspace document hdocument hnames
  have hlike : like id (documentText document) := like_of_holdsText hnames
  rw [Rows.titlesReferencingArtifact, List.map_eq_nil_iff, List.filter_eq_nil_iff] at htitles
  exact htitles entry hentry (by simpa [hworkspace] using ⟨document, hdocument, hlike⟩)

theorem references_of_not_referenced (hnone : s.artifactIsReferenced workspace id = false) :
    ∀ entry ∈ s.results, entry.1.1 = workspace → ¬ outputsReference entry.2 id := by
  intro entry hentry hworkspace href
  have hlike : like id (outputsText entry.2) := like_of_outputsReference href
  rw [Rows.artifactIsReferenced, List.any_eq_false] at hnone
  exact hnone entry (List.mem_filter.mpr ⟨hentry, by simp [hworkspace, hlike]⟩) href

theorem owner_of_count {row : ArtifactObject}
    (hcount : s.countArtifactsSharingObject workspace (row.bucket.getD "") (row.objectKey.getD "")
      id = 0) :
    ∀ entry ∈ s.artifacts, entry.2.workspace = workspace → entry.2.shares row → entry.1 = id := by
  intro entry hentry hworkspace hshares
  obtain ⟨bucket, objectKey, hb, hk, hbucket, hkey⟩ := ArtifactObject.shares_iff.mp hshares
  rw [Rows.countArtifactsSharingObject, List.countP_eq_zero] at hcount
  by_contra hne
  exact hcount entry hentry (by simp [hworkspace, hb, hk, hbucket, hkey, hne])

end Statements

section Runs

/-- A deletion that has no search behind it and no object before it has nothing to keep. -/
theorem Deletion.Safe.of_idle (hprojects : d.pastProjects = false)
    (hresults : d.pastResults = false) (hclaims : ∀ artifact, d.claims artifact = false) :
    d.Safe s where
  projects hpast := by rw [hprojects] at hpast; cases hpast
  results hpast := by rw [hresults] at hpast; cases hpast
  objects entry _ hclaimed := by rw [hclaims] at hclaimed; cases hclaimed

variable {row : ArtifactObject}

theorem titled_safe
    (hquiet : s.projects.all (fun entry => entry.1.1 = workspace || !entry.2.documents.any (fun
      document => names document id))) :
    Deletion.Safe s ⟨workspace, id, .titled row (s.titlesReferencingArtifact workspace id)⟩ := by
  cases htitles : s.titlesReferencingArtifact workspace id with
  | cons title rest => exact .of_idle rfl rfl (fun _ => rfl)
  | nil =>
    refine ⟨fun _ => ?_, fun hpast => (by cases hpast), fun _ _ hclaims => (by cases hclaims)⟩
    rw [Bool.eq_false_iff, ne_eq, Rows.projectsName_iff]
    rintro ⟨entry, hentry, document, hdocument, hnames⟩
    by_cases hworkspace : entry.1.1 = workspace
    · exact names_of_titles_nil htitles entry hentry hworkspace document hdocument hnames
    · have hother := List.all_eq_true.mp hquiet entry hentry
      simp only [hworkspace, decide_false, Bool.false_or, Bool.not_eq_true', List.any_eq_false]
        at hother
      exact hother document hdocument hnames

theorem unused_safe (hsafe : Deletion.Safe s ⟨workspace, id, .titled row []⟩)
    (hretained : s.artifactIsReferenced workspace id = false)
    (hquiet : s.results.all (fun entry => entry.1.1 = workspace || !outputsReference entry.2 id)) :
    Deletion.Safe s ⟨workspace, id, .unused row⟩ := by
  refine ⟨fun _ => hsafe.projects rfl, fun _ => ?_, fun _ _ hclaims => (by cases hclaims)⟩
  rw [Bool.eq_false_iff, ne_eq, Rows.resultsName_iff]
  rintro ⟨entry, hentry, href⟩
  by_cases hworkspace : entry.1.1 = workspace
  · exact references_of_not_referenced hretained entry hentry hworkspace href
  · have hother := List.all_eq_true.mp hquiet entry hentry
    simp [hworkspace, href] at hother

theorem counted_safe (hsafe : Deletion.Safe s ⟨workspace, id, .unused row⟩)
    (hquiet : s.artifacts.all (fun entry => entry.2.workspace = workspace || !entry.2.shares row)) :
    Deletion.Safe s ⟨workspace, id, .counted row (s.countArtifactsSharingObject workspace
      (row.bucket.getD "") (row.objectKey.getD "") id)⟩ := by
  refine ⟨fun _ => hsafe.projects rfl, fun _ => hsafe.results rfl, ?_⟩
  intro entry hentry hclaims
  cases hcount : s.countArtifactsSharingObject workspace (row.bucket.getD "")
      (row.objectKey.getD "") id with
  | succ n =>
    rw [hcount] at hclaims
    cases hclaims
  | zero =>
    rw [hcount] at hclaims
    have hshares : entry.2.shares row := hclaims
    have hworkspace : entry.2.workspace = workspace := by
      have hother := List.all_eq_true.mp hquiet entry hentry
      simpa [hshares] using hother
    exact ⟨⟨row, 0, rfl⟩, owner_of_count hcount entry hentry hworkspace hshares, hworkspace⟩

/-- Once the row is gone, no row is left with the object. -/
theorem committed_safe (hsafe : Deletion.Safe s ⟨workspace, id, .counted row 0⟩)
    (hkeys : s.artifacts.keys.Nodup) :
    Deletion.Safe (s.removeArtifact workspace id) ⟨workspace, id, .committed row⟩ := by
  refine ⟨fun hpast => (by cases hpast), fun hpast => (by cases hpast), ?_⟩
  intro entry hentry hclaims
  exfalso
  have hold : entry ∈ s.artifacts := by
    unfold Rows.removeArtifact at hentry
    dsimp only at hentry
    split at hentry
    · exact Dict.mem_of_mem_erase hentry
    · exact hentry
  obtain ⟨_, hid, hworkspace⟩ := hsafe.objects entry hold hclaims
  obtain ⟨entryId, artifact⟩ := entry
  obtain rfl : entryId = id := hid
  have hown : artifact.workspace = workspace := hworkspace
  have hget : s.artifact workspace entryId = some artifact := by
    rw [Rows.artifact, Dict.get?_of_mem hkeys hold, Option.filter_some]
    simp [hown]
  simp [Rows.removeArtifact, hget, Dict.erase] at hentry

theorem next_safe_own {i : ℕ} (hget : deletions[i]? = some d) (h : d.next s = some (s', phase))
    (hquiet : quiet ⟨s, deletions⟩ (.next i)) (hkeys : s.artifacts.keys.Nodup) (hsafe : d.Safe s) :
    Deletion.Safe s' { d with phase } := by
  obtain ⟨workspace, id, stands⟩ := d
  simp only [quiet, hget] at hquiet
  cases stands with
  | begun =>
    simp only [Deletion.next] at h
    split at h
    · cases h
      exact .of_idle rfl rfl (fun _ => rfl)
    · split at h <;> cases h <;>
        exact .of_idle rfl rfl (fun _ => rfl)
  | found row =>
    cases h
    exact titled_safe hquiet
  | titled row titles =>
    simp only [Deletion.next] at h
    split at h
    · cases h
      exact .of_idle rfl rfl (fun _ => rfl)
    · next hunused =>
      cases h
      push Not at hunused
      obtain ⟨rfl, hretained⟩ := hunused
      exact unused_safe hsafe (by simpa using hretained) hquiet
  | unused row =>
    cases h
    exact counted_safe hsafe hquiet
  | counted row shared =>
    cases h
    cases shared with
    | zero => exact committed_safe hsafe hkeys
    | succ n => exact .of_idle rfl rfl (fun _ => rfl)
  | committed row =>
    cases h
    exact .of_idle rfl rfl (fun _ => rfl)
  | finished result | lost => cases h

theorem step_safe {s s' : State} {act : Act} (hstep : step s act = some s')
    (hquiet : quiet s act) (h : Safe s) : Safe s' := by
  obtain ⟨rows, deletions⟩ := s
  have hwrite : ∀ rows', rows.write act = some rows' → Safe ⟨rows', deletions⟩ :=
    fun rows' hrows => ⟨write_keys hrows h.keys,
      fun d hd => write_safe hrows hquiet hd (h.deletions d hd)⟩
  cases act with
  | deleteArtifact workspace id =>
    cases hstep
    refine ⟨h.keys, fun d hd => ?_⟩
    rcases mem_snoc.mp hd with hold | rfl
    · exact h.deletions d hold
    · exact .of_idle rfl rfl (fun _ => rfl)
  | next i =>
    obtain ⟨d, hget, hnext⟩ := Option.bind_eq_some_iff.mp hstep
    obtain ⟨⟨rows', phase⟩, hrows, hdone⟩ := Option.bind_eq_some_iff.mp hnext
    cases hdone
    have hd := List.mem_of_getElem? hget
    refine ⟨next_keys hrows h.keys, fun e he => ?_⟩
    rcases List.mem_or_eq_of_mem_set he with hold | rfl
    · exact next_safe_other hrows (h.deletions e hold)
    · exact next_safe_own hget hrows hquiet h.keys (h.deletions d hd)
  | lose i =>
    obtain ⟨d, _, hlost⟩ := Option.bind_eq_some_iff.mp hstep
    cases hlost
    refine ⟨h.keys, fun e he => ?_⟩
    rcases List.mem_or_eq_of_mem_set he with hold | rfl
    · exact h.deletions e hold
    · exact .of_idle rfl rfl (fun _ => rfl)
  | openProject workspace project name document | acceptCommand workspace project document
  | checkpoint workspace project | putResult workspace fingerprint outputs
  | addArtifact id artifact | saveToLibrary workspace id =>
    obtain ⟨rows', hrows, hdone⟩ := Option.bind_eq_some_iff.mp hstep
    cases hdone
    exact hwrite rows' hrows

theorem reached_safe {s : State} (h : Reached (fun s act => quiet s act) start s) : Safe s := by
  induction h with
  | refl => exact ⟨List.nodup_nil, fun d hd => (List.not_mem_nil hd).elim⟩
  | step _ hstep hquiet ih => exact step_safe hstep hquiet ih

/-- When a deletion commits in a quiet run, no head, checkpoint or stored result of any
Workspace names its artifact, and when it deletes the object, no row of any Workspace names
the object. -/
theorem deletion_keeps_references {s : State}
    (h : Reached (fun s act => quiet s act) start s) {d : Deletion} (hd : d ∈ s.deletions) :
    (∀ row shared, d.phase = .counted row shared →
      (∀ entry ∈ s.rows.projects, ∀ document ∈ entry.2.documents, ¬ names document d.artifact) ∧
      ∀ entry ∈ s.rows.results, ¬ outputsReference entry.2 d.artifact) ∧
    ∀ row bucket objectKey, d.phase = .committed row → row.bucket = some bucket →
      row.objectKey = some objectKey → ∀ entry ∈ s.rows.artifacts,
        ¬ (entry.2.bucket = some bucket ∧ entry.2.objectKey = some objectKey) := by
  have hsafe := (reached_safe h).deletions d hd
  refine ⟨fun row shared hphase => ⟨fun entry hentry document hdocument hnames => ?_,
    fun entry hentry href => ?_⟩, fun row bucket objectKey hphase hbucket hkey => ?_⟩
  · have hnone := hsafe.projects (by simp [Deletion.pastProjects, hphase])
    rw [Rows.projectsName_iff.mpr ⟨entry, hentry, document, hdocument, hnames⟩] at hnone
    cases hnone
  · have hnone := hsafe.results (by simp [Deletion.pastResults, hphase])
    rw [Rows.resultsName_iff.mpr ⟨entry, hentry, href⟩] at hnone
    cases hnone
  · rintro entry hentry ⟨hb, hk⟩
    have hshares : entry.2.shares row :=
      ArtifactObject.shares_iff.mpr ⟨bucket, objectKey, hbucket, hkey, hb, hk⟩
    obtain ⟨⟨_, _, hcounted⟩, _⟩ :=
      hsafe.objects entry hentry (by simpa [Deletion.claims, hphase] using hshares)
    rw [hphase] at hcounted
    cases hcounted

/-- The acts one after the other, as long as each meets a condition. -/
def runIf (meets : State → Act → Bool) : State → List Act → Option State
  | s, [] => some s
  | s, act :: rest =>
    if meets s act then (step s act).bind (fun s' => runIf meets s' rest) else none

theorem Reached.of_runIf {meets : State → Act → Bool} {origin s s' : State} {acts : List Act}
    (hreached : Reached (fun s act => meets s act) origin s)
    (h : runIf meets s acts = some s') : Reached (fun s act => meets s act) origin s' := by
  induction acts generalizing s with
  | nil => obtain rfl := Option.some.inj h; exact hreached
  | cons act rest ih =>
    simp only [runIf] at h
    split at h
    · next hmeets =>
      obtain ⟨next, hstep, hrest⟩ := Option.bind_eq_some_iff.mp h
      exact ih (.step hreached hstep hmeets) hrest
    · cases h

def firstId : ArtifactId := ⟨firstArtifact, by decide⟩

def secondId : ArtifactId := ⟨secondArtifact, by decide⟩

/-- A table in the Library, stored under the digest of its manifest. -/
def storedTable (digest : String) : ArtifactObject :=
  ⟨"harbour", some "artifacts", some digest, true⟩

/-- Two tables, of which a card shows the first; the second is deleted. -/
def quietActs : List Act :=
  [.addArtifact firstId (storedTable "a"), .addArtifact secondId (storedTable "b"),
    .openProject "harbour" "p" "Ships" (cardProject "monday.csv" firstArtifact),
    .deleteArtifact "harbour" secondId, .next 0, .next 0, .next 0, .next 0]

theorem unshown_table_deleted : ∃ s, runIf quiet start quietActs = some s ∧
    s.deletions = [⟨"harbour", secondId, .counted (storedTable "b") 0⟩] ∧
    (∀ entry ∈ s.rows.projects, ∀ document ∈ entry.2.documents, ¬ names document secondId) ∧
    ∀ entry ∈ s.rows.results, ¬ outputsReference entry.2 secondId := by
  have hrun : (runIf quiet start quietActs).map (fun s => s.deletions) =
      some [⟨"harbour", secondId, .counted (storedTable "b") 0⟩] := by decide +kernel
  obtain ⟨s, hs, hdeletions⟩ := Option.map_eq_some_iff.mp hrun
  have hd : ⟨"harbour", secondId, .counted (storedTable "b") 0⟩ ∈ s.deletions := by
    rw [hdeletions]
    exact List.mem_singleton_self _
  exact ⟨s, hs, hdeletions, (deletion_keeps_references (Reached.of_runIf .refl hs) hd).1 _ _ rfl⟩

/-- A card that shows the artifact is saved after the search for one. -/
def lateCardActs : List Act :=
  [.addArtifact firstId (storedTable "a"),
    .openProject "harbour" "p" "Ships" (cardProject "monday.csv" secondArtifact),
    .deleteArtifact "harbour" firstId, .next 0, .next 0,
    .acceptCommand "harbour" "p" (cardProject "monday.csv" firstArtifact),
    .next 0, .next 0]

/-- The same table is stored a second time after the count of those that share its object. -/
def lateTableActs : List Act :=
  [.addArtifact firstId (storedTable "a"), .deleteArtifact "harbour" firstId,
    .next 0, .next 0, .next 0, .next 0, .addArtifact secondId (storedTable "a"), .next 0]

/-- Without the condition a deletion commits while a head names its artifact, and deletes an
object that a row names. -/
theorem late_writes_broken :
    (∃ s, Reached (fun _ _ => True) start s ∧ ∃ d ∈ s.deletions,
      (∃ row shared, d.phase = .counted row shared) ∧
        ∃ entry ∈ s.rows.projects, names entry.2.head d.artifact) ∧
    ∃ s, Reached (fun _ _ => True) start s ∧ ∃ d ∈ s.deletions, ∃ row bucket objectKey,
      d.phase = .committed row ∧ row.bucket = some bucket ∧ row.objectKey = some objectKey ∧
        ∃ entry ∈ s.rows.artifacts,
          entry.2.bucket = some bucket ∧ entry.2.objectKey = some objectKey := by
  constructor
  · have hrun : (runIf (fun _ _ => true) start lateCardActs).map (fun s => (s.deletions,
        s.rows.projects.map (fun entry => names entry.2.head firstId))) =
          some ([⟨"harbour", firstId, .counted (storedTable "a") 0⟩], [true]) := by
      decide +kernel
    obtain ⟨s, hs, hstate⟩ := Option.map_eq_some_iff.mp hrun
    obtain ⟨hdeletions, hnames⟩ := Prod.mk.inj hstate
    obtain ⟨entry, hentry, hname⟩ := List.mem_map.mp (hnames ▸ List.mem_singleton_self true)
    refine ⟨s, by simpa using Reached.of_runIf .refl hs,
      ⟨"harbour", firstId, .counted (storedTable "a") 0⟩, ?_, ⟨_, _, rfl⟩, entry, hentry, hname⟩
    rw [hdeletions]
    exact List.mem_singleton_self _
  · have hrun : (runIf (fun _ _ => true) start lateTableActs).map (fun s => (s.deletions,
        s.rows.artifacts)) = some ([⟨"harbour", firstId, .committed (storedTable "a")⟩],
          [(secondId, storedTable "a")]) := by
      decide
    obtain ⟨s, hs, hstate⟩ := Option.map_eq_some_iff.mp hrun
    obtain ⟨hdeletions, hartifacts⟩ := Prod.mk.inj hstate
    refine ⟨s, by simpa using Reached.of_runIf .refl hs,
      ⟨"harbour", firstId, .committed (storedTable "a")⟩, ?_, storedTable "a", "artifacts", "a",
      rfl, rfl, rfl, (secondId, storedTable "a"), ?_, rfl, rfl⟩
    · rw [hdeletions]
      exact List.mem_singleton_self _
    · rw [hartifacts]
      exact List.mem_singleton_self _

end Runs

end Grafy.ArtifactDeletion
