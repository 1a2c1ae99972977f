import Grafy.IdentityDiscipline

/-!
Every identity operation keeps the discipline of its transactions: what each of them commits
is lawful on the rows as they are then, whatever was committed since it read them.
-/
namespace Grafy.Identity

open OrderedDict

section
variable {op : Op} {held : List ℕ} {writes : List Statement} {s : Rows} {w : ℕ} {user : ℕ}
  {workspace : ℕ} {u : ℕ} {ws : Workspace} {next : Call}

/-- Statements that found nothing and change no membership, and resolve invitations one way. -/
def Quiet (op : Op) (status : WorkspaceInvitationStatus) (s : Rows) : Statement → Prop
  | .insertUser _ _ | .setProfile _ _ _ | .deactivateUser _ | .insertIdentity _ _ _
  | .revokeToken _ => True
  | .insertInvitation _ invitation => s.isShared invitation.workspace ∧ invitation.status = .pending
  | .resolveInvitation id given => given = status ∧ ∃ i, s.invitations.get? id = some i
  | .insertToken id token =>
    ∃ actor asked, op = .createToken actor id asked ∧ token = { asked with revoked := false }
  | .insertWorkspace _ _ | .insertMembership _ _ _ | .updateMembership _ _ _
  | .noteAcceptance _ => False

theorem lawful_of_quiet (hs : s.WellFormed) (status : WorkspaceInvitationStatus)
    (hpending : status ≠ .pending) (haccepted : status ≠ .accepted)
    (h : ∀ statement ∈ writes, Quiet op status s statement) : Lawful op held writes s where
  joins _ _ _ hmem := (h _ hmem).elim
  founds _ _ hmem := (h _ hmem).elim
  changes _ _ _ hmem := (h _ hmem).elim
  owners w ws hw := by
    obtain ⟨u, m, hm, howner⟩ := hs.owned w ws hw
    exact ⟨u, m, hm, howner, fun _ hmem => (h _ hmem).elim⟩
  invites _ _ hmem := h _ hmem
  resolves id given hmem := by
    obtain ⟨rfl, hfound⟩ := h _ hmem
    exact ⟨hfound, hpending, fun _ hother => (h _ hother).1⟩
  accepts _ hmem := absurd (h _ hmem).1.symm haccepted
  gains _ hmem := (h _ hmem).elim
  invitedBy _ _ _ _ _ _ _ hmem := by
    rcases hmem with hmem | hmem
    · exact (h _ hmem).elim
    · exact (h _ hmem).elim
  issues _ _ hmem := ⟨h _ hmem, fun _ _ _ hmem' => (h _ hmem').elim⟩

/-- Statements about users, and those that found Workspaces and add members. -/
def ofUsers : Statement → Prop
  | .insertUser _ _ | .setProfile _ _ _ | .insertIdentity _ _ _ => True
  | _ => False

def ofFounding : Statement → Prop
  | .insertWorkspace _ _ | .insertMembership _ _ _ => True
  | statement => ofUsers statement

/-- Writes that found Workspaces, each with an owner, and add members where they may. -/
structure Founding (writes : List Statement) (s : Rows) : Prop where
  joins : ∀ w u m, .insertMembership w u m ∈ writes →
    s.isShared w ∨ ∃ ws, .insertWorkspace w ws ∈ writes ∧ ws.isFor u
  founds : ∀ w ws, .insertWorkspace w ws ∈ writes →
    ∃ u m, .insertMembership w u m ∈ writes ∧ m.isOwner = true
  plain : ∀ statement ∈ writes, ofFounding statement

theorem Founding.steady {s' : Rows} (h : Founding writes s) (hsteady : Rows.Steady held s s') :
    Founding writes s' := by
  refine ⟨?_, h.founds, h.plain⟩
  intro w u m hmem
  exact (h.joins w u m hmem).imp_left hsteady.isShared

theorem Founding.lawful (h : Founding writes s) (hs : s.WellFormed)
    (hop : ∀ actor id now, op ≠ .accept actor id now) : Lawful op held writes s where
  joins := h.joins
  founds := h.founds
  changes _ _ _ hmem := (h.plain _ hmem).elim
  owners w ws hw := by
    obtain ⟨u, m, hm, howner⟩ := hs.owned w ws hw
    exact ⟨u, m, hm, howner, fun _ hmem => (h.plain _ hmem).elim⟩
  invites _ _ hmem := (h.plain _ hmem).elim
  resolves _ _ hmem := (h.plain _ hmem).elim
  accepts _ hmem := (h.plain _ hmem).elim
  gains _ hmem := (h.plain _ hmem).elim
  invitedBy actor id now hop' := absurd hop' (hop actor id now)
  issues _ _ hmem := (h.plain _ hmem).elim

theorem Founding.append {more : List Statement} (h : Founding writes s) (hmore : Founding more s) :
    Founding (writes ++ more) s := by
  refine ⟨?_, ?_, ?_⟩
  · intro w u m hmem
    rcases List.mem_append.mp hmem with hmem | hmem
    · refine (h.joins w u m hmem).imp_right ?_
      rintro ⟨ws, hws, hfor⟩
      exact ⟨ws, List.mem_append_left _ hws, hfor⟩
    · refine (hmore.joins w u m hmem).imp_right ?_
      rintro ⟨ws, hws, hfor⟩
      exact ⟨ws, List.mem_append_right _ hws, hfor⟩
  · intro w ws hmem
    rcases List.mem_append.mp hmem with hmem | hmem
    · obtain ⟨u, m, hm, howner⟩ := h.founds w ws hmem
      exact ⟨u, m, List.mem_append_left _ hm, howner⟩
    · obtain ⟨u, m, hm, howner⟩ := hmore.founds w ws hmem
      exact ⟨u, m, List.mem_append_right _ hm, howner⟩
  · intro statement hmem
    rcases List.mem_append.mp hmem with hmem | hmem
    · exact h.plain statement hmem
    · exact hmore.plain statement hmem

/-- A Workspace and its first owner. -/
theorem founding_workspace (hfor : ws.isFor u) :
    Founding [.insertWorkspace w ws, .insertMembership w u (.new .owner)] s := by
  refine ⟨?_, ?_, by simp [ofFounding]⟩
  · intro w' u' m hmem
    have hmem : w' = w ∧ u' = u ∧ m = .new .owner := by simpa using hmem
    obtain ⟨rfl, rfl, _⟩ := hmem
    exact Or.inr ⟨ws, by simp, hfor⟩
  · intro w' ws' hmem
    have hmem : w' = w ∧ ws' = ws := by simpa using hmem
    obtain ⟨rfl, _⟩ := hmem
    exact ⟨u, .new .owner, by simp, rfl⟩

/-- A member joins a Workspace that is shared, or that the same writes found. -/
theorem Founding.join {role : WorkspaceRole} (h : Founding writes s)
    (hw : s.isShared w ∨ ∃ ws, .insertWorkspace w ws ∈ writes ∧ ws.isFor u) :
    Founding (writes ++ [.insertMembership w u (.new role)]) s := by
  refine ⟨?_, ?_, ?_⟩
  · intro w' u' m hmem
    have hcases : .insertMembership w' u' m ∈ writes ∨ w' = w ∧ u' = u := by
      rcases List.mem_append.mp hmem with hmem | hmem
      · exact Or.inl hmem
      · have hmem : w' = w ∧ u' = u ∧ m = .new role := by simpa using hmem
        exact Or.inr ⟨hmem.1, hmem.2.1⟩
    have hplace : s.isShared w' ∨ ∃ ws, .insertWorkspace w' ws ∈ writes ∧ ws.isFor u' := by
      rcases hcases with hmem | ⟨rfl, rfl⟩
      · exact h.joins w' u' m hmem
      · exact hw
    refine hplace.imp_right ?_
    rintro ⟨ws, hws, hfor⟩
    exact ⟨ws, List.mem_append_left _ hws, hfor⟩
  · intro w' ws hmem
    obtain ⟨u', m, hm, howner⟩ := h.founds w' ws (by simpa using hmem)
    exact ⟨u', m, List.mem_append_left _ hm, howner⟩
  · intro statement hmem
    rcases mem_snoc.mp hmem with hmem | rfl
    · exact h.plain statement hmem
    · trivial

/-- A Workspace that a set of writes has just founded has no member yet. -/
theorem members_of_founded {own : Rows} (hs : s.WellFormed) (h : Founding writes s)
    (hown : Rows.writeAll (writes ++ [.insertWorkspace w ws]) s = some own) :
    own.members w = [] := by
  rw [Rows.writeAll_append] at hown
  obtain ⟨t, ht, hlast⟩ := Option.bind_eq_some_iff.mp hown
  obtain ⟨t', hwrite, hdone⟩ := Rows.writeAll_cons hlast
  rw [← Option.some.inj hdone]
  have hlawful : Lawful (.disable 0) [] writes s := h.lawful hs (fun _ _ _ => nofun)
  have hwell : t.WellFormed := hs.keep hlawful ht
  have hnone : t.workspaces.get? w = none := by
    rcases Rows.write_workspaces hwrite with ⟨_, hno⟩ | ⟨w', ws', heq, hnone, _⟩
    · exact absurd rfl (hno w ws)
    · cases heq
      exact hnone
  have hsame : t'.memberships = t.memberships := by
    rcases Rows.write_memberships hwrite with ⟨hsame, _⟩ | ⟨_, _, _, heq, _⟩ | ⟨_, _, _, heq, _⟩
    · exact hsame
    · cases heq
    · cases heq
  rw [Rows.members, hsame]
  refine List.filter_eq_nil_iff.mpr ?_
  rintro ⟨⟨w', u⟩, m⟩ hmem hw
  have heq : w' = w := by simpa using hw
  subst heq
  have hkey : (w', u) ∈ t.memberships.keys := List.mem_map.mpr ⟨_, hmem, rfl⟩
  obtain ⟨m', hm'⟩ := Option.isSome_iff_exists.mp (Dict.get?_isSome_of_mem_keys hkey)
  obtain ⟨ws', hfound, _⟩ := hwell.placed w' u m' hm'
  rw [hnone] at hfound
  cases hfound

theorem sound_raise (error : IdentityError) : discipline.Sound op (raise error) held s := by
  intro r hr
  cases hr
  trivial

theorem sound_finish {outcome : Outcome}
    (h : ∀ s', Rows.Steady held s s' → s'.WellFormed → Lawful op held writes s' ∧
      ∀ s'', Rows.writeAll writes s' = some s'' → Answers (.ok outcome) s'') :
    discipline.Sound op (finish writes outcome) held s := by
  intro s' hsteady hwell
  obtain ⟨hlawful, hanswers⟩ := h s' hsteady hwell
  cases hwrite : service.write writes s' with
  | none =>
    intro r hr
    cases hr
    trivial
  | some s'' =>
    refine ⟨⟨hlawful, hwrite⟩, ?_⟩
    intro r hr
    cases hr
    exact hanswers s'' hwrite

theorem sound_commitThenRaise {error : IdentityError}
    (h : ∀ s', Rows.Steady held s s' → s'.WellFormed → Lawful op held writes s') :
    discipline.Sound op (commitThenRaise writes error) held s := by
  intro s' hsteady hwell
  have hlawful := h s' hsteady hwell
  cases hwrite : service.write writes s' with
  | none => exact sound_raise error
  | some s'' => exact ⟨⟨hlawful, hwrite⟩, sound_raise error⟩

theorem sound_requireUser {next : User → Call}
    (h : ∀ found s', Rows.Steady held s s' → s'.WellFormed → discipline.Sound op (next found) held
      s') :
    discipline.Sound op (requireUser user next) held s := by
  intro s' hsteady hwell
  simp only
  split
  · exact sound_raise _
  · next found _ => exact h found s' hsteady hwell

theorem sound_requireActiveUser
    (h : ∀ s', Rows.Steady held s s' → s'.WellFormed → discipline.Sound op next held s') :
    discipline.Sound op (requireActiveUser user next) held s := by
  refine sound_requireUser ?_
  intro found s' hsteady hwell
  split
  · exact h s' hsteady hwell
  · exact sound_raise _

theorem sound_requireMembership {next : WorkspaceMembership → Call}
    (h : ∀ m s', Rows.Steady held s s' → s'.WellFormed → s'.memberships.get? (workspace, user) =
      some m → m.isActive = true → discipline.Sound op (next m) held s') :
    discipline.Sound op (requireMembership workspace user next) held s := by
  intro s' hsteady hwell
  simp only
  split
  · exact sound_raise _
  · next m hm =>
    split
    · next hactive => exact h m s' hsteady hwell hm hactive
    · exact sound_raise _

theorem sound_requireWorkspaceOwner {actor : ℕ}
    (h : ∀ s', Rows.Steady held s s' → s'.WellFormed → discipline.Sound op next held s') :
    discipline.Sound op (requireWorkspaceOwner actor workspace next) held s := by
  refine sound_requireActiveUser ?_
  intro s' hsteady _
  refine sound_requireMembership ?_
  intro m t hsteady' hwell _ _
  split
  · exact h t (hsteady.trans hsteady') hwell
  · exact sound_raise _

theorem sound_lockWorkspace {next : Option Workspace → Call}
    (hnone : ∀ s', Rows.Steady held s s' → s'.WellFormed → discipline.Sound op (next none) held s')
    (hsome : ∀ ws s', Rows.Steady held s s' → s'.WellFormed → s'.workspaces.get? workspace = some ws
      → discipline.Sound op (next (some ws)) (workspace :: held) s') :
    discipline.Sound op (lockWorkspace workspace next) held s := by
  intro s' hsteady hwell
  cases hfound : s'.workspaces.get? workspace with
  | none => simpa [hfound] using hnone s' hsteady hwell
  | some ws => simpa [hfound] using hsome ws s' hsteady hwell hfound

theorem sound_queryOwn {next : Rows → Call}
    (h : ∀ own s', Rows.Steady held s s' → s'.WellFormed → Rows.writeAll writes s' = some own →
      discipline.Sound op (next own) held s') :
    discipline.Sound op (queryOwn writes next) held s := by
  intro s' hsteady hwell
  simp only
  split
  · exact sound_raise _
  · next own hown => exact h own s' hsteady hwell hown

end

section
variable {op : Op} {held : List ℕ} {s : Rows}

theorem isFor_shared {ws : Workspace} (h : ws.kind = .shared) (user : ℕ) : ws.isFor user := by
  intro owner howner
  rw [h] at howner
  cases howner

theorem sound_createSharedWorkspace (actor : ℕ) (slug : String) (newWorkspace : ℕ)
    (hop : ∀ actor id now, op ≠ .accept actor id now) :
    discipline.Sound op (createSharedWorkspace actor slug newWorkspace) held s := by
  intro s' _ _
  simp only
  split
  · exact sound_raise _
  · refine sound_requireActiveUser ?_
    intro _ _ _
    refine sound_finish ?_
    intro t _ hwell
    refine ⟨(founding_workspace ?_).lawful hwell hop, fun _ _ => trivial⟩
    exact isFor_shared rfl actor

/-- What is found by its slug among the committed and the pending Workspaces. -/
theorem joins_found {pending : List Statement} {own : Rows} {slug : String} {w user : ℕ}
    {found : Workspace} (hs : s.WellFormed) (h : Founding pending s)
    (hown : Rows.writeAll pending s = some own)
    (hfound : own.workspaceBySlug slug = some (w, found))
    (hkind : found.kind = .shared) :
    s.isShared w ∨ ∃ ws, .insertWorkspace w ws ∈ pending ∧ ws.isFor user := by
  have hlawful : Lawful (.disable 0) [] pending s := h.lawful hs (fun _ _ _ => nofun)
  have hwell : own.WellFormed := hs.keep hlawful hown
  have hget : own.workspaces.get? w = some found :=
    Dict.get?_of_mem hwell.workspaces_nodup (List.mem_of_find?_eq_some hfound)
  rcases Rows.workspace_cases hown hget with hold | hnew
  · exact Or.inl ⟨found, hold, hkind⟩
  · exact Or.inr ⟨found, hnew, isFor_shared hkind user⟩

/-- Induction on the grants: each leaves the pending writes founding. -/
theorem sound_ensureDomainWorkspaceMemberships (user : ℕ) (email : Option (List Char))
    (grants : List (OidcDomainWorkspaceGrant × ℕ)) (pending : List Statement)
    (next : List Statement → Call) (held : List ℕ) (s : Rows) (h : Founding pending s)
    (hnext : ∀ writes held s, Founding writes s → discipline.Sound op (next writes) held s) :
    discipline.Sound op
      (ensureDomainWorkspaceMemberships user email grants pending next) held s := by
  induction grants generalizing pending held s with
  | nil => exact hnext pending held s h
  | cons grant grants ih =>
    obtain ⟨grant, newId⟩ := grant
    unfold ensureDomainWorkspaceMemberships
    split
    · intro s' hsteady hwell
      simp only
      split
      · exact sound_raise _
      · next own hown =>
        have hpending := h.steady hsteady
        split
        · refine sound_queryOwn ?_
          intro own t hsteady' hwell' hown'
          have hfounding := hpending.steady hsteady'
          have hempty := members_of_founded hwell' hfounding hown'
          rw [← Rows.get?_members, hempty]
          refine sound_queryOwn ?_
          intro own' t' hsteady'' hwell'' hown''
          have hfounding' := hfounding.steady hsteady''
          have hempty' := members_of_founded hwell'' hfounding' hown''
          have hcount : own'.countActiveOwners newId = 0 := by
            rw [Rows.countActiveOwners, hempty']
            rfl
          simp only [hcount, ↓reduceIte, List.append_assoc, List.cons_append, List.nil_append]
          refine ih _ _ _ (hfounding'.append (founding_workspace ?_))
          exact isFor_shared rfl user
        · next w found hfound =>
          split
          · exact sound_raise _
          · next hkind =>
            have hplace : s'.isShared w ∨ ∃ ws, .insertWorkspace w ws ∈ pending ∧ ws.isFor user :=
              joins_found hwell hpending hown hfound (not_not.mp hkind)
            refine sound_queryOwn ?_
            intro own' t hsteady' _ _
            have hfounding := hpending.steady hsteady'
            split
            · exact ih _ _ _ hfounding
            · refine sound_queryOwn ?_
              intro own'' t' hsteady'' _ _
              refine ih _ _ _ ((hfounding.steady hsteady'').join ?_)
              exact hplace.imp_left (fun hw => hsteady''.isShared (hsteady'.isShared hw))
    · exact ih _ _ _ h

theorem founding_of_users {writes : List Statement} (h : ∀ statement ∈ writes, ofUsers statement) :
    Founding writes s where
  joins _ _ _ hmem := (h _ hmem).elim
  founds _ _ hmem := (h _ hmem).elim
  plain statement hmem := by
    have husers := h statement hmem
    cases statement with
    | insertUser | setProfile | insertIdentity => trivial
    | _ => exact husers.elim

theorem sound_provisionOidcIdentity (grants : List (OidcDomainWorkspaceGrant × ℕ))
    (issuer subject : String) (email : Option (List Char)) (emailVerified : Bool)
    (newUser newPersonal : ℕ) (hop : ∀ actor id now, op ≠ .accept actor id now) :
    discipline.Sound op
      (provisionOidcIdentity grants issuer subject email emailVerified newUser newPersonal)
      held s := by
  have hfinish : ∀ (user workspace : ℕ) (writes : List Statement) (held : List ℕ) (s : Rows),
      Founding writes s →
        discipline.Sound op (finish writes (.provisioned user workspace)) held s := by
    intro user workspace writes held s h
    refine sound_finish ?_
    intro t hsteady hwell
    exact ⟨(h.steady hsteady).lawful hwell hop, fun _ _ => trivial⟩
  have hpersonal : ∀ (user : ℕ) (s : Rows),
      Founding [.insertWorkspace newPersonal ⟨personalSlug user, .personal user⟩,
        .insertMembership newPersonal user (.new .owner)] s := by
    intro user s
    refine founding_workspace ?_
    intro owner howner
    exact WorkspaceKind.personal.inj howner
  intro s' _ _
  simp only
  split
  · next user _ =>
    intro t _ _
    simp only
    split
    · exact sound_raise _
    · split
      · exact sound_raise _
      · intro t' _ _
        simp only
        split
        · refine sound_ensureDomainWorkspaceMemberships user email grants _ _ _ _ ?_
            (hfinish user _)
          exact founding_of_users (by simp [ofUsers])
        · refine sound_ensureDomainWorkspaceMemberships user email grants _ _ _ _ ?_
            (hfinish user _)
          exact (founding_of_users (by simp [ofUsers])).append (hpersonal user t')
  · refine sound_ensureDomainWorkspaceMemberships newUser email grants _ _ _ _ ?_
      (hfinish newUser _)
    exact (founding_of_users (by simp [ofUsers])).append (hpersonal newUser s')

end

end Grafy.Identity
