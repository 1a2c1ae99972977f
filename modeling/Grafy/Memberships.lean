import Mathlib.Data.Finset.Basic

/-!
Users, Workspaces and who may do what in them. A membership has a role and a
version that moves with everything that changes what it grants; a revoked
membership grants nothing. An invitation is pending until it is resolved once, and
a Workspace keeps its last owner.
-/
namespace Grafy.Identity

/-- A personal Workspace has a personal owner and a shared one has none. -/
inductive WorkspaceKind
  | personal (owner : ℕ)
  | shared
deriving DecidableEq

inductive WorkspaceRole
  | viewer
  | editor
  | owner
deriving DecidableEq

inductive WorkspaceInvitationStatus
  | pending
  | accepted
  | declined
  | cancelled
  | expired
deriving DecidableEq

inductive WorkspaceCapability
  | viewProject
  | viewArtifacts
  | viewRuns
  | joinProjectRoom
  | publishPresence
  | createProject
  | editProject
  | checkpointProject
  | startRun
  | cancelRun
  | manageSecrets
  | deleteProject
  | manageMembers
  | renameWorkspace
deriving DecidableEq

open WorkspaceCapability in
def WorkspaceCapability.all : Finset WorkspaceCapability :=
  {viewProject, viewArtifacts, viewRuns, joinProjectRoom, publishPresence, createProject,
    editProject, checkpointProject, startRun, cancelRun, manageSecrets, deleteProject,
    manageMembers, renameWorkspace}

open WorkspaceCapability in
def capabilitiesForRole : WorkspaceRole → Finset WorkspaceCapability
  | .viewer => {viewProject, viewArtifacts, viewRuns, joinProjectRoom, publishPresence}
  | .editor =>
    {viewProject, viewArtifacts, viewRuns, joinProjectRoom, publishPresence, createProject,
      editProject, checkpointProject, startRun, cancelRun}
  | .owner => WorkspaceCapability.all

open WorkspaceCapability in
def patAllowedCapabilities : Finset WorkspaceCapability :=
  {viewProject, viewArtifacts, viewRuns, createProject, editProject, checkpointProject, startRun,
    cancelRun, manageSecrets}

/-- What an operation raises, with what the error is about. -/
inductive IdentityError
  | notFound (kind : String) (ids : List ℕ)
  | userDisabled (user : ℕ)
  | invariant (message : String)
  | capabilityDenied (capability : String) (workspace user : ℕ)
  | lastWorkspaceOwner (workspace : ℕ)
  | integrity
deriving DecidableEq

structure User where
  active : Bool
  normalizedEmail : Option (List Char)
  emailVerified : Bool
deriving DecidableEq

structure Workspace where
  slug : String
  kind : WorkspaceKind
deriving DecidableEq

structure WorkspaceMembership where
  role : WorkspaceRole
  authorizationVersion : ℕ
  revokedAt : Option ℕ
deriving DecidableEq

namespace WorkspaceMembership

def new (role : WorkspaceRole) : WorkspaceMembership := ⟨role, 1, none⟩

def isActive (m : WorkspaceMembership) : Bool := m.revokedAt.isNone

def capabilities (m : WorkspaceMembership) : Finset WorkspaceCapability :=
  if m.isActive then capabilitiesForRole m.role else ∅

def grants (m : WorkspaceMembership) (capability : WorkspaceCapability) : Bool :=
  capability ∈ m.capabilities

def changeRole (m : WorkspaceMembership) (role : WorkspaceRole) : WorkspaceMembership :=
  if m.role ≠ role then
    { m with role := role, authorizationVersion := m.authorizationVersion + 1 }
  else m

def revoke (m : WorkspaceMembership) (now : ℕ) : WorkspaceMembership :=
  if m.revokedAt = none then
    { m with revokedAt := some now, authorizationVersion := m.authorizationVersion + 1 }
  else m

def reactivate (m : WorkspaceMembership) (role : WorkspaceRole) : WorkspaceMembership :=
  { role := role, revokedAt := none, authorizationVersion := m.authorizationVersion + 1 }

/-- An active owner, as the last owner rule counts them. -/
def isOwner (m : WorkspaceMembership) : Bool := m.isActive && m.role = .owner

variable {m : WorkspaceMembership}

theorem capabilities_of_revoked (h : m.isActive = false) : m.capabilities = ∅ := by
  rw [capabilities, h]
  rfl

/-- The version moves with everything that changes what a membership grants. -/
def Advances (old new : WorkspaceMembership) : Prop :=
  old.authorizationVersion ≤ new.authorizationVersion ∧
    (new.capabilities ≠ old.capabilities → old.authorizationVersion < new.authorizationVersion)

theorem Advances.refl (m : WorkspaceMembership) : m.Advances m := ⟨le_refl _, fun h => absurd rfl h⟩

theorem Advances.trans {a b c : WorkspaceMembership} (hab : a.Advances b) (hbc : b.Advances c) :
    a.Advances c := by
  refine ⟨hab.1.trans hbc.1, ?_⟩
  intro hne
  by_cases h : b.capabilities = a.capabilities
  · exact lt_of_le_of_lt hab.1 (hbc.2 (by rw [h]; exact hne))
  · exact lt_of_lt_of_le (hab.2 h) hbc.1

theorem advances_changeRole (m : WorkspaceMembership) (role : WorkspaceRole) :
    m.Advances (m.changeRole role) := by
  unfold changeRole
  split
  · exact ⟨Nat.le_succ _, fun _ => Nat.lt_succ_self _⟩
  · exact .refl m

theorem advances_revoke (m : WorkspaceMembership) (now : ℕ) : m.Advances (m.revoke now) := by
  unfold revoke
  split
  · exact ⟨Nat.le_succ _, fun _ => Nat.lt_succ_self _⟩
  · exact .refl m

theorem advances_reactivate (m : WorkspaceMembership) (role : WorkspaceRole) :
    m.Advances (m.reactivate role) := ⟨Nat.le_succ _, fun _ => Nat.lt_succ_self _⟩

/-- An active member whose role becomes owner is an owner. -/
theorem isOwner_changeRole (h : m.isActive = true) : (m.changeRole .owner).isOwner = true := by
  obtain ⟨role, version, revokedAt⟩ := m
  cases revokedAt with
  | some now => cases h
  | none => cases role <;> rfl

end WorkspaceMembership

structure WorkspaceInvitation where
  workspace : ℕ
  invitee : ℕ
  role : WorkspaceRole
  expiresAt : ℕ
  status : WorkspaceInvitationStatus
deriving DecidableEq

namespace WorkspaceInvitation

/-- `expire_if_due`: whether it is due while it is pending. -/
def isDue (i : WorkspaceInvitation) (now : ℕ) : Bool := i.status = .pending && i.expiresAt ≤ now

/-- `_resolve`: the status it takes, or what is raised. -/
def resolve (i : WorkspaceInvitation) (status : WorkspaceInvitationStatus) (now : ℕ) :
    Except IdentityError WorkspaceInvitationStatus :=
  if i.status ≠ .pending then .error (.invariant "Workspace invitation is no longer pending")
  else if i.expiresAt ≤ now then .error (.invariant "Workspace invitation has expired")
  else .ok status

theorem resolve_ok {i : WorkspaceInvitation} {status status' : WorkspaceInvitationStatus} {now : ℕ}
    (h : i.resolve status now = .ok status') : i.status = .pending ∧ status' = status := by
  unfold resolve at h
  split at h
  · cases h
  · next hpending =>
    split at h
    · cases h
    · exact ⟨not_not.mp hpending, (Except.ok.inj h).symm⟩

end WorkspaceInvitation

structure PersonalAccessToken where
  user : ℕ
  workspace : ℕ
  scopes : Finset WorkspaceCapability
  revoked : Bool
deriving DecidableEq

/-- A deployment grant: an email domain joins one shared Workspace. -/
structure OidcDomainWorkspaceGrant where
  emailDomain : List Char
  workspaceSlug : String
deriving DecidableEq

/-- `rpartition("@")`: what follows the last separator, where there is one. -/
def domainOf (email : List Char) : Option (List Char) :=
  if '@' ∈ email then some (email.reverse.takeWhile (fun c => c ≠ '@')).reverse else none

def OidcDomainWorkspaceGrant.matchesNormalizedEmail (grant : OidcDomainWorkspaceGrant)
    (email : List Char) : Bool := domainOf email = some grant.emailDomain

/-- Whether the target may be changed or removed. `replacement` is the role it changes to,
and there is none where it is removed. -/
def ensureLastOwnerCanChange (workspaceId : ℕ) (workspace : Workspace)
    (memberships : List WorkspaceMembership) (targetUser : ℕ) (target : WorkspaceMembership)
    (replacement : Option WorkspaceRole) : Except IdentityError Unit :=
  match workspace.kind with
  | .personal owner =>
    if targetUser ≠ owner then
      .error (.invariant "Personal workspace cannot accept another membership")
    else if replacement ≠ some .owner then
      .error (.invariant "Personal workspace owner membership cannot be removed or changed")
    else .ok ()
  | .shared =>
    if target.isOwner = false then .ok ()
    else if memberships.countP WorkspaceMembership.isOwner ≤ 1 ∧ replacement ≠ some .owner then
      .error (.lastWorkspaceOwner workspaceId)
    else .ok ()

end Grafy.Identity
