import Grafy.Memberships
import Grafy.OrderedDict

/-!
The committed rows of the identity tables, and what a transaction writes to them. The
schema's keys and unique indexes refuse a set of writes as a whole. Two lists that are not
tables record what was written: the statuses invitations were given, and the memberships
that acceptances gave.
-/
namespace Grafy.Identity

open OrderedDict

/-- A membership created or reactivated by accepting an invitation. -/
structure Acceptance where
  invitation : ℕ
  workspace : ℕ
  user : ℕ
  role : WorkspaceRole
deriving DecidableEq

structure Rows where
  users : Dict ℕ User
  identities : Dict (String × String) ℕ
  workspaces : Dict ℕ Workspace
  memberships : Dict (ℕ × ℕ) WorkspaceMembership
  invitations : Dict ℕ WorkspaceInvitation
  tokens : Dict ℕ PersonalAccessToken
  resolutions : List (ℕ × WorkspaceInvitationStatus)
  acceptances : List Acceptance
deriving DecidableEq

inductive Statement
  | insertUser (id : ℕ) (user : User)
  | setProfile (id : ℕ) (normalizedEmail : Option (List Char)) (emailVerified : Bool)
  | deactivateUser (id : ℕ)
  | insertIdentity (issuer subject : String) (user : ℕ)
  | insertWorkspace (id : ℕ) (workspace : Workspace)
  | insertMembership (workspace user : ℕ) (membership : WorkspaceMembership)
  | updateMembership (workspace user : ℕ) (membership : WorkspaceMembership)
  | insertInvitation (id : ℕ) (invitation : WorkspaceInvitation)
  | resolveInvitation (id : ℕ) (status : WorkspaceInvitationStatus)
  | insertToken (id : ℕ) (token : PersonalAccessToken)
  | revokeToken (id : ℕ)
  | noteAcceptance (acceptance : Acceptance)
deriving DecidableEq

namespace Rows

def empty : Rows := ⟨[], [], [], [], [], [], [], []⟩

def workspaceBySlug (s : Rows) (slug : String) : Option (ℕ × Workspace) :=
  s.workspaces.find? (fun entry => entry.2.slug = slug)

def personalWorkspace (s : Rows) (owner : ℕ) : Option (ℕ × Workspace) :=
  s.workspaces.find? (fun entry => entry.2.kind = .personal owner)

/-- The memberships of a Workspace, each with its user. -/
def members (s : Rows) (workspace : ℕ) : Dict (ℕ × ℕ) WorkspaceMembership :=
  s.memberships.filter (fun entry => entry.1.1 = workspace)

def countActiveOwners (s : Rows) (workspace : ℕ) : ℕ :=
  (s.members workspace).values.countP WorkspaceMembership.isOwner

def invitationsOf (s : Rows) (workspace : ℕ) : Dict ℕ WorkspaceInvitation :=
  s.invitations.filter (fun entry => entry.2.workspace = workspace)

def invitationsFor (s : Rows) (invitee : ℕ) : Dict ℕ WorkspaceInvitation :=
  s.invitations.filter (fun entry => entry.2.invitee = invitee)

def tokensOf (s : Rows) (user workspace : ℕ) : Dict ℕ PersonalAccessToken :=
  s.tokens.filter (fun entry => entry.2.user = user ∧ entry.2.workspace = workspace)

/-- What a user may do in a Workspace: nothing without a membership. -/
def capabilities (s : Rows) (workspace user : ℕ) : Finset WorkspaceCapability :=
  ((s.memberships.get? (workspace, user)).map WorkspaceMembership.capabilities).getD ∅

/-- One statement, if the constraints allow it: primary keys, one Workspace for each slug
and for each personal owner, one pending invitation for each recipient, and the rows that are
referenced. -/
def write (s : Rows) : Statement → Option Rows
  | .insertUser id user =>
    if (s.users.get? id).isSome then none else some { s with users := s.users ++ [(id, user)] }
  | .setProfile id normalizedEmail emailVerified => some
      { s with
        users := s.users.mapValues (fun k user =>
          if k = id then { user with normalizedEmail, emailVerified } else user) }
  | .deactivateUser id => some
      { s with
        users := s.users.mapValues (fun k user =>
          if k = id then { user with active := false } else user) }
  | .insertIdentity issuer subject user =>
    if (s.identities.get? (issuer, subject)).isSome then none
    else some { s with identities := s.identities ++ [((issuer, subject), user)] }
  | .insertWorkspace id workspace =>
    if (s.workspaces.get? id).isSome ∨ (s.workspaceBySlug workspace.slug).isSome ∨
        s.workspaces.any (fun entry =>
          entry.2.kind = workspace.kind ∧ workspace.kind ≠ .shared) then none
    else some { s with workspaces := s.workspaces ++ [(id, workspace)] }
  | .insertMembership workspace user membership =>
    if (s.memberships.get? (workspace, user)).isSome ∨ (s.workspaces.get? workspace).isNone ∨
        (s.users.get? user).isNone then none
    else some { s with memberships := s.memberships ++ [((workspace, user), membership)] }
  | .updateMembership workspace user membership => some
      { s with
        memberships := s.memberships.mapValues (fun k old =>
          if k = (workspace, user) then membership else old) }
  | .insertInvitation id invitation =>
    if (s.invitations.get? id).isSome ∨ s.invitations.any (fun entry =>
        entry.2.workspace = invitation.workspace ∧ entry.2.invitee = invitation.invitee ∧
          entry.2.status = .pending ∧ invitation.status = .pending) then none
    else some { s with invitations := s.invitations ++ [(id, invitation)] }
  | .resolveInvitation id status => some
      { s with
        invitations := s.invitations.mapValues (fun k invitation =>
          if k = id then { invitation with status } else invitation)
        resolutions := s.resolutions ++ [(id, status)] }
  | .insertToken id token =>
    if (s.tokens.get? id).isSome then none else some { s with tokens := s.tokens ++ [(id, token)] }
  | .revokeToken id => some
      { s with
        tokens := s.tokens.mapValues (fun k token =>
          if k = id then { token with revoked := true } else token) }
  | .noteAcceptance acceptance => some { s with acceptances := s.acceptances ++ [acceptance] }

/-- A set of writes, in order. -/
def writeAll : List Statement → Rows → Option Rows
  | [], s => some s
  | statement :: writes, s => (s.write statement).bind (writeAll writes)

theorem writeAll_append (a b : List Statement) (s : Rows) :
    writeAll (a ++ b) s = (writeAll a s).bind (writeAll b) := by
  induction a generalizing s with
  | nil => rfl
  | cons statement a ih =>
    rw [List.cons_append, writeAll, writeAll, Option.bind_assoc]
    congr 1
    funext t
    exact ih t

end Rows

/-- The Workspaces a set of writes refers to with a foreign key: their rows are shared with
whoever holds them. -/
def sharedRows (writes : List Statement) : List ℕ :=
  writes.filterMap fun
    | .insertMembership workspace _ _ => some workspace
    | .insertInvitation _ invitation => some invitation.workspace
    | .insertToken _ token => some token.workspace
    | _ => none

end Grafy.Identity
