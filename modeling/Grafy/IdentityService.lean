import Grafy.IdentityRows
import Grafy.Transactions

/-!
The operations on users, Workspaces, memberships, invitations and tokens, each as the
program of its transaction. Every `await` on the store is a statement of its own, between
which other transactions commit; what an operation has read stays as it was read. Changing
who belongs to a Workspace takes the lock of its row.
-/
namespace Grafy.Identity

open OrderedDict Transactions

/-- What an operation returns. -/
inductive Outcome
  | provisioned (user personalWorkspace : ℕ)
  | created (workspace : ℕ)
  | invited (invitation : ℕ)
  | listed (invitations : List ℕ)
  | accepted (invitation : ℕ)
  | declined (invitation : ℕ)
  | cancelled (invitation : ℕ)
  | changed (workspace user : ℕ) (membership : WorkspaceMembership)
  | tokenCreated (token : ℕ)
  | tokenRevoked (token : ℕ)
  | disabled (user : ℕ)
deriving DecidableEq

abbrev Call := Program Rows ℕ (List Statement) (Except IdentityError Outcome)

def raise (error : IdentityError) : Call := .finished (some (.error error))

/-- The end of an operation: its writes are committed and it returns. -/
def finish (writes : List Statement) (outcome : Outcome) : Call :=
  .commit writes fun ok => .finished (some (if ok then .ok outcome else .error .integrity))

/-- A commit before an operation raises. -/
def commitThenRaise (writes : List Statement) (error : IdentityError) : Call :=
  .commit writes fun _ => raise error

/-- `_require_user`. -/
def requireUser (user : ℕ) (next : User → Call) : Call :=
  .query fun s =>
    match s.users.get? user with
    | none => raise (.notFound "User" [user])
    | some found => next found

/-- `_require_active_user`. -/
def requireActiveUser (user : ℕ) (next : Call) : Call :=
  requireUser user fun found => if found.active then next else raise (.userDisabled user)

/-- `_require_membership`. -/
def requireMembership (workspace user : ℕ) (next : WorkspaceMembership → Call) : Call :=
  .query fun s =>
    match s.memberships.get? (workspace, user) with
    | none => raise (.notFound "Workspace membership" [workspace, user])
    | some membership =>
      if membership.isActive then next membership
      else raise (.notFound "Workspace membership" [workspace, user])

/-- `_require_workspace_owner`. -/
def requireWorkspaceOwner (actor workspace : ℕ) (next : Call) : Call :=
  requireActiveUser actor <| requireMembership workspace actor fun membership =>
    if membership.grants .manageMembers then next
    else raise (.capabilityDenied "manage_members" workspace actor)

/-- `lock_workspace_for_membership_mutation`. -/
def lockWorkspace (workspace : ℕ) (next : Option Workspace → Call) : Call :=
  .lock (fun s => if (s.workspaces.get? workspace).isSome then some workspace else none)
    fun s => next (s.workspaces.get? workspace)

/-- A query that sees what this transaction has written. -/
def queryOwn (pending : List Statement) (next : Rows → Call) : Call :=
  .query fun s =>
    match Rows.writeAll pending s with
    | none => raise .integrity
    | some own => next own

/-- `owner_user_id.hex`. -/
def personalSlug (owner : ℕ) : String :=
  let digits := Nat.toDigits 16 owner
  String.ofList (List.replicate (32 - digits.length) '0' ++ digits)

/-- `_ensure_domain_workspace_memberships`, each grant with the id a new Workspace would take. -/
def ensureDomainWorkspaceMemberships (user : ℕ) (email : Option (List Char)) :
    List (OidcDomainWorkspaceGrant × ℕ) → List Statement → (List Statement → Call) → Call
  | [], pending, next => next pending
  | (grant, newId) :: grants, pending, next =>
    if email.any grant.matchesNormalizedEmail then
      .lock (fun s => (s.workspaceBySlug grant.workspaceSlug).map Prod.fst) fun s =>
        match Rows.writeAll pending s with
        | none => raise .integrity
        | some own =>
          let join (workspace : ℕ) (pending : List Statement) : Call :=
            queryOwn pending fun own =>
              if (own.memberships.get? (workspace, user)).isSome then
                ensureDomainWorkspaceMemberships user email grants pending next
              else queryOwn pending fun own =>
                let role : WorkspaceRole :=
                  if own.countActiveOwners workspace = 0 then .owner else .editor
                ensureDomainWorkspaceMemberships user email grants
                  (pending ++ [.insertMembership workspace user (.new role)]) next
          match own.workspaceBySlug grant.workspaceSlug with
          | none =>
            join newId (pending ++ [.insertWorkspace newId ⟨grant.workspaceSlug, .shared⟩])
          | some (workspace, found) =>
            if found.kind ≠ .shared then
              raise (.invariant "OIDC domain workspace slug is not shared")
            else join workspace pending
    else ensureDomainWorkspaceMemberships user email grants pending next

/-- `provision_oidc_identity`. -/
def provisionOidcIdentity (grants : List (OidcDomainWorkspaceGrant × ℕ)) (issuer subject : String)
    (email : Option (List Char)) (emailVerified : Bool) (newUser newPersonal : ℕ) : Call :=
  let personal (owner : ℕ) : List Statement :=
    [.insertWorkspace newPersonal ⟨personalSlug owner, .personal owner⟩,
      .insertMembership newPersonal owner (.new .owner)]
  .query fun s =>
    match s.identities.get? (issuer, subject) with
    | some user => .query fun s =>
      match s.users.get? user with
      | none => raise (.invariant "OIDC identity references a missing user")
      | some found =>
        if found.active = false then raise (.userDisabled user)
        else
          let profile : List Statement := [.setProfile user email emailVerified]
          .query fun s =>
            match s.personalWorkspace user with
            | some (workspace, _) =>
              ensureDomainWorkspaceMemberships user email grants profile fun writes =>
                finish writes (.provisioned user workspace)
            | none =>
              ensureDomainWorkspaceMemberships user email grants (profile ++ personal user)
                fun writes => finish writes (.provisioned user newPersonal)
    | none =>
      ensureDomainWorkspaceMemberships newUser email grants
        ([.insertUser newUser ⟨true, email, emailVerified⟩,
          .insertIdentity issuer subject newUser] ++ personal newUser)
        fun writes => finish writes (.provisioned newUser newPersonal)

/-- `create_shared_workspace`. -/
def createSharedWorkspace (actor : ℕ) (slug : String) (newWorkspace : ℕ) : Call :=
  .lock (fun s => (s.workspaceBySlug slug).map Prod.fst) fun s =>
    if (s.workspaceBySlug slug).isSome then
      raise (.invariant "Workspace slug is already in use")
    else requireActiveUser actor <|
      finish [.insertWorkspace newWorkspace ⟨slug, .shared⟩,
        .insertMembership newWorkspace actor (.new .owner)] (.created newWorkspace)

/-- `_expire_due_invitations`. -/
def expireDueInvitations (invitations : Dict ℕ WorkspaceInvitation) (now : ℕ) : List Statement :=
  (invitations.filter (fun entry => entry.2.isDue now)).map
    (fun entry => .resolveInvitation entry.1 .expired)

/-- `create_workspace_invitation`. What was listed first is not read again. -/
def createWorkspaceInvitation (actor workspace : ℕ) (email : List Char) (role : WorkspaceRole)
    (newInvitation now week : ℕ) : Call :=
  lockWorkspace workspace fun found =>
    match found with
    | none => raise (.notFound "Workspace" [workspace])
    | some found => requireWorkspaceOwner actor workspace <|
      if found.kind ≠ .shared then
        raise (.invariant "Personal workspace cannot accept invitations")
      else .query fun s =>
        let listed := s.invitationsOf workspace
        .query fun s =>
          match s.users.filter (fun entry => entry.2.normalizedEmail = some email ∧
            entry.2.emailVerified ∧ entry.2.active) with
          | [(invitee, _)] => .query fun s =>
            if (s.memberships.get? (workspace, invitee)).any WorkspaceMembership.isActive then
              raise (.invariant "User is already a workspace member")
            else .query fun s =>
              let again := (s.invitationsOf workspace).mapValues
                (fun id invitation => (listed.get? id).getD invitation)
              if again.any (fun entry => entry.2.invitee = invitee ∧
                  entry.2.status = .pending ∧
                    ¬ (entry.2.isDue now ∧ (listed.get? entry.1).isSome)) then
                raise (.invariant "A pending invitation already exists for this recipient")
              else
                finish (expireDueInvitations listed now ++
                    [.insertInvitation newInvitation
                      ⟨workspace, invitee, role, now + week, .pending⟩])
                  (.invited newInvitation)
          | _ => raise (.notFound "Invitation recipient" [])

/-- The end of the two listings: what is due expires, and the pending ones are returned. -/
def listPending (listed : Dict ℕ WorkspaceInvitation) (now : ℕ) : Call :=
  let pending : Dict ℕ WorkspaceInvitation := listed.filter (fun entry =>
    entry.2.status = .pending ∧ entry.2.isDue now = false)
  if expireDueInvitations listed now = [] then .finished (some (.ok (.listed pending.keys)))
  else finish (expireDueInvitations listed now) (.listed pending.keys)

/-- `list_workspace_invitations`. -/
def listWorkspaceInvitations (actor workspace now : ℕ) : Call :=
  requireWorkspaceOwner actor workspace <| .query fun s =>
    listPending (s.invitationsOf workspace) now

/-- `list_my_workspace_invitations`. -/
def listMyWorkspaceInvitations (actor now : ℕ) : Call :=
  requireActiveUser actor <| .query fun s => listPending (s.invitationsFor actor) now

/-- `accept_workspace_invitation`. The invitation is read before the Workspace is locked. -/
def acceptWorkspaceInvitation (actor id now : ℕ) : Call :=
  requireActiveUser actor <| .query fun s =>
    match s.invitations.get? id with
    | none => raise (.notFound "Workspace invitation" [id])
    | some invitation =>
      if invitation.invitee ≠ actor then raise (.notFound "Workspace invitation" [id])
      else lockWorkspace invitation.workspace fun found =>
        if found.isNone then raise (.notFound "Workspace" [invitation.workspace])
        else if invitation.isDue now then
          commitThenRaise [.resolveInvitation id .expired]
            (.invariant "Workspace invitation has expired")
        else if invitation.status ≠ .pending then
          raise (.invariant "Workspace invitation is no longer pending")
        else .query fun s =>
          let end_ (membership : Statement) : Call :=
            match invitation.resolve .accepted now with
            | .error e => raise e
            | .ok status =>
              finish [membership, .resolveInvitation id status,
                .noteAcceptance ⟨id, invitation.workspace, actor, invitation.role⟩] (.accepted id)
          match s.memberships.get? (invitation.workspace, actor) with
          | none => end_ (.insertMembership invitation.workspace actor (.new invitation.role))
          | some membership =>
            if membership.isActive then raise (.invariant "User is already a workspace member")
            else end_ (.updateMembership invitation.workspace actor
              (membership.reactivate invitation.role))

/-- The resolution of `decline` and `cancel`, of an invitation as it was read. -/
def resolveRead (id : ℕ) (invitation : WorkspaceInvitation) (status : WorkspaceInvitationStatus)
    (now : ℕ) (outcome : Outcome) : Call :=
  if invitation.isDue now then
    commitThenRaise [.resolveInvitation id .expired]
      (.invariant "Workspace invitation has expired")
  else
    match invitation.resolve status now with
    | .error e => raise e
    | .ok status => finish [.resolveInvitation id status] outcome

/-- `decline_workspace_invitation`. -/
def declineWorkspaceInvitation (actor id now : ℕ) : Call :=
  requireActiveUser actor <| .query fun s =>
    match s.invitations.get? id with
    | none => raise (.notFound "Workspace invitation" [id])
    | some invitation =>
      if invitation.invitee ≠ actor then raise (.notFound "Workspace invitation" [id])
      else lockWorkspace invitation.workspace fun _ =>
        resolveRead id invitation .declined now (.declined id)

/-- `cancel_workspace_invitation`. It takes no lock. -/
def cancelWorkspaceInvitation (actor workspace id now : ℕ) : Call :=
  requireWorkspaceOwner actor workspace <| .query fun s =>
    match s.invitations.get? id with
    | none => raise (.notFound "Workspace invitation" [id])
    | some invitation =>
      if invitation.workspace ≠ workspace then raise (.notFound "Workspace invitation" [id])
      else resolveRead id invitation .cancelled now (.cancelled id)

/-- `create_personal_access_token`. It takes no lock. -/
def createPersonalAccessToken (actor id : ℕ) (token : PersonalAccessToken) : Call :=
  requireActiveUser actor <|
  if token.user ≠ actor then
    raise (.invariant "PAT owner must match the authenticated user")
  else if ¬ token.scopes ⊆ patAllowedCapabilities then
    raise (.invariant "Personal access token scope is not available")
  else requireMembership token.workspace actor fun membership =>
    if ¬ token.scopes ⊆ membership.capabilities then
      raise (.capabilityDenied "personal_access_token_scope" token.workspace actor)
    else finish [.insertToken id { token with revoked := false }] (.tokenCreated id)

/-- `revoke_personal_access_token`. -/
def revokePersonalAccessToken (actor workspace id : ℕ) : Call :=
  requireActiveUser actor <| requireMembership workspace actor fun membership =>
    if membership.grants .viewProject then .query fun s =>
      match (s.tokensOf actor workspace).get? id with
      | none => raise (.notFound "Personal access token" [id])
      | some _ => finish [.revokeToken id] (.tokenRevoked id)
    else raise (.capabilityDenied "view_project" workspace actor)

/-- `_revoke_workspace_pats_exceeding_capabilities`. -/
def revokeExceeding (tokens : Dict ℕ PersonalAccessToken)
    (remaining : Finset WorkspaceCapability) : List Statement :=
  (tokens.filter (fun entry => ¬ entry.2.scopes ⊆ remaining ∧ entry.2.revoked = false)).map
    (fun entry => .revokeToken entry.1)

/-- The end of `change_member_role` and `remove_member`: the membership as it becomes, and the
tokens it no longer covers revoked. -/
def saveMembership (workspace user : ℕ) (membership : WorkspaceMembership) : Call :=
  .query fun s =>
    finish (.updateMembership workspace user membership ::
        revokeExceeding (s.tokensOf user workspace) membership.capabilities)
      (.changed workspace user membership)

/-- `change_member_role`. -/
def changeMemberRole (actor workspace user : ℕ) (role : WorkspaceRole) : Call :=
  lockWorkspace workspace fun found =>
    match found with
    | none => raise (.notFound "Workspace" [workspace])
    | some found => requireWorkspaceOwner actor workspace <|
      requireMembership workspace user fun membership => requireUser user fun _ =>
        .query fun s =>
          match ensureLastOwnerCanChange workspace found (s.members workspace).values user
            membership (some role) with
          | .error e => raise e
          | .ok () => saveMembership workspace user (membership.changeRole role)

/-- `remove_member`. -/
def removeMember (actor workspace user now : ℕ) : Call :=
  lockWorkspace workspace fun found =>
    match found with
    | none => raise (.notFound "Workspace" [workspace])
    | some found => requireWorkspaceOwner actor workspace <|
      requireMembership workspace user fun membership =>
        .query fun s =>
          match ensureLastOwnerCanChange workspace found (s.members workspace).values user
            membership none with
          | .error e => raise e
          | .ok () => saveMembership workspace user (membership.revoke now)

/-- `disable_user`. -/
def disableUser (user : ℕ) : Call :=
  requireUser user fun _ => .query fun s =>
    finish (.deactivateUser user ::
        (s.tokens.filter (fun entry => entry.2.user = user ∧ entry.2.revoked = false)).map
          (fun entry => .revokeToken entry.1))
      (.disabled user)

inductive Op
  | provision (grants : List (OidcDomainWorkspaceGrant × ℕ)) (issuer subject : String)
      (email : Option (List Char)) (emailVerified : Bool) (newUser newPersonal : ℕ)
  | createShared (actor : ℕ) (slug : String) (newWorkspace : ℕ)
  | invite (actor workspace : ℕ) (email : List Char) (role : WorkspaceRole)
      (newInvitation now week : ℕ)
  | listWorkspace (actor workspace now : ℕ)
  | listMine (actor now : ℕ)
  | accept (actor invitation now : ℕ)
  | decline (actor invitation now : ℕ)
  | cancel (actor workspace invitation now : ℕ)
  | createToken (actor id : ℕ) (token : PersonalAccessToken)
  | revokeToken (actor workspace id : ℕ)
  | changeRole (actor workspace user : ℕ) (role : WorkspaceRole)
  | remove (actor workspace user now : ℕ)
  | disable (user : ℕ)
deriving DecidableEq

def Op.program : Op → Call
  | .provision grants issuer subject email emailVerified newUser newPersonal =>
    provisionOidcIdentity grants issuer subject email emailVerified newUser newPersonal
  | .createShared actor slug newWorkspace => createSharedWorkspace actor slug newWorkspace
  | .invite actor workspace email role newInvitation now week =>
    createWorkspaceInvitation actor workspace email role newInvitation now week
  | .listWorkspace actor workspace now => listWorkspaceInvitations actor workspace now
  | .listMine actor now => listMyWorkspaceInvitations actor now
  | .accept actor invitation now => acceptWorkspaceInvitation actor invitation now
  | .decline actor invitation now => declineWorkspaceInvitation actor invitation now
  | .cancel actor workspace invitation now =>
    cancelWorkspaceInvitation actor workspace invitation now
  | .createToken actor id token => createPersonalAccessToken actor id token
  | .revokeToken actor workspace id => revokePersonalAccessToken actor workspace id
  | .changeRole actor workspace user role => changeMemberRole actor workspace user role
  | .remove actor workspace user now => removeMember actor workspace user now
  | .disable user => disableUser user

/-- Any number of these transactions over the identity rows. -/
def service : Machine Rows ℕ (List Statement) (Except IdentityError Outcome) Op where
  program := Op.program
  write := Rows.writeAll
  shares := sharedRows

/-- `authenticate_personal_access_token`: what a token may do, if it authenticates. Its secret
and its expiry may refuse it before. -/
def authenticatePersonalAccessToken (s : Rows) (id : ℕ) : Option (Finset WorkspaceCapability) :=
  match s.tokens.get? id with
  | none => none
  | some token =>
    if token.revoked then none
    else
      match s.users.get? token.user, s.memberships.get? (token.workspace, token.user) with
      | some user, some membership =>
        if user.active && membership.isActive then some (token.scopes ∩ membership.capabilities)
        else none
      | _, _ => none

end Grafy.Identity
