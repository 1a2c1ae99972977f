import Grafy.IdentityService
import Grafy.IdentityWrites

/-!
What the identity operations keep of the rows, and what they may rely on while they hold the
lock of a Workspace: its members stay as they are and no token is issued in it, since a
foreign key shares the row that is held. `Lawful` lists what a set of writes may do; every
lemma about commits goes back to it.
-/
namespace Grafy.Identity

open OrderedDict Transactions

/-- A personal Workspace is for its owner alone. -/
def Workspace.isFor (ws : Workspace) (user : ℕ) : Prop :=
  ∀ owner, ws.kind = .personal owner → user = owner

variable {held : List ℕ} {s s' : Rows} {w : ℕ}

namespace Rows

def isShared (s : Rows) (workspace : ℕ) : Prop :=
  ∃ ws, s.workspaces.get? workspace = some ws ∧ ws.kind = .shared

/-- Every Workspace has an active owner, and a personal one has no other member. -/
structure WellFormed (s : Rows) : Prop where
  workspaces_nodup : s.workspaces.keys.Nodup
  memberships_nodup : s.memberships.keys.Nodup
  placed : ∀ w u m, s.memberships.get? (w, u) = some m →
    ∃ ws, s.workspaces.get? w = some ws ∧ ws.isFor u
  owned : ∀ w ws, s.workspaces.get? w = some ws →
    ∃ u m, s.memberships.get? (w, u) = some m ∧ m.isOwner = true
  invited : ∀ id invitation, s.invitations.get? id = some invitation →
    s.isShared invitation.workspace

theorem wellFormed_empty : WellFormed empty := by
  refine ⟨List.nodup_nil, List.nodup_nil, ?_, ?_, ?_⟩
  · intro w u m h
    cases h
  · intro w ws h
    cases h
  · intro id invitation h
    cases h

/-- What stays while a transaction holds some Workspaces. -/
structure Steady (held : List ℕ) (s s' : Rows) : Prop where
  workspaces : ∀ w ws, s.workspaces.get? w = some ws → s'.workspaces.get? w = some ws
  members : ∀ w ∈ held, s'.members w = s.members w
  tokens : ∀ id token, s'.tokens.get? id = some token → token.workspace ∈ held →
    ∃ old, s.tokens.get? id = some old ∧ old.Became token
  invitations : ∀ id old, s.invitations.get? id = some old →
    ∃ new, s'.invitations.get? id = some new ∧ old.Same new
  resolutions : s.resolutions ⊆ s'.resolutions

theorem Steady.refl (held : List ℕ) (s : Rows) : Steady held s s :=
  ⟨fun _ _ h => h, fun _ _ => rfl, fun _ token h _ => ⟨token, h, .refl token⟩,
    fun _ old h => ⟨old, h, .refl old⟩, List.Subset.refl _⟩

theorem Steady.trans {a b c : Rows} (hab : Steady held a b) (hbc : Steady held b c) :
    Steady held a c := by
  refine ⟨?_, ?_, ?_, ?_, List.Subset.trans hab.resolutions hbc.resolutions⟩
  · intro w ws h
    exact hbc.workspaces w ws (hab.workspaces w ws h)
  · intro w hw
    rw [hbc.members w hw, hab.members w hw]
  · intro id token h hheld
    obtain ⟨mid, hmid, hlater⟩ := hbc.tokens id token h hheld
    obtain ⟨old, hold, hbecame⟩ := hab.tokens id mid hmid (by rw [← hlater.workspace]; exact hheld)
    exact ⟨old, hold, hbecame.trans hlater⟩
  · intro id old h
    obtain ⟨mid, hmid, hsame⟩ := hab.invitations id old h
    obtain ⟨new, hnew, hlater⟩ := hbc.invitations id mid hmid
    exact ⟨new, hnew, hsame.trans hlater⟩

theorem get?_members (s : Rows) (w u : ℕ) :
    (s.members w).get? (w, u) = s.memberships.get? (w, u) := by
  unfold members
  generalize s.memberships = d
  induction d with
  | nil => rfl
  | cons entry rest ih =>
    obtain ⟨⟨w', u'⟩, m⟩ := entry
    by_cases hw : w' = w
    · subst hw
      simp only [List.filter_cons, decide_true, ↓reduceIte, Dict.get?_cons, ih]
    · have hkey : (w', u') ≠ (w, u) := fun heq => hw (Prod.mk.inj heq).1
      simp only [List.filter_cons, hw, decide_false, Dict.get?_cons, hkey, ↓reduceIte,
        Bool.false_eq_true]
      exact ih

theorem Steady.membership (h : Steady held s s') (hw : w ∈ held) (u : ℕ) :
    s'.memberships.get? (w, u) = s.memberships.get? (w, u) := by
  rw [← get?_members, h.members w hw, get?_members]

theorem Steady.isShared (h : Steady held s s') (hw : s.isShared w) : s'.isShared w := by
  obtain ⟨ws, hfound, hkind⟩ := hw
  exact ⟨ws, h.workspaces w ws hfound, hkind⟩

end Rows

/-- An acceptance: the invitation, and the membership it creates or reactivates. -/
structure Gains (writes : List Statement) (s : Rows) (a : Acceptance) : Prop where
  invitation : ∃ i, s.invitations.get? a.invitation = some i ∧ i.workspace = a.workspace ∧
    i.invitee = a.user ∧ i.role = a.role
  resolved : .resolveInvitation a.invitation .accepted ∈ writes
  membership : .insertMembership a.workspace a.user (.new a.role) ∈ writes ∨
    ∃ old, s.memberships.get? (a.workspace, a.user) = some old ∧ old.isActive = false ∧
      .updateMembership a.workspace a.user (old.reactivate a.role) ∈ writes
  only : ∀ m, .updateMembership a.workspace a.user m ∈ writes → m.isActive = true ∧ m.role = a.role

/-- An update of a membership: it moves on from the one that is committed, and the tokens it
no longer covers are revoked with it. -/
structure Changes (held : List ℕ) (writes : List Statement) (s : Rows) (w u : ℕ)
    (new : WorkspaceMembership) : Prop where
  held : w ∈ held
  advances : ∃ old, s.memberships.get? (w, u) = some old ∧ old.Advances new ∧
    ∀ id token, s.tokens.get? id = some token → token.workspace = w → token.user = u →
      token.revoked = false → token.scopes ⊆ old.capabilities →
        token.scopes ⊆ new.capabilities ∨ .revokeToken id ∈ writes

/-- What an operation may write while it holds some Workspaces. -/
structure Lawful (op : Op) (held : List ℕ) (writes : List Statement) (s : Rows) : Prop where
  joins : ∀ w u m, .insertMembership w u m ∈ writes →
    s.isShared w ∨ ∃ ws, .insertWorkspace w ws ∈ writes ∧ ws.isFor u
  founds : ∀ w ws, .insertWorkspace w ws ∈ writes →
    ∃ u m, .insertMembership w u m ∈ writes ∧ m.isOwner = true
  changes : ∀ w u m, .updateMembership w u m ∈ writes → Changes held writes s w u m
  owners : ∀ w ws, s.workspaces.get? w = some ws → ∃ u m, s.memberships.get? (w, u) = some m ∧
    m.isOwner = true ∧ ∀ m', .updateMembership w u m' ∈ writes → m'.isOwner = true
  invites : ∀ id i, .insertInvitation id i ∈ writes → s.isShared i.workspace ∧ i.status = .pending
  resolves : ∀ id status, .resolveInvitation id status ∈ writes →
    (∃ i, s.invitations.get? id = some i) ∧ status ≠ .pending ∧
      ∀ status', .resolveInvitation id status' ∈ writes → status' = status
  accepts : ∀ id, .resolveInvitation id .accepted ∈ writes →
    ∃ a, .noteAcceptance a ∈ writes ∧ a.invitation = id
  gains : ∀ a, .noteAcceptance a ∈ writes → Gains writes s a
  invitedBy : ∀ actor id now, op = .accept actor id now → ∀ w u m,
    .insertMembership w u m ∈ writes ∨ .updateMembership w u m ∈ writes →
      ∃ a, .noteAcceptance a ∈ writes ∧ a.invitation = id ∧ a.workspace = w ∧ a.user = u
  issues : ∀ id token, .insertToken id token ∈ writes →
    (∃ actor asked, op = .createToken actor id asked ∧ token = { asked with revoked := false }) ∧
      ∀ w u m, .updateMembership w u m ∉ writes

section
variable {op : Op} {writes : List Statement}

theorem Rows.WellFormed.keep (hs : s.WellFormed) (h : Lawful op held writes s)
    (hwrite : Rows.writeAll writes s = some s') : s'.WellFormed := by
  obtain ⟨hworkspaces, hmemberships⟩ :=
    Rows.keys_writeAll_nodup hwrite ⟨hs.workspaces_nodup, hs.memberships_nodup⟩
  have hshared : ∀ {w : ℕ}, s.isShared w → s'.isShared w := by
    rintro w ⟨ws, hfound, hkind⟩
    exact ⟨ws, Rows.workspace_stays hwrite hfound, hkind⟩
  refine ⟨hworkspaces, hmemberships, ?_, ?_, ?_⟩
  · intro w u m hm
    rcases Rows.membership_cases hwrite hm with ⟨old, hold⟩ | ⟨new, hnew⟩
    · obtain ⟨ws, hfound, hfor⟩ := hs.placed w u old hold
      exact ⟨ws, Rows.workspace_stays hwrite hfound, hfor⟩
    · rcases h.joins w u new hnew with ⟨ws, hfound, hkind⟩ | ⟨ws, hinsert, hfor⟩
      · refine ⟨ws, Rows.workspace_stays hwrite hfound, ?_⟩
        intro owner howner
        rw [hkind] at howner
        cases howner
      · exact ⟨ws, (Rows.workspace_inserted hwrite hinsert).2, hfor⟩
  · intro w ws hw
    rcases Rows.workspace_cases hwrite hw with hold | hnew
    · obtain ⟨u, m, hm, howner, hupdates⟩ := h.owners w ws hold
      obtain ⟨m', hm', hfrom⟩ := Rows.membership_stays hwrite hm
      refine ⟨u, m', hm', ?_⟩
      rcases hfrom with ⟨rfl, _⟩ | hupdate
      · exact howner
      · exact hupdates m' hupdate
    · obtain ⟨u, m, hm, howner⟩ := h.founds w ws hnew
      obtain ⟨hnone, m', hm', hfrom⟩ := Rows.membership_inserted hwrite hm
      refine ⟨u, m', hm', ?_⟩
      rcases hfrom with rfl | hupdate
      · exact howner
      · obtain ⟨old, hold, _⟩ := (h.changes w u m' hupdate).advances
        rw [hnone] at hold
        cases hold
  · intro id i hi
    rcases Rows.invitation_cases hwrite hi with ⟨old, hold⟩ | ⟨_, new, hnew, hsame, _⟩
    · obtain ⟨i', hi', hsame, _⟩ := Rows.invitation_stays hwrite hold
      rw [hi] at hi'
      cases hi'
      rw [hsame.workspace]
      exact hshared (hs.invited id old hold)
    · rw [hsame.workspace]
      exact hshared (h.invites id new hnew).1

/-- Whoever holds none of the Workspaces that a commit holds or refers to finds its own as
they were. -/
theorem Lawful.steady (h : Lawful op held writes s) (hwrite : Rows.writeAll writes s = some s')
    {other : List ℕ} (hother : ∀ w ∈ other, w ∉ held ∧ w ∉ sharedRows writes) :
    Rows.Steady other s s' := by
  refine ⟨?_, ?_, ?_, ?_, ?_⟩
  · intro w ws hw
    exact Rows.workspace_stays hwrite hw
  · intro w hw
    obtain ⟨hheld, hshares⟩ := hother w hw
    refine Rows.members_untouched hwrite ?_ ?_
    · intro u m hmem
      exact hshares (List.mem_filterMap.mpr ⟨_, hmem, rfl⟩)
    · intro u m hmem
      exact hheld (h.changes w u m hmem).held
  · intro id token htoken hw
    obtain ⟨_, hshares⟩ := hother token.workspace hw
    rcases Rows.token_cases hwrite htoken with ⟨old, hold⟩ | ⟨new, hnew, hbecame⟩
    · obtain ⟨last, hlast, hbecame, _⟩ := Rows.token_stays hwrite hold
      rw [htoken] at hlast
      cases hlast
      exact ⟨old, hold, hbecame⟩
    · refine absurd (List.mem_filterMap.mpr ⟨_, hnew, ?_⟩) hshares
      rw [hbecame.workspace]
  · intro id old hold
    obtain ⟨new, hnew, hsame, _⟩ := Rows.invitation_stays hwrite hold
    exact ⟨new, hnew, hsame⟩
  · rintro ⟨id, status⟩ hmem
    exact (Rows.mem_resolutions hwrite).mpr (Or.inl hmem)

end

/-- An answer tells how the invitation was resolved. -/
def Answers : Except IdentityError Outcome → Rows → Prop
  | .ok (.accepted id), s => (id, .accepted) ∈ s.resolutions
  | .ok (.declined id), s => (id, .declined) ∈ s.resolutions
  | .ok (.cancelled id), s => (id, .cancelled) ∈ s.resolutions
  | _, _ => True

theorem Answers.steady (hsteady : Rows.Steady held s s') {result : Except IdentityError Outcome}
    (h : Answers result s) : Answers result s' := by
  cases result with
  | error => trivial
  | ok outcome =>
    cases outcome with
    | accepted id | declined id | cancelled id => exact hsteady.resolutions h
    | _ => trivial

def discipline : Discipline service where
  holds := Rows.WellFormed
  rely := Rows.Steady
  guarantee op held writes s s' := Lawful op held writes s ∧ Rows.writeAll writes s = some s'
  answers _ := Answers
  refl := Rows.Steady.refl
  trans _ _ _ _ := Rows.Steady.trans
  keeps _ _ _ _ _ hs h := hs.keep h.1 h.2
  compatible _ _ _ _ _ _ _ h hheld := h.1.steady h.2 hheld
  stable _ _ _ _ hsteady h := h.steady hsteady

end Grafy.Identity
