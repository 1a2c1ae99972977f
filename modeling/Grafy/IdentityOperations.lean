import Grafy.IdentityPrograms

/-!
The operations on invitations, members and tokens keep the discipline. Where one has locked
the Workspace, the members it has read are those it commits over; where it has not, only
what never changes of a row it has read is used.
-/
namespace Grafy.Identity

open OrderedDict

variable {op : Op} {held : List ℕ} {s : Rows} {w u : ℕ} {old new : WorkspaceMembership}

section Lawful
theorem lawful_acceptance (hs : s.WellFormed) {a : Acceptance} {statement : Statement}
    (hinvitation : ∃ i, s.invitations.get? a.invitation = some i ∧ i.workspace = a.workspace ∧
      i.invitee = a.user ∧ i.role = a.role)
    (hheld : a.workspace ∈ held)
    (hstatement : statement = .insertMembership a.workspace a.user (.new a.role) ∨
      ∃ old, s.memberships.get? (a.workspace, a.user) = some old ∧ old.isActive = false ∧
        statement = .updateMembership a.workspace a.user (old.reactivate a.role))
    (hop : ∀ actor id now, op = .accept actor id now → a.invitation = id) :
    Lawful op held
      [statement, .resolveInvitation a.invitation .accepted, .noteAcceptance a] s := by
  obtain ⟨i, hi, hworkspace, hinvitee, hrole⟩ := hinvitation
  have hupdate : ∀ w u m,
      .updateMembership w u m ∈ [statement, .resolveInvitation a.invitation .accepted,
        .noteAcceptance a] →
      w = a.workspace ∧ u = a.user ∧ ∃ old, s.memberships.get? (a.workspace, a.user) = some old ∧
        old.isActive = false ∧ m = old.reactivate a.role := by
    intro w u m hmem
    have heq : .updateMembership w u m = statement := by simpa using hmem
    rcases hstatement with rfl | ⟨old, hold, hinactive, rfl⟩
    · cases heq
    · obtain ⟨rfl, rfl, rfl⟩ := Statement.updateMembership.inj heq
      exact ⟨rfl, rfl, old, hold, hinactive, rfl⟩
  have hinsert : ∀ w u m,
      .insertMembership w u m ∈ [statement, .resolveInvitation a.invitation .accepted,
        .noteAcceptance a] → w = a.workspace ∧ u = a.user := by
    intro w u m hmem
    have heq : .insertMembership w u m = statement := by simpa using hmem
    rcases hstatement with rfl | ⟨_, _, _, rfl⟩
    · obtain ⟨rfl, rfl, _⟩ := Statement.insertMembership.inj heq
      exact ⟨rfl, rfl⟩
    · cases heq
  have hother : ∀ other : Statement,
      other ∈ [statement, .resolveInvitation a.invitation .accepted, .noteAcceptance a] →
      (∃ w u m, other = .insertMembership w u m) ∨ (∃ w u m, other = .updateMembership w u m) ∨
        other = .resolveInvitation a.invitation .accepted ∨ other = .noteAcceptance a := by
    intro other hmem
    rcases List.mem_cons.mp hmem with rfl | hmem
    · rcases hstatement with rfl | ⟨_, _, _, rfl⟩
      · exact Or.inl ⟨_, _, _, rfl⟩
      · exact Or.inr (Or.inl ⟨_, _, _, rfl⟩)
    · exact Or.inr (Or.inr (by simpa using hmem))
  refine ⟨?_, ?_, ?_, ?_, ?_, ?_, ?_, ?_, ?_, ?_⟩
  · intro w u m hmem
    obtain ⟨rfl, rfl⟩ := hinsert w u m hmem
    rw [← hworkspace]
    exact Or.inl (hs.invited a.invitation i hi)
  · intro w ws hmem
    simpa using hother _ hmem
  · intro w u m hmem
    obtain ⟨rfl, rfl, old, hold, hinactive, rfl⟩ := hupdate w u m hmem
    refine ⟨hheld, old, hold, old.advances_reactivate a.role, ?_⟩
    intro id token _ _ _ _ hscopes
    rw [WorkspaceMembership.capabilities_of_revoked hinactive] at hscopes
    exact Or.inl (hscopes.trans (Finset.empty_subset _))
  · intro w ws hw
    obtain ⟨u, m, hm, howner⟩ := hs.owned w ws hw
    refine ⟨u, m, hm, howner, ?_⟩
    intro m' hmem
    obtain ⟨rfl, rfl, old, hold, hinactive, _⟩ := hupdate w u m' hmem
    rw [hm] at hold
    cases hold
    rw [WorkspaceMembership.isOwner, hinactive] at howner
    cases howner
  · intro id new hmem
    simpa using hother _ hmem
  · intro id status hmem
    have heq : id = a.invitation ∧ status = .accepted := by simpa using hother _ hmem
    obtain ⟨rfl, rfl⟩ := heq
    refine ⟨⟨i, hi⟩, nofun, ?_⟩
    intro status' hmem'
    simpa using hother _ hmem'
  · intro id hmem
    have heq : id = a.invitation := by simpa using hother _ hmem
    exact ⟨a, by simp, heq.symm⟩
  · intro b hmem
    have heq : b = a := by simpa using hother _ hmem
    subst heq
    refine ⟨⟨i, hi, hworkspace, hinvitee, hrole⟩, by simp, ?_, ?_⟩
    · rcases hstatement with rfl | ⟨old, hold, hinactive, rfl⟩
      · exact Or.inl List.mem_cons_self
      · exact Or.inr ⟨old, hold, hinactive, List.mem_cons_self⟩
    · intro m hmem
      obtain ⟨_, _, old, _, _, rfl⟩ := hupdate _ _ m hmem
      exact ⟨rfl, rfl⟩
  · intro actor id now hop' w u m hmem
    refine ⟨a, by simp, hop actor id now hop', ?_⟩
    rcases hmem with hmem | hmem
    · obtain ⟨rfl, rfl⟩ := hinsert w u m hmem
      exact ⟨rfl, rfl⟩
    · obtain ⟨rfl, rfl, _⟩ := hupdate w u m hmem
      exact ⟨rfl, rfl⟩
  · intro id token hmem
    simpa using hother _ hmem

/-- A membership becomes `new`, and the tokens it no longer covers are revoked with it. -/
theorem lawful_saveMembership (hs : s.WellFormed) {tokens : Dict ℕ PersonalAccessToken}
    (hheld : w ∈ held) (hold : s.memberships.get? (w, u) = some old) (hadvances : old.Advances new)
    (howners : ∃ u' m, s.memberships.get? (w, u') = some m ∧ m.isOwner = true ∧ (u' = u →
      new.isOwner = true))
    (htokens : ∀ id token, s.tokens.get? id = some token → token.workspace = w → token.user = u →
      token.revoked = false → token.scopes ⊆ new.capabilities ∨ .revokeToken id ∈ revokeExceeding
      tokens new.capabilities) (hop : ∀ actor id now, op ≠ .accept actor id now) :
    Lawful op held
      (.updateMembership w u new :: revokeExceeding tokens new.capabilities) s := by
  have hother : ∀ statement : Statement,
      statement ∈ .updateMembership w u new :: revokeExceeding tokens new.capabilities →
      statement = .updateMembership w u new ∨ ∃ id, statement = .revokeToken id := by
    intro statement hmem
    rcases List.mem_cons.mp hmem with rfl | hmem
    · exact Or.inl rfl
    · obtain ⟨entry, _, rfl⟩ := List.mem_map.mp hmem
      exact Or.inr ⟨entry.1, rfl⟩
  refine ⟨?_, ?_, ?_, ?_, ?_, ?_, ?_, ?_, ?_, ?_⟩
  · intro w' u' m hmem
    simpa using hother _ hmem
  · intro w' ws hmem
    simpa using hother _ hmem
  · intro w' u' m hmem
    have heq : w' = w ∧ u' = u ∧ m = new := by simpa using hother _ hmem
    obtain ⟨rfl, rfl, rfl⟩ := heq
    refine ⟨hheld, old, hold, hadvances, ?_⟩
    intro id token htoken hw hu hunrevoked _
    exact (htokens id token htoken hw hu hunrevoked).imp_right (List.mem_cons_of_mem _)
  · intro w' ws hw
    by_cases hww : w' = w
    · subst hww
      obtain ⟨u', m, hm, howner, hnew⟩ := howners
      refine ⟨u', m, hm, howner, ?_⟩
      intro m' hmem
      have heq : u' = u ∧ m' = new := by simpa using hother _ hmem
      rw [heq.2]
      exact hnew heq.1
    · obtain ⟨u', m, hm, howner⟩ := hs.owned w' ws hw
      refine ⟨u', m, hm, howner, ?_⟩
      intro m' hmem
      have heq : w' = w ∧ u' = u ∧ m' = new := by simpa using hother _ hmem
      exact absurd heq.1 hww
  · intro id i hmem
    simpa using hother _ hmem
  · intro id status hmem
    simpa using hother _ hmem
  · intro id hmem
    simpa using hother _ hmem
  · intro a hmem
    simpa using hother _ hmem
  · intro actor id now hop'
    exact absurd hop' (hop actor id now)
  · intro id token hmem
    simpa using hother _ hmem

end Lawful

variable {ws : Workspace} {replacement : Option WorkspaceRole}

section Owners
/-- Two active owners are two users, one of whom is not the one in question. -/
theorem owner_besides (hs : s.WellFormed) (h : 1 < s.countActiveOwners w) (u : ℕ) :
    ∃ u' m, u' ≠ u ∧ s.memberships.get? (w, u') = some m ∧ m.isOwner = true := by
  have hfound : ∀ entry ∈ (s.members w).filter (fun entry => entry.2.isOwner),
      entry.1.1 = w ∧ s.memberships.get? entry.1 = some entry.2 ∧ entry.2.isOwner = true := by
    intro entry hmem
    obtain ⟨hmember, howner⟩ := List.mem_filter.mp hmem
    obtain ⟨hmem, hw⟩ := List.mem_filter.mp hmember
    exact ⟨by simpa using hw, Dict.get?_of_mem hs.memberships_nodup hmem, howner⟩
  have hcount : s.countActiveOwners w =
      ((s.members w).filter (fun entry => entry.2.isOwner)).length := by
    rw [Rows.countActiveOwners, Dict.values, List.countP_map, List.countP_eq_length_filter]
    rfl
  have hkeys : (Dict.keys ((s.members w).filter (fun entry => entry.2.isOwner))).Nodup :=
    hs.memberships_nodup.sublist ((List.filter_sublist.trans List.filter_sublist).map Prod.fst)
  rw [hcount] at h
  rcases howners : (s.members w).filter (fun entry => entry.2.isOwner) with
    _ | ⟨⟨⟨w₁, u₁⟩, m₁⟩, _ | ⟨⟨⟨w₂, u₂⟩, m₂⟩, rest⟩⟩
  · rw [howners] at h
    cases h
  · rw [howners] at h
    exact absurd h (lt_irrefl 1)
  · rw [howners] at hfound hkeys
    obtain ⟨hw₁, hget₁, howner₁⟩ := hfound ⟨⟨w₁, u₁⟩, m₁⟩ (by simp)
    obtain ⟨hw₂, hget₂, howner₂⟩ := hfound ⟨⟨w₂, u₂⟩, m₂⟩ (by simp)
    subst hw₁ hw₂
    have hne : u₁ ≠ u₂ := by
      rintro rfl
      simp [Dict.keys] at hkeys
    by_cases hu : u₁ = u
    · subst hu
      exact ⟨u₂, m₂, hne.symm, hget₂, howner₂⟩
    · exact ⟨u₁, m₁, hu, hget₁, howner₁⟩

/-- Where the last owner rule lets a membership change, an owner stays. -/
theorem owner_stays (hs : s.WellFormed) (hws : s.workspaces.get? w = some ws)
    (hold : s.memberships.get? (w, u) = some old)
    (hok : ensureLastOwnerCanChange w ws (s.members w).values u old replacement = .ok ())
    (hnew : replacement = some .owner → new.isOwner = true) :
    ∃ u' m, s.memberships.get? (w, u') = some m ∧ m.isOwner = true ∧
      (u' = u → new.isOwner = true) := by
  obtain ⟨u', m, hm, howner⟩ := hs.owned w ws hws
  by_cases hreplacement : replacement = some .owner
  · exact ⟨u', m, hm, howner, fun _ => hnew hreplacement⟩
  · unfold ensureLastOwnerCanChange at hok
    split at hok
    · split at hok
      · cases hok
      · cases hok
    · split at hok
      · next htarget =>
        refine ⟨u', m, hm, howner, ?_⟩
        rintro rfl
        rw [hm] at hold
        cases hold
        rw [howner] at htarget
        cases htarget
      · split at hok
        · cases hok
        · next hcount =>
          have hmore : 1 < s.countActiveOwners w := by
            by_contra hfew
            exact hcount ⟨not_lt.mp hfew, hreplacement⟩
          obtain ⟨u'', m'', hne, hm'', howner''⟩ := owner_besides hs hmore u
          exact ⟨u'', m'', hm'', howner'', fun heq => absurd heq hne⟩

end Owners

section Sound
variable {s : Rows} {listed : Dict ℕ WorkspaceInvitation}

/-- The invitations that were listed are there. -/
def Rows.knows (s : Rows) (listed : Dict ℕ WorkspaceInvitation) : Prop :=
  ∀ entry ∈ listed, ∃ i, s.invitations.get? entry.1 = some i

theorem Rows.knows_filter (s : Rows) (p : ℕ × WorkspaceInvitation → Bool) :
    s.knows (s.invitations.filter p) := by
  intro entry hmem
  have hkey : entry.1 ∈ s.invitations.keys :=
    List.mem_map.mpr ⟨entry, (List.mem_filter.mp hmem).1, rfl⟩
  exact Option.isSome_iff_exists.mp (Dict.get?_isSome_of_mem_keys hkey)

theorem Rows.knows.steady {s' : Rows} (h : s.knows listed) (hsteady : Rows.Steady held s s') :
    s'.knows listed := by
  intro entry hmem
  obtain ⟨i, hi⟩ := h entry hmem
  obtain ⟨i', hi', _⟩ := hsteady.invitations entry.1 i hi
  exact ⟨i', hi'⟩

theorem quiet_expired (h : s.knows listed) (now : ℕ) :
    ∀ statement ∈ expireDueInvitations listed now, Quiet op .expired s statement := by
  intro statement hmem
  obtain ⟨entry, hentry, rfl⟩ := List.mem_map.mp hmem
  exact ⟨rfl, h entry (List.mem_filter.mp hentry).1⟩

theorem sound_listPending (h : s.knows listed) (now : ℕ) :
    discipline.Sound op (listPending listed now) held s := by
  unfold listPending
  split
  · intro r hr
    cases hr
    trivial
  · refine sound_finish ?_
    intro t hsteady hwell
    refine ⟨lawful_of_quiet hwell .expired (by simp) (by simp) ?_, fun _ _ => trivial⟩
    exact quiet_expired (h.steady hsteady) now

theorem sound_createWorkspaceInvitation (actor workspace : ℕ) (email : List Char)
    (role : WorkspaceRole) (newInvitation now week : ℕ) :
    discipline.Sound op
      (createWorkspaceInvitation actor workspace email role newInvitation now week) held s := by
  refine sound_lockWorkspace (fun _ _ _ => sound_raise _) ?_
  intro ws s₁ _ _ hws
  refine sound_requireWorkspaceOwner ?_
  intro s₂ hsteady₂ _
  split
  · exact sound_raise _
  · next hkind =>
    have hshared : s₂.isShared workspace :=
      ⟨ws, hsteady₂.workspaces workspace ws hws, not_not.mp hkind⟩
    intro s₃ hsteady₃ _ s₄ hsteady₄ _
    simp only
    split
    · intro s₅ hsteady₅ _
      simp only
      split
      · exact sound_raise _
      · intro s₆ hsteady₆ _
        simp only
        split
        · exact sound_raise _
        · refine sound_finish ?_
          intro t hsteady hwell
          have hlater := ((hsteady₄.trans hsteady₅).trans hsteady₆).trans hsteady
          refine ⟨lawful_of_quiet hwell .expired (by simp) (by simp) ?_, fun _ _ => trivial⟩
          intro statement hmem
          rcases mem_snoc.mp hmem with hmem | rfl
          · exact quiet_expired ((Rows.knows_filter _ _).steady hlater) now statement hmem
          · exact ⟨hlater.isShared (hsteady₃.isShared hshared), rfl⟩
    · exact sound_raise _

/-- A resolution of an invitation that exists, if it is a quiet one. -/
theorem sound_resolveRead {id : ℕ} {invitation : WorkspaceInvitation}
    {status : WorkspaceInvitationStatus} {now : ℕ} {outcome : Outcome}
    (hpending : status ≠ .pending) (haccepted : status ≠ .accepted)
    (h : ∃ i, s.invitations.get? id = some i)
    (hanswers : ∀ t : Rows, (id, status) ∈ t.resolutions → Answers (.ok outcome) t) :
    discipline.Sound op (resolveRead id invitation status now outcome) held s := by
  have hthere : ∀ t, Rows.Steady held s t → ∃ i, t.invitations.get? id = some i := by
    intro t hsteady
    obtain ⟨i, hi⟩ := h
    obtain ⟨i', hi', _⟩ := hsteady.invitations id i hi
    exact ⟨i', hi'⟩
  unfold resolveRead
  split
  · refine sound_commitThenRaise ?_
    intro t hsteady hwell
    refine lawful_of_quiet hwell .expired (by simp) (by simp) ?_
    intro statement hmem
    rw [List.mem_singleton.mp hmem]
    exact ⟨rfl, hthere t hsteady⟩
  · split
    · exact sound_raise _
    · next given hgiven =>
      obtain ⟨_, rfl⟩ := WorkspaceInvitation.resolve_ok hgiven
      refine sound_finish ?_
      intro t hsteady hwell
      constructor
      · refine lawful_of_quiet hwell _ hpending haccepted ?_
        intro statement hmem
        rw [List.mem_singleton.mp hmem]
        exact ⟨rfl, hthere t hsteady⟩
      · intro t' hwrite
        exact hanswers t' ((Rows.mem_resolutions hwrite).mpr (Or.inr List.mem_cons_self))

theorem sound_declineWorkspaceInvitation (actor id now : ℕ) :
    discipline.Sound op (declineWorkspaceInvitation actor id now) held s := by
  refine sound_requireActiveUser ?_
  intro _ _ _ s' _ _
  simp only
  split
  · exact sound_raise _
  · next invitation hfound =>
    split
    · exact sound_raise _
    · have hresolve : ∀ (more : List ℕ) t, Rows.Steady held s' t →
          discipline.Sound op (resolveRead id invitation .declined now (.declined id)) more t := by
        intro more t hsteady
        obtain ⟨i, hi, _⟩ := hsteady.invitations id invitation hfound
        exact sound_resolveRead (by simp) (by simp) ⟨i, hi⟩ (fun _ h => h)
      refine sound_lockWorkspace ?_ ?_
      · intro t hsteady _
        exact hresolve _ t hsteady
      · intro _ t hsteady _ _
        exact hresolve _ t hsteady

theorem sound_cancelWorkspaceInvitation (actor workspace id now : ℕ) :
    discipline.Sound op (cancelWorkspaceInvitation actor workspace id now) held s := by
  refine sound_requireWorkspaceOwner ?_
  intro _ _ _ s' _ _
  simp only
  split
  · exact sound_raise _
  · next invitation hfound =>
    split
    · exact sound_raise _
    · exact sound_resolveRead (by simp) (by simp) ⟨invitation, hfound⟩ (fun _ h => h)

/-- The membership is read under the lock of the Workspace; of the invitation, read before
it, only what never changes is used. -/
theorem sound_acceptWorkspaceInvitation (actor id now : ℕ)
    (hop : ∀ actor' id' now', op = .accept actor' id' now' → id = id') :
    discipline.Sound op (acceptWorkspaceInvitation actor id now) held s := by
  refine sound_requireActiveUser ?_
  intro _ _ _ s₁ _ _
  simp only
  split
  · exact sound_raise _
  · next invitation hfound =>
    split
    · exact sound_raise _
    · next hactor =>
      refine sound_lockWorkspace (fun _ _ _ => sound_raise _) ?_
      intro ws s₂ hsteady₂ _ _
      simp only [Option.isNone_some, Bool.false_eq_true, ↓reduceIte]
      split
      · refine sound_commitThenRaise ?_
        intro t hsteady hwell
        obtain ⟨i₂, hi₂, _⟩ := hsteady₂.invitations id invitation hfound
        obtain ⟨i, hi, _⟩ := hsteady.invitations id i₂ hi₂
        refine lawful_of_quiet hwell .expired (by simp) (by simp) ?_
        intro statement hmem
        rw [List.mem_singleton.mp hmem]
        exact ⟨rfl, i, hi⟩
      · split
        · exact sound_raise _
        · intro s₃ hsteady₃ _
          have hend : ∀ (t : Rows) (membership : Statement) (status : WorkspaceInvitationStatus),
              (∀ t', Rows.Steady (invitation.workspace :: held) t t' →
                membership = .insertMembership invitation.workspace actor (.new invitation.role) ∨
                ∃ old, t'.memberships.get? (invitation.workspace, actor) = some old ∧
                  old.isActive = false ∧ membership = .updateMembership invitation.workspace actor
                    (old.reactivate invitation.role)) →
              Rows.Steady (invitation.workspace :: held) s₂ t →
              invitation.resolve .accepted now = .ok status →
              discipline.Sound op
                (finish [membership, .resolveInvitation id status,
                    .noteAcceptance ⟨id, invitation.workspace, actor, invitation.role⟩]
                  (.accepted id)) (invitation.workspace :: held) t := by
            intro t membership status hmembership hsteady hstatus
            obtain ⟨_, rfl⟩ := WorkspaceInvitation.resolve_ok hstatus
            refine sound_finish ?_
            intro t' hsteady' hwell
            obtain ⟨i₂, hi₂, hsame₂⟩ := hsteady₂.invitations id invitation hfound
            obtain ⟨i, hi, hsame⟩ := (hsteady.trans hsteady').invitations id i₂ hi₂
            have hinvitation := hsame₂.trans hsame
            have hinvitee : i.invitee = actor := hinvitation.invitee.trans (not_not.mp hactor)
            constructor
            · let a : Acceptance := ⟨id, invitation.workspace, actor, invitation.role⟩
              exact lawful_acceptance (a := a) hwell
                ⟨i, hi, hinvitation.workspace, hinvitee, hinvitation.role⟩ List.mem_cons_self
                (hmembership t' hsteady') hop
            · intro t'' hwrite
              exact (Rows.mem_resolutions hwrite).mpr (Or.inr (by simp))
          simp only
          split
          · split
            · exact sound_raise _
            · next status hstatus =>
              exact hend s₃ _ status (fun _ _ => Or.inl rfl) hsteady₃ hstatus
          · next old hold =>
            split
            · exact sound_raise _
            · next hinactive =>
              split
              · exact sound_raise _
              · next status hstatus =>
                refine hend s₃ _ status ?_ hsteady₃ hstatus
                intro t hsteady
                refine Or.inr ⟨old, ?_, Bool.eq_false_of_not_eq_true hinactive, rfl⟩
                rw [hsteady.membership List.mem_cons_self, hold]

theorem sound_createPersonalAccessToken (actor id : ℕ) (token : PersonalAccessToken) :
    discipline.Sound (.createToken actor id token) (createPersonalAccessToken actor id token)
      held s := by
  refine sound_requireActiveUser ?_
  intro _ _ _
  split
  · exact sound_raise _
  · split
    · exact sound_raise _
    · refine sound_requireMembership ?_
      intro m _ _ _ _ _
      split
      · exact sound_raise _
      · refine sound_finish ?_
        intro t _ hwell
        refine ⟨lawful_of_quiet hwell .expired (by simp) (by simp) ?_, fun _ _ => trivial⟩
        intro statement hmem
        rw [List.mem_singleton.mp hmem]
        exact ⟨actor, token, rfl, rfl⟩

theorem sound_revokePersonalAccessToken (actor workspace id : ℕ) :
    discipline.Sound op (revokePersonalAccessToken actor workspace id) held s := by
  refine sound_requireActiveUser ?_
  intro _ _ _
  refine sound_requireMembership ?_
  intro m _ _ _ _ _
  split
  · intro _ _ _
    simp only
    split
    · exact sound_raise _
    · refine sound_finish ?_
      intro t _ hwell
      refine ⟨lawful_of_quiet hwell .expired (by simp) (by simp) ?_, fun _ _ => trivial⟩
      intro statement hmem
      rw [List.mem_singleton.mp hmem]
      trivial
  · exact sound_raise _

theorem sound_disableUser (user : ℕ) : discipline.Sound op (disableUser user) held s := by
  refine sound_requireUser ?_
  intro _ _ _ _ s' _ _
  refine sound_finish ?_
  intro t _ hwell
  refine ⟨lawful_of_quiet hwell .expired (by simp) (by simp) ?_, fun _ _ => trivial⟩
  intro statement hmem
  rcases List.mem_cons.mp hmem with rfl | hmem
  · trivial
  · obtain ⟨entry, _, rfl⟩ := List.mem_map.mp hmem
    trivial

/-- The end of a change of a member under the lock of the Workspace. -/
theorem sound_saveMembership (hheld : w ∈ held) (hwell : s.WellFormed)
    (hws : s.workspaces.get? w = some ws) (hold : s.memberships.get? (w, u) = some old)
    (hok : ensureLastOwnerCanChange w ws (s.members w).values u old replacement = .ok ())
    (hadvances : old.Advances new) (hnew : replacement = some .owner → new.isOwner = true)
    (hop : ∀ actor id now, op ≠ .accept actor id now) :
    discipline.Sound op (saveMembership w u new) held s := by
  obtain ⟨u', m, hm, howner, hother⟩ := owner_stays hwell hws hold hok hnew
  intro s₁ hsteady₁ _
  refine sound_finish ?_
  intro t hsteady hwell'
  have hlater := hsteady₁.trans hsteady
  have hold' : t.memberships.get? (w, u) = some old := by
    rw [hlater.membership hheld, hold]
  have hm' : t.memberships.get? (w, u') = some m := by
    rw [hlater.membership hheld, hm]
  refine ⟨lawful_saveMembership hwell' hheld hold' hadvances ⟨u', m, hm', howner, hother⟩ ?_ hop,
    fun _ _ => trivial⟩
  intro id token htoken hw hu hunrevoked
  subst hw
  obtain ⟨was, hwas, hbecame⟩ := hsteady.tokens id token htoken hheld
  by_cases hscopes : token.scopes ⊆ new.capabilities
  · exact Or.inl hscopes
  · refine Or.inr (List.mem_map.mpr ⟨(id, was), ?_, rfl⟩)
    have hwasunrevoked := hbecame.unrevoked hunrevoked
    have hmine : (id, was) ∈ s₁.tokensOf u token.workspace := by
      refine List.mem_filter.mpr ⟨Dict.mem_of_get? hwas, ?_⟩
      simp [← hbecame.user, ← hbecame.workspace, hu]
    refine List.mem_filter.mpr ⟨hmine, ?_⟩
    simp [hwasunrevoked, ← hbecame.scopes, hscopes]

theorem sound_changeMemberRole (actor workspace user : ℕ) (role : WorkspaceRole)
    (hop : ∀ actor id now, op ≠ .accept actor id now) :
    discipline.Sound op (changeMemberRole actor workspace user role) held s := by
  refine sound_lockWorkspace (fun _ _ _ => sound_raise _) ?_
  intro ws s₁ _ _ hws
  refine sound_requireWorkspaceOwner ?_
  intro s₂ hsteady₂ _
  refine sound_requireMembership ?_
  intro m s₃ hsteady₃ _ hm hactive
  refine sound_requireUser ?_
  intro _ s₄ hsteady₄ _ s₅ hsteady₅ hwell
  simp only
  split
  · exact sound_raise _
  · next hok =>
    have hmember := (hsteady₄.trans hsteady₅).membership List.mem_cons_self user
    refine sound_saveMembership List.mem_cons_self hwell ?_ (hmember.trans hm) hok
      (m.advances_changeRole role) ?_ hop
    · exact (((hsteady₂.trans hsteady₃).trans hsteady₄).trans hsteady₅).workspaces workspace ws hws
    · intro hrole
      rw [Option.some.inj hrole]
      exact WorkspaceMembership.isOwner_changeRole hactive

theorem sound_removeMember (actor workspace user now : ℕ)
    (hop : ∀ actor id now, op ≠ .accept actor id now) :
    discipline.Sound op (removeMember actor workspace user now) held s := by
  refine sound_lockWorkspace (fun _ _ _ => sound_raise _) ?_
  intro ws s₁ _ _ hws
  refine sound_requireWorkspaceOwner ?_
  intro s₂ hsteady₂ _
  refine sound_requireMembership ?_
  intro m s₃ hsteady₃ _ hm _ s₄ hsteady₄ hwell
  simp only
  split
  · exact sound_raise _
  · next hok =>
    have hmember := hsteady₄.membership List.mem_cons_self user
    refine sound_saveMembership List.mem_cons_self hwell ?_ (hmember.trans hm) hok
      (m.advances_revoke now) nofun hop
    exact ((hsteady₂.trans hsteady₃).trans hsteady₄).workspaces workspace ws hws

end Sound

/-- Every operation keeps the discipline. -/
theorem sound_program (op : Op) (s : Rows) : discipline.Sound op (service.program op) [] s := by
  cases op with
  | provision => exact sound_provisionOidcIdentity _ _ _ _ _ _ _ (fun _ _ _ => nofun)
  | createShared => exact sound_createSharedWorkspace _ _ _ (fun _ _ _ => nofun)
  | invite => exact sound_createWorkspaceInvitation _ _ _ _ _ _ _
  | listWorkspace actor workspace now =>
    refine sound_requireWorkspaceOwner ?_
    intro _ _ _ s' _ _
    exact sound_listPending (s'.knows_filter _) now
  | listMine actor now =>
    refine sound_requireActiveUser ?_
    intro _ _ _ s' _ _
    exact sound_listPending (s'.knows_filter _) now
  | accept actor id now =>
    refine sound_acceptWorkspaceInvitation actor id now ?_
    intro _ _ _ hop
    cases hop
    rfl
  | decline => exact sound_declineWorkspaceInvitation _ _ _
  | cancel => exact sound_cancelWorkspaceInvitation _ _ _ _
  | createToken => exact sound_createPersonalAccessToken _ _ _
  | revokeToken => exact sound_revokePersonalAccessToken _ _ _
  | changeRole => exact sound_changeMemberRole _ _ _ _ (fun _ _ _ => nofun)
  | remove => exact sound_removeMember _ _ _ _ (fun _ _ _ => nofun)
  | disable => exact sound_disableUser _

end Grafy.Identity
