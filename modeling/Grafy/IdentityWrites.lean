import Grafy.IdentityRows

/-!
What a set of writes does to each table: which rows stay, which are new, and what a row
that stays may have become. Each lemma about a set goes back to one that says everything a
single statement can do to the table.
-/
namespace Grafy.Identity

open OrderedDict

/-- The same token, perhaps revoked since. -/
structure PersonalAccessToken.Became (old new : PersonalAccessToken) : Prop where
  user : new.user = old.user
  workspace : new.workspace = old.workspace
  scopes : new.scopes = old.scopes
  revoked : old.revoked = true → new.revoked = true

theorem PersonalAccessToken.Became.refl (token : PersonalAccessToken) : token.Became token :=
  ⟨rfl, rfl, rfl, id⟩

theorem PersonalAccessToken.Became.trans {a b c : PersonalAccessToken} (hab : a.Became b)
    (hbc : b.Became c) : a.Became c :=
  ⟨hbc.user.trans hab.user, hbc.workspace.trans hab.workspace, hbc.scopes.trans hab.scopes,
    fun h => hbc.revoked (hab.revoked h)⟩

theorem PersonalAccessToken.Became.unrevoked {old new : PersonalAccessToken} (h : old.Became new)
    (hnew : new.revoked = false) : old.revoked = false := by
  cases hold : old.revoked with
  | false => rfl
  | true =>
    rw [h.revoked hold] at hnew
    cases hnew

/-- The same invitation, whatever its status is now. -/
structure WorkspaceInvitation.Same (old new : WorkspaceInvitation) : Prop where
  workspace : new.workspace = old.workspace
  invitee : new.invitee = old.invitee
  role : new.role = old.role

theorem WorkspaceInvitation.Same.refl (invitation : WorkspaceInvitation) :
    invitation.Same invitation := ⟨rfl, rfl, rfl⟩

theorem WorkspaceInvitation.Same.trans {a b c : WorkspaceInvitation} (hab : a.Same b)
    (hbc : b.Same c) : a.Same c :=
  ⟨hbc.workspace.trans hab.workspace, hbc.invitee.trans hab.invitee, hbc.role.trans hab.role⟩

namespace Rows

variable {s s' : Rows} {statement : Statement} {writes : List Statement} {K V : Type} {d : Dict K V}
  {k : K} {v : V} {w : ℕ} {ws : Workspace} {u : ℕ} {id : ℕ}

theorem writeAll_cons (h : writeAll (statement :: writes) s = some s') :
    ∃ t, s.write statement = some t ∧ writeAll writes t = some s' :=
  Option.bind_eq_some_iff.mp h

theorem writeAll_keeps {P : Rows → Prop} (h : writeAll writes s = some s')
    (hstep : ∀ statement ∈ writes, ∀ t t', t.write statement = some t' → P t → P t') (hs : P s) :
    P s' := by
  induction writes generalizing s with
  | nil =>
    cases h
    exact hs
  | cons statement writes ih =>
    obtain ⟨t, ht, hrest⟩ := writeAll_cons h
    have hfirst : P t := hstep statement List.mem_cons_self s t ht hs
    exact ih hrest (fun st hst => hstep st (List.mem_cons_of_mem _ hst)) hfirst

section

variable (h : s.write statement = some s')
include h

theorem write_workspaces :
    s'.workspaces = s.workspaces ∧ (∀ w ws, statement ≠ .insertWorkspace w ws) ∨
      ∃ w ws, statement = .insertWorkspace w ws ∧ s.workspaces.get? w = none ∧
        s'.workspaces = s.workspaces ++ [(w, ws)] := by
  cases statement with
  | insertWorkspace w ws =>
    simp only [write] at h
    split at h
    · cases h
    · next hnew =>
      cases h
      refine Or.inr ⟨w, ws, rfl, ?_, rfl⟩
      rw [not_or] at hnew
      exact Option.not_isSome_iff_eq_none.mp hnew.1
  | insertUser | insertIdentity | insertMembership | insertInvitation | insertToken =>
    simp only [write] at h
    split at h
    · cases h
    · cases h
      exact Or.inl ⟨rfl, by simp⟩
  | setProfile | deactivateUser | updateMembership | resolveInvitation | revokeToken
  | noteAcceptance =>
    cases h
    exact Or.inl ⟨rfl, by simp⟩

theorem write_memberships :
    s'.memberships = s.memberships ∧ (∀ w u m, statement ≠ .insertMembership w u m) ∧
        (∀ w u m, statement ≠ .updateMembership w u m) ∨
      (∃ w u m, statement = .insertMembership w u m ∧ s.memberships.get? (w, u) = none ∧
        (s.workspaces.get? w).isSome ∧ s'.memberships = s.memberships ++ [((w, u), m)]) ∨
      ∃ w u m, statement = .updateMembership w u m ∧
        s'.memberships = s.memberships.mapValues (fun k old => if k = (w, u) then m else old) := by
  cases statement with
  | insertMembership w u m =>
    simp only [write] at h
    split at h
    · cases h
    · next hnew =>
      cases h
      rw [not_or, not_or] at hnew
      obtain ⟨hnone, hworkspace, _⟩ := hnew
      refine Or.inr (Or.inl ⟨w, u, m, rfl, Option.not_isSome_iff_eq_none.mp hnone, ?_, rfl⟩)
      rw [Option.isNone_iff_eq_none] at hworkspace
      exact Option.isSome_iff_ne_none.mpr hworkspace
  | updateMembership w u m =>
    cases h
    exact Or.inr (Or.inr ⟨w, u, m, rfl, rfl⟩)
  | insertUser | insertIdentity | insertWorkspace | insertInvitation | insertToken =>
    simp only [write] at h
    split at h
    · cases h
    · cases h
      exact Or.inl ⟨rfl, by simp, by simp⟩
  | setProfile | deactivateUser | resolveInvitation | revokeToken | noteAcceptance =>
    cases h
    exact Or.inl ⟨rfl, by simp, by simp⟩

theorem write_tokens :
    s'.tokens = s.tokens ∧ (∀ id token, statement ≠ .insertToken id token) ∧
        (∀ id, statement ≠ .revokeToken id) ∨
      (∃ id token, statement = .insertToken id token ∧ s.tokens.get? id = none ∧
        s'.tokens = s.tokens ++ [(id, token)]) ∨
      ∃ id, statement = .revokeToken id ∧
        s'.tokens = s.tokens.mapValues (fun k token =>
          if k = id then { token with revoked := true } else token) := by
  cases statement with
  | insertToken id token =>
    simp only [write] at h
    split at h
    · cases h
    · next hnew =>
      cases h
      exact Or.inr (Or.inl ⟨id, token, rfl, Option.not_isSome_iff_eq_none.mp hnew, rfl⟩)
  | revokeToken id =>
    cases h
    exact Or.inr (Or.inr ⟨id, rfl, rfl⟩)
  | insertUser | insertIdentity | insertWorkspace | insertInvitation | insertMembership =>
    simp only [write] at h
    split at h
    · cases h
    · cases h
      exact Or.inl ⟨rfl, by simp, by simp⟩
  | setProfile | deactivateUser | updateMembership | resolveInvitation | noteAcceptance =>
    cases h
    exact Or.inl ⟨rfl, by simp, by simp⟩

theorem write_invitations :
    s'.invitations = s.invitations ∧ s'.resolutions = s.resolutions ∧
        (∀ id invitation, statement ≠ .insertInvitation id invitation) ∧
        (∀ id status, statement ≠ .resolveInvitation id status) ∨
      (∃ id invitation, statement = .insertInvitation id invitation ∧
        s.invitations.get? id = none ∧ s'.invitations = s.invitations ++ [(id, invitation)] ∧
        s'.resolutions = s.resolutions) ∨
      ∃ id status, statement = .resolveInvitation id status ∧
        s'.invitations = s.invitations.mapValues (fun k invitation =>
          if k = id then { invitation with status := status } else invitation) ∧
        s'.resolutions = s.resolutions ++ [(id, status)] := by
  cases statement with
  | insertInvitation id invitation =>
    simp only [write] at h
    split at h
    · cases h
    · next hnew =>
      cases h
      rw [not_or] at hnew
      have hnone := Option.not_isSome_iff_eq_none.mp hnew.1
      exact Or.inr (Or.inl ⟨id, invitation, rfl, hnone, rfl, rfl⟩)
  | resolveInvitation id status =>
    cases h
    exact Or.inr (Or.inr ⟨id, status, rfl, rfl, rfl⟩)
  | insertUser | insertIdentity | insertWorkspace | insertToken | insertMembership =>
    simp only [write] at h
    split at h
    · cases h
    · cases h
      exact Or.inl ⟨rfl, rfl, by simp, by simp⟩
  | setProfile | deactivateUser | updateMembership | revokeToken | noteAcceptance =>
    cases h
    exact Or.inl ⟨rfl, rfl, by simp, by simp⟩

theorem write_acceptances :
    s'.acceptances = s.acceptances ∧ (∀ a, statement ≠ .noteAcceptance a) ∨
      ∃ a, statement = .noteAcceptance a ∧ s'.acceptances = s.acceptances ++ [a] := by
  cases statement with
  | noteAcceptance a =>
    cases h
    exact Or.inr ⟨a, rfl, rfl⟩
  | insertUser | insertIdentity | insertWorkspace | insertInvitation | insertToken
  | insertMembership =>
    simp only [write] at h
    split at h
    · cases h
    · cases h
      exact Or.inl ⟨rfl, by simp⟩
  | setProfile | deactivateUser | updateMembership | resolveInvitation | revokeToken =>
    cases h
    exact Or.inl ⟨rfl, by simp⟩

end

theorem get?_concat_of_ne [DecidableEq K] {l : K} (h : l ≠ k) :
    Dict.get? (d ++ [(l, v)]) k = d.get? k := by
  simp [Dict.get?_append, Dict.get?_cons, h]

theorem get?_concat_self [DecidableEq K] (h : d.get? k = none) :
    Dict.get? (d ++ [(k, v)]) k = some v := by
  simp [Dict.get?_append, Dict.get?_cons, h]

theorem keys_concat_nodup [DecidableEq K] (hnone : d.get? k = none) (hd : d.keys.Nodup) :
    (Dict.keys (d ++ [(k, v)])).Nodup := by
  rw [Dict.keys, List.map_append]
  refine List.nodup_append.mpr ⟨hd, by simp, ?_⟩
  rintro a ha b hb rfl
  rw [List.map_singleton, List.mem_singleton] at hb
  subst hb
  have hsome := Dict.get?_isSome_of_mem_keys ha
  rw [hnone] at hsome
  cases hsome

section

variable (h : writeAll writes s = some s')
include h

theorem workspace_stays (hw : s.workspaces.get? w = some ws) : s'.workspaces.get? w = some ws := by
  refine writeAll_keeps (P := fun t => t.workspaces.get? w = some ws) h ?_ hw
  intro statement _ t t' hwrite ht
  rcases write_workspaces hwrite with ⟨hsame, _⟩ | ⟨_, _, _, _, happend⟩
  · rw [hsame]
    exact ht
  · rw [happend]
    exact Dict.get?_append_of_some ht

theorem workspace_inserted {w : ℕ} {ws : Workspace} (hmem : .insertWorkspace w ws ∈ writes) :
    s.workspaces.get? w = none ∧ s'.workspaces.get? w = some ws := by
  induction writes generalizing s with
  | nil => cases hmem
  | cons statement writes ih =>
    obtain ⟨t, ht, hrest⟩ := writeAll_cons h
    have hfirst := write_workspaces ht
    rcases List.mem_cons.mp hmem with rfl | hmem
    · rcases hfirst with ⟨_, hno⟩ | ⟨w', ws', heq, hnone, happend⟩
      · exact absurd rfl (hno w ws)
      · cases heq
        refine ⟨hnone, workspace_stays hrest ?_⟩
        rw [happend]
        exact get?_concat_self hnone
    · obtain ⟨hnone, hsome⟩ := ih hrest hmem
      refine ⟨?_, hsome⟩
      cases hold : s.workspaces.get? w with
      | none => rfl
      | some old =>
        have hset : writeAll [statement] s = some t := by simp [writeAll, ht]
        have hstill := workspace_stays hset hold
        rw [hnone] at hstill
        cases hstill

theorem workspace_cases (hw : s'.workspaces.get? w = some ws) :
    s.workspaces.get? w = some ws ∨ .insertWorkspace w ws ∈ writes := by
  induction writes generalizing s with
  | nil =>
    rw [← Option.some.inj h] at hw
    exact Or.inl hw
  | cons statement writes ih =>
    obtain ⟨t, ht, hrest⟩ := writeAll_cons h
    rcases ih hrest with hold | hnew
    · rcases write_workspaces ht with ⟨hsame, _⟩ | ⟨w', ws', rfl, hnone, happend⟩
      · rw [hsame] at hold
        exact Or.inl hold
      · rw [happend] at hold
        by_cases hw' : w' = w
        · subst hw'
          rw [get?_concat_self hnone] at hold
          cases hold
          exact Or.inr List.mem_cons_self
        · rw [get?_concat_of_ne hw'] at hold
          exact Or.inl hold
    · exact Or.inr (List.mem_cons_of_mem _ hnew)

theorem membership_stays {old : WorkspaceMembership} (hold : s.memberships.get? (w, u) = some old) :
    ∃ m, s'.memberships.get? (w, u) = some m ∧
      (m = old ∧ (∀ m', .updateMembership w u m' ∉ writes) ∨ .updateMembership w u m ∈ writes) := by
  induction writes generalizing s old with
  | nil =>
    cases h
    exact ⟨old, hold, Or.inl ⟨rfl, fun _ => List.not_mem_nil⟩⟩
  | cons statement writes ih =>
    obtain ⟨t, ht, hrest⟩ := writeAll_cons h
    have hfirst : ∃ mid, t.memberships.get? (w, u) = some mid ∧
        (mid = old ∧ (∀ m', statement ≠ .updateMembership w u m') ∨
          statement = .updateMembership w u mid) := by
      rcases write_memberships ht with ⟨hsame, _, hno⟩ | ⟨_, _, _, rfl, _, _, happend⟩ |
        ⟨w', u', m', rfl, hmap⟩
      · rw [hsame]
        exact ⟨old, hold, Or.inl ⟨rfl, hno w u⟩⟩
      · rw [happend]
        exact ⟨old, Dict.get?_append_of_some hold, Or.inl ⟨rfl, fun _ => nofun⟩⟩
      · rw [hmap, Dict.get?_mapValues, hold]
        by_cases hkey : (w, u) = (w', u')
        · cases hkey
          exact ⟨m', by simp, Or.inr rfl⟩
        · refine ⟨old, by simp [hkey], Or.inl ⟨rfl, ?_⟩⟩
          rintro _ ⟨⟩
          exact hkey rfl
    obtain ⟨mid, hmid, hfrom⟩ := hfirst
    obtain ⟨m, hm, hlast⟩ := ih hrest hmid
    refine ⟨m, hm, ?_⟩
    rcases hlast with ⟨hkept, hnone⟩ | hupdate
    · rcases hfrom with ⟨hfirst, hno⟩ | rfl
      · refine Or.inl ⟨hkept.trans hfirst, ?_⟩
        intro m' hmem
        rcases List.mem_cons.mp hmem with heq | hmem
        · exact hno m' heq.symm
        · exact hnone m' hmem
      · rw [hkept]
        exact Or.inr List.mem_cons_self
    · exact Or.inr (List.mem_cons_of_mem _ hupdate)

theorem membership_inserted {m : WorkspaceMembership} (hmem : .insertMembership w u m ∈ writes) :
    s.memberships.get? (w, u) = none ∧ ∃ m', s'.memberships.get? (w, u) = some m' ∧
      (m' = m ∨ .updateMembership w u m' ∈ writes) := by
  induction writes generalizing s with
  | nil => cases hmem
  | cons statement writes ih =>
    obtain ⟨t, ht, hrest⟩ := writeAll_cons h
    rcases List.mem_cons.mp hmem with rfl | hmem
    · rcases write_memberships ht with ⟨_, hno, _⟩ | ⟨w', u', m', heq, hnone, _, happend⟩ |
        ⟨_, _, _, heq, _⟩
      · exact absurd rfl (hno w u m)
      · cases heq
        have hnow : t.memberships.get? (w, u) = some m := by
          rw [happend]
          exact get?_concat_self hnone
        obtain ⟨last, hlast, hfrom⟩ := membership_stays hrest hnow
        exact ⟨hnone, last, hlast, hfrom.imp And.left (List.mem_cons_of_mem _)⟩
      · cases heq
    · obtain ⟨hnone, last, hlast, hfrom⟩ := ih hrest hmem
      refine ⟨?_, last, hlast, hfrom.imp_right (List.mem_cons_of_mem _)⟩
      cases hold : s.memberships.get? (w, u) with
      | none => rfl
      | some old =>
        have hset : writeAll [statement] s = some t := by simp [writeAll, ht]
        obtain ⟨m', hm', _⟩ := membership_stays hset hold
        rw [hnone] at hm'
        cases hm'

theorem membership_cases {m : WorkspaceMembership} (hm : s'.memberships.get? (w, u) = some m) :
    (∃ old, s.memberships.get? (w, u) = some old) ∨ ∃ new, .insertMembership w u new ∈ writes := by
  induction writes generalizing s with
  | nil =>
    rw [← Option.some.inj h] at hm
    exact Or.inl ⟨m, hm⟩
  | cons statement writes ih =>
    obtain ⟨t, ht, hrest⟩ := writeAll_cons h
    rcases ih hrest with ⟨old, hold⟩ | ⟨new, hnew⟩
    · rcases write_memberships ht with ⟨hsame, _⟩ | ⟨w', u', m', rfl, _, _, happend⟩ |
        ⟨w', u', m', _, hmap⟩
      · rw [hsame] at hold
        exact Or.inl ⟨old, hold⟩
      · rw [happend] at hold
        by_cases hkey : (w', u') = (w, u)
        · cases hkey
          exact Or.inr ⟨m', List.mem_cons_self⟩
        · rw [get?_concat_of_ne hkey] at hold
          exact Or.inl ⟨old, hold⟩
      · rw [hmap, Dict.get?_mapValues] at hold
        obtain ⟨was, hwas, _⟩ := Option.map_eq_some_iff.mp hold
        exact Or.inl ⟨was, hwas⟩
    · exact Or.inr ⟨new, List.mem_cons_of_mem _ hnew⟩

/-- The members of a Workspace that no statement names stay as they are. -/
theorem members_untouched (hinsert : ∀ u m, .insertMembership w u m ∉ writes)
    (hupdate : ∀ u m, .updateMembership w u m ∉ writes) : s'.members w = s.members w := by
  refine writeAll_keeps (P := fun t => t.members w = s.members w) h ?_ rfl
  intro statement hmem t t' hwrite ht
  rw [← ht]
  unfold members
  rcases write_memberships hwrite with ⟨hsame, _⟩ | ⟨w', u', m', rfl, _, _, happend⟩ |
    ⟨w', u', m', rfl, hmap⟩
  · rw [hsame]
  · have hne : w' ≠ w := by
      rintro rfl
      exact hinsert u' m' hmem
    simp [happend, List.filter_append, hne]
  · have hne : w' ≠ w := by
      rintro rfl
      exact hupdate u' m' hmem
    rw [hmap, Dict.mapValues, List.filter_map]
    refine (List.map_congr_left ?_).trans (List.map_id' _)
    intro entry hentry
    have hw : entry.1.1 = w := by simpa using (List.mem_filter.mp hentry).2
    have hkey : entry.1 ≠ (w', u') := by
      intro heq
      rw [heq] at hw
      exact hne hw
    simp [hkey]

/-- A token stays, and stays unrevoked only if no statement revokes it. -/
theorem token_stays {old : PersonalAccessToken} (hold : s.tokens.get? id = some old) :
    ∃ token, s'.tokens.get? id = some token ∧ old.Became token ∧
      (token.revoked = false → .revokeToken id ∉ writes) := by
  induction writes generalizing s old with
  | nil =>
    cases h
    exact ⟨old, hold, .refl old, fun _ => List.not_mem_nil⟩
  | cons statement writes ih =>
    obtain ⟨t, ht, hrest⟩ := writeAll_cons h
    have hfirst : ∃ mid, t.tokens.get? id = some mid ∧ old.Became mid ∧
        (mid.revoked = false → statement ≠ .revokeToken id) := by
      rcases write_tokens ht with ⟨hsame, _, hno⟩ | ⟨id', token, rfl, _, happend⟩ |
        ⟨id', rfl, hmap⟩
      · rw [hsame]
        exact ⟨old, hold, .refl old, fun _ => hno id⟩
      · rw [happend]
        exact ⟨old, Dict.get?_append_of_some hold, .refl old, fun _ => nofun⟩
      · rw [hmap, Dict.get?_mapValues, hold]
        by_cases hid : id = id'
        · refine ⟨{ old with revoked := true }, by simp [hid], ⟨rfl, rfl, rfl, fun _ => rfl⟩, ?_⟩
          intro hfalse
          cases hfalse
        · refine ⟨old, by simp [hid], .refl old, ?_⟩
          rintro _ ⟨⟩
          exact hid rfl
    obtain ⟨mid, hmid, hbecame, hno⟩ := hfirst
    obtain ⟨token, htoken, hlater, hnone⟩ := ih hrest hmid
    refine ⟨token, htoken, hbecame.trans hlater, ?_⟩
    intro hunrevoked hmem
    rcases List.mem_cons.mp hmem with heq | hmem
    · exact hno (hlater.unrevoked hunrevoked) heq.symm
    · exact hnone hunrevoked hmem

theorem token_cases {token : PersonalAccessToken} (htoken : s'.tokens.get? id = some token) :
    (∃ old, s.tokens.get? id = some old) ∨
      ∃ new, .insertToken id new ∈ writes ∧ new.Became token := by
  induction writes generalizing s with
  | nil =>
    rw [← Option.some.inj h] at htoken
    exact Or.inl ⟨token, htoken⟩
  | cons statement writes ih =>
    obtain ⟨t, ht, hrest⟩ := writeAll_cons h
    rcases ih hrest with ⟨old, hold⟩ | ⟨new, hnew, hbecame⟩
    · rcases write_tokens ht with ⟨hsame, _⟩ | ⟨id', new, rfl, hnone, happend⟩ | ⟨id', _, hmap⟩
      · rw [hsame] at hold
        exact Or.inl ⟨old, hold⟩
      · by_cases hid : id' = id
        · subst hid
          have hnow : t.tokens.get? id' = some new := by
            rw [happend]
            exact get?_concat_self hnone
          obtain ⟨last, hlast, hbecame, _⟩ := token_stays hrest hnow
          rw [htoken] at hlast
          cases hlast
          exact Or.inr ⟨new, List.mem_cons_self, hbecame⟩
        · rw [happend, get?_concat_of_ne hid] at hold
          exact Or.inl ⟨old, hold⟩
      · rw [hmap, Dict.get?_mapValues] at hold
        obtain ⟨was, hwas, _⟩ := Option.map_eq_some_iff.mp hold
        exact Or.inl ⟨was, hwas⟩
    · exact Or.inr ⟨new, List.mem_cons_of_mem _ hnew, hbecame⟩

/-- An invitation stays, with the status the set gives it, if it gives one. -/
theorem invitation_stays {old : WorkspaceInvitation} (hold : s.invitations.get? id = some old) :
    ∃ new, s'.invitations.get? id = some new ∧ old.Same new ∧
      (new.status = old.status ∧ (∀ status, .resolveInvitation id status ∉ writes) ∨
        .resolveInvitation id new.status ∈ writes) := by
  induction writes generalizing s old with
  | nil =>
    cases h
    exact ⟨old, hold, .refl old, Or.inl ⟨rfl, fun _ => List.not_mem_nil⟩⟩
  | cons statement writes ih =>
    obtain ⟨t, ht, hrest⟩ := writeAll_cons h
    have hfirst : ∃ mid, t.invitations.get? id = some mid ∧ old.Same mid ∧
        (mid.status = old.status ∧ (∀ status, statement ≠ .resolveInvitation id status) ∨
          statement = .resolveInvitation id mid.status) := by
      rcases write_invitations ht with ⟨hsame, _, _, hno⟩ | ⟨id', new, rfl, _, happend, _⟩ |
        ⟨id', status, rfl, hmap, _⟩
      · rw [hsame]
        exact ⟨old, hold, .refl old, Or.inl ⟨rfl, hno id⟩⟩
      · rw [happend]
        exact ⟨old, Dict.get?_append_of_some hold, .refl old, Or.inl ⟨rfl, fun _ => nofun⟩⟩
      · rw [hmap, Dict.get?_mapValues, hold]
        by_cases hid : id = id'
        · subst hid
          exact ⟨{ old with status := status }, by simp, ⟨rfl, rfl, rfl⟩, Or.inr rfl⟩
        · refine ⟨old, by simp [hid], .refl old, Or.inl ⟨rfl, ?_⟩⟩
          rintro _ ⟨⟩
          exact hid rfl
    obtain ⟨mid, hmid, hsame, hstatus⟩ := hfirst
    obtain ⟨new, hnew, hlater, hlast⟩ := ih hrest hmid
    refine ⟨new, hnew, hsame.trans hlater, ?_⟩
    rcases hlast with ⟨hkept, hnone⟩ | hresolved
    · rcases hstatus with ⟨hfirst, hno⟩ | rfl
      · refine Or.inl ⟨hkept.trans hfirst, ?_⟩
        intro status hmem
        rcases List.mem_cons.mp hmem with heq | hmem
        · exact hno status heq.symm
        · exact hnone status hmem
      · rw [hkept]
        exact Or.inr List.mem_cons_self
    · exact Or.inr (List.mem_cons_of_mem _ hresolved)

theorem invitation_cases {invitation : WorkspaceInvitation}
    (hfound : s'.invitations.get? id = some invitation) :
    (∃ old, s.invitations.get? id = some old) ∨
      s.invitations.get? id = none ∧ ∃ new, .insertInvitation id new ∈ writes ∧
        new.Same invitation ∧
        (invitation.status = new.status ∨ .resolveInvitation id invitation.status ∈ writes) := by
  induction writes generalizing s with
  | nil =>
    rw [← Option.some.inj h] at hfound
    exact Or.inl ⟨invitation, hfound⟩
  | cons statement writes ih =>
    obtain ⟨t, ht, hrest⟩ := writeAll_cons h
    have hback : ∀ old, t.invitations.get? id = some old →
        (∃ old, s.invitations.get? id = some old) ∨
          s.invitations.get? id = none ∧ statement = .insertInvitation id old := by
      intro old hold
      rcases write_invitations ht with ⟨hsame, _⟩ | ⟨id', new, rfl, hnone, happend, _⟩ |
        ⟨id', _, _, hmap, _⟩
      · rw [hsame] at hold
        exact Or.inl ⟨old, hold⟩
      · rw [happend] at hold
        by_cases hid : id' = id
        · subst hid
          rw [get?_concat_self hnone] at hold
          cases hold
          exact Or.inr ⟨hnone, rfl⟩
        · rw [get?_concat_of_ne hid] at hold
          exact Or.inl ⟨old, hold⟩
      · rw [hmap, Dict.get?_mapValues] at hold
        obtain ⟨was, hwas, _⟩ := Option.map_eq_some_iff.mp hold
        exact Or.inl ⟨was, hwas⟩
    rcases ih hrest with ⟨old, hold⟩ | ⟨hnone, new, hnew, hsame, hstatus⟩
    · rcases hback old hold with hwas | ⟨hnone, rfl⟩
      · exact Or.inl hwas
      · obtain ⟨last, hlast, hsame, hstatus⟩ := invitation_stays hrest hold
        rw [hfound] at hlast
        cases hlast
        refine Or.inr ⟨hnone, old, List.mem_cons_self, hsame, ?_⟩
        exact hstatus.imp And.left (List.mem_cons_of_mem _)
    · cases hold : s.invitations.get? id with
      | some old => exact Or.inl ⟨old, rfl⟩
      | none =>
        refine Or.inr ⟨rfl, new, List.mem_cons_of_mem _ hnew, hsame, ?_⟩
        exact hstatus.imp_right (List.mem_cons_of_mem _)

theorem mem_resolutions {status : WorkspaceInvitationStatus} :
    (id, status) ∈ s'.resolutions ↔
      (id, status) ∈ s.resolutions ∨ .resolveInvitation id status ∈ writes := by
  induction writes generalizing s with
  | nil =>
    cases h
    simp
  | cons statement writes ih =>
    obtain ⟨t, ht, hrest⟩ := writeAll_cons h
    rw [ih hrest, List.mem_cons]
    rcases write_invitations ht with ⟨_, hsame, _, hno⟩ | ⟨_, _, rfl, _, _, hsame⟩ |
      ⟨id', status', rfl, _, happend⟩
    · rw [hsame]
      simp [(hno id status).symm]
    · rw [hsame]
      simp
    · rw [happend, List.mem_append, List.mem_singleton, or_assoc]
      simp

theorem acceptances_writeAll :
    s'.acceptances = s.acceptances ++ writes.filterMap (fun
      | .noteAcceptance a => some a
      | _ => none) := by
  induction writes generalizing s with
  | nil =>
    cases h
    simp
  | cons statement writes ih =>
    obtain ⟨t, ht, hrest⟩ := writeAll_cons h
    rw [ih hrest, List.filterMap_cons]
    rcases write_acceptances ht with ⟨hsame, hno⟩ | ⟨a, rfl, happend⟩
    · cases statement with
      | noteAcceptance a => exact absurd rfl (hno a)
      | _ => rw [hsame]
    · simp [happend]

theorem mem_acceptances {a : Acceptance} :
    a ∈ s'.acceptances ↔ a ∈ s.acceptances ∨ .noteAcceptance a ∈ writes := by
  rw [acceptances_writeAll h, List.mem_append, List.mem_filterMap]
  refine or_congr_right ⟨?_, fun hmem => ⟨_, hmem, rfl⟩⟩
  rintro ⟨statement, hmem, heq⟩
  cases statement with
  | noteAcceptance b => cases heq; exact hmem
  | _ => cases heq

theorem keys_writeAll_nodup (hkeys : s.workspaces.keys.Nodup ∧ s.memberships.keys.Nodup) :
    s'.workspaces.keys.Nodup ∧ s'.memberships.keys.Nodup := by
  refine writeAll_keeps (P := fun t => t.workspaces.keys.Nodup ∧ t.memberships.keys.Nodup) h ?_
    hkeys
  rintro statement _ t t' hwrite ⟨hw, hm⟩
  constructor
  · rcases write_workspaces hwrite with ⟨hsame, _⟩ | ⟨_, _, _, hnone, happend⟩
    · rw [hsame]
      exact hw
    · rw [happend]
      exact keys_concat_nodup hnone hw
  · rcases write_memberships hwrite with ⟨hsame, _⟩ | ⟨_, _, _, _, hnone, _, happend⟩ |
      ⟨_, _, _, _, hmap⟩
    · rw [hsame]
      exact hm
    · rw [happend]
      exact keys_concat_nodup hnone hm
    · rw [hmap, Dict.keys_mapValues]
      exact hm

end

end Rows

end Grafy.Identity
