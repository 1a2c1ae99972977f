import Grafy.WorkspaceOwners

/-!
Personal access tokens over every run of the identity operations. Changing or removing a
member revokes the tokens it no longer covers, under the lock of the Workspace; a token is
issued without that lock, for a membership that was read before.
-/
namespace Grafy.Identity

open Transactions

/-- Every token that is not revoked is covered by its owner's membership. -/
def Rows.covered (s : Rows) : Prop :=
  ∀ id token, s.tokens.get? id = some token → token.revoked = false →
    token.scopes ⊆ s.capabilities token.workspace token.user

/-- Whether a token that is issued is covered by what is committed at that moment. -/
def stillGranted : Op → Rows → Bool
  | .createToken _ _ token, s => token.scopes ⊆ s.capabilities token.workspace token.user
  | _, _ => true

/-- What authenticates is not revoked, and has no more than its scopes. -/
theorem authenticate_subset {s : Rows} {id : ℕ} {token : PersonalAccessToken}
    {power : Finset WorkspaceCapability} (htoken : s.tokens.get? id = some token)
    (h : authenticatePersonalAccessToken s id = some power) :
    token.revoked = false ∧ power ⊆ token.scopes := by
  unfold authenticatePersonalAccessToken at h
  rw [htoken] at h
  simp only at h
  split at h
  · cases h
  · next hunrevoked =>
    refine ⟨Bool.eq_false_of_not_eq_true hunrevoked, ?_⟩
    split at h
    · split at h
      · cases h
        exact Finset.inter_subset_left
      · cases h
    · cases h

section
variable {op : Op} {held : List ℕ} {writes : List Statement} {s s' : Rows} {u w : ℕ}

theorem Rows.capabilities_of_some {w u : ℕ} {m : WorkspaceMembership}
    (h : s.memberships.get? (w, u) = some m) : s.capabilities w u = m.capabilities := by
  rw [Rows.capabilities, h]
  rfl

theorem Rows.capabilities_of_none (h : s.memberships.get? (w, u) = none) :
    s.capabilities w u = ∅ := by
  rw [Rows.capabilities, h]
  rfl

section

variable (h : Lawful op held writes s) (hwrite : Rows.writeAll writes s = some s')
include h hwrite

variable {id : ℕ} {token : PersonalAccessToken}

/-- A token that the owner's membership covered is covered after a commit, or revoked by it. -/
theorem Lawful.covers_old (htoken : s.tokens.get? id = some token)
    (hunrevoked : token.revoked = false) (hkept : .revokeToken id ∉ writes)
    (hcovered : token.scopes ⊆ s.capabilities token.workspace token.user) :
    token.scopes ⊆ s'.capabilities token.workspace token.user := by
  cases hold : s.memberships.get? (token.workspace, token.user) with
  | none =>
    rw [Rows.capabilities_of_none hold] at hcovered
    exact hcovered.trans (Finset.empty_subset _)
  | some old =>
    rw [Rows.capabilities_of_some hold] at hcovered
    obtain ⟨m, hm, hfrom⟩ := Rows.membership_stays hwrite hold
    rw [Rows.capabilities_of_some hm]
    rcases hfrom with ⟨rfl, _⟩ | hupdate
    · exact hcovered
    · obtain ⟨was, hwas, _, htokens⟩ := (h.changes _ _ m hupdate).advances
      rw [hold] at hwas
      cases hwas
      exact (htokens id token htoken rfl rfl hunrevoked hcovered).resolve_right hkept

/-- A token that is issued while its owner's membership is not updated is covered as it was. -/
theorem Lawful.covers_new (hmeets : stillGranted op s = true)
    (hnew : .insertToken id token ∈ writes) :
    token.scopes ⊆ s'.capabilities token.workspace token.user := by
  obtain ⟨⟨actor, asked, rfl, rfl⟩, hquiet⟩ := h.issues id token hnew
  have hcovered : asked.scopes ⊆ s.capabilities asked.workspace asked.user := by
    simpa [stillGranted] using hmeets
  cases hold : s.memberships.get? (asked.workspace, asked.user) with
  | none =>
    rw [Rows.capabilities_of_none hold] at hcovered
    exact hcovered.trans (Finset.empty_subset _)
  | some old =>
    rw [Rows.capabilities_of_some hold] at hcovered
    obtain ⟨m, hm, ⟨rfl, _⟩ | hupdate⟩ := Rows.membership_stays hwrite hold
    · rw [Rows.capabilities_of_some hm]
      exact hcovered
    · exact absurd hupdate (hquiet _ _ m)

end

theorem Rows.covered.commit (hs : s.covered) (h : Lawful op held writes s)
    (hwrite : Rows.writeAll writes s = some s') (hmeets : stillGranted op s = true) :
    s'.covered := by
  intro id token htoken hunrevoked
  rcases Rows.token_cases hwrite htoken with ⟨old, hold⟩ | ⟨new, hnew, hbecame⟩
  · obtain ⟨last, hlast, hbecame, hkept⟩ := Rows.token_stays hwrite hold
    rw [htoken] at hlast
    cases hlast
    have hwas : old.revoked = false := hbecame.unrevoked hunrevoked
    rw [hbecame.scopes, hbecame.workspace, hbecame.user]
    exact h.covers_old hwrite hold hwas (hkept hunrevoked) (hs id old hold hwas)
  · rw [hbecame.scopes, hbecame.workspace, hbecame.user]
    exact h.covers_new hwrite hmeets hnew

end

/-- Where each token is issued while the committed membership still grants its scopes, no
token has more than its owner's membership, in whatever state the run reaches, and none
authenticates later with more than that membership granted before. -/
theorem tokens_within_membership {s : ServiceState}
    (h : Runs (fun op _ store => stillGranted op store = true) emptyService s) :
    (∀ id token, s.store.tokens.get? id = some token → token.revoked = false →
      token.scopes ⊆ s.store.capabilities token.workspace token.user) ∧
    ∀ s', Runs (fun op _ store => stillGranted op store = true) s s' → ∀ id token power,
      s.store.tokens.get? id = some token →
        authenticatePersonalAccessToken s'.store id = some power →
          power ⊆ s.store.capabilities token.workspace token.user := by
  have hcovered : s.store.covered := by
    refine h.keep (J := Rows.covered) disciplined_empty ?_ (fun _ _ h => nomatch h)
    intro op held writes store store' _ hmeets hlawful hwrite hs
    exact hs.commit hlawful hwrite hmeets
  refine ⟨hcovered, ?_⟩
  intro s' hrun id token power htoken hpower
  have hbecame : ∃ last, s'.store.tokens.get? id = some last ∧ token.Became last := by
    refine hrun.keep (J := fun store => ∃ last, store.tokens.get? id = some last ∧
      token.Became last) h.disciplined ?_ ⟨token, htoken, .refl token⟩
    rintro op held writes store store' _ _ _ hwrite ⟨mid, hmid, hfirst⟩
    obtain ⟨last, hlast, hlater, _⟩ := Rows.token_stays hwrite hmid
    exact ⟨last, hlast, hfirst.trans hlater⟩
  obtain ⟨last, hlast, hsame⟩ := hbecame
  obtain ⟨hunrevoked, hsubset⟩ := authenticate_subset hlast hpower
  rw [hsame.scopes] at hsubset
  exact hsubset.trans (hcovered id token htoken (hsame.unrevoked hunrevoked))

/-- A token to edit projects in the team. -/
def editToken : PersonalAccessToken := ⟨2, 30, {.editProject}, false⟩

theorem edit_token_covered : ∃ s token, service.runIf
    (fun op _ store => stillGranted op store = true)
    emptyService (memberActs ++ .start (.createToken 2 50 editToken) :: List.replicate 3 (.go 5)) =
      some s ∧ s.store.tokens.get? 50 = some token ∧ token.revoked = false ∧
        token.scopes ⊆ s.store.capabilities token.workspace token.user := by
  have hissued : (service.runIf (fun op _ store => stillGranted op store = true) emptyService
      (memberActs ++ .start (.createToken 2 50 editToken) :: List.replicate 3 (.go 5))).map
        (fun s => s.store.tokens.get? 50) = some (some editToken) := by decide
  obtain ⟨s, hrun, htoken⟩ := Option.map_eq_some_iff.mp hissued
  have hwithin := tokens_within_membership (Machine.reached_of_runIf hrun)
  exact ⟨s, editToken, hrun, htoken, rfl, hwithin.1 50 editToken htoken rfl⟩

/-- The token is asked for by an editor, who is made a viewer before it is committed. -/
def demotedActs : List (Act Op) :=
  memberActs ++ [.start (.createToken 2 50 editToken), .go 5, .go 5,
    .start (.changeRole 1 30 2 .viewer)] ++ List.replicate 8 (.go 6) ++ [.go 5]

/-- The viewer has a token to edit, which edits once the viewer is an editor again. -/
theorem token_outlives_demotion : ∃ s s' token power,
    Runs (fun _ _ _ => True) emptyService s ∧ Runs (fun _ _ _ => True) s s' ∧
    s.store.tokens.get? 50 = some token ∧ token.revoked = false ∧
    ¬ token.scopes ⊆ s.store.capabilities token.workspace token.user ∧
    authenticatePersonalAccessToken s'.store 50 = some power ∧
    ¬ power ⊆ s.store.capabilities token.workspace token.user := by
  have hdemoted : (service.runIf (fun _ _ _ => True) emptyService demotedActs).map
      (fun s => (s.store.tokens.get? 50, s.store.capabilities 30 2,
        (service.runIf (fun _ _ _ => True) s
          (.start (.changeRole 1 30 2 .editor) :: List.replicate 8 (.go 7))).map
            (fun s' => authenticatePersonalAccessToken s'.store 50))) =
      some (some editToken, capabilitiesForRole .viewer, some (some {.editProject})) := by decide
  obtain ⟨s, hrun, hs⟩ := Option.map_eq_some_iff.mp hdemoted
  obtain ⟨htoken, hrest⟩ := Prod.mk.inj hs
  obtain ⟨hcapabilities, hlater⟩ := Prod.mk.inj hrest
  obtain ⟨s', hrun', hpower⟩ := Option.map_eq_some_iff.mp hlater
  refine ⟨s, s', editToken, {.editProject}, Machine.reached_of_runIf hrun,
    Machine.reached_of_runIf hrun', htoken, rfl, ?_, hpower, ?_⟩
  · rw [show s.store.capabilities editToken.workspace editToken.user = _ from hcapabilities]
    decide
  · rw [show s.store.capabilities editToken.workspace editToken.user = _ from hcapabilities]
    decide

end Grafy.Identity
