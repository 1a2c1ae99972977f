import Grafy.IdentityOperations

/-!
Owners and authorization versions, over every run of the identity operations from an empty
database: a Workspace keeps an active owner, and a membership's version moves with
everything that changes what it grants.
-/
namespace Grafy.Identity

open OrderedDict Transactions

abbrev ServiceTx := Tx Rows ℕ (List Statement) (Except IdentityError Outcome) Op

abbrev ServiceState := State Rows ℕ (List Statement) (Except IdentityError Outcome) Op

/-- A run of identity operations whose commits all meet a condition. -/
abbrev Runs (meets : Op → List Statement → Rows → Prop) (s s' : ServiceState) : Prop :=
  service.Reached meets s s'

def emptyService : ServiceState := ⟨Rows.empty, []⟩

section
variable {meets : Op → List Statement → Rows → Prop} {s s' : ServiceState}

theorem disciplined_empty : discipline.Disciplined emptyService :=
  Discipline.disciplined_start Rows.wellFormed_empty

theorem Runs.disciplined (h : Runs meets emptyService s) : discipline.Disciplined s :=
  (Discipline.Disciplined.run (J := fun _ => True) (fun op store _ => sound_program op store)
    (fun _ _ _ _ _ _ _ _ _ => trivial) h disciplined_empty trivial).1

/-- What lawful commits keep, a run from a disciplined state keeps. -/
theorem Runs.keep {J : Rows → Prop} (h : Runs meets s s') (hs : discipline.Disciplined s)
    (hkeeps : ∀ op held writes store store', store.WellFormed → meets op writes store →
      Lawful op held writes store → Rows.writeAll writes store = some store' → J store → J store')
    (hJ : J s.store) : J s'.store := by
  refine (Discipline.Disciplined.run (fun op store _ => sound_program op store) ?_ h hs hJ).2
  intro op held writes store store' hwell hmeets hguarantee
  exact hkeeps op held writes store store' hwell hmeets hguarantee.1 hguarantee.2

/-- A commit moves a membership on. -/
theorem Lawful.advances {op : Op} {held : List ℕ} {writes : List Statement} {store store' : Rows}
    (h : Lawful op held writes store) (hwrite : Rows.writeAll writes store = some store')
    {w u : ℕ} {m : WorkspaceMembership} (hm : store.memberships.get? (w, u) = some m) :
    ∃ m', store'.memberships.get? (w, u) = some m' ∧ m.Advances m' := by
  obtain ⟨m', hm', hfrom⟩ := Rows.membership_stays hwrite hm
  refine ⟨m', hm', ?_⟩
  rcases hfrom with ⟨rfl, _⟩ | hupdate
  · exact .refl m'
  · obtain ⟨old, hold, hadvances, _⟩ := (h.changes w u m' hupdate).advances
    rw [hm] at hold
    cases hold
    exact hadvances

end

/-- The members of a personal Workspace: its owner alone. -/
theorem Rows.WellFormed.members_personal {s : Rows} (hs : s.WellFormed) {w owner : ℕ}
    {ws : Workspace} (hws : s.workspaces.get? w = some ws) (hkind : ws.kind = .personal owner) :
    ∃ m, s.members w = [((w, owner), m)] ∧ m.isOwner = true := by
  have honly : ∀ entry ∈ s.members w, entry.1 = (w, owner) := by
    rintro ⟨⟨w', u⟩, m⟩ hmember
    obtain ⟨hmem, hw⟩ := List.mem_filter.mp hmember
    have hw : w' = w := by simpa using hw
    subst hw
    obtain ⟨ws', hws', hfor⟩ := hs.placed w' u m (Dict.get?_of_mem hs.memberships_nodup hmem)
    rw [hws] at hws'
    cases hws'
    rw [hfor owner hkind]
  have hkeys : (Dict.keys (s.members w)).Nodup :=
    hs.memberships_nodup.sublist (List.filter_sublist.map Prod.fst)
  obtain ⟨u, m, hm, howner⟩ := hs.owned w ws hws
  rw [← Rows.get?_members] at hm
  match hmembers : s.members w with
  | [] =>
    rw [hmembers] at hm
    cases hm
  | [((w', u'), m')] =>
    rw [hmembers] at honly hm
    have hkey : (w', u') = (w, owner) := honly ((w', u'), m') List.mem_cons_self
    rw [hkey] at hm ⊢
    rw [Dict.get?_cons] at hm
    split at hm
    · cases hm
      exact ⟨m, rfl, howner⟩
    · cases hm
  | (key₁, _) :: (key₂, _) :: _ =>
    rw [hmembers] at honly hkeys
    have h₁ : key₁ = (w, owner) := honly _ List.mem_cons_self
    have h₂ : key₂ = (w, owner) := honly _ (List.mem_cons_of_mem _ List.mem_cons_self)
    subst h₁ h₂
    simp [Dict.keys] at hkeys

/-- Along every run: owners stay, a personal Workspace is its owner's alone, and versions
move on. -/
theorem workspaces_keep_owners {s : ServiceState} (h : Runs (fun _ _ _ => True) emptyService s) :
    (∀ w ws, s.store.workspaces.get? w = some ws →
      (ws.kind = .shared → ∃ u m, s.store.memberships.get? (w, u) = some m ∧
        m.isActive = true ∧ m.role = .owner) ∧
      ∀ owner, ws.kind = .personal owner → ∃ m, s.store.members w = [((w, owner), m)] ∧
        m.isActive = true ∧ m.role = .owner) ∧
    ∀ s', Runs (fun _ _ _ => True) s s' → ∀ w u m, s.store.memberships.get? (w, u) = some m →
      ∃ m', s'.store.memberships.get? (w, u) = some m' ∧
        m.authorizationVersion ≤ m'.authorizationVersion ∧
        (m'.capabilities ≠ m.capabilities → m.authorizationVersion < m'.authorizationVersion) := by
  have hdisciplined := h.disciplined
  have howner : ∀ {m : WorkspaceMembership}, m.isOwner = true →
      m.isActive = true ∧ m.role = .owner := by
    intro m hm
    simpa [WorkspaceMembership.isOwner] using hm
  refine ⟨?_, ?_⟩
  · intro w ws hws
    constructor
    · intro _
      obtain ⟨u, m, hm, hisOwner⟩ := hdisciplined.holds.owned w ws hws
      exact ⟨u, m, hm, howner hisOwner⟩
    · intro owner hkind
      obtain ⟨m, hm, hisOwner⟩ := hdisciplined.holds.members_personal hws hkind
      exact ⟨m, hm, howner hisOwner⟩
  · intro s' hrun w u m hm
    refine hrun.keep (J := fun store => ∃ m', store.memberships.get? (w, u) = some m' ∧
      m.Advances m') hdisciplined ?_ ⟨m, hm, .refl m⟩
    rintro op held writes store store' _ _ hlawful hwrite ⟨mid, hmid, hadvances⟩
    obtain ⟨m', hm', hlater⟩ := hlawful.advances hwrite hmid
    exact ⟨m', hm', hadvances.trans hlater⟩

/-- Two users, the team that the first one founds, and the second invited to it. -/
def teamActs : List (Act Op) :=
  [.start (.provision [] "issuer" "first" none false 1 10), .go 0, .go 0,
    .start (.provision [] "issuer" "second" (some ['b', '@', 'x']) true 2 20), .go 1, .go 1,
    .start (.createShared 1 "team" 30), .go 2, .go 2, .go 2,
    .start (.invite 1 30 ['b', '@', 'x'] .editor 40 0 7), .go 3, .go 3, .go 3, .go 3, .go 3,
    .go 3, .go 3, .go 3]

/-- The second user accepts, and is an editor of the team. -/
def memberActs : List (Act Op) := teamActs ++ .start (.accept 2 40 1) :: List.replicate 5 (.go 4)

/-- The founder of the team tries to become a viewer while the second user accepts. -/
def demotionActs : List (Act Op) :=
  teamActs ++ [.start (.changeRole 1 30 1 .viewer), .go 4, .go 4, .go 4,
    .start (.accept 2 40 1), .go 5, .go 5, .go 4, .go 4, .go 4, .go 5, .go 5, .go 5]

theorem team_keeps_owner : ∃ s, service.runIf (fun _ _ _ => True) emptyService demotionActs =
    some s ∧ ∃ u m, s.store.memberships.get? (30, u) = some m ∧ m.isActive = true ∧
      m.role = .owner := by
  have hteam : (service.runIf (fun _ _ _ => True) emptyService demotionActs).map
      (fun s => s.store.workspaces.get? 30) = some (some ⟨"team", .shared⟩) := by decide
  obtain ⟨s, hrun, hws⟩ := Option.map_eq_some_iff.mp hteam
  have howners := workspaces_keep_owners (Machine.reached_of_runIf hrun)
  exact ⟨s, hrun, (howners.1 30 _ hws).1 rfl⟩

end Grafy.Identity
