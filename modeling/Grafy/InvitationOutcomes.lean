import Grafy.WorkspaceOwners

/-!
Invitations over every run of the identity operations. Each operation checks that the
invitation is pending on the row it has read, before it waits for the lock of the Workspace
or, cancelling, without any; the row is not read again.
-/
namespace Grafy.Identity

open Transactions

/-- Whether every invitation that is resolved is pending in the rows that are committed. -/
def stillPending (writes : List Statement) (s : Rows) : Bool :=
  writes.all fun
    | .resolveInvitation id _ => (s.invitations.get? id).all (fun i => i.status = .pending)
    | _ => true

theorem stillPending_iff {writes : List Statement} {s : Rows} :
    stillPending writes s = true ↔ ∀ id status i, .resolveInvitation id status ∈ writes →
      s.invitations.get? id = some i → i.status = .pending := by
  unfold stillPending
  rw [List.all_eq_true]
  constructor
  · intro h id status i hmem hi
    have hall := h _ hmem
    simpa [hi] using hall
  · intro h statement hmem
    cases statement with
    | resolveInvitation id status =>
      cases hi : s.invitations.get? id with
      | none => simp [hi]
      | some i => simp [hi, h id status i hmem hi]
    | _ => rfl

/-- The record of the resolutions and of the acceptances agrees with the statuses. -/
structure Rows.Settled (s : Rows) : Prop where
  resolved : ∀ id status, (id, status) ∈ s.resolutions →
    status ≠ .pending ∧ ∃ i, s.invitations.get? id = some i ∧ i.status = status
  granted : ∀ id i, s.invitations.get? id = some i → i.status = .accepted →
    ∃ a ∈ s.acceptances, a.invitation = id
  accepted : ∀ a ∈ s.acceptances, ∃ i, s.invitations.get? a.invitation = some i ∧
    i.status = .accepted ∧ i.workspace = a.workspace ∧ i.invitee = a.user ∧ i.role = a.role

/-- The membership an acceptance gives: there was no active one, and now there is, with the
role of the invitation. -/
def Granted (s s' : Rows) (a : Acceptance) : Prop :=
  (∀ m, s.memberships.get? (a.workspace, a.user) = some m → m.isActive = false) ∧
    ∃ m, s'.memberships.get? (a.workspace, a.user) = some m ∧ m.isActive = true ∧ m.role = a.role

section
variable {op : Op} {held : List ℕ} {writes : List Statement} {s s' : Rows} {id : ℕ}
  {i : WorkspaceInvitation}

theorem status_stays (hwrite : Rows.writeAll writes s = some s')
    (hmeets : stillPending writes s = true) (hi : s.invitations.get? id = some i)
    (hresolved : i.status ≠ .pending) :
    ∃ i', s'.invitations.get? id = some i' ∧ i.Same i' ∧ i'.status = i.status := by
  obtain ⟨i', hi', hsame, ⟨hstatus, _⟩ | hresolve⟩ := Rows.invitation_stays hwrite hi
  · exact ⟨i', hi', hsame, hstatus⟩
  · exact absurd (stillPending_iff.mp hmeets id _ i hresolve hi) hresolved

/-- A status that a commit gives is the one the invitation has after it. -/
theorem Lawful.status_given (h : Lawful op held writes s)
    (hwrite : Rows.writeAll writes s = some s') {status : WorkspaceInvitationStatus}
    (hresolve : .resolveInvitation id status ∈ writes) (hi : s.invitations.get? id = some i) :
    ∃ i', s'.invitations.get? id = some i' ∧ i.Same i' ∧ i'.status = status := by
  obtain ⟨i', hi', hsame, ⟨_, hnone⟩ | hgiven⟩ := Rows.invitation_stays hwrite hi
  · exact absurd hresolve (hnone status)
  · exact ⟨i', hi', hsame, (h.resolves id status hresolve).2.2 _ hgiven⟩

theorem Rows.Settled.commit (hs : s.Settled) (h : Lawful op held writes s)
    (hwrite : Rows.writeAll writes s = some s') (hmeets : stillPending writes s = true) :
    s'.Settled := by
  refine ⟨?_, ?_, ?_⟩
  · intro id status hmem
    rcases (Rows.mem_resolutions hwrite).mp hmem with hold | hnew
    · obtain ⟨hpending, i, hi, rfl⟩ := hs.resolved id status hold
      obtain ⟨i', hi', _, hstatus⟩ := status_stays hwrite hmeets hi hpending
      exact ⟨hpending, i', hi', hstatus⟩
    · obtain ⟨⟨i, hi⟩, hpending, _⟩ := h.resolves id status hnew
      obtain ⟨i', hi', _, hstatus⟩ := h.status_given hwrite hnew hi
      exact ⟨hpending, i', hi', hstatus⟩
  · intro id i' hi' haccepted
    rcases Rows.invitation_cases hwrite hi' with ⟨i, hi⟩ | ⟨hnone, new, hnew, _, hstatus⟩
    · obtain ⟨last, hlast, _, ⟨hstatus, _⟩ | hresolve⟩ := Rows.invitation_stays hwrite hi
      · rw [hi'] at hlast
        cases hlast
        obtain ⟨a, ha, hid⟩ := hs.granted id i hi (hstatus.symm.trans haccepted)
        exact ⟨a, (Rows.mem_acceptances hwrite).mpr (Or.inl ha), hid⟩
      · rw [hi'] at hlast
        cases hlast
        rw [haccepted] at hresolve
        obtain ⟨a, ha, hid⟩ := h.accepts id hresolve
        exact ⟨a, (Rows.mem_acceptances hwrite).mpr (Or.inr ha), hid⟩
    · rcases hstatus with hstatus | hresolve
      · rw [hstatus, (h.invites id new hnew).2] at haccepted
        cases haccepted
      · obtain ⟨⟨i, hi⟩, _⟩ := h.resolves id _ hresolve
        rw [hnone] at hi
        cases hi
  · intro a ha
    rcases (Rows.mem_acceptances hwrite).mp ha with hold | hnew
    · obtain ⟨i, hi, hstatus, hw, hu, hrole⟩ := hs.accepted a hold
      obtain ⟨i', hi', hsame, hkept⟩ := status_stays hwrite hmeets hi (by rw [hstatus]; nofun)
      exact ⟨i', hi', hkept.trans hstatus, hsame.workspace.trans hw, hsame.invitee.trans hu,
        hsame.role.trans hrole⟩
    · obtain ⟨⟨i, hi, hw, hu, hrole⟩, hresolve, _, _⟩ := h.gains a hnew
      obtain ⟨i', hi', hsame, hstatus⟩ := h.status_given hwrite hresolve hi
      exact ⟨i', hi', hstatus, hsame.workspace.trans hw, hsame.invitee.trans hu,
        hsame.role.trans hrole⟩

theorem Lawful.granted (h : Lawful op held writes s) (hwrite : Rows.writeAll writes s = some s')
    {a : Acceptance} (ha : .noteAcceptance a ∈ writes) : Granted s s' a := by
  obtain ⟨_, _, hmembership, honly⟩ := h.gains a ha
  rcases hmembership with hinsert | ⟨old, hold, hinactive, hupdate⟩
  · obtain ⟨hnone, m, hm, hfrom⟩ := Rows.membership_inserted hwrite hinsert
    refine ⟨fun _ hsome => ?_, m, hm, ?_⟩
    · rw [hnone] at hsome
      cases hsome
    · rcases hfrom with rfl | hlater
      · exact ⟨rfl, rfl⟩
      · exact honly m hlater
  · obtain ⟨m, hm, ⟨_, hnone⟩ | hlater⟩ := Rows.membership_stays hwrite hold
    · exact absurd hupdate (hnone _)
    · refine ⟨fun _ hsome => ?_, m, hm, honly m hlater⟩
      rw [hold] at hsome
      cases hsome
      exact hinactive

/-- A commit of an acceptance changes the membership it notes, and no other. -/
theorem Lawful.granted_by {actor now : ℕ} (h : Lawful (.accept actor id now) held writes s)
    (hwrite : Rows.writeAll writes s = some s') {w u : ℕ}
    (hchanged : s'.memberships.get? (w, u) ≠ s.memberships.get? (w, u)) :
    ∃ a, .noteAcceptance a ∈ writes ∧ a.invitation = id ∧ a.workspace = w ∧ a.user = u := by
  cases hold : s.memberships.get? (w, u) with
  | none =>
    cases hnew : s'.memberships.get? (w, u) with
    | none => exact absurd (hnew.trans hold.symm) hchanged
    | some m =>
      rcases Rows.membership_cases hwrite hnew with ⟨old, hsome⟩ | ⟨new, hinsert⟩
      · rw [hold] at hsome
        cases hsome
      · exact h.invitedBy actor id now rfl w u new (Or.inl hinsert)
  | some old =>
    obtain ⟨m, hm, ⟨rfl, _⟩ | hupdate⟩ := Rows.membership_stays hwrite hold
    · exact absurd (hm.trans hold.symm) hchanged
    · exact h.invitedBy actor id now rfl w u m (Or.inr hupdate)

end

theorem settled_empty : Rows.empty.Settled := by
  refine ⟨?_, ?_, ?_⟩
  · intro id status hmem
    cases hmem
  · intro id i hi
    cases hi
  · intro a ha
    cases ha

theorem Runs.settled {s : ServiceState}
    (h : Runs (fun _ writes store => stillPending writes store = true) emptyService s) :
    s.store.Settled := by
  refine h.keep (J := Rows.Settled) disciplined_empty ?_ settled_empty
  intro op held writes store store' _ hmeets hlawful hwrite hs
  exact hs.commit hlawful hwrite hmeets

/-- A transaction that reported a decline or a cancellation has recorded it. -/
theorem Runs.reported {meets : Op → List Statement → Rows → Prop} {s : ServiceState}
    (h : Runs meets emptyService s) {n id : ℕ} {tx : ServiceTx} (htx : s.txs[n]? = some tx)
    (hreport : tx.answer = some (.ok (.declined id)) ∨ tx.answer = some (.ok (.cancelled id))) :
    (id, .declined) ∈ s.store.resolutions ∨ (id, .cancelled) ∈ s.store.resolutions := by
  rcases hreport with hreport | hreport
  · exact Or.inl (h.disciplined.answer htx (Tx.program_of_answer hreport))
  · exact Or.inr (h.disciplined.answer htx (Tx.program_of_answer hreport))

/-- Where each invitation that a commit resolves is still pending then: a status is final; it
is accepted exactly where an acceptance was recorded, for the invitee and with the role of
the invitation; after a decline or a cancellation was reported there is none, then or later;
an acceptance gives its membership at its commit, and the commit of an acceptance gives no
other. -/
theorem invitations_resolved_once {s : ServiceState}
    (h : Runs (fun _ writes store => stillPending writes store = true) emptyService s) :
    (∀ s', Runs (fun _ writes store => stillPending writes store = true) s s' →
      ∀ id i, s.store.invitations.get? id = some i → ∃ i', s'.store.invitations.get? id = some i' ∧
        i'.role = i.role ∧ (i.status ≠ .pending → i'.status = i.status)) ∧
    (∀ id i, s.store.invitations.get? id = some i →
      (i.status = .accepted ↔ ∃ a ∈ s.store.acceptances, a.invitation = id)) ∧
    (∀ a ∈ s.store.acceptances, ∃ i, s.store.invitations.get? a.invitation = some i ∧
      i.workspace = a.workspace ∧ i.invitee = a.user ∧ i.role = a.role) ∧
    (∀ s', Runs (fun _ writes store => stillPending writes store = true) s s' →
      ∀ (n : ℕ) (tx : ServiceTx) id, s.txs[n]? = some tx → (tx.answer = some (.ok (.declined id)) ∨
        tx.answer = some (.ok (.cancelled id))) → ∀ a ∈ s'.store.acceptances, a.invitation ≠ id) ∧
    ∀ act s', service.step s act = some s' →
      (∀ a ∈ s'.store.acceptances, a ∉ s.store.acceptances → Granted s.store s'.store a) ∧
      ∀ actor id now writes, service.commits s act = some (.accept actor id now, writes) →
        ∀ w u, s'.store.memberships.get? (w, u) ≠ s.store.memberships.get? (w, u) →
          ∃ a ∈ s'.store.acceptances, a.invitation = id ∧ a.workspace = w ∧ a.user = u := by
  have hsettled := h.settled
  refine ⟨?_, ?_, ?_, ?_, ?_⟩
  · intro s' hrun id i hi
    refine hrun.keep (J := fun store => ∃ i', store.invitations.get? id = some i' ∧
      i'.role = i.role ∧ (i.status ≠ .pending → i'.status = i.status)) h.disciplined ?_
      ⟨i, hi, rfl, fun _ => rfl⟩
    rintro op held writes store store' _ hmeets _ hwrite ⟨mid, hmid, hrole, hkept⟩
    by_cases hpending : i.status = .pending
    · obtain ⟨i', hi', hsame, _⟩ := Rows.invitation_stays hwrite hmid
      exact ⟨i', hi', hsame.role.trans hrole, fun hne => absurd hpending hne⟩
    · have hmidpending : mid.status ≠ .pending := by
        rw [hkept hpending]
        exact hpending
      obtain ⟨i', hi', hsame, hstatus⟩ := status_stays hwrite hmeets hmid hmidpending
      exact ⟨i', hi', hsame.role.trans hrole, fun hne => hstatus.trans (hkept hne)⟩
  · intro id i hi
    constructor
    · exact hsettled.granted id i hi
    · rintro ⟨a, ha, rfl⟩
      obtain ⟨i', hi', hstatus, _⟩ := hsettled.accepted a ha
      rw [hi] at hi'
      cases hi'
      exact hstatus
  · intro a ha
    obtain ⟨i, hi, _, hparts⟩ := hsettled.accepted a ha
    exact ⟨i, hi, hparts⟩
  · rintro s' hrun n tx id htx hreport a ha rfl
    have hall : Runs (fun _ writes store => stillPending writes store = true) emptyService s' :=
      h.trans hrun
    have hlater := hall.settled
    have hrecord : ∀ status, (a.invitation, status) ∈ s.store.resolutions →
        (a.invitation, status) ∈ s'.store.resolutions := by
      intro status hmem
      refine hrun.keep (J := fun store => (a.invitation, status) ∈ store.resolutions)
        h.disciplined ?_ hmem
      intro op held writes store store' _ _ _ hwrite hold
      exact (Rows.mem_resolutions hwrite).mpr (Or.inl hold)
    obtain ⟨i, hi, haccepted, _⟩ := hlater.accepted a ha
    have hother : ∀ status, (a.invitation, status) ∈ s.store.resolutions → status = .accepted := by
      intro status hmem
      obtain ⟨_, i', hi', rfl⟩ := hlater.resolved _ _ (hrecord status hmem)
      rw [hi] at hi'
      cases hi'
      exact haccepted
    rcases h.reported htx hreport with hmem | hmem
    · cases hother _ hmem
    · cases hother _ hmem
  · intro act s' hstep
    obtain ⟨_, ⟨hnone, hsame⟩ | ⟨op, held, writes, hcommits, hlawful, hwrite⟩⟩ :=
      h.disciplined.step (fun op store _ => sound_program op store) hstep
    · refine ⟨?_, ?_⟩
      · intro a ha hnew
        rw [hsame] at ha
        exact absurd ha hnew
      · intro actor id now writes hcommits
        rw [hnone] at hcommits
        cases hcommits
    · refine ⟨?_, ?_⟩
      · intro a ha hnew
        have hnoted := ((Rows.mem_acceptances hwrite).mp ha).resolve_left hnew
        exact hlawful.granted hwrite hnoted
      · intro actor id now writes' hcommits' w u hchanged
        rw [hcommits] at hcommits'
        cases hcommits'
        obtain ⟨a, ha, hparts⟩ := hlawful.granted_by hwrite hchanged
        exact ⟨a, (Rows.mem_acceptances hwrite).mpr (Or.inr ha), hparts⟩

theorem team_invitation_accepted : ∃ s,
    service.runIf (fun _ writes store => stillPending writes store = true) emptyService memberActs =
      some s ∧ ∃ i, s.store.invitations.get? 40 = some i ∧
        (i.status = .accepted ↔ ∃ a ∈ s.store.acceptances, a.invitation = 40) := by
  have haccepted : (service.runIf (fun _ writes store => stillPending writes store = true)
      emptyService memberActs).map (fun s => s.store.invitations.get? 40) =
        some (some ⟨30, 2, .editor, 7, .accepted⟩) := by decide
  obtain ⟨s, hrun, hi⟩ := Option.map_eq_some_iff.mp haccepted
  have honce := invitations_resolved_once (Machine.reached_of_runIf hrun)
  exact ⟨s, hrun, _, hi, honce.2.1 40 _ hi⟩

/-- A decline reads the pending invitation, and waits while it is accepted. -/
def declinedActs : List (Act Op) :=
  teamActs ++ [.start (.decline 2 40 1), .go 4, .go 4, .start (.accept 2 40 1), .go 5, .go 5,
    .go 5, .go 5, .go 5]

/-- The accepted invitation becomes a declined one: the decline is reported, and the invitee
has the membership. -/
theorem accepted_then_declined : ∃ (s s' : ServiceState) (tx : ServiceTx)
    (m : WorkspaceMembership) (i i' : WorkspaceInvitation),
    Runs (fun _ _ _ => True) emptyService s ∧ Runs (fun _ _ _ => True) s s' ∧
    s.store.invitations.get? 40 = some i ∧ i.status = .accepted ∧
    s'.store.invitations.get? 40 = some i' ∧ i'.status = .declined ∧
    s'.txs[4]? = some tx ∧ tx.answer = some (.ok (.declined 40)) ∧
    (∃ a ∈ s'.store.acceptances, a.invitation = 40) ∧
    s'.store.memberships.get? (30, 2) = some m ∧ m.isActive = true := by
  have hraced : (service.runIf (fun _ _ _ => True) emptyService declinedActs).map (fun s =>
      (s.store.invitations.get? 40,
        (service.runIf (fun _ _ _ => True) s [.go 4, .go 4]).map (fun s' =>
          (s'.store.invitations.get? 40, s'.store.acceptances, s'.store.memberships.get? (30, 2),
            (s'.txs[4]?).map (fun tx => tx.answer.bind Except.toOption))))) =
      some (some ⟨30, 2, .editor, 7, .accepted⟩,
        some (some ⟨30, 2, .editor, 7, .declined⟩, [⟨40, 30, 2, .editor⟩], some (.new .editor),
          some (some (.declined 40)))) := by rfl
  obtain ⟨s, hrun, hs⟩ := Option.map_eq_some_iff.mp hraced
  obtain ⟨hi, hlater⟩ := Prod.mk.inj hs
  obtain ⟨s', hrun', hs'⟩ := Option.map_eq_some_iff.mp hlater
  obtain ⟨hi', hrest⟩ := Prod.mk.inj hs'
  obtain ⟨hacceptances, hrest⟩ := Prod.mk.inj hrest
  obtain ⟨hm, htxs⟩ := Prod.mk.inj hrest
  obtain ⟨tx, htx, hreported⟩ := Option.map_eq_some_iff.mp htxs
  have hanswer : tx.answer = some (.ok (.declined 40)) := by
    obtain ⟨result, hresult, hok⟩ := Option.bind_eq_some_iff.mp hreported
    cases result with
    | error => cases hok
    | ok outcome => rw [hresult, Option.some.inj hok]
  refine ⟨s, s', tx, _, _, _, Machine.reached_of_runIf hrun, Machine.reached_of_runIf hrun', hi,
    rfl, hi', rfl, htx, hanswer, ?_, hm, rfl⟩
  rw [hacceptances]
  exact ⟨_, List.mem_cons_self, rfl⟩

end Grafy.Identity
