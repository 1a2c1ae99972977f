import Grafy.CommandHistory

/-!
The checkpoint history of one Project. Revisions are numbered without gap and
no checkpoint is touched again. A mapping leads from an epoch and a sequence to
a checkpoint of what the head was there, and a head that is level with its last
checkpoint is that checkpoint; so whatever a restore or an unconditional delete
leaves behind has been made durable.
-/
namespace Grafy.CheckpointHistory

open Collaboration CommandEnvelopes CommandHistory Commands Loops OrderedDict

variable {casefold : String → String} {destination : String → Option String}
variable {hmac : String → String} {keyVersion : ℕ}
variable {past older : List Moment} {room : Room}

variable {head : ProjectHead}

section Standing

theorem acceptancesOf_prefix (h : older <:+ past) (epoch : Uuid) :
    acceptancesOf older epoch <+: acceptancesOf past epoch := by
  obtain ⟨newer, rfl⟩ := h
  unfold acceptancesOf acceptances
  rw [List.filterMap_append, List.reverse_append, List.filter_append]
  exact List.prefix_append _ _

theorem openingOf_suffix (h : older <:+ past) {epoch : Uuid}
    {opened : ProjectHead × Option (Uuid × ProjectCommandReceipt)}
    (hopened : openingOf older epoch = some opened) : openingOf past epoch = some opened := by
  obtain ⟨newer, rfl⟩ := h
  unfold openingOf at *
  rw [List.filterMap_append, List.reverse_append, List.find?_append, hopened, Option.some_or]

/-- Where a head stands in its epoch: it is what the batches up to its
sequence make of the opening. -/
structure Stood (casefold : String → String) (destination : String → Option String)
    (past : List Moment) (head : ProjectHead) : Prop where
  within : head.collaborationSequence ≤ (acceptancesOf past head.roomEpoch).length
  folded : ∃ opened, openingOf past head.roomEpoch = some opened ∧
    applyBatches casefold destination
      (((acceptancesOf past head.roomEpoch).take head.collaborationSequence).map
        (fun accepted => accepted.1.commands))
      (opened.1.name, opened.1.document) = .ok (head.name, head.document)

theorem Stood.later (h : Stood casefold destination older head) (hsuffix : older <:+ past) :
    Stood casefold destination past head := by
  have hprefix := acceptancesOf_prefix hsuffix head.roomEpoch
  obtain ⟨opened, hopened, hfold⟩ := h.folded
  refine ⟨h.within.trans hprefix.length_le, opened, openingOf_suffix hsuffix hopened, ?_⟩
  obtain ⟨more, hmore⟩ := hprefix
  rw [← hmore, List.take_append_of_le_length h.within]
  exact hfold

/-- The epoch and the sequence determine the name and the document. -/
theorem Stood.determined {other : ProjectHead} (h : Stood casefold destination past head)
    (h' : Stood casefold destination past other) (hepoch : head.roomEpoch = other.roomEpoch)
    (hsequence : head.collaborationSequence = other.collaborationSequence) :
    head.name = other.name ∧ head.document = other.document := by
  obtain ⟨opened, hopened, hfold⟩ := h.folded
  obtain ⟨opened', hopened', hfold'⟩ := h'.folded
  rw [hepoch] at hopened hfold
  cases hopened.symm.trans hopened'
  rw [hsequence] at hfold
  exact Prod.mk.inj (Except.ok.inj (hfold.symm.trans hfold'))

section

variable (h : History casefold destination hmac keyVersion past room)
include h

theorem stood_present (hhead : room.head = some head) : Stood casefold destination past head := by
  have hlength : (acceptancesOf past head.roomEpoch).length = head.collaborationSequence := by
    have hcount := congrArg List.length (h.recorded.sequences head.roomEpoch)
    rwa [List.length_map, List.length_range', lastSequence_cons_head hhead] at hcount
  obtain ⟨opened, hopened, hfold⟩ := (h.folded head hhead).folded
  refine ⟨hlength.ge, opened, hopened, ?_⟩
  rwa [← hlength, List.take_length]

/-- Every head the Project ever had stands in its epoch. -/
theorem stood_visited (hhead : head ∈ heads (visited past room)) :
    Stood casefold destination past head := by
  rcases mem_heads_cons.mp hhead with hhead | hhead
  · exact stood_present h hhead
  · obtain ⟨before, hbefore, hold⟩ := List.mem_filterMap.mp hhead
    obtain ⟨moment, hmoment, rfl⟩ := List.mem_map.mp hbefore
    obtain ⟨newer, older, hsplit⟩ := List.append_of_mem hmoment
    have hpast := (h.moment ⟨newer, hsplit.symm⟩).1
    apply (stood_present hpast hold).later
    exact ⟨newer ++ [moment], by simp [hsplit]⟩

end

end Standing

variable {after : Room} {moment : Moment} {accepted : Submission × ProjectCommandReceipt}

section Keeping

/-- The batch lies under a mapping of its epoch. -/
def Covered (room : Room) (receipt : ProjectCommandReceipt) : Prop :=
  ∃ sequence revision, receipt.acceptedSequence ≤ sequence ∧
    room.mappings.get? (receipt.roomEpoch, sequence) = some revision

/-- How the head stands to the checkpoints. -/
structure Level (room : Room) (head : ProjectHead) : Prop where
  revisions : room.checkpoints.keys = List.range' 1 head.checkpointRevision
  behind : head.checkpointSequence ≤ head.collaborationSequence
  mapped : room.mappings.get? (head.roomEpoch, head.checkpointSequence) =
    some head.checkpointRevision
  level : head.isFullyCheckpointed →
    room.checkpoints.get? head.checkpointRevision = some ⟨head.name, head.document⟩

/-- How the checkpoints and the mappings follow from the heads there were. -/
structure Kept (past : List Moment) (room : Room) : Prop where
  absent : room.head = none → room.checkpoints = []
  head : ∀ head, room.head = some head → Level room head
  faithful : ∀ entry ∈ room.mappings, ∃ head ∈ heads (visited past room),
    (head.roomEpoch, head.collaborationSequence) = entry.1 ∧
      room.checkpoints.get? entry.2 = some ⟨head.name, head.document⟩
  covered : ∀ accepted ∈ acceptances past,
    (∃ head, room.head = some head ∧ head.roomEpoch = accepted.2.roomEpoch) ∨
      Covered room accepted.2

theorem Covered.append {receipt : ProjectCommandReceipt} {more : Dict (Uuid × ℕ) ℕ}
    (h : Covered room receipt) (hmappings : after.mappings = room.mappings ++ more) :
    Covered after receipt := by
  obtain ⟨sequence, revision, hsequence, hget⟩ := h
  refine ⟨sequence, revision, hsequence, ?_⟩
  rw [hmappings]
  exact Dict.get?_append_of_some hget

/-- A call that appends no checkpoint keeps the head level. -/
theorem Kept.unwritten (h : Kept past moment.before)
    (hcheckpoints : after.checkpoints = moment.before.checkpoints)
    (hmappings : after.mappings = moment.before.mappings)
    (habsent : after.head = none → moment.before.head = none)
    (hlevel : ∀ head, after.head = some head → Level after head)
    (hcovered : ∀ accepted ∈ acceptances (moment :: past), (∃ head, after.head = some head ∧
      head.roomEpoch = accepted.2.roomEpoch) ∨ Covered after accepted.2) :
    Kept (moment :: past) after := by
  refine ⟨?_, hlevel, ?_, hcovered⟩
  · intro hnone
    rw [hcheckpoints]
    exact h.absent (habsent hnone)
  · intro entry hentry
    rw [hmappings] at hentry
    obtain ⟨head, hmem, hkey, hget⟩ := h.faithful entry hentry
    refine ⟨head, mem_heads_cons.mpr (.inr hmem), hkey, ?_⟩
    rw [hcheckpoints]
    exact hget

/-- A call that appends the checkpoint its head is level with. -/
theorem Kept.written {new : ProjectHead} (h : Kept past moment.before)
    (hhead : after.head = some new)
    (hcheckpoints : after.checkpoints =
      moment.before.checkpoints ++ [(new.checkpointRevision, ⟨new.name, new.document⟩)])
    (hmappings : after.mappings = moment.before.mappings ++
      [((new.roomEpoch, new.collaborationSequence), new.checkpointRevision)])
    (hlevel : new.checkpointSequence = new.collaborationSequence)
    (hkeys : moment.before.checkpoints.keys ++ [new.checkpointRevision] =
      List.range' 1 new.checkpointRevision)
    (hrevision : new.checkpointRevision ∉ moment.before.checkpoints.keys)
    (hmapping : (new.roomEpoch, new.collaborationSequence) ∉ moment.before.mappings.keys)
    (haccepted : moment.acceptance = none)
    (hcovered : ∀ accepted ∈ acceptances past,
      new.roomEpoch = accepted.2.roomEpoch ∨ Covered moment.before accepted.2) :
    Kept (moment :: past) after := by
  have hwritten : after.checkpoints.get? new.checkpointRevision =
      some ⟨new.name, new.document⟩ := by
    rw [hcheckpoints]
    exact Dict.get?_append_new hrevision
  refine ⟨?_, ?_, ?_, ?_⟩
  · intro hnone
    rw [hhead] at hnone
    cases hnone
  · intro head hsome
    cases hhead.symm.trans hsome
    refine ⟨?_, hlevel.le, ?_, fun _ => hwritten⟩
    · rw [hcheckpoints, ← hkeys]
      simp [Dict.keys]
    · rw [hmappings, hlevel]
      exact Dict.get?_append_new hmapping
  · intro entry hentry
    rw [hmappings] at hentry
    rcases mem_snoc.mp hentry with hentry | rfl
    · obtain ⟨head, hmem, hkey, hget⟩ := h.faithful entry hentry
      refine ⟨head, mem_heads_cons.mpr (.inr hmem), hkey, ?_⟩
      rw [hcheckpoints]
      exact Dict.get?_append_of_some hget
    · exact ⟨new, mem_heads_cons.mpr (.inl hhead), rfl, hwritten⟩
  · intro accepted hmem
    rw [acceptances_cons, haccepted] at hmem
    rcases hcovered accepted (by simpa using hmem) with hepoch | hold
    · exact .inl ⟨new, hhead, hepoch⟩
    · exact .inr (hold.append hmappings)

theorem acceptedSequence_le (h : Recorded past room) (hhead : room.head = some head)
    (hmem : accepted ∈ acceptances past) (hepoch : head.roomEpoch = accepted.2.roomEpoch) :
    accepted.2.acceptedSequence ≤ head.collaborationSequence := by
  have hof : accepted ∈ acceptancesOf past head.roomEpoch :=
    List.mem_filter.mpr ⟨hmem, by simp [hepoch]⟩
  have hrange := List.mem_map_of_mem
    (f := fun accepted : Submission × ProjectCommandReceipt => accepted.2.acceptedSequence) hof
  rw [h.sequences, lastSequence_cons_head hhead, List.mem_range'_1] at hrange
  omega

/-- A head that is level covers its own epoch. -/
theorem Kept.covered_of_level (h : Kept past room) (hrecorded : Recorded past room)
    (hhead : room.head = some head) (hlevel : head.isFullyCheckpointed) :
    ∀ accepted ∈ acceptances past, Covered room accepted.2 := by
  intro accepted hmem
  rcases h.covered accepted hmem with ⟨present, hpresent, hepoch⟩ | hcovered
  · cases hhead.symm.trans hpresent
    refine ⟨head.checkpointSequence, head.checkpointRevision, ?_, ?_⟩
    · rw [hlevel]
      exact acceptedSequence_le hrecorded hhead hmem hepoch
    · rw [← hepoch]
      exact (h.head head hhead).mapped
  · exact hcovered

theorem range_next (n : ℕ) : List.range' 1 n ++ [n + 1] = List.range' 1 (n + 1) := by
  rw [List.range'_concat, Nat.one_mul, Nat.add_comm 1]

theorem kept (h : History casefold destination hmac keyVersion past room) : Kept past room := by
  refine h.induct ?_ ?_
  · exact ⟨fun _ => rfl, by simp [Room.empty], by simp [Room.empty], by simp [acceptances]⟩
  intro past room moment hpast ih hchange
  cases hchange with
  | quiet haccepted =>
    refine Kept.unwritten ih rfl rfl id ih.head ?_
    simpa [acceptances_cons, haccepted] using ih.covered
  | @accepted _ head _ _ hhead =>
    have hkept := ih.head head hhead
    refine Kept.unwritten ih rfl rfl ?_ ?_ ?_
    · intro hnone
      cases hnone
    · intro new hnew
      cases hnew
      refine ⟨hkept.revisions, Nat.le_succ_of_le hkept.behind, hkept.mapped, ?_⟩
      intro hlevel
      have hbehind := hkept.behind
      have hsame : head.checkpointSequence = head.collaborationSequence + 1 := hlevel
      omega
    · intro accepted hmem
      rw [acceptances_cons] at hmem
      rcases mem_snoc.mp hmem with hmem | rfl
      · rcases ih.covered accepted hmem with ⟨old, hold, hepoch⟩ | hcovered
        · cases hhead.symm.trans hold
          exact .inl ⟨_, rfl, hepoch⟩
        · exact .inr hcovered
      · exact .inl ⟨_, rfl, rfl⟩
  | @checkpointed _ head _ hhead _ hname hrevision hmapping =>
    obtain rfl := (hpast.folded head hhead).proper.validated.mp hname
    refine Kept.written ih rfl rfl rfl rfl ?_ hrevision hmapping rfl ?_
    · change room.checkpoints.keys ++ _ = _
      rw [(ih.head head hhead).revisions]
      exact range_next _
    · intro accepted hmem
      rcases ih.covered accepted hmem with ⟨old, hold, hepoch⟩ | hcovered
      · cases hhead.symm.trans hold
        exact .inl hepoch
      · exact .inr hcovered
  | @restored _ _ _ _ head _ _ _ hhead hlevel _ _ _ hrevision hmapping _ hreopened =>
    subst hreopened
    refine Kept.written ih rfl rfl rfl rfl ?_ hrevision hmapping rfl ?_
    · change room.checkpoints.keys ++ _ = _
      rw [(ih.head head hhead).revisions]
      exact range_next _
    · intro accepted hmem
      exact .inr (ih.covered_of_level hpast.recorded hhead hlevel accepted hmem)
  | @opened opening head _ hnone hrevision hmapping _ _ _ hhead =>
    have hone : head.checkpointRevision = 1 := by rw [hhead]
    have hzero : head.collaborationSequence = 0 := by rw [hhead]
    have hlevel : head.checkpointSequence = 0 := by rw [hhead]
    refine Kept.written ih rfl rfl rfl (hlevel.trans hzero.symm) ?_ (hone ▸ hrevision)
      (hzero ▸ hmapping) rfl ?_
    · change room.checkpoints.keys ++ _ = _
      rw [ih.absent hnone, hone]
      rfl
    · intro accepted hmem
      rcases ih.covered accepted hmem with ⟨old, hold, -⟩ | hcovered
      · rw [hnone] at hold
        cases hold
      · exact .inr hcovered

end Keeping

section Durability

/-- Every state's checkpoints are the beginning of the present ones. -/
theorem checkpoints_prefix (h : History casefold destination hmac keyVersion past room) :
    ∀ old ∈ visited past room, old.checkpoints <+: room.checkpoints := by
  refine h.induct (P := fun past room => ∀ old ∈ visited past room,
    old.checkpoints <+: room.checkpoints) ?_ ?_
  · simp [visited]
  intro past room moment _ ih hchange
  -- a single call only appends
  have hgrow : room.checkpoints <+: moment.after.checkpoints := by
    cases hchange with
    | quiet | accepted => exact List.prefix_rfl
    | checkpointed | restored | opened => exact List.prefix_append _ _
  have hbefore : moment.before = room := by cases hchange <;> rfl
  refine List.forall_mem_cons.mpr ⟨List.prefix_rfl, ?_⟩
  intro old hold
  exact (ih old (hbefore ▸ hold)).trans hgrow

/-- The batch is among those a checkpoint is made of: some mapping of its
epoch leads to a checkpoint that is the fold of the epoch's first batches, the
accepted one with them. -/
def Contained (casefold : String → String) (destination : String → Option String)
    (past : List Moment) (room : Room) (accepted : Submission × ProjectCommandReceipt) : Prop :=
  ∃ sequence revision checkpoint opened,
    accepted ∈ (acceptancesOf past accepted.2.roomEpoch).take sequence ∧
    room.mappings.get? (accepted.2.roomEpoch, sequence) = some revision ∧
    room.checkpoints.get? revision = some checkpoint ∧
    openingOf past accepted.2.roomEpoch = some opened ∧
    applyBatches casefold destination
      (((acceptancesOf past accepted.2.roomEpoch).take sequence).map
        (fun accepted => accepted.1.commands))
      (opened.1.name, opened.1.document) = .ok (checkpoint.name, checkpoint.document)

theorem mem_take_acceptances (h : Recorded past room) (hmem : accepted ∈ acceptances past)
    {sequence : ℕ} (hsequence : accepted.2.acceptedSequence ≤ sequence) :
    accepted ∈ (acceptancesOf past accepted.2.roomEpoch).take sequence := by
  have hof : accepted ∈ acceptancesOf past accepted.2.roomEpoch :=
    List.mem_filter.mpr ⟨hmem, by simp⟩
  obtain ⟨index, hindex, heq⟩ := List.mem_iff_getElem.mp hof
  have hnumbers := h.sequences accepted.2.roomEpoch
  have hnumber : accepted.2.acceptedSequence = index + 1 := by
    have hget : ((acceptancesOf past accepted.2.roomEpoch).map
        (fun accepted => accepted.2.acceptedSequence))[index]? =
          some accepted.2.acceptedSequence := by
      rw [List.getElem?_map, List.getElem?_eq_getElem hindex, heq]
      rfl
    rw [hnumbers, List.getElem?_eq_some_iff] at hget
    obtain ⟨hbound, hvalue⟩ := hget
    rw [List.getElem_range'] at hvalue
    omega
  refine List.mem_iff_getElem.mpr ⟨index, ?_, ?_⟩
  · rw [List.length_take]
    omega
  · rw [List.getElem_take, heq]

section

variable (h : History casefold destination hmac keyVersion past room)
include h

theorem contained_of_covered (hmem : accepted ∈ acceptances past)
    (hcovered : Covered room accepted.2) : Contained casefold destination past room accepted := by
  obtain ⟨sequence, revision, hsequence, hmapping⟩ := hcovered
  obtain ⟨head, hhead, hkey, hcheckpoint⟩ := (kept h).faithful _ (Dict.mem_of_get? hmapping)
  obtain ⟨hepoch, rfl⟩ := Prod.mk.inj hkey
  obtain ⟨opened, hopened, hfold⟩ := (stood_visited h hhead).folded
  rw [hepoch] at hopened hfold
  exact ⟨_, revision, _, opened, mem_take_acceptances h.recorded hmem hsequence, hmapping,
    hcheckpoint, hopened, hfold⟩

/-- When the head is level with its checkpoint no accepted batch is lost. -/
theorem contained_of_level (hhead : room.head = some head) (hlevel : head.isFullyCheckpointed) :
    ∀ accepted ∈ acceptances past, Contained casefold destination past room accepted := by
  intro accepted hmem
  exact contained_of_covered h hmem
    ((kept h).covered_of_level h.recorded hhead hlevel accepted hmem)

end

/-- An append-only, contiguous and faithful checkpoint history. -/
structure Durable (casefold : String → String) (destination : String → Option String)
    (past : List Moment) (room : Room) : Prop where
  contiguous : ∀ head, room.head = some head →
    room.checkpoints.keys = List.range' 1 head.checkpointRevision
  appendOnly : ∀ old ∈ visited past room, ∀ revision checkpoint,
    old.checkpoints.get? revision = some checkpoint →
      room.checkpoints.get? revision = some checkpoint
  faithful : ∀ epoch sequence revision, room.mappings.get? (epoch, sequence) = some revision →
    ∃ checkpoint, room.checkpoints.get? revision = some checkpoint ∧
      (∃ head ∈ heads (visited past room), head.roomEpoch = epoch ∧
        head.collaborationSequence = sequence) ∧
      ∀ head ∈ heads (visited past room), head.roomEpoch = epoch →
        head.collaborationSequence = sequence →
        head.name = checkpoint.name ∧ head.document = checkpoint.document
  behind : ∀ head, room.head = some head → head.checkpointSequence ≤ head.collaborationSequence
  level : ∀ head, room.head = some head → head.isFullyCheckpointed →
    room.checkpoints.get? head.checkpointRevision = some ⟨head.name, head.document⟩
  restored : ∀ moment older, moment :: older <:+ past → ∀ expected revision epoch outcome,
    moment.call = .restoreCheckpoint expected revision epoch → moment.result = .ok outcome →
    ∀ accepted ∈ acceptances older, Contained casefold destination older moment.before accepted
  deleted : ∀ access seen workspaceId roomEpoch sequence after,
    roomEpoch = none ∨ sequence = none →
    deleteProject casefold destination access seen workspaceId roomEpoch sequence room = .ok after →
    ∀ accepted ∈ acceptances past, Contained casefold destination past room accepted

theorem deleteProject_level {access : Access} {seen : Glimpse} {workspaceId : Uuid}
    {roomEpoch : Option Uuid} {sequence : Option ℤ}
    (hunconditional : roomEpoch = none ∨ sequence = none)
    (h : deleteProject casefold destination access seen workspaceId roomEpoch sequence room =
      .ok after) :
    ∃ head, room.head = some head ∧ head.isFullyCheckpointed := by
  unfold deleteProject at h
  obtain ⟨-, -, h⟩ := bind_ok.mp h
  obtain ⟨-, -, h⟩ := bind_ok.mp h
  obtain ⟨head, hlock, h⟩ := bind_ok.mp h
  refine ⟨head, (lockHead_rows_ok hlock).2, ?_⟩
  have hchecked : requireCheckpointed head >>= (fun _ => pure Room.empty) = .ok after := by
    rcases hunconditional with rfl | rfl
    · exact h
    · cases roomEpoch <;> exact h
  obtain ⟨_, hlevel, -⟩ := bind_ok.mp hchecked
  exact require_ok.mp hlevel

def checkpointCall : Call := .checkpoint ⟨"workspace", 1, "epoch"⟩

def restoreCall : Call := .restoreCheckpoint ⟨"workspace", 1, "epoch"⟩ 1 "second"

def checkpointedRoom : Room := (afterCall renamedRoom checkpointCall).2

def restoredRoom : Room := (afterCall checkpointedRoom restoreCall).2

def checkpointedPast : List Moment :=
  ⟨renamedRoom, checkpointCall, (afterCall renamedRoom checkpointCall).1, checkpointedRoom⟩ ::
    renamedPast

def restoredPast : List Moment :=
  ⟨checkpointedRoom, restoreCall, (afterCall checkpointedRoom restoreCall).1, restoredRoom⟩ ::
    checkpointedPast

theorem restoredRoom_history :
    History id (fun _ => none) (fun _ => "") 1 restoredPast restoredRoom := by
  have hcheckpointed := History.next checkpointCall renamedRoom_history (by intro _ h; cases h)
    trivial
  refine History.next restoreCall hcheckpointed ?_ trivial
  have hepochs : (heads (visited checkpointedPast checkpointedRoom)).map ProjectHead.roomEpoch =
      ["epoch", "epoch", "epoch", "epoch"] := rfl
  intro epoch hepoch head hhead
  cases hepoch
  have hmem := List.mem_map_of_mem (f := ProjectHead.roomEpoch) hhead
  rw [hepochs] at hmem
  intro hsame
  rw [hsame] at hmem
  exact absurd hmem (by decide)

end Durability

end Grafy.CheckpointHistory
