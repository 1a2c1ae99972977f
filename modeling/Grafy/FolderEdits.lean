import Grafy.FolderForest

/-!
Renames and moves of one folder. Each reads the whole row and writes all of it, so a rename
also writes the parent it has read and a move the name. Two that overlap can both report
success and leave the change of one of them undone.
-/
namespace Grafy.LibraryFolders

open OrderedDict Transactions

/-- What a rename or a move writes: the whole folder, with its own change in it. -/
def Op.Writes : Op → List Statement → Prop
  | .rename workspace id name, writes =>
    ∃ parent, writes = [.saveFolder ⟨workspace, id, Texts.strip name, parent⟩]
  | .move workspace id parent, writes =>
    ∃ name, writes = [.saveFolder ⟨workspace, id, name, parent⟩]
  | _, _ => True

/-- Whether the operation renames or moves a folder. -/
def Op.edits : Op → Bool
  | .rename .. | .move .. => true
  | _ => false

/-- What one edit makes of a folder's name and parent. -/
def Op.edit (workspace id : ℕ) (folder : String × Option ℕ) : Op → String × Option ℕ
  | .rename w i name => if w = workspace ∧ i = id then (Texts.strip name, folder.2) else folder
  | .move w i parent => if w = workspace ∧ i = id then (folder.1, parent) else folder
  | _ => folder

/-- The folder has not changed since the edit read it, in what the edit does not itself set. -/
def current (op : Op) (writes : List Statement) (s : Rows) : Bool :=
  match op, writes with
  | .rename .., [.saveFolder folder] =>
    (s.folder folder.workspace folder.id).all (fun row => row.parent = folder.parent)
  | .move .., [.saveFolder folder] =>
    (s.folder folder.workspace folder.id).all (fun row => row.name = folder.name)
  | _, _ => true

/-- Whether an edit sets what another one of the same folder has read and writes back. -/
def Op.disturbs : Op → Op → Bool
  | .move w i _, .rename workspace id _ | .rename w i _, .move workspace id _ =>
    w = workspace ∧ i = id
  | _, _ => false

/-- What an edit is to write: the folder as it is in these rows, with its own change in it. -/
def Op.Plans (op : Op) (s : Rows) (writes : List Statement) : Prop :=
  op.Writes writes ∧ current op writes s = true ∧ ∀ folder, writes = [.saveFolder folder] →
    ∃ row, s.folder folder.workspace folder.id = some row

variable {casefold : String → String}

section Programs

variable {P : List Statement → Prop} {workspace : ℕ}

theorem writing_requireNameFree {parent : Option ℕ} {nameKey : String} {except : Option ℕ}
    {next : Call} (h : next.Writing P) :
    (requireNameFree workspace parent nameKey except next).Writing P := by
  intro s
  simp only
  split
  · exact h
  · split
    · trivial
    · exact h

theorem writing_finish {writes : List Statement} {outcome : Outcome} (h : P writes) :
    (finish writes outcome).Writing P := ⟨h, fun _ => trivial⟩

theorem reading_requireFolder {id : ℕ} {next : LibraryFolder → Call}
    {Q : Rows → List Statement → Prop} (h : ∀ s row, s.folder workspace id = some row →
      (next (folderFromRow id row)).Writing (Q s)) :
    ∃ read, requireFolder workspace id next = .query read ∧ ∀ s, (read s).Writing (Q s) := by
  refine ⟨_, rfl, fun s => ?_⟩
  split
  · trivial
  · next row hrow => exact h s row hrow

theorem reading_renameFolder (id : ℕ) (name : String) :
    ∃ read, renameFolder casefold workspace id name = .query read ∧
      ∀ s, (read s).Writing ((Op.rename workspace id name).Plans s) := by
  refine reading_requireFolder fun s row hrow => ?_
  split
  · trivial
  · next candidate hcandidate =>
    refine writing_requireNameFree ?_
    split
    · trivial
    · next folder hrename =>
      have hstrip : candidate = Texts.strip name := by
        unfold validatedFolderName at hcandidate
        simp only at hcandidate
        split_ifs at hcandidate
        exact (Except.ok.inj hcandidate).symm
      rw [LibraryFolder.rename, validatedFolderName_ok hcandidate] at hrename
      cases hrename
      have hworkspace := (folder_eq_some.mp hrow).2
      refine writing_finish ⟨⟨row.parent, ?_⟩, ?_, ?_⟩
      · rw [← hworkspace, ← hstrip]
        rfl
      · simp [current, folderFromRow, hworkspace, hrow]
      · simp [folderFromRow, hworkspace, hrow]

theorem reading_moveFolder (id : ℕ) (parent : Option ℕ) :
    ∃ read, moveFolder casefold workspace id parent = .query read ∧
      ∀ s, (read s).Writing ((Op.move workspace id parent).Plans s) := by
  refine reading_requireFolder fun s row hrow => ?_
  extract_lets move
  have hmove : move.Writing ((Op.move workspace id parent).Plans s) := by
    refine writing_requireNameFree ?_
    split
    · trivial
    · next folder hmoved =>
      unfold LibraryFolder.moveTo at hmoved
      split_ifs at hmoved
      cases hmoved
      have hworkspace := (folder_eq_some.mp hrow).2
      refine writing_finish ⟨⟨row.name, ?_⟩, ?_, ?_⟩
      · rw [← hworkspace]
        rfl
      · simp [current, folderFromRow, hworkspace, hrow]
      · simp [folderFromRow, hworkspace, hrow]
  cases parent with
  | none => exact hmove
  | some target =>
    unfold requireFolderWhenSet
    intro s
    simp only
    split
    · trivial
    · intro s
      simp only
      split
      · trivial
      · exact hmove

/-- A rename and a move read the folder first. -/
theorem reading_program (casefold : String → String) {op : Op} (hedits : op.edits = true) :
    ∃ read, op.program casefold = .query read ∧ ∀ s, (read s).Writing (op.Plans s) := by
  cases op with
  | rename workspace id name => exact reading_renameFolder id name
  | move workspace id parent => exact reading_moveFolder id parent
  | create | delete | place => cases hedits

theorem writing_program (op : Op) : (op.program casefold).Writing op.Writes := by
  by_cases hedits : op.edits = true
  · obtain ⟨read, heq, hread⟩ := reading_program casefold hedits
    rw [heq]
    exact fun s => (hread s).mono (fun _ h => h.1)
  · cases op with
    | rename | move => exact absurd rfl hedits
    | create | delete | place => exact Program.writing_of_all (fun _ => trivial) _

end Programs

section Edits

variable {s s' : Rows} {workspace id : ℕ} {row : FolderRow}

theorem save_folder {folder : LibraryFolder}
    (hwrite : Rows.writeAll casefold [.saveFolder folder] s = some s')
    (hrow : s.folder workspace id = some row) :
    s'.folder workspace id = some (if folder.workspace = workspace ∧ folder.id = id then
      ⟨workspace, folder.parent, folder.name, casefold folder.name⟩ else row) := by
  obtain ⟨s', hone, hs'⟩ := Option.bind_eq_some_iff.mp hwrite
  cases hs'
  obtain ⟨hget, hworkspace⟩ := folder_eq_some.mp hrow
  simp only [Rows.write] at hone
  by_cases hid : folder.id = id
  · by_cases hw : folder.workspace = workspace
    · rw [hid, hw, hrow] at hone
      split_ifs at hone
      · simp at *
      · cases hone
        rw [if_pos ⟨hw, hid⟩]
        exact folder_eq_some.mpr ⟨Dict.get?_set_self .., rfl⟩
    · have hnone : s.folder folder.workspace folder.id = none := by
        rw [Rows.folder, hid, hget, Option.filter_some,
          if_neg (by simpa [hworkspace] using Ne.symm hw)]
      rw [hnone] at hone
      cases hone
      rw [if_neg (fun h => hw h.1), hrow]
  · rw [if_neg (fun h => hid h.2)]
    split_ifs at hone
    · cases hone
      exact hrow
    · cases hone
      exact folder_eq_some.mpr ⟨(Dict.get?_set_ne _ _ (Ne.symm hid)).trans hget, hworkspace⟩

/-- One edit that commits while the folder is as it was read does what it would do alone. -/
theorem edit_writes {op : Op} {writes : List Statement} (hedits : op.edits = true)
    (hwrites : op.Writes writes) (hcurrent : current op writes s = true)
    (hwrite : Rows.writeAll casefold writes s = some s')
    (hrow : s.folder workspace id = some row) :
    ∃ row', s'.folder workspace id = some row' ∧
      (row'.name, row'.parent) = op.edit workspace id (row.name, row.parent) := by
  cases op with
  | rename w i _ | move w i _ =>
    obtain ⟨kept, rfl⟩ := hwrites
    refine ⟨_, save_folder hwrite hrow, ?_⟩
    dsimp only [Op.edit]
    split_ifs with hsame
    · obtain ⟨rfl, rfl⟩ := hsame
      simp only [current, hrow, Option.all_some, decide_eq_true_eq] at hcurrent
      rw [hcurrent]
    · rfl
  | create | delete | place => cases hedits

/-- What an edit is to write stays so while others commit that do not disturb it. -/
theorem plans_kept {op other : Op} {writes planned : List Statement} (hop : op.edits = true)
    (hedits : other.edits = true) (hwrites : other.Writes writes)
    (hcurrent : current other writes s = true)
    (hwrite : Rows.writeAll casefold writes s = some s') (hapart : other.disturbs op = false)
    (h : op.Plans s planned) : op.Plans s' planned := by
  obtain ⟨hplanned, hnow, hthere⟩ := h
  cases op with
  | rename w i _ | move w i _ =>
    obtain ⟨kept, rfl⟩ := hplanned
    obtain ⟨row, hrow⟩ := hthere _ rfl
    obtain ⟨row', hrow', hedit⟩ := edit_writes hedits hwrites hcurrent hwrite hrow
    refine ⟨⟨kept, rfl⟩, ?_, by simpa using ⟨row', hrow'⟩⟩
    simp only [current, hrow, hrow', Option.all_some, decide_eq_true_eq] at hnow ⊢
    cases other with
    | rename w' i' _ | move w' i' _ =>
      simp only [Op.edit, Op.disturbs, decide_eq_false_iff_not] at hedit hapart
      split_ifs at hedit <;> simp_all
    | create | delete | place => cases hedits
  | create | delete | place => cases hop

/-- The condition by its cause: after an edit has read, it commits while the folder is as it was
read if no commit in between disturbs it. -/
theorem undisturbed_current {start last : LibraryState} {i : ℕ} {tx : Tx Rows Empty _ _ Op}
    {read : Rows → Call} {op : Op} {writes : List Statement}
    (hwriting : ∀ tx ∈ start.txs, tx.program.Writing tx.op.Writes)
    (hedits : tx.op.edits = true) (htx : start.txs[i]? = some tx)
    (hread : tx.op.program casefold = .query read) (hprogram : tx.program = read start.store)
    (hrun : (library casefold).Reached (fun op writes store => op.edits = true ∧
      current op writes store = true ∧ op.disturbs tx.op = false) start last)
    (hcommits : (library casefold).commits last (.go i) = some (op, writes)) :
    op = tx.op ∧ current op writes last.store = true := by
  obtain ⟨read', heq, hplans⟩ := reading_program casefold hedits
  cases hread.symm.trans heq
  have hplanned : tx.program.Writing (tx.op.Plans start.store) := hprogram ▸ hplans start.store
  obtain ⟨-, tx', htx', hop, hlater⟩ := hrun.writing (Q := tx.op.Plans)
    writing_program hwriting (fun _ _ _ _ hwrites hmeets hwrite _ h =>
      plans_kept hedits hmeets.1 hwrites hmeets.2.1 hwrite hmeets.2.2 h) htx hplanned
  obtain ⟨rfl, hplan⟩ := Machine.writing_of_commits hcommits htx' hlater
  exact ⟨hop, hop ▸ hplan.2.1⟩

/-- The edits of a run, from any state in which each transaction writes what it should. -/
theorem edits_kept {start last : LibraryState} {acts : List (Act Op)} {log : List Op}
    (hwriting : ∀ tx ∈ start.txs, tx.program.Writing tx.op.Writes)
    (hrow : start.store.folder workspace id = some row)
    (hrun : (library casefold).history (fun op writes store => current op writes store = true)
      start acts = some (log, last))
    (hedits : ∀ op ∈ log, op.edits = true) :
    ∃ row', last.store.folder workspace id = some row' ∧
      (row'.name, row'.parent) = log.foldl (Op.edit workspace id) (row.name, row.parent) := by
  induction acts generalizing start log row with
  | nil =>
    cases hrun
    exact ⟨row, hrow, rfl⟩
  | cons act acts ih =>
    rw [Machine.history] at hrun
    split at hrun
    · next hall =>
      obtain ⟨mid, hstep, hrun⟩ := Option.bind_eq_some_iff.mp hrun
      obtain ⟨⟨rest, reached⟩, hrest, heq⟩ := Option.map_eq_some_iff.mp hrun
      cases heq
      have hmid := Machine.step_writing writing_program hwriting hstep
      obtain ⟨hnext, ⟨hnone, hsame⟩ | ⟨op, writes, hcommits, hwrites, hwrite⟩⟩ := hmid
      · rw [hnone] at hedits ⊢
        exact ih hnext (by rwa [hsame]) hrest hedits
      · rw [hcommits] at hall hedits ⊢
        have hcurrent : current op writes start.store = true := by simpa using hall
        obtain ⟨row', hrow', hedit⟩ :=
          edit_writes (hedits op List.mem_cons_self) hwrites hcurrent hwrite hrow
        obtain ⟨row'', hrow'', hfold⟩ :=
          ih hnext hrow' hrest (fun other hother => hedits other (List.mem_cons_of_mem _ hother))
        exact ⟨row'', hrow'', by rw [hfold, hedit]; rfl⟩
    · cases hrun

end Edits

/-- The transactions on a folder that report success, with any others that rename and move:
where each commits while the folder is as it was read, the folder ends with the name of the
last rename and the parent of the last move, as if they had run in the order of their commits. -/
theorem folder_edits_kept (casefold : String → String) {start s : LibraryState}
    {acts : List (Act Op)} {log : List Op} {workspace id : ℕ} {row : FolderRow}
    (hstart : start.txs = []) (hrow : start.store.folder workspace id = some row)
    (hrun : (library casefold).history (fun op writes store => current op writes store = true)
      start acts = some (log, s))
    (hedits : ∀ op ∈ log, op.edits = true) :
    ∃ row', s.store.folder workspace id = some row' ∧
      (row'.name, row'.parent) = log.foldl (Op.edit workspace id) (row.name, row.parent) :=
  edits_kept (by simp [hstart]) hrow hrun hedits

/-- A folder at the root beside another one. -/
def twoFolders : LibraryState :=
  ⟨⟨[(1, ⟨1, none, "a", "a"⟩), (2, ⟨1, none, "b", "b"⟩)], [], []⟩, []⟩

def renamedThenMoved : List (Act Op) :=
  [.start (.rename 1 1 "c"), .go 0, .go 0, .go 0,
    .start (.move 1 1 (some 2)), .go 1, .go 1, .go 1, .go 1, .go 1]

theorem renamedThenMoved_kept : ∃ s : LibraryState, (library id).history
      (fun op writes store => current op writes store = true) twoFolders renamedThenMoved =
        some ([.rename 1 1 "c", .move 1 1 (some 2)], s) ∧
    ∃ row, s.store.folder 1 1 = some row ∧ (row.name, row.parent) = ("c", some 2) := by
  have hlog : ((library id).history (fun op writes store => current op writes store = true)
      twoFolders renamedThenMoved).map Prod.fst =
        some [.rename 1 1 "c", .move 1 1 (some 2)] := by decide
  obtain ⟨⟨log, s⟩, hrun, rfl⟩ := Option.map_eq_some_iff.mp hlog
  have hrow : twoFolders.store.folder 1 1 = some ⟨1, none, "a", "a"⟩ := rfl
  obtain ⟨row, hrow, hfold⟩ := folder_edits_kept id rfl hrow hrun (by decide)
  exact ⟨s, hrun, row, hrow, hfold⟩

/-- The move reads the folder before the rename commits, and commits after it. -/
def movedAcross : List (Act Op) :=
  [.start (.move 1 1 (some 2)), .go 0, .go 0, .go 0, .go 0,
    .start (.rename 1 1 "c"), .go 1, .go 1, .go 1, .go 0]

/-- Both report success, and the name is as if nobody had renamed the folder. -/
theorem movedAcross_loses_name : ∃ s : LibraryState,
    (library id).history (fun _ _ _ => True) twoFolders movedAcross =
        some ([.rename 1 1 "c", .move 1 1 (some 2)], s) ∧
      s.txs.map Tx.answer = [some (.ok (.folder ⟨1, 1, "a", some 2⟩)),
        some (.ok (.folder ⟨1, 1, "c", none⟩))] ∧
      s.store.folder 1 1 = some ⟨1, some 2, "a", "a"⟩ := by
  have hlost : ((library id).history (fun _ _ _ => True) twoFolders movedAcross).map
      (fun reached => (reached.1, reached.2.txs.map Tx.answer, reached.2.store.folder 1 1)) =
        some ([.rename 1 1 "c", .move 1 1 (some 2)],
          [some (.ok (.folder ⟨1, 1, "a", some 2⟩)), some (.ok (.folder ⟨1, 1, "c", none⟩))],
          some ⟨1, some 2, "a", "a"⟩) := by decide
  obtain ⟨⟨log, s⟩, hrun, heq⟩ := Option.map_eq_some_iff.mp hlost
  obtain ⟨rfl, hrest⟩ := Prod.mk.inj heq
  obtain ⟨hanswers, hrow⟩ := Prod.mk.inj hrest
  exact ⟨s, hrun, hanswers, hrow⟩

end Grafy.LibraryFolders
