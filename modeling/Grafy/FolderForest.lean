import Grafy.LibraryFolders

/-!
The folders over every run. The constraints of the schema keep parents, placements and the
names of siblings, whatever commits when. They do not keep the folders a forest: a move is
checked against the folders as they were read, so two moves can each put a folder below the
other.
-/
namespace Grafy.LibraryFolders

open OrderedDict Transactions Forests

/-- A folder that building it again would leave as it is. -/
structure LibraryFolder.Valid (folder : LibraryFolder) : Prop where
  name : validatedFolderName folder.name = .ok folder.name
  parent : folder.parent ≠ some folder.id

theorem validatedFolderName_ok {value name : String} (h : validatedFolderName value = .ok name) :
    validatedFolderName name = .ok name := by
  unfold validatedFolderName at h ⊢
  simp only at h
  split at h
  · cases h
  · next hblank =>
    split at h
    · cases h
    · next hlong =>
      cases h
      simp [hblank, hlong]

variable {workspace : ℕ}

namespace LibraryFolder

variable {folder : LibraryFolder} {name : String} {parent : Option ℕ}

theorem new_ok {id : ℕ} (h : new workspace id name parent = .ok folder) : folder.Valid := by
  unfold new at h
  cases hname : validatedFolderName name with
  | error e =>
    rw [hname] at h
    cases h
  | ok validated =>
    rw [hname] at h
    by_cases hparent : parent = some id
    · simp [hparent, bind, Except.bind, throw, throwThe, MonadExceptOf.throw] at h
    · simp only [bind, Except.bind, hparent, ↓reduceIte, pure, Except.pure] at h
      cases h
      exact ⟨validatedFolderName_ok hname, hparent⟩

theorem rename_ok {renamed : LibraryFolder} (h : folder.Valid)
    (hrename : folder.rename name = .ok renamed) : renamed.Valid := by
  unfold rename at hrename
  cases hname : validatedFolderName name with
  | error e =>
    rw [hname] at hrename
    cases hrename
  | ok validated =>
    rw [hname] at hrename
    simp only [bind, Except.bind, pure, Except.pure] at hrename
    cases hrename
    exact ⟨validatedFolderName_ok hname, h.parent⟩

theorem moveTo_ok {moved : LibraryFolder} (h : folder.Valid)
    (hmove : folder.moveTo parent = .ok moved) : moved.Valid := by
  unfold moveTo at hmove
  split at hmove
  · cases hmove
  · next hparent =>
    cases hmove
    exact ⟨h.name, hparent⟩

end LibraryFolder

theorem isDescendantFolder_iff (folders : List LibraryFolder) (candidate ancestor : ℕ) :
    isDescendantFolder folders candidate ancestor = true ↔
      Below (fun id => (folders.find? (fun folder => folder.id = id)).bind LibraryFolder.parent)
        candidate ancestor := by
  have hlength : folders.length = (folders.map LibraryFolder.id).length := by
    rw [List.length_map]
  unfold isDescendantFolder
  rw [hlength]
  refine climb_iff ?_
  intro a b hparent
  obtain ⟨folder, hfind, _⟩ := Option.bind_eq_some_iff.mp hparent
  have hid : folder.id = a := by simpa using List.find?_some hfind
  exact List.mem_map.mpr ⟨folder, List.mem_of_find?_eq_some hfind, hid⟩

/-- What the constraints of the schema keep of the two tables. -/
structure Rows.Kept (casefold : String → String) (s : Rows) : Prop where
  nodup : s.folders.keys.Nodup
  keyed : ∀ id row, s.folders.get? id = some row → row.nameKey = casefold row.name
  valid : ∀ id row, s.folders.get? id = some row → (folderFromRow id row).Valid
  parents : ∀ id row parent, s.folders.get? id = some row → row.parent = some parent →
    ∃ up, s.folders.get? parent = some up ∧ up.workspace = row.workspace
  siblings : ∀ id other row row', s.folders.get? id = some row →
    s.folders.get? other = some row' → id ≠ other → row.workspace = row'.workspace →
      row.parent = row'.parent → row.nameKey ≠ row'.nameKey
  placed : ∀ w artifact folder, s.placements.get? (w, artifact) = some folder →
    ∃ row, s.folders.get? folder = some row ∧ row.workspace = w

variable {writes : List Statement}

section
variable {casefold : String → String} {s s' : Rows} {id w : ℕ} {row : FolderRow}
  {folder : LibraryFolder} {nameKey : String} {folders : Dict ℕ FolderRow} {statement : Statement}
  {artifacts : List ℕ}

theorem folder_eq_some :
    s.folder w id = some row ↔ s.folders.get? id = some row ∧ row.workspace = w := by
  unfold Rows.folder
  rw [Option.filter_eq_some_iff]
  simp

/-- What it means that a folder may be stored. -/
theorem allows_parts (h : s.allows folder nameKey = true) :
    (∀ parent, folder.parent = some parent →
      ∃ up, s.folders.get? parent = some up ∧ up.workspace = folder.workspace) ∧
    ∀ id row, s.folders.get? id = some row → id ≠ folder.id → row.workspace = folder.workspace →
      row.parent = folder.parent → row.nameKey ≠ nameKey := by
  unfold Rows.allows at h
  rw [Bool.and_eq_true, Bool.and_eq_true] at h
  obtain ⟨⟨_, hparent⟩, hsiblings⟩ := h
  constructor
  · intro parent heq
    rw [heq] at hparent
    obtain ⟨up, hup⟩ := Option.isSome_iff_exists.mp hparent
    exact ⟨up, folder_eq_some.mp hup⟩
  · intro id row hrow hid hw hp
    have hentry := List.all_eq_true.mp hsiblings (id, row) (Dict.mem_of_get? hrow)
    simpa [hid, hw, hp] using hentry

/-- The table with one folder stored, in a new row or in the one it had. -/
theorem Rows.Kept.store (h : s.Kept casefold) (hvalid : folder.Valid) (hnodup : folders.keys.Nodup)
    (hget : ∀ id, folders.get? id = if id = folder.id then some ⟨folder.workspace, folder.parent,
      folder.name, casefold folder.name⟩ else s.folders.get? id)
    (hworkspace : ∀ row, s.folders.get? folder.id = some row → row.workspace = folder.workspace)
    (hallows : s.allows folder (casefold folder.name) = true) :
    ({ s with folders } : Rows).Kept casefold := by
  obtain ⟨hparent, hsiblings⟩ := allows_parts hallows
  have hcases : ∀ id row, folders.get? id = some row → id = folder.id ∧
      row = ⟨folder.workspace, folder.parent, folder.name, casefold folder.name⟩ ∨
      id ≠ folder.id ∧ s.folders.get? id = some row := by
    intro id row hrow
    rw [hget] at hrow
    split at hrow
    · next hid => exact Or.inl ⟨hid, (Option.some.inj hrow).symm⟩
    · next hid => exact Or.inr ⟨hid, hrow⟩
  have hstays : ∀ id row, s.folders.get? id = some row →
      ∃ row', folders.get? id = some row' ∧ row'.workspace = row.workspace := by
    intro id row hrow
    rw [hget]
    split
    · next hid =>
      subst hid
      exact ⟨_, rfl, (hworkspace row hrow).symm⟩
    · exact ⟨row, hrow, rfl⟩
  refine ⟨hnodup, ?_, ?_, ?_, ?_, ?_⟩
  · intro id row hrow
    rcases hcases id row hrow with ⟨_, rfl⟩ | ⟨_, hold⟩
    · rfl
    · exact h.keyed id row hold
  · intro id row hrow
    rcases hcases id row hrow with ⟨rfl, rfl⟩ | ⟨_, hold⟩
    · exact hvalid
    · exact h.valid id row hold
  · intro id row parent hrow hp
    have hup : ∃ up, s.folders.get? parent = some up ∧ up.workspace = row.workspace := by
      rcases hcases id row hrow with ⟨_, rfl⟩ | ⟨_, hold⟩
      · exact hparent parent hp
      · exact h.parents id row parent hold hp
    obtain ⟨up, hup, hw⟩ := hup
    obtain ⟨up', hup', hw'⟩ := hstays parent up hup
    exact ⟨up', hup', hw'.trans hw⟩
  · intro id other row row' hrow hrow' hne hw hp
    rcases hcases id row hrow with ⟨rfl, rfl⟩ | ⟨hid, hold⟩
    · rcases hcases other row' hrow' with ⟨rfl, _⟩ | ⟨hother, hold'⟩
      · exact absurd rfl hne
      · exact (hsiblings other row' hold' hother hw.symm hp.symm).symm
    · rcases hcases other row' hrow' with ⟨rfl, rfl⟩ | ⟨_, hold'⟩
      · exact hsiblings id row hold hid hw hp
      · exact h.siblings id other row row' hold hold' hne hw hp
  · intro w artifact f hf
    obtain ⟨row, hrow, hw⟩ := h.placed w artifact f hf
    obtain ⟨row', hrow', hw'⟩ := hstays f row hrow
    exact ⟨row', hrow', hw'.trans hw⟩

theorem Rows.Kept.of_placements (h : s.Kept casefold) {placements : Dict (ℕ × ℕ) ℕ}
    (hplaced : ∀ w artifact folder, placements.get? (w, artifact) = some folder →
      ∃ row, s.folders.get? folder = some row ∧ row.workspace = w) :
    ({ s with placements } : Rows).Kept casefold :=
  ⟨h.nodup, h.keyed, h.valid, h.parents, h.siblings, hplaced⟩

/-- Where the counts are zero nothing refers to the folder. -/
theorem empty_of_counts (h : s.Kept casefold) (hrow : s.folders.get? id = some row)
    (hw : row.workspace = w) (hchildren : s.countChildren w id = 0)
    (hplacements : s.countPlacements w id = 0) :
    (∀ child row', s.folders.get? child = some row' → row'.parent ≠ some id) ∧
      ∀ key folder, s.placements.get? key = some folder → folder ≠ id := by
  constructor
  · intro child row' hchild hparent
    obtain ⟨up, hup, hworkspace⟩ := h.parents child row' id hchild hparent
    rw [hrow] at hup
    cases hup
    have hnone := List.countP_eq_zero.mp hchildren (child, row') (Dict.mem_of_get? hchild)
    simp [← hworkspace, hw, hparent] at hnone
  · rintro ⟨w', artifact⟩ folder hplacement rfl
    obtain ⟨row', hrow', hworkspace⟩ := h.placed w' artifact folder hplacement
    rw [hrow] at hrow'
    cases hrow'
    have hnone := List.countP_eq_zero.mp hplacements ((w', artifact), folder)
      (Dict.mem_of_get? hplacement)
    simp [← hworkspace, hw] at hnone

/-- Storing a folder gives it its parent, and leaves the other parents. -/
theorem parentOf_store
    (hget : ∀ id, folders.get? id = if id = folder.id then some ⟨folder.workspace, folder.parent,
      folder.name, nameKey⟩ else s.folders.get? id) :
    ({ s with folders } : Rows).parentOf = Function.update s.parentOf folder.id folder.parent := by
  funext id
  rw [Rows.parentOf, hget]
  by_cases hid : id = folder.id
  · rw [hid, Function.update_self]
    simp
  · rw [Function.update_of_ne hid, if_neg hid]
    rfl

theorem parentOf_erase (s : Rows) (id : ℕ) :
    ({ s with folders := s.folders.erase id } : Rows).parentOf =
      Function.update s.parentOf id none := by
  funext other
  rw [Rows.parentOf, Dict.get?_erase]
  by_cases hid : other = id
  · rw [hid, Function.update_self]
    simp
  · rw [Function.update_of_ne hid, if_neg hid]
    rfl

/-- What a folder's statement does: it stores the folder where the constraints allow it, or
nothing. -/
theorem write_stores (h : s.Kept casefold)
    (hstatement : statement = .insertFolder folder ∨ statement = .saveFolder folder)
    (hwrite : s.write casefold statement = some s') :
    s' = s ∨ s.allows folder (casefold folder.name) = true ∧
      (∀ row, s.folders.get? folder.id = some row → row.workspace = folder.workspace) ∧
      (statement = .insertFolder folder → s.folders.get? folder.id = none) ∧
      ∃ folders, s' = { s with folders } ∧ folders.keys.Nodup ∧ ∀ id, folders.get? id =
        if id = folder.id then
          some ⟨folder.workspace, folder.parent, folder.name, casefold folder.name⟩
        else s.folders.get? id := by
  rcases hstatement with rfl | rfl
  · simp only [Rows.write] at hwrite
    split at hwrite
    · next hnew =>
      obtain ⟨hnone, hallows⟩ := hnew
      rw [Option.isNone_iff_eq_none] at hnone
      refine Or.inr ⟨hallows, ?_, fun _ => hnone, _, (Option.some.inj hwrite).symm, ?_, ?_⟩
      · intro row hrow
        rw [hnone] at hrow
        cases hrow
      · rw [← Dict.set_of_get?_none hnone]
        exact Dict.keys_set_nodup h.nodup _ _
      · intro id
        rw [← Dict.set_of_get?_none hnone]
        exact Dict.get?_set _ _ _ _
    · cases hwrite
  · simp only [Rows.write] at hwrite
    split at hwrite
    · exact Or.inl (Option.some.inj hwrite).symm
    · next hthere =>
      split at hwrite
      · next hallows =>
        refine Or.inr ⟨hallows, ?_, by simp, _, (Option.some.inj hwrite).symm,
          Dict.keys_set_nodup h.nodup _ _, fun id => Dict.get?_set _ _ _ _⟩
        intro row hrow
        by_contra hw
        refine hthere (Option.isNone_iff_eq_none.mpr ?_)
        rw [Rows.folder, hrow]
        simp [hw]
      · cases hwrite

theorem write_removes (h : s.Kept casefold)
    (hwrite : s.write casefold (.removeFolder folder) = some s') :
    s' = s ∨ (∀ child row, s.folders.get? child = some row → row.parent ≠ some folder.id) ∧
      (∀ key f, s.placements.get? key = some f → f ≠ folder.id) ∧
        s' = { s with folders := s.folders.erase folder.id } := by
  simp only [Rows.write] at hwrite
  split at hwrite
  · exact Or.inl (Option.some.inj hwrite).symm
  · next hthere =>
    split at hwrite
    · next hcounts =>
      rw [Option.isNone_iff_eq_none] at hthere
      obtain ⟨row, hfound⟩ := Option.ne_none_iff_exists'.mp hthere
      obtain ⟨hrow, hw⟩ := folder_eq_some.mp hfound
      obtain ⟨hchildren, hplacements⟩ := empty_of_counts h hrow hw hcounts.1 hcounts.2
      exact Or.inr ⟨hchildren, hplacements, (Option.some.inj hwrite).symm⟩
    · cases hwrite

theorem kept_place {folder : ℕ} (h : s.Kept casefold)
    (hplace : s.place w folder artifacts = some s') :
    s'.Kept casefold ∧ s'.folders = s.folders := by
  induction artifacts generalizing s with
  | nil =>
    cases hplace
    exact ⟨h, rfl⟩
  | cons artifact artifacts ih =>
    unfold Rows.place at hplace
    split at hplace
    · next hfree =>
      obtain ⟨_, hfolder, _⟩ := hfree
      obtain ⟨row, hrow⟩ := Option.isSome_iff_exists.mp hfolder
      have hplaced : ∀ w' artifact' f,
          Dict.get? (s.placements ++ [((w, artifact), folder)]) (w', artifact') = some f →
            ∃ row, s.folders.get? f = some row ∧ row.workspace = w' := by
        intro w' artifact' f hf
        rw [Dict.get?_append] at hf
        cases hold : s.placements.get? (w', artifact') with
        | some f' =>
          rw [hold] at hf
          cases hf
          exact h.placed w' artifact' f hold
        | none =>
          rw [hold, Option.none_or, Dict.get?_cons] at hf
          split at hf
          · next hkey =>
            cases hkey
            cases hf
            exact ⟨row, folder_eq_some.mp hrow⟩
          · cases hf
      obtain ⟨hkept, hsame⟩ := ih (h.of_placements hplaced) hplace
      exact ⟨hkept, hsame⟩
    · cases hplace

theorem get?_filter {K V : Type} [DecidableEq K] {d : Dict K V} {p : K → Bool} {k : K} {v : V}
    (h : Dict.get? (d.filter (fun entry => p entry.1)) k = some v) : d.get? k = some v := by
  induction d with
  | nil => cases h
  | cons entry rest ih =>
    obtain ⟨l, w⟩ := entry
    rw [List.filter_cons] at h
    by_cases hl : l = k
    · subst hl
      split at h
      · simpa [Dict.get?_cons] using h
      · next hp =>
        have hkeys := Dict.mem_of_get? h
        exact absurd (List.mem_filter.mp hkeys).2 hp
    · rw [Dict.get?_cons, if_neg hl]
      split at h
      · rw [Dict.get?_cons, if_neg hl] at h
        exact ih h
      · exact ih h

theorem kept_removePlacements (h : s.Kept casefold)
    (hwrite : s.write casefold (.removePlacements w artifacts) = some s') :
    s'.Kept casefold ∧ s'.folders = s.folders := by
  cases hwrite
  refine ⟨h.of_placements ?_, rfl⟩
  intro w' artifact folder hfolder
  refine h.placed w' artifact folder (get?_filter (p := fun k => ¬ (k.1 = w ∧ k.2 ∈ artifacts)) ?_)
  simpa using hfolder

theorem Rows.Kept.erase (h : s.Kept casefold)
    (hchildren : ∀ child row, s.folders.get? child = some row → row.parent ≠ some id)
    (hplacements : ∀ key folder, s.placements.get? key = some folder → folder ≠ id) :
    ({ s with folders := s.folders.erase id } : Rows).Kept casefold := by
  have hold : ∀ other row, (s.folders.erase id).get? other = some row →
      s.folders.get? other = some row := by
    intro other row hrow
    rw [Dict.get?_erase] at hrow
    split at hrow
    · cases hrow
    · exact hrow
  have hkept : ∀ other row, s.folders.get? other = some row → other ≠ id →
      (s.folders.erase id).get? other = some row := by
    intro other row hrow hne
    rw [Dict.get?_erase_ne _ hne, hrow]
  refine ⟨Dict.keys_erase_nodup h.nodup id, ?_, ?_, ?_, ?_, ?_⟩
  · intro other row hrow
    exact h.keyed other row (hold other row hrow)
  · intro other row hrow
    exact h.valid other row (hold other row hrow)
  · intro other row parent hrow hp
    obtain ⟨up, hup, hw⟩ := h.parents other row parent (hold other row hrow) hp
    refine ⟨up, hkept parent up hup ?_, hw⟩
    rintro rfl
    exact hchildren other row (hold other row hrow) hp
  · intro one other row row' hrow hrow'
    exact h.siblings one other row row' (hold one row hrow) (hold other row' hrow')
  · intro w artifact folder hfolder
    obtain ⟨row, hrow, hw⟩ := h.placed w artifact folder hfolder
    exact ⟨row, hkept folder row hrow (hplacements _ folder hfolder), hw⟩

/-- The writes of a transaction: one statement about a folder, or any about placements. -/
inductive Shape : List Statement → Prop
  | insert {folder : LibraryFolder} (h : folder.Valid) : Shape [.insertFolder folder]
  | save {folder : LibraryFolder} (h : folder.Valid) : Shape [.saveFolder folder]
  | remove (folder : LibraryFolder) : Shape [.removeFolder folder]
  | place {writes : List Statement} (h : ∀ statement ∈ writes, ∃ w artifacts,
      statement = .removePlacements w artifacts ∨
        ∃ folder, statement = .insertPlacements w artifacts folder) : Shape writes

/-- What a commit does to the folders: nothing, one stored, or one removed that nothing
refers to. -/
def Commits (casefold : String → String) (writes : List Statement) (s s' : Rows) : Prop :=
  s'.folders = s.folders ∨
    (∃ folder : LibraryFolder, (writes = [.insertFolder folder] ∧
        s.folders.get? folder.id = none ∨ writes = [.saveFolder folder]) ∧
      s.allows folder (casefold folder.name) = true ∧
      s'.parentOf = Function.update s.parentOf folder.id folder.parent ∧
      ∀ id row, s.folders.get? id = some row → s'.folders.get? id ≠ none) ∨
    ∃ id, (∀ child row, s.folders.get? child = some row → row.parent ≠ some id) ∧
      (∀ key folder, s.placements.get? key = some folder → folder ≠ id) ∧
      s'.folders = s.folders.erase id ∧ s'.parentOf = Function.update s.parentOf id none

theorem commits_stores (h : s.Kept casefold) (hvalid : folder.Valid)
    (hstatement : statement = .insertFolder folder ∨ statement = .saveFolder folder)
    (hwrite : s.write casefold statement = some s') :
    s'.Kept casefold ∧ Commits casefold [statement] s s' := by
  rcases write_stores h hstatement hwrite with rfl | ⟨hallows, hw, hnew, folders, rfl, hnodup, hget⟩
  · exact ⟨h, Or.inl rfl⟩
  · refine ⟨h.store hvalid hnodup hget hw hallows, Or.inr (Or.inl ⟨folder, ?_, hallows,
      parentOf_store hget, ?_⟩)⟩
    · rcases hstatement with rfl | rfl
      · exact Or.inl ⟨rfl, hnew rfl⟩
      · exact Or.inr rfl
    · intro id row hrow
      rw [hget]
      split
      · simp
      · simp [hrow]

theorem Shape.commits (hshape : Shape writes) (h : s.Kept casefold)
    (hwrite : Rows.writeAll casefold writes s = some s') :
    s'.Kept casefold ∧ Commits casefold writes s s' := by
  cases hshape with
  | insert hvalid | save hvalid =>
    obtain ⟨t, ht, hdone⟩ := Option.bind_eq_some_iff.mp hwrite
    cases hdone
    exact commits_stores h hvalid (by simp) ht
  | remove folder =>
    obtain ⟨t, ht, hdone⟩ := Option.bind_eq_some_iff.mp hwrite
    cases hdone
    rcases write_removes h ht with rfl | ⟨hchildren, hplacements, rfl⟩
    · exact ⟨h, Or.inl rfl⟩
    · exact ⟨h.erase hchildren hplacements, Or.inr (Or.inr ⟨folder.id, hchildren, hplacements, rfl,
        parentOf_erase s folder.id⟩)⟩
  | place hplace =>
    have hboth : s'.Kept casefold ∧ s'.folders = s.folders := by
      induction writes generalizing s with
      | nil =>
        cases hwrite
        exact ⟨h, rfl⟩
      | cons statement writes ih =>
        obtain ⟨t, ht, hrest⟩ := Option.bind_eq_some_iff.mp hwrite
        have hfirst : t.Kept casefold ∧ t.folders = s.folders := by
          obtain ⟨w, artifacts, rfl | ⟨folder, rfl⟩⟩ := hplace _ List.mem_cons_self
          · exact kept_removePlacements h ht
          · exact kept_place h ht
        obtain ⟨hkept, hsame⟩ := ih hfirst.1 hrest
          (fun st hst => hplace st (List.mem_cons_of_mem _ hst))
        exact ⟨hkept, hsame.trans hfirst.2⟩
    exact ⟨hboth.1, Or.inl hboth.2⟩

end

/-- Whether every parent that is written is, in the rows that are committed, neither its folder
nor beneath it. -/
def staysAbove (writes : List Statement) (s : Rows) : Bool :=
  writes.all fun
    | .saveFolder folder => folder.parent.all (fun parent =>
      isDescendantFolder (s.listFolders folder.workspace) parent folder.id = false)
    | _ => true

variable {s : Rows} {w : ℕ} {row : FolderRow}

section
variable {casefold : String → String} {s' : Rows}

theorem find?_listFolders (h : s.Kept casefold) {id : ℕ} (hrow : s.folders.get? id = some row)
    (hw : row.workspace = w) :
    (s.listFolders w).find? (fun folder => folder.id = id) = some (folderFromRow id row) := by
  have hmem : folderFromRow id row ∈ s.listFolders w := by
    refine List.mem_map.mpr ⟨(id, row), List.mem_filter.mpr ⟨Dict.mem_of_get? hrow, ?_⟩, rfl⟩
    simpa using hw
  cases hfind : (s.listFolders w).find? (fun folder => folder.id = id) with
  | none =>
    have hnone := List.find?_eq_none.mp hfind _ hmem
    simp [folderFromRow] at hnone
  | some found =>
    obtain ⟨⟨id', row'⟩, hentry, rfl⟩ := List.mem_map.mp (List.mem_of_find?_eq_some hfind)
    have hpred := List.find?_some hfind
    have hid : id' = id := of_decide_eq_true hpred
    subst hid
    have hget := Dict.get?_of_mem h.nodup (List.mem_filter.mp hentry).1
    rw [hrow] at hget
    cases hget
    rfl

/-- From a folder of the Workspace, climbing stays among its folders. -/
theorem below_listFolders (h : s.Kept casefold) {a b : ℕ} (hbelow : Below s.parentOf a b)
    (hrow : s.folders.get? a = some row) (hw : row.workspace = w) :
    Below (fun id => ((s.listFolders w).find? (fun folder => folder.id = id)).bind
      LibraryFolder.parent) a b := by
  induction hbelow generalizing row with
  | refl => exact .refl _
  | @up a c b hparent _ ih =>
    rw [Rows.parentOf, hrow] at hparent
    obtain ⟨up, hup, hworkspace⟩ := h.parents a row c hrow hparent
    refine .up ?_ (ih hup (hworkspace.trans hw))
    simp only [find?_listFolders h hrow hw]
    exact hparent

/-- A commit that stays above keeps the folders a forest. -/
theorem Commits.forest (hcommits : Commits casefold writes s s') (h : s.Kept casefold)
    (hmeets : staysAbove writes s = true) (hforest : Forest s.parentOf) : Forest s'.parentOf := by
  rcases hcommits with hsame | ⟨folder, hwrites, hallows, hparentOf, _⟩ | ⟨id, _, _, _, hparentOf⟩
  · have hparentOf : s'.parentOf = s.parentOf := by
      funext id
      rw [Rows.parentOf, hsame, Rows.parentOf]
    rw [hparentOf]
    exact hforest
  · rw [hparentOf]
    cases hparent : folder.parent with
    | none => exact hforest.detach
    | some parent =>
      obtain ⟨up, hup, hw⟩ := (allows_parts hallows).1 parent hparent
      refine hforest.move ?_
      rcases hwrites with ⟨_, hnew⟩ | rfl
      · refine not_below_of_closed (P := fun id => s.folders.get? id ≠ none) ?_ (by rw [hup]; nofun)
        intro id hid
        obtain ⟨row, hrow⟩ := Option.ne_none_iff_exists'.mp hid
        refine ⟨?_, ?_⟩
        · rintro rfl
          exact hid hnew
        · intro next hnext
          rw [Rows.parentOf, hrow] at hnext
          obtain ⟨up', hup', _⟩ := h.parents id row next hrow hnext
          rw [hup']
          nofun
      · intro hbelow
        have hdescendant := (isDescendantFolder_iff (s.listFolders folder.workspace) parent
          folder.id).mpr (below_listFolders h hbelow hup hw)
        simp [staysAbove, hparent, hdescendant] at hmeets
  · rw [hparentOf]
    exact hforest.detach

end

section
variable (casefold : String → String)

def discipline : Discipline (library casefold) where
  holds := Rows.Kept casefold
  rely _ _ _ := True
  guarantee _ _ writes s s' := Shape writes ∧ Rows.writeAll casefold writes s = some s'
  answers _ _ _ := True
  refl _ _ := trivial
  trans _ _ _ _ _ _ := trivial
  keeps _ _ _ _ _ hs h := (h.1.commits hs h.2).1
  compatible _ _ _ _ _ _ _ _ _ := trivial
  stable _ _ _ _ _ _ := trivial

variable {op : Op} {held : List Empty} {parent : Option ℕ} {next : Call}

theorem sound_raise (error : FolderError) : (discipline casefold).Sound op (raise error) held s :=
  fun _ _ => trivial

theorem sound_finish (outcome : Outcome) (h : Shape writes) :
    (discipline casefold).Sound op (finish writes outcome) held s := by
  intro s' _ _
  cases hwrite : (library casefold).write writes s' with
  | none => exact fun _ _ => trivial
  | some s'' => exact ⟨⟨h, hwrite⟩, fun _ _ => trivial⟩

theorem sound_requireFolder {id : ℕ} {next : LibraryFolder → Call}
    (h : ∀ folder s, folder.Valid → (discipline casefold).Sound op (next folder) held s) :
    (discipline casefold).Sound op (requireFolder workspace id next) held s := by
  intro s' _ hkept
  simp only
  split
  · exact sound_raise casefold _
  · next row hrow => exact h _ s' (hkept.valid id row (folder_eq_some.mp hrow).1)

theorem sound_requireFolderWhenSet (h : ∀ s, (discipline casefold).Sound op next held s) :
    (discipline casefold).Sound op (requireFolderWhenSet workspace parent next) held s := by
  unfold requireFolderWhenSet
  split
  · exact h s
  · exact sound_requireFolder casefold (fun _ s _ => h s)

theorem sound_requireNameFree {nameKey : String} {exceptFolder : Option ℕ}
    (h : ∀ s, (discipline casefold).Sound op next held s) :
    (discipline casefold).Sound op
      (requireNameFree workspace parent nameKey exceptFolder next) held s := by
  intro s' _ _
  simp only
  split
  · exact h s'
  · split
    · exact sound_raise casefold _
    · exact h s'

theorem sound_createFolder (workspace id : ℕ) (name : String) (parent : Option ℕ) :
    (discipline casefold).Sound op (createFolder casefold workspace id name parent) held s := by
  unfold createFolder
  split
  · exact sound_raise casefold _
  · next folder hfolder =>
    refine sound_requireFolderWhenSet casefold ?_
    intro _
    refine sound_requireNameFree casefold ?_
    intro _
    exact sound_finish casefold _ (.insert (LibraryFolder.new_ok hfolder))

theorem sound_renameFolder (workspace id : ℕ) (name : String) :
    (discipline casefold).Sound op (renameFolder casefold workspace id name) held s := by
  refine sound_requireFolder casefold ?_
  intro folder _ hvalid
  split
  · exact sound_raise casefold _
  · refine sound_requireNameFree casefold ?_
    intro _
    split
    · exact sound_raise casefold _
    · next hrename => exact sound_finish casefold _ (.save (LibraryFolder.rename_ok hvalid hrename))

theorem sound_deleteFolder (workspace id : ℕ) :
    (discipline casefold).Sound op (deleteFolder workspace id) held s := by
  refine sound_requireFolder casefold ?_
  intro folder _ _ _ _ _ _ _ _
  simp only
  split
  · exact sound_raise casefold _
  · exact sound_finish casefold _ (.remove folder)

theorem sound_moveFolder (workspace id : ℕ) (parent : Option ℕ) :
    (discipline casefold).Sound op (moveFolder casefold workspace id parent) held s := by
  refine sound_requireFolder casefold ?_
  intro folder _ hvalid
  refine sound_requireFolderWhenSet casefold ?_
  intro s
  split
  -- under a parent, the guard on the parent comes first
  on_goal 2 =>
    intro s' _ _
    simp only
    split
    · exact sound_raise casefold _
  all_goals
    refine sound_requireNameFree casefold ?_
    intro _
    split
    · exact sound_raise casefold _
    · next hmoved => exact sound_finish casefold _ (.save (LibraryFolder.moveTo_ok hvalid hmoved))

theorem sound_placeArtifacts (workspace : ℕ) (artifacts : List ℕ) (folder : Option ℕ) :
    (discipline casefold).Sound op (placeArtifacts workspace artifacts folder) held s := by
  refine sound_requireFolderWhenSet casefold ?_
  intro _ s' _ _
  simp only
  split
  · exact sound_raise casefold _
  · split
    · exact sound_finish casefold _ (.place nofun)
    · split
      · refine sound_finish casefold _ (.place ?_)
        intro statement hmem
        exact ⟨_, _, Or.inl (List.mem_singleton.mp hmem)⟩
      · next folder _ =>
        refine sound_finish casefold _ (.place ?_)
        intro statement hmem
        rcases List.mem_cons.mp hmem with rfl | hmem
        · exact ⟨_, _, Or.inl rfl⟩
        · exact ⟨_, _, Or.inr ⟨_, List.mem_singleton.mp hmem⟩⟩

theorem sound_program (op : Op) (s : Rows) :
    (discipline casefold).Sound op ((library casefold).program op) [] s := by
  cases op with
  | create => exact sound_createFolder casefold _ _ _ _
  | rename => exact sound_renameFolder casefold _ _ _
  | delete => exact sound_deleteFolder casefold _ _
  | move => exact sound_moveFolder casefold _ _ _
  | place => exact sound_placeArtifacts casefold _ _ _

theorem kept_empty (artifacts : Dict (ℕ × ℕ) Bool) : Rows.Kept casefold ⟨[], [], artifacts⟩ := by
  refine ⟨List.nodup_nil, ?_, ?_, ?_, ?_, ?_⟩
  · intro _ _ h
    cases h
  · intro _ _ h
    cases h
  · intro _ _ _ h
    cases h
  · intro _ _ _ _ h
    cases h
  · intro _ _ _ h
    cases h

end

abbrev LibraryState := State Rows Empty (List Statement) (Except FolderError Outcome) Op

/-- No folders yet, and the artifacts there are. -/
def emptyLibrary (artifacts : Dict (ℕ × ℕ) Bool) : LibraryState := ⟨⟨[], [], artifacts⟩, []⟩

/-- In every run parents and placements name folders of their Workspace, siblings have names
that fold differently, and only empty folders are deleted; where every commit stays above,
every folder leads to the root. -/
theorem library_forest (casefold : String → String) (artifacts : Dict (ℕ × ℕ) Bool)
    {s : LibraryState}
    (h : (library casefold).Reached (fun _ _ _ => True) (emptyLibrary artifacts) s) :
    (∀ id row parent, s.store.folders.get? id = some row → row.parent = some parent →
      ∃ up, s.store.folders.get? parent = some up ∧ up.workspace = row.workspace) ∧
    (∀ w artifact folder, s.store.placements.get? (w, artifact) = some folder →
      ∃ row, s.store.folders.get? folder = some row ∧ row.workspace = w) ∧
    (∀ id other row row', s.store.folders.get? id = some row →
      s.store.folders.get? other = some row' → id ≠ other → row.workspace = row'.workspace →
        row.parent = row'.parent → casefold row.name ≠ casefold row'.name) ∧
    (∀ act s', (library casefold).step s act = some s' → ∀ id, s.store.folders.get? id ≠ none →
      s'.store.folders.get? id = none →
        (∀ child row, s.store.folders.get? child = some row → row.parent ≠ some id) ∧
          ∀ key folder, s.store.placements.get? key = some folder → folder ≠ id) ∧
    ((library casefold).Reached (fun _ writes store => staysAbove writes store = true)
      (emptyLibrary artifacts) s →
        ∀ id row, s.store.folders.get? id = some row → Rooted s.store.parentOf id) := by
  have hstart : (discipline casefold).Disciplined (emptyLibrary artifacts) :=
    Discipline.disciplined_start (kept_empty casefold artifacts)
  have hprogram := fun op store (_ : (discipline casefold).holds store) =>
    sound_program casefold op store
  obtain ⟨hdisciplined, _⟩ := Discipline.Disciplined.run (J := fun _ => True) hprogram
    (fun _ _ _ _ _ _ _ _ _ => trivial) h hstart trivial
  have hkept : s.store.Kept casefold := hdisciplined.holds
  refine ⟨hkept.parents, hkept.placed, ?_, ?_, ?_⟩
  · intro id other row row' hrow hrow' hne hw hp
    rw [← hkept.keyed id row hrow, ← hkept.keyed other row' hrow']
    exact hkept.siblings id other row row' hrow hrow' hne hw hp
  · intro act s' hstep id hid hgone
    obtain ⟨_, ⟨_, hsame⟩ | ⟨op, held, writes, _, hshape, hwrite⟩⟩ :=
      hdisciplined.step hprogram hstep
    · rw [hsame] at hgone
      exact absurd hgone hid
    · rcases (hshape.commits hkept hwrite).2 with hsame | ⟨_, _, _, _, hstays⟩ |
        ⟨removed, hchildren, hplacements, herase, _⟩
      · rw [hsame] at hgone
        exact absurd hgone hid
      · obtain ⟨row, hrow⟩ := Option.ne_none_iff_exists'.mp hid
        exact absurd hgone (hstays id row hrow)
      · have hremoved : id = removed := by
          by_contra hne
          rw [herase, Dict.get?_erase_ne _ hne] at hgone
          exact hid hgone
        rw [hremoved]
        exact ⟨hchildren, hplacements⟩
  · intro hrun id _ _
    have hforest : Forest (emptyLibrary artifacts).store.parentOf := fun _ => .root rfl
    refine (Discipline.Disciplined.run (J := fun store => Forest store.parentOf) hprogram ?_ hrun
      hstart hforest).2 id
    intro op held writes store store' hholds hmeets hguarantee hJ
    obtain ⟨hshape, hwrite⟩ := hguarantee
    exact (hshape.commits hholds hwrite).2.forest hholds hmeets hJ

/-- Two folders at the root, and one moved below the other. -/
def movedActs : List (Act Op) :=
  [.start (.create 1 1 "a" none), .go 0, .go 0, .start (.create 1 2 "b" none), .go 1, .go 1,
    .start (.move 1 1 (some 2)), .go 2, .go 2, .go 2, .go 2, .go 2]

theorem moved_folder_rooted : ∃ s, (library id).runIf
    (fun _ writes store => staysAbove writes store = true) (emptyLibrary []) movedActs = some s ∧
      s.store.parentOf 1 = some 2 ∧ Rooted s.store.parentOf 1 := by
  have hmoved : ((library id).runIf (fun _ writes store => staysAbove writes store = true)
      (emptyLibrary []) movedActs).map (fun s => s.store.folders.get? 1) =
        some (some ⟨1, some 2, "a", "a"⟩) := by decide
  obtain ⟨s, hrun, hrow⟩ := Option.map_eq_some_iff.mp hmoved
  have hreached := Machine.reached_of_runIf hrun
  have hforest := library_forest id [] (hreached.mono (fun _ _ _ _ => trivial))
  refine ⟨s, hrun, ?_, hforest.2.2.2.2 hreached 1 _ hrow⟩
  rw [Rows.parentOf, hrow]
  rfl

/-- Each of two folders is moved below the other, both moves checked before either commits. -/
def crossedActs : List (Act Op) :=
  [.start (.create 1 1 "a" none), .go 0, .go 0, .start (.create 1 2 "b" none), .go 1, .go 1,
    .start (.move 1 1 (some 2)), .go 2, .go 2, .go 2, .go 2,
    .start (.move 1 2 (some 1)), .go 3, .go 3, .go 3, .go 3, .go 3, .go 2]

theorem crossed_moves_cycle : ∃ s : LibraryState,
    (library id).Reached (fun _ _ _ => True) (emptyLibrary []) s ∧
      ∃ id row, s.store.folders.get? id = some row ∧ ¬ Rooted s.store.parentOf id := by
  have hcrossed : ((library id).runIf (fun _ _ _ => True) (emptyLibrary []) crossedActs).map
      (fun s => (s.store.folders.get? 1, s.store.folders.get? 2)) =
        some (some ⟨1, some 2, "a", "a"⟩, some ⟨1, some 1, "b", "b"⟩) := by decide
  obtain ⟨s, hrun, hrows⟩ := Option.map_eq_some_iff.mp hcrossed
  obtain ⟨hone, htwo⟩ := Prod.mk.inj hrows
  have hparent : s.store.parentOf 1 = some 2 := by
    rw [Rows.parentOf, hone]
    rfl
  have hback : s.store.parentOf 2 = some 1 := by
    rw [Rows.parentOf, htwo]
    rfl
  exact ⟨s, Machine.reached_of_runIf hrun, 1, _, hone, not_rooted hparent (.up hback (.refl 1))⟩

section Paths
variable {casefold : String → String} {s : Rows} {w : ℕ}

/-- Folders of a Workspace with these names, folded, lead from the given one up to the root. -/
def Leads (casefold : String → String) (s : Rows) (w : ℕ) : List String → Option ℕ → Prop
  | [], folder => folder = none
  | _ :: _, none => False
  | name :: names, some id => ∃ row, s.folder w id = some row ∧ casefold row.name = name ∧
      Leads casefold s w names row.parent

theorem Rows.Kept.leads_injective (h : s.Kept casefold) {names : List String} {a b : Option ℕ}
    (ha : Leads casefold s w names a) (hb : Leads casefold s w names b) : a = b := by
  induction names generalizing a b with
  | nil => exact ha.trans hb.symm
  | cons name names ih =>
    cases a with
    | none => exact ha.elim
    | some id =>
      cases b with
      | none => exact hb.elim
      | some other =>
        obtain ⟨row, hrow, hname, hrest⟩ := ha
        obtain ⟨row', hrow', hname', hrest'⟩ := hb
        obtain ⟨hrow, hw⟩ := folder_eq_some.mp hrow
        obtain ⟨hrow', hw'⟩ := folder_eq_some.mp hrow'
        by_contra hne
        refine h.siblings id other row row' hrow hrow' (fun heq => hne (congrArg some heq))
          (hw.trans hw'.symm) (ih hrest hrest') ?_
        rw [h.keyed id row hrow, h.keyed other row' hrow', hname, hname']

theorem Rows.Kept.exists_leads (h : s.Kept casefold) {id : ℕ} {row : FolderRow}
    (hrow : s.folder w id = some row) (hrooted : Rooted s.parentOf id) :
    ∃ names, Leads casefold s w names (some id) := by
  induction hrooted generalizing row with
  | root hnone =>
    refine ⟨[casefold row.name], row, hrow, rfl, ?_⟩
    rwa [Rows.parentOf, (folder_eq_some.mp hrow).1] at hnone
  | @up id parent hparent _ ih =>
    obtain ⟨hget, hw⟩ := folder_eq_some.mp hrow
    rw [Rows.parentOf, hget] at hparent
    obtain ⟨up, hup, hsame⟩ := h.parents id row parent hget hparent
    obtain ⟨names, hnames⟩ := ih (folder_eq_some.mpr ⟨hup, hsame.trans hw⟩)
    exact ⟨casefold row.name :: names, row, hrow, rfl, by rwa [show row.parent = _ from hparent]⟩

/-- In every run the folded names up to the root tell the folders of a Workspace apart, and
every folder that leads to the root has such names. -/
theorem folders_named_by_path (casefold : String → String) (artifacts : Dict (ℕ × ℕ) Bool)
    {s : LibraryState}
    (h : (library casefold).Reached (fun _ _ _ => True) (emptyLibrary artifacts) s) (w : ℕ) :
    (∀ names a b, Leads casefold s.store w names a → Leads casefold s.store w names b → a = b) ∧
    ∀ id row, s.store.folder w id = some row → Rooted s.store.parentOf id →
      ∃ names, Leads casefold s.store w names (some id) := by
  have hkept : s.store.Kept casefold := (Discipline.Disciplined.run (J := fun _ => True)
    (fun op store _ => sound_program casefold op store) (fun _ _ _ _ _ _ _ _ _ => trivial) h
    (Discipline.disciplined_start (kept_empty casefold artifacts)) trivial).1.holds
  exact ⟨fun _ _ _ => hkept.leads_injective, fun _ _ => hkept.exists_leads⟩

theorem moved_folder_named : ∃ s, (library id).Reached (fun _ _ _ => True) (emptyLibrary []) s ∧
    ∀ other, Leads id s.store 1 ["a", "b"] other → other = some 1 := by
  have hmoved : ((library id).runIf (fun _ _ _ => True) (emptyLibrary []) movedActs).map
      (fun s => s.store.folders) = some [(1, ⟨1, some 2, "a", "a"⟩), (2, ⟨1, none, "b", "b"⟩)] := by
    decide
  obtain ⟨s, hrun, hfolders⟩ := Option.map_eq_some_iff.mp hmoved
  have hreached := Machine.reached_of_runIf hrun
  refine ⟨s, hreached, fun other h => (folders_named_by_path id [] hreached 1).1 _ _ _ h ?_⟩
  simp [Leads, Rows.folder, hfolders, Dict.get?]

end Paths

end Grafy.LibraryFolders
