import Grafy.ImplementationIdentity
import Mathlib.Data.Set.Function

/-!
The closure against Python's reading. Where each module of the least set is read
from the file Python loads and its imports name the same modules of the family
to both readings, the closure is that least set, and equal digests mean equal
bytes. This is so in every tree where no module file stands beside a directory
of its name and no relative import ascends; one that does is resolved from the
wrong package.
-/
namespace Grafy.ImplementationIdentity

open OrderedDict Worklist

variable {parse : Bytes → Option (List ImportStatement)} {tree : Tree} {topLevel : Part}

/-- What the code follows from a module. -/
def codeTargets (parse : Bytes → Option (List ImportStatement)) (tree : Tree) (topLevel : Part)
    (parts : List Part) : List (List Part) :=
  match moduleSource tree parts with
  | none => []
  | some (source, isPackage) =>
    ancestors parts ++ staticImports topLevel ((parse source).getD []) parts isPackage

/-- What Python follows from a module. -/
def pythonTargets (parse : Bytes → Option (List ImportStatement)) (tree : Tree) (topLevel : Part)
    (parts : List Part) : List (List Part) :=
  ancestors parts ++ pythonImports parse tree topLevel parts

/-- The code reads the module as Python does: the same file, and the same modules of the
family that it leads to. -/
structure ReadAlike (parse : Bytes → Option (List ImportStatement)) (tree : Tree)
    (topLevel : Part) (parts : List Part) : Prop where
  source : moduleSource tree parts = pythonSource tree parts
  targets : ∀ target,
    (target ∈ codeTargets parse tree topLevel parts ∧ (moduleSource tree target).isSome) ↔
      (target ∈ pythonTargets parse tree topLevel parts ∧ (pythonSource tree target).isSome)

/-- Every module of the family is Python source. -/
def Parses (parse : Bytes → Option (List ImportStatement)) (tree : Tree) : Prop :=
  ∀ parts source isPackage, moduleSource tree parts = some (source, isPackage) →
    (parse source).isSome

/-! The least set -/

variable {parts start : List Part} {source : Bytes}

section Least

/-- A name with a file that parses is a node, and leads to what the code follows from it. -/
theorem expand_some_iff (hparses : Parses parse tree) {next : List (List Part)} :
    expand parse tree topLevel parts = .ok (some (source, next)) ↔
      (∃ isPackage, moduleSource tree parts = some (source, isPackage)) ∧
        next = (codeTargets parse tree topLevel parts).reverse := by
  cases hsource : moduleSource tree parts with
  | none => simp [expand, hsource]
  | some pair =>
    obtain ⟨found, isPackage⟩ := pair
    obtain ⟨statements, hstatements⟩ :=
      Option.isSome_iff_exists.mp (hparses parts found isPackage hsource)
    simp only [expand, codeTargets, hsource, hstatements, Option.getD_some]
    constructor
    · intro heq
      cases heq
      exact ⟨⟨isPackage, rfl⟩, rfl⟩
    · rintro ⟨⟨isPackage', hfound⟩, rfl⟩
      cases hfound
      rfl

theorem expand_isSome (hparses : Parses parse tree) (h : (moduleSource tree parts).isSome) :
    ∃ found, expand parse tree topLevel parts = .ok (some found) := by
  obtain ⟨⟨source, isPackage⟩, hsource⟩ := Option.isSome_iff_exists.mp h
  exact ⟨_, (expand_some_iff hparses).mpr ⟨⟨isPackage, hsource⟩, rfl⟩⟩

theorem isSome_of_expand {found : Bytes × List (List Part)}
    (h : expand parse tree topLevel parts = .ok (some found)) :
    (moduleSource tree parts).isSome := by
  unfold expand at h
  split at h
  · cases h
  · rename_i hsome
    rw [hsome]
    rfl

theorem expand_ne_error (hparses : Parses parse tree) (parts : List Part) (e : ClosureError) :
    expand parse tree topLevel parts ≠ .error e := by
  intro h
  unfold expand at h
  split at h
  · cases h
  · rename_i source isPackage hsome
    obtain ⟨statements, hstatements⟩ :=
      Option.isSome_iff_exists.mp (hparses parts source isPackage hsome)
    rw [hstatements] at h
    cases h

theorem mem_ancestors {target : List Part} :
    target ∈ ancestors parts ↔ ∃ depth, depth < parts.length ∧ target = parts.take depth := by
  unfold ancestors
  simp only [List.mem_map, List.mem_range]
  constructor
  · rintro ⟨depth, hdepth, rfl⟩
    exact ⟨depth, hdepth, rfl⟩
  · rintro ⟨depth, hdepth, rfl⟩
    exact ⟨depth, hdepth, rfl⟩

/-- A module of the least set leads Python to modules of the least set. -/
theorem Imported.target {target : List Part} (h : Imported parse tree topLevel start parts)
    (htarget : target ∈ pythonTargets parse tree topLevel parts)
    (hsome : (pythonSource tree target).isSome) : Imported parse tree topLevel start target := by
  rcases List.mem_append.mp htarget with hancestor | hnamed
  · obtain ⟨depth, hdepth, rfl⟩ := mem_ancestors.mp hancestor
    exact .ancestor h hdepth hsome
  · exact .named h hnamed hsome

section

variable (hparses : Parses parse tree) (hstart : (pythonSource tree start).isSome)
  (halike : ∀ parts, Imported parse tree topLevel start parts → ReadAlike parse tree topLevel parts)
include hparses hstart halike

theorem reached_iff_imported (parts : List Part) :
    Reached (expand parse tree topLevel) start parts ↔
      Imported parse tree topLevel start parts := by
  have hfirst : Imported parse tree topLevel start start := .start hstart
  constructor
  · intro h
    induction h with
    | start _ => exact hfirst
    | @next a b source next found _ hexpand hmem hfound ih =>
      obtain ⟨-, rfl⟩ := (expand_some_iff hparses).mp hexpand
      have hboth := ((halike a ih).targets b).mp ⟨List.mem_reverse.mp hmem, isSome_of_expand hfound⟩
      exact ih.target hboth.1 hboth.2
  · intro h
    have hfollow {a b : List Part} (himported : Imported parse tree topLevel start a)
        (hreached : Reached (expand parse tree topLevel) start a)
        (htarget : b ∈ pythonTargets parse tree topLevel a)
        (hsome : (pythonSource tree b).isSome) :
        Reached (expand parse tree topLevel) start b := by
      have hboth := ((halike a himported).targets b).mpr ⟨htarget, hsome⟩
      obtain ⟨found, hfound⟩ := expand_isSome hparses hboth.2
      have hnode : (moduleSource tree a).isSome := by
        cases hreached with
        | start h | next _ _ _ h => exact isSome_of_expand h
      obtain ⟨⟨source, next⟩, hexpand⟩ : ∃ found, expand parse tree topLevel a = .ok (some found) :=
        expand_isSome hparses hnode
      obtain ⟨-, rfl⟩ := (expand_some_iff hparses).mp hexpand
      exact .next hreached hexpand (List.mem_reverse.mpr hboth.1) hfound
    induction h with
    | start _ =>
      rw [← (halike start hfirst).source] at hstart
      obtain ⟨found, hfound⟩ := expand_isSome hparses hstart
      exact .start hfound
    | @ancestor a depth himported hdepth hsome ih =>
      exact hfollow himported ih
        (List.mem_append_left _ (mem_ancestors.mpr ⟨depth, hdepth, rfl⟩)) hsome
    | named himported hnamed hsome ih =>
      exact hfollow himported ih (List.mem_append_right _ hnamed) hsome

/-- The files of the closure: one for each module of the least set, the one Python loads. -/
theorem closureFiles_ok :
    ∃ files, closureFiles parse tree topLevel start = .ok files ∧
      (∀ parts, parts ∈ files.map Prod.fst ↔ Imported parse tree topLevel start parts) ∧
      (∀ parts source, (parts, source) ∈ files →
        ∃ isPackage, pythonSource tree parts = some (source, isPackage)) ∧
      (files.map Prod.fst).Nodup := by
  have hmodule := hstart
  rw [← (halike start (.start hstart)).source] at hmodule
  obtain ⟨found, hfound⟩ := Option.isSome_iff_exists.mp hmodule
  obtain ⟨files, hfiles⟩ : ∃ files, search (expand parse tree topLevel) expand_names [] [] [start] =
      .ok files := exists_search expand_names (expand_ne_error hparses) [] [] [start]
  obtain ⟨hkeys, hsources, hnodup⟩ := mem_search expand_names (searched_start start) hfiles
  refine ⟨files, ?_, ?_, ?_, hnodup⟩
  · simp only [closureFiles, hfound, hfiles]
  · intro parts
    rw [hkeys]
    exact reached_iff_imported hparses hstart halike parts
  · intro parts source hmem
    obtain ⟨next, hexpand⟩ := hsources parts source hmem
    obtain ⟨⟨isPackage, hsource⟩, -⟩ := (expand_some_iff hparses).mp hexpand
    have himported := (reached_iff_imported hparses hstart halike parts).mp
      ((hkeys parts).mp (List.mem_map.mpr ⟨_, hmem, rfl⟩))
    rw [(halike parts himported).source] at hsource
    exact ⟨isPackage, hsource⟩

end

end Least

/-! Trees read alike -/

variable {isPackage : Bool}

section Plain

/-- No module file stands beside a directory of its name, and no relative import ascends. -/
structure Plain (parse : Bytes → Option (List ImportStatement)) (tree : Tree) : Prop where
  separate : ∀ (directory : List String) (part : Part) (below : List String), below ≠ [] →
    (tree.get? (directory ++ [part.file])).isSome →
    tree.get? (directory ++ part.text :: below) = none
  level : ∀ parts source isPackage, moduleSource tree parts = some (source, isPackage) →
    ∀ statements, parse source = some statements → ∀ level module names,
    .from_ level module names ∈ statements → level ≤ 1

theorem pythonLocate_eq (h : Plain parse tree) (directory : List String) (first : Part)
    (rest : List Part) :
    pythonLocate tree directory (first :: rest) =
      match tree.get? (directory ++ texts (first :: rest).dropLast ++
          [((first :: rest).getLast (List.cons_ne_nil _ _)).file]) with
      | some source => some (source, false)
      | none => (tree.get? (directory ++ texts (first :: rest) ++ [initFile])).map
          (fun source => (source, true)) := by
  induction rest generalizing directory first with
  | nil =>
    simp only [pythonLocate, texts, List.dropLast_singleton, List.map_nil, List.append_nil,
      List.getLast_singleton, List.map_cons, List.append_assoc, List.cons_append, List.nil_append]
    cases hmodule : tree.get? (directory ++ [first.file]) with
    | none => cases tree.get? (directory ++ [first.text, initFile]) <;> rfl
    | some source =>
      have hnone := h.separate directory first [initFile] (by simp) (by simp [hmodule])
      simp [hnone]
  | cons second rest ih =>
    have hbelow := ih (directory ++ [first.text]) second
    simp only [texts, List.append_assoc, List.cons_append, List.nil_append] at hbelow
    cases hpackage : tree.get? (directory ++ [first.text, initFile]) with
    | some package =>
      simp only [pythonLocate, hpackage, hbelow, texts, List.dropLast_cons_cons, List.map_cons,
        List.getLast_cons_cons, List.append_assoc, List.cons_append]
    | none =>
      cases hmodule : tree.get? (directory ++ [first.file]) with
      | none =>
        simp only [pythonLocate, hpackage, hmodule, hbelow, texts, List.dropLast_cons_cons,
          List.map_cons, List.getLast_cons_cons, List.append_assoc, List.cons_append]
      | some source =>
        have hnone (below : List String) (hne : below ≠ []) :
            tree.get? (directory ++ first.text :: below) = none :=
          h.separate directory first below hne (by simp [hmodule])
        simp [pythonLocate, hpackage, hmodule, texts, hnone]

theorem moduleSource_eq (h : Plain parse tree) (parts : List Part) :
    moduleSource tree parts = pythonSource tree parts := by
  cases parts with
  | nil => rfl
  | cons first rest =>
    have hlocate := pythonLocate_eq h [] first rest
    rw [List.nil_append, List.nil_append] at hlocate
    exact hlocate.symm

theorem statementNames_eq {statement : ImportStatement}
    (h : ∀ level module names, statement = .from_ level module names → level ≤ 1) :
    statementNames topLevel parts isPackage statement =
      pythonNames topLevel parts isPackage statement := by
  cases statement with
  | modules names => rfl
  | from_ level module names =>
    have hlevel := h level module names rfl
    cases level with
    | zero => cases module <;> rfl
    | succ ascend =>
      obtain rfl : ascend = 0 := by omega
      simp [statementNames, pythonNames]

/-- In such a tree every module is read as Python reads it. -/
theorem readAlike_of_plain (hplain : Plain parse tree) (hparses : Parses parse tree)
    (h : (pythonSource tree parts).isSome) : ReadAlike parse tree topLevel parts := by
  refine ⟨moduleSource_eq hplain parts, ?_⟩
  obtain ⟨⟨source, isPackage⟩, hpython⟩ := Option.isSome_iff_exists.mp h
  have hsource := (moduleSource_eq hplain parts).trans hpython
  obtain ⟨statements, hstatements⟩ :=
    Option.isSome_iff_exists.mp (hparses parts source isPackage hsource)
  have hnames : staticImports topLevel statements parts isPackage =
      statements.flatMap (pythonNames topLevel parts isPackage) := by
    refine List.flatMap_congr ?_
    intro statement hmem
    refine statementNames_eq ?_
    rintro level module names rfl
    exact hplain.level parts source isPackage hsource statements hstatements level module names hmem
  intro target
  rw [moduleSource_eq hplain target]
  simp only [codeTargets, pythonTargets, pythonImports, hsource, hpython, hstatements,
    Option.getD_some, hnames]

theorem Imported.isSome (h : Imported parse tree topLevel start parts) :
    (pythonSource tree parts).isSome := by
  cases h with
  | start hsome | ancestor _ _ hsome | named _ _ hsome => exact hsome

end Plain

/-! The digest -/

section Digest

variable {sha256 : Bytes → String} {files : List (List Part × Bytes)} {A : Type} {a : A}
  {files' : List (List Part × Bytes)}

/-- Lists that agree up to the first occurrence of a separator. -/
theorem split_first {l l' r r' : List A} (h : a ∉ l) (h' : a ∉ l')
    (heq : l ++ a :: r = l' ++ a :: r') : l = l' ∧ r = r' := by
  induction l generalizing l' with
  | nil =>
    cases l' with
    | nil => exact ⟨rfl, (List.cons.inj heq).2⟩
    | cons b l' =>
      rw [(List.cons.inj heq).1] at h'
      exact absurd List.mem_cons_self h'
  | cons b l ih =>
    cases l' with
    | nil =>
      rw [(List.cons.inj heq).1] at h
      exact absurd List.mem_cons_self h
    | cons b' l' =>
      obtain ⟨hhead, htail⟩ := List.cons.inj heq
      obtain ⟨hl, hr⟩ := ih (fun hmem => h (List.mem_cons_of_mem _ hmem))
        (fun hmem => h' (List.mem_cons_of_mem _ hmem)) htail
      exact ⟨by rw [hhead, hl], hr⟩

theorem toList_digestLine (entry : String × Bytes) :
    (digestLine sha256 entry).toList =
      entry.1.toList ++ Char.ofNat 0 :: ((sha256 entry.2).toList ++ ['\n']) := by
  simp [digestLine]

/-- The joined lines tell the names and the digests apart. -/
theorem join_digestLine_inj (hhex : ∀ source, '\n' ∉ (sha256 source).toList)
    {entries entries' : List (String × Bytes)}
    (hnames : ∀ entry ∈ entries, Char.ofNat 0 ∉ entry.1.toList)
    (hnames' : ∀ entry ∈ entries', Char.ofNat 0 ∉ entry.1.toList)
    (h : String.join (entries.map (digestLine sha256)) =
      String.join (entries'.map (digestLine sha256))) :
    entries.map (fun e => (e.1, sha256 e.2)) = entries'.map (fun e => (e.1, sha256 e.2)) := by
  have hlist := congrArg String.toList h
  rw [String.toList_join, String.toList_join] at hlist
  clear h
  induction entries generalizing entries' with
  | nil =>
    cases entries' with
    | nil => rfl
    | cons entry rest =>
      have hlength := congrArg List.length hlist
      simp [toList_digestLine] at hlength
  | cons entry rest ih =>
    cases entries' with
    | nil =>
      have hlength := congrArg List.length hlist
      simp [toList_digestLine] at hlength
    | cons entry' rest' =>
      simp only [List.map_cons, List.flatMap_cons, toList_digestLine, List.append_assoc,
        List.cons_append, List.nil_append] at hlist
      obtain ⟨hname, hrest⟩ := split_first (hnames entry List.mem_cons_self)
        (hnames' entry' List.mem_cons_self) hlist
      obtain ⟨hdigest, hrest⟩ := split_first (hhex entry.2) (hhex entry'.2) hrest
      have htail := ih (fun e he => hnames e (List.mem_cons_of_mem _ he))
        (fun e he => hnames' e (List.mem_cons_of_mem _ he)) hrest
      rw [List.map_cons, List.map_cons, htail, String.toList_inj.mp hname,
        String.toList_inj.mp hdigest]

theorem Part.not_dot (part : Part) : '.' ∉ part.text.toList := by
  intro hmem
  have hall := List.all_eq_true.mp part.plain _ hmem
  simp at hall

theorem Part.not_nul (part : Part) : Char.ofNat 0 ∉ part.text.toList := by
  intro hmem
  have hall := List.all_eq_true.mp part.plain _ hmem
  simp at hall

theorem toList_dotted (parts : List Part) :
    (dotted topLevel parts).toList =
      ['.'].intercalate ((topLevel :: parts).map (fun part => part.text.toList)) := by
  simp [dotted, texts, String.toList_intercalate, Function.comp_def]

theorem dotted_injective : Function.Injective (dotted topLevel) := by
  intro parts parts' h
  have hlist := congrArg String.toList h
  rw [toList_dotted, toList_dotted] at hlist
  have hplain (l : List Part) : ∀ chars ∈ l.map (fun part => part.text.toList), '.' ∉ chars := by
    intro chars hchars
    obtain ⟨part, -, rfl⟩ := List.mem_map.mp hchars
    exact part.not_dot
  have hsplit : (['.'].intercalate ((topLevel :: parts).map (fun part => part.text.toList))).splitOn
      '.' = (['.'].intercalate ((topLevel :: parts').map (fun part => part.text.toList))).splitOn
      '.' := by
    rw [hlist]
  rw [List.splitOn_intercalate _ (hplain _) (by simp),
    List.splitOn_intercalate _ (hplain _) (by simp)] at hsplit
  have htail := (List.cons.inj hsplit).2
  refine List.map_injective_iff.mpr ?_ htail
  intro part part' hpart
  have htext : part.text = part'.text := String.toList_inj.mp hpart
  cases part
  cases part'
  simp only at htext
  subst htext
  rfl

/-- What stands in joined lists stands in one of them or is the separator. -/
theorem mem_intercalate_singleton {b : A} {l : List (List A)} (h : a ∈ [b].intercalate l) :
    a = b ∨ ∃ chars ∈ l, a ∈ chars := by
  have hparts : ∀ l : List (List A), ∀ chars ∈ l.intersperse [b], chars = [b] ∨ chars ∈ l := by
    intro l
    fun_induction List.intersperse [b] l with
    | case1 => nofun
    | case2 first =>
      intro chars hchars
      exact .inr hchars
    | case3 first second rest ih =>
      intro chars hchars
      rcases List.mem_cons.mp hchars with rfl | hchars
      · exact .inr List.mem_cons_self
      rcases List.mem_cons.mp hchars with rfl | hchars
      · exact .inl rfl
      · exact (ih chars hchars).imp_right (List.mem_cons_of_mem _)
  obtain ⟨chars, hin, ha⟩ := List.mem_flatten.mp h
  rcases hparts l chars hin with rfl | hin
  · exact .inl (List.mem_singleton.mp ha)
  · exact .inr ⟨chars, hin, ha⟩

theorem not_nul_dotted (parts : List Part) : Char.ofNat 0 ∉ (dotted topLevel parts).toList := by
  rw [toList_dotted]
  intro hmem
  rcases mem_intercalate_singleton hmem with hdot | ⟨chars, hin, hnul⟩
  · exact absurd hdot (by decide)
  · obtain ⟨part, -, rfl⟩ := List.mem_map.mp hin
    exact part.not_nul hnul

/-- The bytes that the digest of a module is hashed from: files of the tree, and the names and
digests of the files in the closure. -/
def hashed (parse : Bytes → Option (List ImportStatement)) (tree : Tree) (topLevel : Part)
    (sha256 : Bytes → String) (start : List Part) : Set Bytes := fun bytes =>
  (∃ path, tree.get? path = some bytes) ∨
    ∃ files, closureFiles parse tree topLevel start = .ok files ∧
      bytes = (String.join ((sortedFiles topLevel files).map (digestLine sha256))).toByteArray

theorem mem_sortedFiles {entry : String × Bytes} :
    entry ∈ sortedFiles topLevel files ↔ ∃ parts, (parts, entry.2) ∈ files ∧
      dotted topLevel parts = entry.1 := by
  unfold sortedFiles
  rw [List.mem_mergeSort, List.mem_map]
  constructor
  · rintro ⟨file, hmem, rfl⟩
    exact ⟨file.1, hmem, rfl⟩
  · rintro ⟨parts, hmem, hname⟩
    exact ⟨(parts, entry.2), hmem, Prod.ext hname rfl⟩

theorem not_nul_sortedFiles :
    ∀ entry ∈ sortedFiles topLevel files, Char.ofNat 0 ∉ entry.1.toList := by
  intro entry hmem
  obtain ⟨parts, -, hname⟩ := mem_sortedFiles.mp hmem
  rw [← hname]
  exact not_nul_dotted parts

theorem files_subset
    (hcontents : ∀ file ∈ files, ∀ file' ∈ files', sha256 file.2 = sha256 file'.2 → file.2 =
      file'.2)
    (h : (sortedFiles topLevel files).map (fun e => (e.1, sha256 e.2)) = (sortedFiles topLevel
      files').map (fun e => (e.1, sha256 e.2))) : files ⊆ files' := by
  rintro ⟨parts, source⟩ hmem
  have hsorted : (dotted topLevel parts, source) ∈ sortedFiles topLevel files :=
    mem_sortedFiles.mpr ⟨parts, hmem, rfl⟩
  have hline := List.mem_map_of_mem (f := fun e : String × Bytes => (e.1, sha256 e.2)) hsorted
  rw [h] at hline
  obtain ⟨entry, hentry, heq⟩ := List.mem_map.mp hline
  obtain ⟨parts', hmem', hname⟩ := mem_sortedFiles.mp hentry
  obtain ⟨hnames, hdigests⟩ := Prod.mk.inj heq
  have hparts : parts' = parts := dotted_injective (hname.trans hnames)
  have hsource := hcontents _ hmem _ hmem' hdigests.symm
  rw [hparts] at hmem'
  have hgoal : (parts, source) = (parts, entry.2) := Prod.ext rfl hsource
  rw [hgoal]
  exact hmem'

theorem get?_of_pythonLocate {directory : List String}
    (h : pythonLocate tree directory parts = some (source, isPackage)) :
    ∃ path, tree.get? path = some source := by
  fun_induction pythonLocate tree directory parts with
  | case1 => cases h
  | case2 directory leaf found hfound =>
    cases h
    exact ⟨_, hfound⟩
  | case3 directory leaf hnone =>
    obtain ⟨found, hfound, heq⟩ := Option.map_eq_some_iff.mp h
    cases heq
    exact ⟨_, hfound⟩
  | case4 => cases h
  | case5 directory part rest hrest hblocked ih => exact ih h

theorem get?_of_python (h : ∃ isPackage, pythonSource tree parts = some (source, isPackage)) :
    ∃ path, tree.get? path = some source := by
  obtain ⟨isPackage, hsource⟩ := h
  cases parts with
  | nil =>
    obtain ⟨found, hfound, heq⟩ := Option.map_eq_some_iff.mp hsource
    cases heq
    exact ⟨_, hfound⟩
  | cons first rest => exact get?_of_pythonLocate hsource

theorem files_of_digest_eq {tree' : Tree} (hhex : ∀ source, '\n' ∉ (sha256 source).toList)
    (hfree : Set.InjOn sha256 (hashed parse tree topLevel sha256 start ∪ hashed parse tree' topLevel
      sha256 start)) (hfiles : closureFiles parse tree topLevel start = .ok files)
    (hfiles' : closureFiles parse tree' topLevel start = .ok files')
    (hcontents : ∀ file ∈ files, ∃ path, tree.get? path = some file.2)
    (hcontents' : ∀ file ∈ files', ∃ path, tree'.get? path = some file.2)
    (h : importClosureDigest parse tree topLevel sha256 start = importClosureDigest parse tree'
      topLevel sha256 start) : files ⊆ files' ∧ files' ⊆ files := by
  simp only [importClosureDigest, hfiles, hfiles', Except.map, Except.ok.injEq] at h
  have hinput := hfree (.inl (.inr ⟨files, hfiles, rfl⟩)) (.inr (.inr ⟨files', hfiles', rfl⟩)) h
  have hlines := join_digestLine_inj hhex not_nul_sortedFiles not_nul_sortedFiles
    (String.toByteArray_inj.mp hinput)
  constructor
  · refine files_subset ?_ hlines
    intro file hmem file' hmem' heq
    exact hfree (.inl (.inl (hcontents file hmem))) (.inr (.inl (hcontents' file' hmem'))) heq
  · refine files_subset ?_ hlines.symm
    intro file' hmem' file hmem heq
    exact hfree (.inr (.inl (hcontents' file' hmem'))) (.inl (.inl (hcontents file hmem))) heq

end Digest

/-- Where every module of the least set is read as Python reads it, the closure is the least
set, and two such trees with one digest have the same files in it. -/
theorem importClosure_exact {start : List Part} (hparses : Parses parse tree)
    (hstart : (pythonSource tree start).isSome)
    (halike : ∀ parts, Imported parse tree topLevel start parts →
      ReadAlike parse tree topLevel parts) :
    (∃ closure, importClosure parse tree topLevel start = .ok closure ∧
      ∀ parts, parts ∈ closure ↔ Imported parse tree topLevel start parts) ∧
    ∀ (sha256 : Bytes → String) (tree' : Tree), (∀ source, '\n' ∉ (sha256 source).toList) →
      Parses parse tree' → (pythonSource tree' start).isSome →
      (∀ parts, Imported parse tree' topLevel start parts → ReadAlike parse tree' topLevel parts) →
      Set.InjOn sha256 (hashed parse tree topLevel sha256 start ∪
        hashed parse tree' topLevel sha256 start) →
      importClosureDigest parse tree topLevel sha256 start =
        importClosureDigest parse tree' topLevel sha256 start →
      ∀ parts, (Imported parse tree topLevel start parts ↔
          Imported parse tree' topLevel start parts) ∧
        (Imported parse tree topLevel start parts →
          (pythonSource tree parts).map Prod.fst = (pythonSource tree' parts).map Prod.fst) := by
  obtain ⟨files, hfiles, hkeys, hsources, -⟩ := closureFiles_ok hparses hstart halike
  refine ⟨⟨files.map Prod.fst, by simp only [importClosure, hfiles, Except.map], hkeys⟩, ?_⟩
  intro sha256 tree' hhex hparses' hstart' halike' hfree hdigest parts
  obtain ⟨files', hfiles', hkeys', hsources', -⟩ := closureFiles_ok hparses' hstart' halike'
  obtain ⟨hsub, hsub'⟩ := files_of_digest_eq hhex hfree hfiles hfiles'
    (fun file hmem => get?_of_python (hsources file.1 file.2 hmem))
    (fun file hmem => get?_of_python (hsources' file.1 file.2 hmem)) hdigest
  constructor
  · rw [← hkeys, ← hkeys']
    exact ⟨fun h => List.map_subset _ hsub h, fun h => List.map_subset _ hsub' h⟩
  · intro himported
    obtain ⟨⟨_, source⟩, hmem, rfl⟩ := List.mem_map.mp ((hkeys parts).mpr himported)
    obtain ⟨_, hpython⟩ := hsources _ source hmem
    obtain ⟨_, hpython'⟩ := hsources' _ source (hsub hmem)
    rw [hpython, hpython']
    rfl

section Example

def famPart : Part := ⟨"fam", rfl⟩

def aPart : Part := ⟨"a", rfl⟩

def bPart : Part := ⟨"b", rfl⟩

def cPart : Part := ⟨"c", rfl⟩

def xPart : Part := ⟨"x", rfl⟩

def yPart : Part := ⟨"y", rfl⟩

/-- Two modules that import each other, and one they do not import. -/
def cycleTree (importing : Bool) : Tree :=
  [([initFile], "".toByteArray), ([aPart.file], "from .b import x\n".toByteArray),
    ([bPart.file], "from . import a\n".toByteArray),
    ([cPart.file], (if importing then "from . import a\n" else "").toByteArray)]

variable (importing : Bool)

def parseCycle (source : Bytes) : Option (List ImportStatement) :=
  if source = "".toByteArray then some []
  else if source = "from .b import x\n".toByteArray then some [.from_ 1 (some [bPart]) [xPart]]
  else if source = "from . import a\n".toByteArray then some [.from_ 1 none [aPart]]
  else none

/-- A module two packages down that imports its grandparent's module. -/
def ascendingTree : Tree :=
  [([initFile], "".toByteArray), ([bPart.text, initFile], "".toByteArray),
    ([bPart.text, cPart.file], "from ..x import y\n".toByteArray), ([xPart.file], "".toByteArray)]

def parseAscending (source : Bytes) : Option (List ImportStatement) :=
  if source = "".toByteArray then some []
  else if source = "from ..x import y\n".toByteArray then some [.from_ 2 (some [xPart]) [yPart]]
  else none

theorem mem_values_of_moduleSource (h : moduleSource tree parts = some (source, isPackage)) :
    source ∈ tree.values := by
  cases parts with
  | nil =>
    obtain ⟨found, hfound, heq⟩ := Option.map_eq_some_iff.mp h
    cases heq
    exact Dict.mem_values_of_get? hfound
  | cons first rest =>
    simp only [moduleSource] at h
    split at h
    · rename_i found hfound
      cases h
      exact Dict.mem_values_of_get? hfound
    · obtain ⟨found, hfound, heq⟩ := Option.map_eq_some_iff.mp h
      cases heq
      exact Dict.mem_values_of_get? hfound

theorem cycleTree_plain : Plain parseCycle (cycleTree importing) := by
  have hlength : ∀ path ∈ (cycleTree importing).keys, path.length = 1 := by
    cases importing <;> decide
  constructor
  · intro directory part below hbelow hfile
    obtain ⟨source, hsource⟩ := Option.isSome_iff_exists.mp hfile
    have hone := hlength _ (Dict.mem_keys_of_get? hsource)
    refine Dict.get?_eq_none ?_
    intro hmem
    have hlong := hlength _ hmem
    have hpos := List.length_pos_iff.mpr hbelow
    simp only [List.length_append, List.length_cons, List.length_nil] at hone hlong
    omega
  · intro parts source isPackage _ statements hstatements level module names hmem
    unfold parseCycle at hstatements
    split at hstatements
    · cases hstatements
      cases hmem
    split at hstatements
    · cases hstatements
      cases List.mem_singleton.mp hmem
      exact Nat.le_refl 1
    split at hstatements
    · cases hstatements
      cases List.mem_singleton.mp hmem
      exact Nat.le_refl 1
    · cases hstatements

theorem cycleTree_parses : Parses parseCycle (cycleTree importing) := by
  have hvalues : ∀ source ∈ (cycleTree importing).values, (parseCycle source).isSome := by
    cases importing <;> decide
  intro parts source isPackage hsource
  exact hvalues source (mem_values_of_moduleSource hsource)

/-- The bytes of a text, each as one character. -/
def letters (source : Bytes) : String :=
  String.ofList (source.data.toList.map (fun byte => Char.ofNat (byte.toNat + 64)))

theorem toNat_letter (byte : UInt8) : (Char.ofNat (byte.toNat + 64)).toNat = byte.toNat + 64 := by
  have hbyte := byte.toNat_lt
  have hvalid : (byte.toNat + 64).isValidChar := .inl (by omega)
  unfold Char.ofNat
  rw [dif_pos hvalid]
  rfl

theorem letters_injective : Function.Injective letters := by
  intro source source' h
  have hletter : Function.Injective (fun byte : UInt8 => Char.ofNat (byte.toNat + 64)) := by
    intro byte byte' hbyte
    have hcode := congrArg Char.toNat hbyte
    simp only [toNat_letter] at hcode
    exact UInt8.toNat_inj.mp (by omega)
  have hbytes := List.map_injective_iff.mpr hletter (String.ofList_inj.mp h)
  exact ByteArray.ext (Array.toList_inj.mp hbytes)

theorem not_newline_letters (source : Bytes) : '\n' ∉ (letters source).toList := by
  unfold letters
  rw [String.toList_ofList, List.mem_map]
  rintro ⟨byte, -, hbyte⟩
  have hcode := congrArg Char.toNat hbyte
  rw [toNat_letter] at hcode
  have hnewline : '\n'.toNat = 10 := rfl
  omega

/-- The names that the modules lead to. -/
def cycleNames : List (List Part) := [[aPart], [bPart], [bPart, xPart], []]

theorem closureFiles_cycleTree : closureFiles parseCycle (cycleTree importing) famPart [aPart] =
    closureFiles parseCycle (cycleTree true) famPart [aPart] := by
  have hsame : ∀ parts ∈ cycleNames, expand parseCycle (cycleTree importing) famPart parts =
      expand parseCycle (cycleTree true) famPart parts := by
    simp only [cycleNames, List.forall_mem_cons]
    exact ⟨rfl, rfl, rfl, rfl, nofun⟩
  have hnext : ∀ parts ∈ cycleNames, ∀ source next,
      expand parseCycle (cycleTree true) famPart parts = .ok (some (source, next)) →
        next ⊆ cycleNames := by
    simp only [cycleNames, List.forall_mem_cons]
    refine ⟨?_, ?_, ?_, ?_, nofun⟩
    all_goals rintro source next ⟨⟩ <;> decide
  exact Worklist.search_congr expand_names hsame hnext (by decide)

/-- The trees differ, and not in the closure. -/
theorem cycleTree_closure : cycleTree true ≠ cycleTree false ∧
    (∃ closure, importClosure parseCycle (cycleTree true) famPart [aPart] = .ok closure ∧
      ∀ parts, parts ∈ closure ↔ Imported parseCycle (cycleTree true) famPart [aPart] parts) ∧
    ∀ parts, Imported parseCycle (cycleTree true) famPart [aPart] parts →
      (pythonSource (cycleTree true) parts).map Prod.fst =
        (pythonSource (cycleTree false) parts).map Prod.fst := by
  have halike : ∀ importing parts,
      Imported parseCycle (cycleTree importing) famPart [aPart] parts →
      ReadAlike parseCycle (cycleTree importing) famPart parts := by
    intro importing parts h
    exact readAlike_of_plain (cycleTree_plain importing) (cycleTree_parses importing) h.isSome
  have hexact := importClosure_exact (cycleTree_parses true) (by decide) (halike true)
  have hdigest : importClosureDigest parseCycle (cycleTree true) famPart letters [aPart] =
      importClosureDigest parseCycle (cycleTree false) famPart letters [aPart] := by
    rw [importClosureDigest, importClosureDigest, closureFiles_cycleTree false]
  refine ⟨by decide, hexact.1, ?_⟩
  intro parts
  exact (hexact.2 letters (cycleTree false) not_newline_letters (cycleTree_parses false)
    (by decide) (halike false) letters_injective.injOn hdigest parts).2

theorem ascendingTree_parses : Parses parseAscending ascendingTree := by
  have hvalues : ∀ source ∈ ascendingTree.values, (parseAscending source).isSome := by
    decide
  intro parts source isPackage hsource
  exact hvalues source (mem_values_of_moduleSource hsource)

theorem reached_ascending
    (h : Reached (expand parseAscending ascendingTree famPart) [bPart, cPart] parts) :
    parts ∈ [[], [bPart], [bPart, cPart]] := by
  have hclosed : ∀ a ∈ [[], [bPart], [bPart, cPart]],
      ∀ b ∈ codeTargets parseAscending ascendingTree famPart a,
      (moduleSource ascendingTree b).isSome → b ∈ [[], [bPart], [bPart, cPart]] := by
    decide
  induction h with
  | start _ => decide
  | next _ hexpand hmem hfound ih =>
    obtain ⟨-, rfl⟩ := (expand_some_iff ascendingTree_parses).mp hexpand
    exact hclosed _ ih _ (List.mem_reverse.mp hmem) (isSome_of_expand hfound)

/-- Not every closure is the least set: the module that the import names is left out. -/
theorem ascending_left_out :
    ¬ ∀ (parse : Bytes → Option (List ImportStatement)) (tree : Tree) (topLevel : Part)
      (start : List Part), Parses parse tree → (pythonSource tree start).isSome →
      ∃ closure, importClosure parse tree topLevel start = .ok closure ∧
        ∀ parts, parts ∈ closure ↔ Imported parse tree topLevel start parts := by
  intro h
  obtain ⟨closure, hclosure, hexact⟩ := h parseAscending ascendingTree famPart [bPart, cPart]
    ascendingTree_parses (by decide)
  obtain ⟨files, hfiles, rfl⟩ : ∃ files, closureFiles parseAscending ascendingTree famPart
      [bPart, cPart] = .ok files ∧ files.map Prod.fst = closure := by
    cases hfiles : closureFiles parseAscending ascendingTree famPart [bPart, cPart] with
    | error e =>
      rw [importClosure, hfiles] at hclosure
      cases hclosure
    | ok files =>
      rw [importClosure, hfiles] at hclosure
      cases hclosure
      exact ⟨files, rfl, rfl⟩
  have himported : Imported parseAscending ascendingTree famPart [bPart, cPart] [xPart] :=
    .named (.start (by decide)) (by decide +kernel) (by decide +kernel)
  have hmem := (hexact [xPart]).mpr himported
  have hsearch : search (expand parseAscending ascendingTree famPart) expand_names [] []
      [[bPart, cPart]] = .ok files := hfiles
  have hreached := ((mem_search expand_names (searched_start _) hsearch).1 [xPart]).mp hmem
  exact absurd (reached_ascending hreached) (by decide)

end Example

end Grafy.ImplementationIdentity
