import Grafy.Alignment
import Grafy.OrderedDict
import Grafy.Traversal
import Mathlib.Data.Finset.Sort
import Mathlib.Data.String.Basic

/-!
The locked third-party versions of a family. The walk starts at the project's
own dependencies and follows the lock; packages of the workspace are neither
included nor walked through. A dependency entry names a package and may pin its
version; each pair of a name and a pin is looked up once. A pin that the lock
lists no package for stands for itself.
-/
namespace Grafy.LockedDependencies

open OrderedDict Worklist Relation

/-- A value of a TOML document, as far as it is looked at. -/
inductive Toml
  | text (value : String)
  | list (items : List Toml)
  | table (members : List (String × Toml))
  | other

/-- A table: the lock document, a package or a dependency entry. -/
abbrev Entry := Dict String Toml

inductive LockError
  | unknownProject (name : String)

def asMapping : Toml → Option Entry
  | .table members => some members
  | _ => none

/-- `_entries`: the tables of an array. -/
def entries (document : Entry) (key : String) : List Entry :=
  match document.get? key with
  | some (.list items) => items.filterMap asMapping
  | _ => []

def isWorkspaceMember (entry : Entry) : Bool :=
  match entry.get? "source" with
  | some (.table source) =>
    (Dict.get? source "editable").isSome || (Dict.get? source "virtual").isSome
  | _ => false

def textOf : Option Toml → Option String
  | some (.text value) => some value
  | _ => none

def dependencyName (entry : Entry) : Option String := textOf (entry.get? "name")

def dependencyVersion (entry : Entry) : Option String := textOf (entry.get? "version")

def dependencies (entry : Entry) : List Entry := entries entry "dependencies"

/-- `by_name`, with one more package. -/
def addPackage (byName : Dict String (List Entry)) (entry : Entry) : Dict String (List Entry) :=
  match dependencyName entry with
  | none => byName
  | some name => byName.set name ((byName.get? name).getD [] ++ [entry])

def packagesByName (document : Entry) : Dict String (List Entry) :=
  (entries document "package").foldl addPackage []

/-- What the walk visits: a name, and the version pinned if any. -/
abbrev Key := String × Option String

def keyOf (dependency : Entry) : Option Key :=
  (dependencyName dependency).map (·, dependencyVersion dependency)

def spelled (name version : String) : String := name ++ "==" ++ version

variable {key : Key} {entry : Entry}

section Walk

variable (byName : Dict String (List Entry))

/-- The packages a visit goes on with. -/
def matching (key : Key) : List Entry :=
  ((byName.get? key.1).getD []).filter (fun entry =>
    (key.2 = none ∨ dependencyVersion entry = key.2) ∧ isWorkspaceMember entry = false)

/-- The strings a visit adds: those of the packages matched, or the pin itself
when nothing is matched. -/
def added (key : Key) : List String :=
  (matching byName key).filterMap (fun entry =>
      (dependencyVersion entry).map (spelled key.1)) ++
    match key.2 with
    | some version => if matching byName key = [] then [spelled key.1 version] else []
    | none => []

/-- The stack after a visit, its end in front. -/
def pushed (key : Key) : List Entry := ((matching byName key).flatMap dependencies).reverse

/-- The visits that can lead on. -/
def leading : List Key :=
  byName.flatMap (fun named =>
    named.2.flatMap (fun entry => [(named.1, none), (named.1, dependencyVersion entry)]))

variable {byName}

theorem mem_leading (h : entry ∈ matching byName key) : key ∈ leading byName := by
  obtain ⟨hentry, hmatch⟩ := List.mem_filter.mp h
  obtain ⟨hpin, -⟩ := of_decide_eq_true hmatch
  cases hfound : byName.get? key.1 with
  | none =>
    rw [hfound] at hentry
    cases hentry
  | some found =>
    rw [hfound] at hentry
    refine List.mem_flatMap.mpr ⟨_, Dict.mem_of_get? hfound, List.mem_flatMap.mpr ⟨_, hentry, ?_⟩⟩
    obtain ⟨name, pin⟩ := key
    rcases hpin with rfl | hpin
    · exact List.mem_cons_self
    · rw [hpin]
      exact List.mem_cons_of_mem _ (List.mem_singleton_self _)

theorem mem_leading_of_pushed (h : pushed byName key ≠ []) : key ∈ leading byName := by
  obtain ⟨dependency, hmem⟩ := List.exists_mem_of_ne_nil _ h
  obtain ⟨entry, hentry, -⟩ := List.mem_flatMap.mp (List.mem_reverse.mp hmem)
  exact mem_leading hentry

variable (byName)

/-- The loop of the walk: the visits made, the strings found and the stack. -/
def walk (visited : List Key) (result : Finset String) : List Entry → Finset String
  | [] => result
  | dependency :: stack =>
    match keyOf dependency with
    | none => walk visited result stack
    | some key =>
      if _hvisited : key ∈ visited then walk visited result stack
      else
        walk (key :: visited) (result ∪ (added byName key).toFinset) (pushed byName key ++ stack)
termination_by stack => (unseen (leading byName) visited, stack.length)
decreasing_by
  · exact Prod.Lex.right _ (Nat.lt_succ_self _)
  · exact Prod.Lex.right _ (Nat.lt_succ_self _)
  · by_cases hpushed : pushed byName key = []
    · rw [hpushed, List.nil_append]
      rcases Nat.lt_or_ge (unseen (leading byName) (key :: visited))
        (unseen (leading byName) visited) with h | h
      · exact Prod.Lex.left _ _ h
      · rw [Nat.le_antisymm (unseen_cons_le _ visited key) h]
        exact Prod.Lex.right _ (Nat.lt_succ_self _)
    · exact Prod.Lex.left _ _ (unseen_cons_lt (mem_leading_of_pushed hpushed) _hvisited)

end Walk

/-- `locked_dependency_versions`, of a parsed lock. -/
def lockedDependencyVersions (document : Entry) (projectName : String) :
    Except LockError (List String) :=
  match (packagesByName document).get? projectName with
  | none => .error (.unknownProject projectName)
  | some projects =>
    .ok ((walk (packagesByName document) [] ∅ (projects.flatMap dependencies).reverse).sort
      (· ≤ ·))

/-! What the walk follows, in terms of the lock -/

section Lock

variable (document : Entry) (project : String)

/-- The dependency entry names the package, in the version pinned if there is one. -/
def Names (dependency package : Entry) : Prop :=
  package ∈ entries document "package" ∧
    ∃ name, dependencyName dependency = some name ∧ dependencyName package = some name ∧
      ∀ version, dependencyVersion dependency = some version →
        dependencyVersion package = some version

/-- The dependency entries followed: those of the project, and those of every package
outside the workspace that an entry followed names. -/
inductive Followed : Entry → Prop
  | own {package dependency : Entry} : package ∈ entries document "package" →
      dependencyName package = some project → dependency ∈ dependencies package →
      Followed dependency
  | next {dependency package further : Entry} : Followed dependency →
      Names document dependency package → isWorkspaceMember package = false →
      further ∈ dependencies package → Followed further

/-- The entry's name and version, as a string of the result. -/
def Spells (entry : Entry) (s : String) : Prop :=
  ∃ name version, dependencyName entry = some name ∧ dependencyVersion entry = some version ∧
    s = spelled name version

/-- A package outside the workspace that an entry followed names. -/
def Locked (s : String) : Prop :=
  ∃ dependency package, Followed document project dependency ∧
    Names document dependency package ∧ isWorkspaceMember package = false ∧ Spells package s

/-- A pin followed that no package outside the workspace meets. -/
def Unmatched (s : String) : Prop :=
  ∃ dependency, Followed document project dependency ∧ Spells dependency s ∧
    ∀ package, Names document dependency package → isWorkspaceMember package = true

/-- A pin followed that the lock lists no package for. -/
def Unlisted (s : String) : Prop :=
  ∃ dependency, Followed document project dependency ∧ Spells dependency s ∧
    ∀ package, ¬ Names document dependency package

/-- A pin followed that only workspace members meet. -/
def PinsMember (s : String) : Prop :=
  ∃ dependency, Followed document project dependency ∧ Spells dependency s ∧
    (∃ package, Names document dependency package) ∧
      ∀ package, Names document dependency package → isWorkspaceMember package = true

end Lock

variable {dependency : Entry} {s : String} {projects : List Entry}

section Exact

variable {document : Entry} {project : String} {package : Entry} {key : Key}

theorem get?_addPackage (byName : Dict String (List Entry)) (entry : Entry) (name : String) :
    ((addPackage byName entry).get? name).getD [] =
      (byName.get? name).getD [] ++ if dependencyName entry = some name then [entry] else [] := by
  unfold addPackage
  cases hname : dependencyName entry with
  | none => simp
  | some other =>
    by_cases hother : other = name
    · subst hother
      simp [Dict.get?_set_self]
    · simp [Dict.get?_set_ne _ _ (Ne.symm hother), hother]

theorem get?_foldl_addPackage (packages : List Entry) (byName : Dict String (List Entry))
    (name : String) :
    ((packages.foldl addPackage byName).get? name).getD [] =
      (byName.get? name).getD [] ++ packages.filter (fun p => dependencyName p = some name) := by
  induction packages generalizing byName with
  | nil => simp
  | cons entry rest ih =>
    rw [List.foldl_cons, ih, get?_addPackage, List.filter_cons, List.append_assoc]
    by_cases hname : dependencyName entry = some name
    · simp [hname]
    · simp [hname]

theorem mem_packagesByName {name : String} :
    package ∈ ((packagesByName document).get? name).getD [] ↔
      package ∈ entries document "package" ∧ dependencyName package = some name := by
  rw [packagesByName, get?_foldl_addPackage, Dict.get?_nil, Option.getD_none, List.nil_append,
    List.mem_filter, decide_eq_true_eq]

theorem mem_matching (hkey : keyOf dependency = some key) :
    package ∈ matching (packagesByName document) key ↔
      Names document dependency package ∧ isWorkspaceMember package = false := by
  obtain ⟨name, hname, rfl⟩ := Option.map_eq_some_iff.mp hkey
  rw [matching, List.mem_filter, mem_packagesByName, decide_eq_true_eq]
  constructor
  · rintro ⟨⟨hpackage, hsame⟩, hpin, houtside⟩
    refine ⟨⟨hpackage, name, hname, hsame, fun version hversion => ?_⟩, houtside⟩
    rcases hpin with hnone | hpin
    · rw [hversion] at hnone
      cases hnone
    · rw [hpin, hversion]
  · rintro ⟨⟨hpackage, other, hother, hsame, hpin⟩, houtside⟩
    obtain rfl : name = other := Option.some.inj (hname.symm.trans hother)
    refine ⟨⟨hpackage, hsame⟩, ?_, houtside⟩
    cases hversion : dependencyVersion dependency with
    | none => exact Or.inl rfl
    | some version => exact Or.inr (hpin version hversion)

/-- What a visit adds: the packages named outside the workspace, or the pin. -/
theorem mem_added (hkey : keyOf dependency = some key) :
    s ∈ added (packagesByName document) key ↔
      (∃ package, Names document dependency package ∧ isWorkspaceMember package = false ∧
        Spells package s) ∨
      (Spells dependency s ∧
        ∀ package, Names document dependency package → isWorkspaceMember package = true) := by
  obtain ⟨name, hname, rfl⟩ := Option.map_eq_some_iff.mp hkey
  rw [added, List.mem_append]
  refine or_congr ?_ ?_
  · rw [List.mem_filterMap]
    constructor
    · rintro ⟨package, hmem, hs⟩
      obtain ⟨version, hversion, rfl⟩ := Option.map_eq_some_iff.mp hs
      obtain ⟨hnames, houtside⟩ := (mem_matching hkey).mp hmem
      have hnamed := hnames
      obtain ⟨_, other, hother, hsame, _⟩ := hnamed
      obtain rfl : name = other := Option.some.inj (hname.symm.trans hother)
      exact ⟨package, hnames, houtside, name, version, hsame, hversion, rfl⟩
    · rintro ⟨package, hnames, houtside, other, version, hsame, hversion, rfl⟩
      refine ⟨package, (mem_matching hkey).mpr ⟨hnames, houtside⟩, ?_⟩
      obtain ⟨_, third, hthird, hthird', _⟩ := hnames
      obtain rfl : name = third := Option.some.inj (hname.symm.trans hthird)
      obtain rfl : other = name := Option.some.inj (hsame.symm.trans hthird')
      rw [hversion, Option.map_some]
  · have hempty : matching (packagesByName document) (name, dependencyVersion dependency) = [] ↔
        ∀ package, Names document dependency package → isWorkspaceMember package = true := by
      rw [List.eq_nil_iff_forall_not_mem]
      refine forall_congr' fun package => ?_
      rw [mem_matching hkey, not_and, Bool.not_eq_false]
    cases hversion : dependencyVersion dependency with
    | none =>
      refine iff_of_false List.not_mem_nil ?_
      rintro ⟨⟨_, version, _, hsome, _⟩, _⟩
      rw [hversion] at hsome
      cases hsome
    | some version =>
      rw [hversion] at hempty
      constructor
      · intro hs
        split_ifs at hs with hnone
        · exact ⟨⟨name, version, hname, hversion, List.mem_singleton.mp hs⟩, hempty.mp hnone⟩
        · cases hs
      · rintro ⟨⟨other, pin, hother, hpin, rfl⟩, hnone⟩
        obtain rfl : name = other := Option.some.inj (hname.symm.trans hother)
        obtain rfl : version = pin := Option.some.inj (hversion.symm.trans hpin)
        have hpinned : spelled name version ∈
            if matching (packagesByName document) (name, some version) = [] then
              [spelled name version] else [] := by
          rw [if_pos (hempty.mpr hnone)]
          exact List.mem_singleton_self _
        exact hpinned

/-- The visits a visit leads to. -/
def nextKeys (byName : Dict String (List Entry)) (key : Key) : List Key :=
  (pushed byName key).filterMap keyOf

theorem mem_leading_of_nextKeys (byName : Dict String (List Entry)) (key : Key)
    (h : nextKeys byName key ≠ []) : key ∈ leading byName := by
  refine mem_leading_of_pushed fun hpushed => h ?_
  rw [nextKeys, hpushed, List.filterMap_nil]

/-- The visits of the walk, as a worklist of keys. -/
abbrev visitsOf (byName : Dict String (List Entry)) : List Key → List Key → List Key :=
  Traversal.visits (mem_leading_of_nextKeys byName) (fun new rest => List.Perm.refl (new ++ rest))

/-- The walk adds to the strings found what each of its visits adds. -/
theorem mem_walk (byName : Dict String (List Entry)) (visited : List Key)
    (result : Finset String) (stack : List Entry) (s : String) :
    s ∈ walk byName visited result stack ↔
      s ∈ result ∨ ∃ key ∈ visitsOf byName visited (stack.filterMap keyOf),
        key ∉ visited ∧ s ∈ added byName key := by
  fun_induction walk byName visited result stack with
  | case1 visited result =>
    refine ⟨Or.inl, ?_⟩
    rintro (hs | ⟨key, hkey, hnew, _⟩)
    · exact hs
    · rw [visitsOf, List.filterMap_nil, Traversal.visits] at hkey
      exact absurd hkey hnew
  | case2 visited result dependency stack hnone ih =>
    rw [ih, List.filterMap_cons_none hnone]
  | case3 visited result dependency stack key hkey hvisited ih =>
    rw [ih, List.filterMap_cons_some hkey, visitsOf, Traversal.visits_seen _ _ hvisited]
  | case4 visited result dependency stack key hkey hnew ih =>
    have hvisits : visitsOf byName visited ((dependency :: stack).filterMap keyOf) =
        visitsOf byName (key :: visited) ((pushed byName key ++ stack).filterMap keyOf) := by
      rw [List.filterMap_cons_some hkey, visitsOf, Traversal.visits_new _ _ hnew,
        List.filterMap_append]
      rfl
    rw [ih, hvisits, Finset.mem_union, List.mem_toFinset, or_assoc]
    refine or_congr_right ?_
    constructor
    · rintro (hs | ⟨other, hother, hfresh, hs⟩)
      · exact ⟨key, Traversal.seen_subset_visits _ _ _ _ List.mem_cons_self, hnew, hs⟩
      · exact ⟨other, hother, fun hold => hfresh (List.mem_cons_of_mem _ hold), hs⟩
    · rintro ⟨other, hother, hfresh, hs⟩
      by_cases hsame : other = key
      · exact Or.inl (hsame ▸ hs)
      · exact Or.inr ⟨other, hother, fun hold => (List.mem_cons.mp hold).elim hsame hfresh, hs⟩

theorem mem_nextKeys {other : Key} (hkey : keyOf dependency = some key) :
    other ∈ nextKeys (packagesByName document) key ↔
      ∃ package further, Names document dependency package ∧ isWorkspaceMember package = false ∧
        further ∈ dependencies package ∧ keyOf further = some other := by
  rw [nextKeys, List.mem_filterMap]
  constructor
  · rintro ⟨further, hfurther, hother⟩
    obtain ⟨package, hpackage, hmem⟩ := List.mem_flatMap.mp (List.mem_reverse.mp hfurther)
    obtain ⟨hnames, houtside⟩ := (mem_matching hkey).mp hpackage
    exact ⟨package, further, hnames, houtside, hmem, hother⟩
  · rintro ⟨package, further, hnames, houtside, hmem, hother⟩
    refine ⟨further, List.mem_reverse.mpr (List.mem_flatMap.mpr ⟨package, ?_, hmem⟩), hother⟩
    exact (mem_matching hkey).mpr ⟨hnames, houtside⟩

theorem Names.keyOf (h : Names document dependency package) :
    ∃ key, LockedDependencies.keyOf dependency = some key := by
  obtain ⟨_, name, hname, _, _⟩ := h
  exact ⟨(name, dependencyVersion dependency), by rw [LockedDependencies.keyOf, hname]; rfl⟩

/-- The walk visits the keys of the dependency entries followed. -/
theorem mem_visitsOf (hprojects : (packagesByName document).get? project = some projects) :
    key ∈ visitsOf (packagesByName document) []
        ((projects.flatMap dependencies).reverse.filterMap keyOf) ↔
      ∃ dependency, Followed document project dependency ∧ keyOf dependency = some key := by
  have hown : ∀ package, package ∈ projects ↔
      package ∈ entries document "package" ∧ dependencyName package = some project := by
    intro package
    rw [← mem_packagesByName, hprojects, Option.getD_some]
  rw [visitsOf, Traversal.mem_visits]
  constructor
  · rintro ⟨start, hstart, hreach⟩
    induction hreach with
    | refl =>
      obtain ⟨dependency, hmem, hkey⟩ := List.mem_filterMap.mp hstart
      obtain ⟨package, hpackage, hdependency⟩ := List.mem_flatMap.mp (List.mem_reverse.mp hmem)
      obtain ⟨hlisted, hname⟩ := (hown package).mp hpackage
      exact ⟨dependency, .own hlisted hname hdependency, hkey⟩
    | tail _ hstep ih =>
      obtain ⟨dependency, hfollowed, hkey⟩ := ih
      obtain ⟨package, further, hnames, houtside, hmem, hother⟩ := (mem_nextKeys hkey).mp hstep
      exact ⟨further, .next hfollowed hnames houtside hmem, hother⟩
  · rintro ⟨dependency, hfollowed, hkey⟩
    induction hfollowed generalizing key with
    | @own package dependency hlisted hname hdependency =>
      refine ⟨key, List.mem_filterMap.mpr ⟨dependency, ?_, hkey⟩, .refl⟩
      refine List.mem_reverse.mpr (List.mem_flatMap.mpr ⟨package, ?_, hdependency⟩)
      exact (hown package).mpr ⟨hlisted, hname⟩
    | @next dependency package further _ hnames houtside hmem ih =>
      obtain ⟨before, hbefore⟩ := hnames.keyOf
      obtain ⟨start, hstart, hreach⟩ := ih hbefore
      exact ⟨start, hstart, hreach.tail
        ((mem_nextKeys hbefore).mpr ⟨package, further, hnames, houtside, hmem, hkey⟩)⟩

theorem unmatched_iff :
    Unmatched document project s ↔ Unlisted document project s ∨ PinsMember document project s := by
  constructor
  · rintro ⟨dependency, hfollowed, hspells, hmembers⟩
    by_cases hnames : ∃ package, Names document dependency package
    · exact Or.inr ⟨dependency, hfollowed, hspells, hnames, hmembers⟩
    · exact Or.inl ⟨dependency, hfollowed, hspells, not_exists.mp hnames⟩
  · rintro (⟨dependency, hfollowed, hspells, hnone⟩ | ⟨dependency, hfollowed, hspells, _, hall⟩)
    · exact ⟨dependency, hfollowed, hspells, fun package hnames => absurd hnames (hnone package)⟩
    · exact ⟨dependency, hfollowed, hspells, hall⟩

theorem Spells.keyOf (h : Spells entry s) : ∃ key, LockedDependencies.keyOf entry = some key := by
  obtain ⟨name, version, hname, -, -⟩ := h
  exact ⟨(name, dependencyVersion entry), by rw [LockedDependencies.keyOf, hname]; rfl⟩

/-- The strings found from a project that is in the lock. -/
theorem mem_found {projects : List Entry}
    (hprojects : (packagesByName document).get? project = some projects) (s : String) :
    s ∈ walk (packagesByName document) [] ∅ (projects.flatMap dependencies).reverse ↔
      Locked document project s ∨ Unmatched document project s := by
  rw [mem_walk]
  constructor
  · rintro (hs | ⟨key, hvisit, -, hs⟩)
    · exact absurd hs (Finset.notMem_empty s)
    · obtain ⟨dependency, hfollowed, hkey⟩ := (mem_visitsOf hprojects).mp hvisit
      rcases (mem_added hkey).mp hs with ⟨package, hnames, houtside, hspells⟩ | ⟨hspells, hall⟩
      · exact Or.inl ⟨dependency, package, hfollowed, hnames, houtside, hspells⟩
      · exact Or.inr ⟨dependency, hfollowed, hspells, hall⟩
  · rintro (⟨dependency, package, hfollowed, hnames, houtside, hspells⟩ |
      ⟨dependency, hfollowed, hspells, hall⟩)
    · obtain ⟨key, hkey⟩ := hnames.keyOf
      exact Or.inr ⟨key, (mem_visitsOf hprojects).mpr ⟨dependency, hfollowed, hkey⟩,
        List.not_mem_nil, (mem_added hkey).mpr (Or.inl ⟨package, hnames, houtside, hspells⟩)⟩
    · obtain ⟨key, hkey⟩ := hspells.keyOf
      exact Or.inr ⟨key, (mem_visitsOf hprojects).mpr ⟨dependency, hfollowed, hkey⟩,
        List.not_mem_nil, (mem_added hkey).mpr (Or.inr ⟨hspells, hall⟩)⟩

/-- The project is a package of the lock. -/
def Lists (document : Entry) (project : String) : Prop :=
  ∃ package ∈ entries document "package", dependencyName package = some project

theorem lockedDependencyVersions_ok (hlists : Lists document project) :
    ∃ found : Finset String,
      lockedDependencyVersions document project = .ok (found.sort (· ≤ ·)) ∧
      ∀ s, s ∈ found ↔ Locked document project s ∨ Unmatched document project s := by
  obtain ⟨package, hlisted, hname⟩ := hlists
  have hmem := mem_packagesByName.mpr ⟨hlisted, hname⟩
  cases hprojects : (packagesByName document).get? project with
  | none =>
    rw [hprojects] at hmem
    cases hmem
  | some projects =>
    refine ⟨_, ?_, mem_found hprojects⟩
    rw [lockedDependencyVersions, hprojects]

end Exact

/-! Orders of the lock -/

/-- The same package, its dependencies in another order. -/
structure SameButOrder (package package' : Entry) : Prop where
  rest : ∀ key ≠ "dependencies", package'.get? key = package.get? key
  dependencies : (dependencies package).Perm (dependencies package')

/-- The same lock, its packages and their dependencies in another order. -/
def Reordered (document document' : Entry) : Prop :=
  ∃ packages, packages.Perm (entries document' "package") ∧
    List.Forall₂ SameButOrder (entries document "package") packages

/-- Every package of one lock is one of the other. -/
def Covered (document document' : Entry) : Prop :=
  ∀ package ∈ entries document "package", ∃ package' ∈ entries document' "package",
    SameButOrder package package'

section Orders

variable {document document' : Entry} {project : String} {package' package : Entry}

section

variable (h : SameButOrder package package')
include h

theorem SameButOrder.symm : SameButOrder package' package :=
  ⟨fun key hkey => (h.rest key hkey).symm, h.dependencies.symm⟩

theorem SameButOrder.name : dependencyName package' = dependencyName package := by
  rw [dependencyName, h.rest _ (by decide), dependencyName]

theorem SameButOrder.version : dependencyVersion package' = dependencyVersion package := by
  rw [dependencyVersion, h.rest _ (by decide), dependencyVersion]

theorem SameButOrder.member : isWorkspaceMember package' = isWorkspaceMember package := by
  rw [isWorkspaceMember, h.rest _ (by decide), isWorkspaceMember]

theorem SameButOrder.spells (hspells : Spells package s) : Spells package' s := by
  unfold Spells
  rw [h.name, h.version]
  exact hspells

end

theorem Reordered.covered (h : Reordered document document') :
    Covered document document' ∧ Covered document' document := by
  obtain ⟨packages, hperm, hsame⟩ := h
  constructor
  · intro package hpackage
    obtain ⟨package', hmem, hpair⟩ := Alignment.exists_right hsame hpackage
    exact ⟨package', hperm.subset hmem, hpair⟩
  · intro package hpackage
    obtain ⟨package', hmem, hpair⟩ := Alignment.exists_left hsame (hperm.symm.subset hpackage)
    exact ⟨package', hmem, hpair.symm⟩

section

variable (h : Covered document document')
include h

theorem Covered.names (hnames : Names document dependency package) :
    ∃ package', Names document' dependency package' ∧ SameButOrder package package' := by
  obtain ⟨hlisted, name, hname, hsame, hpin⟩ := hnames
  obtain ⟨package', hmem, hpair⟩ := h package hlisted
  refine ⟨package', ⟨hmem, name, hname, hpair.name.trans hsame, fun version hversion => ?_⟩, hpair⟩
  exact hpair.version.trans (hpin version hversion)

theorem Covered.lists (hlists : Lists document project) : Lists document' project := by
  obtain ⟨package, hlisted, hname⟩ := hlists
  obtain ⟨package', hmem, hpair⟩ := h package hlisted
  exact ⟨package', hmem, hpair.name.trans hname⟩

theorem Covered.followed (hfollowed : Followed document project dependency) :
    Followed document' project dependency := by
  induction hfollowed with
  | own hlisted hname hdependency =>
    obtain ⟨package', hmem, hpair⟩ := h _ hlisted
    exact .own hmem (hpair.name.trans hname) (hpair.dependencies.subset hdependency)
  | next _ hnames houtside hfurther ih =>
    obtain ⟨package', hnames', hpair⟩ := h.names hnames
    exact .next ih hnames' (hpair.member.trans houtside) (hpair.dependencies.subset hfurther)

theorem Covered.found (h' : Covered document' document)
    (hs : Locked document project s ∨ Unmatched document project s) :
    Locked document' project s ∨ Unmatched document' project s := by
  rcases hs with ⟨dependency, package, hfollowed, hnames, houtside, hspells⟩ |
    ⟨dependency, hfollowed, hspells, hall⟩
  · obtain ⟨package', hnames', hpair⟩ := h.names hnames
    exact Or.inl ⟨dependency, package', h.followed hfollowed, hnames',
      hpair.member.trans houtside, hpair.spells hspells⟩
  · refine Or.inr ⟨dependency, h.followed hfollowed, hspells, fun package hnames => ?_⟩
    obtain ⟨package', hnames', hpair⟩ := h'.names hnames
    exact hpair.member.symm.trans (hall package' hnames')

end

end Orders

section Claim

variable {document : Entry} {project : String}

/-- For a project of the lock the walk returns, strictly sorted, the versions of the
packages outside the workspace that it reaches and the pins that the lock lists no
package for, and nothing else but perhaps pins that only workspace members meet; and the
order of the lock does not matter. -/
theorem locked_dependency_versions_exact (hlists : Lists document project) :
    ∃ versions, lockedDependencyVersions document project = .ok versions ∧
      versions.Pairwise (· < ·) ∧
      (∀ s, Locked document project s ∨ Unlisted document project s → s ∈ versions) ∧
      (∀ s ∈ versions, ¬ PinsMember document project s →
        Locked document project s ∨ Unlisted document project s) ∧
      ∀ document', Reordered document document' →
        lockedDependencyVersions document' project = .ok versions := by
  obtain ⟨found, hok, hfound⟩ := lockedDependencyVersions_ok hlists
  have hmem : ∀ s, s ∈ found.sort (· ≤ ·) ↔ Locked document project s ∨
      Unlisted document project s ∨ PinsMember document project s := by
    intro s
    rw [Finset.mem_sort, hfound, unmatched_iff]
  refine ⟨_, hok, found.sortedLT_sort.pairwise, fun s hs => ?_, fun s hs hpins => ?_,
    fun document' h => ?_⟩
  · exact (hmem s).mpr (hs.imp_right Or.inl)
  · exact ((hmem s).mp hs).imp_right (Or.resolve_right · hpins)
  · obtain ⟨hcovered, hcovered'⟩ := h.covered
    obtain ⟨found', hok', hfound'⟩ := lockedDependencyVersions_ok (hcovered.lists hlists)
    have hsame : found' = found := by
      ext s
      rw [hfound, hfound']
      exact ⟨hcovered'.found hcovered, hcovered.found hcovered'⟩
    rw [hok', hsame]

end Claim

/-- A dependency entry. -/
def needs (name : String) : Toml := .table [("name", .text name)]

def appPackage (dependencies : List Toml) : Toml :=
  .table [("name", .text "app"), ("source", .table [("virtual", .text ".")]),
    ("dependencies", .list dependencies)]

def lockedPackage (name version : String) (dependencies : List Toml) : Toml :=
  .table [("name", .text name), ("version", .text version), ("dependencies", .list dependencies)]

def lockOf (packages : List Toml) : Entry := [("package", .list packages)]

/-- Two packages that need each other. -/
def mutualLock : Entry :=
  lockOf [appPackage [needs "alpha"], lockedPackage "alpha" "1.0" [needs "beta"],
    lockedPackage "beta" "2.0" [needs "alpha"]]

theorem mutualLock_lists : Lists mutualLock "app" := ⟨_, List.mem_cons_self, rfl⟩

theorem mutualLock_followed : Followed mutualLock "app" [("name", .text "beta")] := by
  have halpha : Followed mutualLock "app" [("name", .text "alpha")] :=
    .own List.mem_cons_self rfl List.mem_cons_self
  refine .next halpha ⟨List.mem_cons_of_mem _ List.mem_cons_self, "alpha", rfl, rfl, ?_⟩ rfl
    List.mem_cons_self
  intro version hversion
  cases hversion

theorem mutualLock_versions :
    ∃ versions, lockedDependencyVersions mutualLock "app" = .ok versions ∧
      "beta==2.0" ∈ versions := by
  obtain ⟨versions, hok, -, hmem, -⟩ := locked_dependency_versions_exact mutualLock_lists
  have hpackage : [("name", .text "beta"), ("version", .text "2.0"),
      ("dependencies", .list [needs "alpha"])] ∈ entries mutualLock "package" :=
    List.mem_cons_of_mem _ (List.mem_cons_of_mem _ List.mem_cons_self)
  refine ⟨versions, hok, hmem _ (Or.inl ⟨_, _, mutualLock_followed,
    ⟨hpackage, "beta", rfl, rfl, fun version hversion => ?_⟩, rfl, "beta", "2.0", rfl, rfl, rfl⟩)⟩
  cases hversion

/-- The project pins a version of a package that the lock does not list. -/
def danglingLock : Entry :=
  lockOf [appPackage [.table [("name", .text "ghost"), ("version", .text "1.0")]]]

/-- The pin is returned although no package is reached. -/
theorem danglingLock_returns_pin :
    ∃ versions, lockedDependencyVersions danglingLock "app" = .ok versions ∧
      "ghost==1.0" ∈ versions ∧ ∀ s, ¬ Locked danglingLock "app" s := by
  have hmember : ∀ package ∈ entries danglingLock "package", isWorkspaceMember package = true := by
    intro package hpackage
    rw [List.mem_singleton.mp hpackage]
    rfl
  obtain ⟨found, hok, hfound⟩ := lockedDependencyVersions_ok
    (⟨_, List.mem_cons_self, rfl⟩ : Lists danglingLock "app")
  refine ⟨_, hok, (Finset.mem_sort _).mpr ((hfound _).mpr (Or.inr ?_)), ?_⟩
  · refine ⟨[("name", .text "ghost"), ("version", .text "1.0")], ?_,
      ⟨"ghost", "1.0", rfl, rfl, rfl⟩, fun package hnames => hmember package hnames.1⟩
    exact .own List.mem_cons_self rfl List.mem_cons_self
  · rintro s ⟨_, package, -, hnames, houtside, -⟩
    rw [hmember package hnames.1] at houtside
    cases houtside

end Grafy.LockedDependencies
