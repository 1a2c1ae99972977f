import Grafy.Instances
import Mathlib.Data.List.Induction

/-!
The texts under which a client keeps node instances. The fields of a key stand between null
characters and the ids of the call path between slashes, and an id may contain both: two
keys share a text exactly when they differ in nothing but where their ids end.
-/
namespace Grafy.InstanceTexts

open CanonicalJson Instances OrderedDict

variable {I : Type} {keyOf : I → InstanceKey} {text : String}

def nul : Char := '\x00'

def pathText (path : List String) : List Char := ['/'].intercalate (path.map String.toList)

def instanceKeyText (key : InstanceKey) : String :=
  String.ofList ([nul].intercalate [key.graphId.toList, pathText key.callPath, key.nodeId.toList,
    (key.mapIndex.map intText).getD []])

/-- `instances.changed`. -/
def instancesChanged (keyOf : I → InstanceKey) (removed : List InstanceKey) (changed : List I)
    (instances : Dict String I) : Dict String I :=
  changed.foldl (fun d i => d.set (instanceKeyText (keyOf i)) i)
    (removed.foldl (fun d key => d.erase (instanceKeyText key)) instances)

/-- What ends a segment: one of the two separators, or the end of the text. -/
inductive Mark
  | slash
  | null
  | stop
  deriving DecidableEq

def markOf (c : Char) : Option Mark :=
  if c = '/' then some .slash else if c = nul then some .null else none

def Mark.chars : Mark → List Char
  | .slash => ['/']
  | .null => [nul]
  | .stop => []

def extend (c : Char) : List (List Char × Mark) → List (List Char × Mark)
  | [] => []
  | (segment, mark) :: rest => (c :: segment, mark) :: rest

/-- The segments of an id between the separators it contains; the last segment is ended by
what follows the id. -/
def cut (last : Mark) : List Char → List (List Char × Mark)
  | [] => [([], last)]
  | c :: rest =>
    match markOf c with
    | some mark => ([], mark) :: cut last rest
    | none => extend c (cut last rest)

/-- The ids of the path are followed by a slash, and the last one by a null character. -/
def cutPath : List String → List (List Char × Mark)
  | [] => cut .null []
  | [id] => cut .null id.toList
  | id :: next :: more => cut .slash id.toList ++ cutPath (next :: more)

/-- The segments of the ids of a key and of its map index. -/
def segments (key : InstanceKey) : List (List Char × Mark) :=
  cut .null key.graphId.toList ++ (cutPath key.callPath ++
    (cut .null key.nodeId.toList ++ cut .stop ((key.mapIndex.map intText).getD [])))

/-- The keys differ in more than in where their ids end, if at all. -/
def ToldApart (key other : InstanceKey) : Prop := segments key = segments other → key = other

theorem pathText_cons (id next : String) (more : List String) :
    pathText (id :: next :: more) = id.toList ++ '/' :: pathText (next :: more) := by
  simp [pathText, List.intercalate_cons_cons]

theorem markOf_some {c : Char} {mark : Mark} (h : markOf c = some mark) : mark.chars = [c] := by
  unfold markOf at h
  split_ifs at h with hslash hnul
  · cases h
    rw [hslash, Mark.chars]
  · cases h
    rw [hnul, Mark.chars]

theorem cut_ne_nil (last : Mark) (text : List Char) : cut last text ≠ [] := by
  induction text with
  | nil => exact List.cons_ne_nil _ _
  | cons c rest ih =>
    obtain ⟨segment, more, hcut⟩ := List.exists_cons_of_ne_nil ih
    unfold cut
    split
    · exact List.cons_ne_nil _ _
    · rw [hcut]
      exact List.cons_ne_nil _ _

/-- Nothing of an id is lost between its segments. -/
theorem flatMap_cut (last : Mark) (text : List Char) :
    (cut last text).flatMap (fun s => s.1 ++ s.2.chars) = text ++ last.chars := by
  induction text with
  | nil => simp [cut]
  | cons c rest ih =>
    obtain ⟨segment, more, hcut⟩ := List.exists_cons_of_ne_nil (cut_ne_nil last rest)
    unfold cut
    split
    · rename_i mark hmark
      rw [List.flatMap_cons, ih, markOf_some hmark]
      rfl
    · rw [hcut] at ih ⊢
      simpa [extend] using ih

/-- A separator ends the segments of what stands before it. -/
theorem cut_append (last : Mark) {c : Char} {mark : Mark} (hmark : markOf c = some mark)
    (text rest : List Char) : cut last (text ++ c :: rest) = cut mark text ++ cut last rest := by
  induction text with
  | nil => simp [cut, hmark]
  | cons d more ih =>
    obtain ⟨segment, others, hcut⟩ := List.exists_cons_of_ne_nil (cut_ne_nil mark more)
    rw [List.cons_append, cut, cut, ih]
    split
    · rfl
    · rw [hcut]
      rfl

theorem cut_pathText (last : Mark) (path : List String) (rest : List Char) :
    cut last (pathText path ++ nul :: rest) = cutPath path ++ cut last rest := by
  have hnul : markOf nul = some .null := rfl
  have hslash : markOf '/' = some .slash := rfl
  induction path with
  | nil => exact cut_append last hnul [] rest
  | cons id more ih =>
    cases more with
    | nil => simpa [pathText, cutPath] using cut_append last hnul id.toList rest
    | cons next more =>
      rw [pathText_cons, List.append_assoc, List.cons_append, cut_append last hslash, ih, cutPath,
        List.append_assoc]

theorem toList_instanceKeyText (key : InstanceKey) :
    (instanceKeyText key).toList = key.graphId.toList ++ nul :: (pathText key.callPath ++
      nul :: (key.nodeId.toList ++ nul :: (key.mapIndex.map intText).getD [])) := by
  simp [instanceKeyText, List.intercalate_cons_cons]

/-- The text of a key is cut where its ids are. -/
theorem cut_instanceKeyText (key : InstanceKey) :
    cut .stop (instanceKeyText key).toList = segments key := by
  have hnul : markOf nul = some .null := rfl
  rw [toList_instanceKeyText, cut_append _ hnul, cut_pathText, cut_append _ hnul, segments]

/-- Two keys share a text exactly when they agree but for where their ids end. -/
theorem text_eq_iff (key other : InstanceKey) :
    instanceKeyText key = instanceKeyText other ↔ segments key = segments other := by
  rw [← cut_instanceKeyText, ← cut_instanceKeyText]
  refine ⟨fun heq => by rw [heq], fun heq => ?_⟩
  have hjoined := congrArg (List.flatMap (fun s => s.1 ++ s.2.chars)) heq
  rwa [flatMap_cut, flatMap_cut, List.append_left_inj, String.toList_inj] at hjoined

theorem get?_instancesChanged {removed : List InstanceKey} {changed : List I}
    (instances : Dict String I)
    (h : ∀ key ∈ removed ++ changed.map keyOf, text ≠ instanceKeyText key) :
    (instancesChanged keyOf removed changed instances).get? text = instances.get? text := by
  induction changed using List.reverseRecOn with
  | nil =>
    induction removed generalizing instances with
    | nil => rfl
    | cons key rest ih =>
      refine (ih (instances.erase (instanceKeyText key)) fun held hheld =>
        h held (List.mem_cons_of_mem _ hheld)).trans ?_
      exact Dict.get?_erase_ne instances (h key List.mem_cons_self)
  | append_singleton rest i ih =>
    rw [instancesChanged, List.foldl_concat, Dict.get?_set_ne _ _ (h _ (by simp))]
    exact ih fun key hkey => h key (by
      rw [List.map_append, ← List.append_assoc]
      exact List.mem_append_left _ hkey)

/-- Among the keys of one Project, two have different texts exactly where they differ in more
than where their ids end; and the entry of an instance stays as it is under every delta that
names only instances told apart from it. -/
theorem told_apart_iff (key : InstanceKey) :
    (∀ other, other.projectId = key.projectId →
      ((instanceKeyText key = instanceKeyText other → key = other) ↔ ToldApart key other)) ∧
    ∀ {I : Type} (keyOf : I → InstanceKey) (removed : List InstanceKey) (changed : List I)
      (instances : Dict String I), (∀ other ∈ removed ++ changed.map keyOf,
        other.projectId = key.projectId ∧ key ≠ other ∧ ToldApart key other) →
      (instancesChanged keyOf removed changed instances).get? (instanceKeyText key) =
        instances.get? (instanceKeyText key) := by
  refine ⟨fun other _ => by rw [text_eq_iff, ToldApart], ?_⟩
  intro I keyOf removed changed instances hdelta
  refine get?_instancesChanged instances fun other hother hsame => ?_
  obtain ⟨-, hne, htold⟩ := hdelta other hother
  exact hne (htold ((text_eq_iff key other).mp hsame))

def nested (path : List String) : InstanceKey := ⟨"p", "main", path, "n", none⟩

theorem nested_told_apart :
    instanceKeyText (nested ["a", "b"]) ≠ instanceKeyText (nested ["a"]) := by
  have hapart := ((told_apart_iff (nested ["a", "b"])).1 (nested ["a"]) rfl).mpr
  exact fun hsame => absurd (hapart (fun hcut => absurd hcut (by decide)) hsame) (by decide)

/-- A call node "a/b", and a call node "b" in the Graph that a call node "a" calls. -/
theorem slashedId_confused : ∃ key other : InstanceKey, key.projectId = other.projectId ∧
    instanceKeyText key = instanceKeyText other ∧ key ≠ other :=
  ⟨nested ["a/b"], nested ["a", "b"], rfl, by decide, by decide⟩

end Grafy.InstanceTexts
