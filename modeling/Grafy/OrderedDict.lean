import Mathlib.Data.List.Basic
import Mathlib.Data.List.Lookmap

/-!
Insertion-ordered dictionaries, as lists of key-value pairs. Assigning to a
present key keeps its position, a new key goes to the end and deletion keeps
the order of the rest. Only lookup, assignment and deletion are exposed to
later proofs; distinctness of keys is a property the operations preserve.
-/
namespace Grafy

theorem mem_snoc {α : Type*} {a b : α} {l : List α} : a ∈ l ++ [b] ↔ a ∈ l ∨ a = b := by
  rw [List.mem_append, List.mem_singleton]

namespace OrderedDict

abbrev Dict (K V : Type*) := List (K × V)

namespace Dict

variable {K V : Type*} [DecidableEq K] {k : K} {d : Dict K V} {v : V} {k' : K} {entry : K × V}
  {A : Type*} {W : Type*}

def get? (d : Dict K V) (k : K) : Option V :=
  match d with
  | [] => none
  | (k', v) :: rest => if k' = k then some v else get? rest k

def set (d : Dict K V) (k : K) (v : V) : Dict K V :=
  match d with
  | [] => [(k, v)]
  | (k', v') :: rest => if k' = k then (k, v) :: rest else (k', v') :: set rest k v

def erase (d : Dict K V) (k : K) : Dict K V := d.filter (fun entry => entry.1 ≠ k)

def keys (d : Dict K V) : List K := d.map Prod.fst

def values (d : Dict K V) : List V := d.map Prod.snd

@[simp] theorem get?_nil (k : K) : get? ([] : Dict K V) k = none := rfl

theorem get?_cons (k' : K) (v : V) (d : Dict K V) (k : K) :
    get? ((k', v) :: d) k = if k' = k then some v else get? d k := rfl

@[simp] theorem get?_set_self (d : Dict K V) (k : K) (v : V) : (set d k v).get? k = some v := by
  induction d with
  | nil => simp [set, get?]
  | cons entry rest ih =>
    obtain ⟨k', v'⟩ := entry
    by_cases hk : k' = k
    · simp [set, get?, hk]
    · simpa [set, get?, hk] using ih

theorem get?_set_ne (d : Dict K V) (v : V) (h : k' ≠ k) : (set d k v).get? k' = d.get? k' := by
  induction d with
  | nil => simp [set, get?, Ne.symm h]
  | cons entry rest ih =>
    obtain ⟨l, w⟩ := entry
    by_cases hl : l = k
    · subst l
      simp [set, get?, Ne.symm h]
    · simp [set, get?, hl, ih]

theorem get?_set (d : Dict K V) (k k' : K) (v : V) :
    (set d k v).get? k' = if k' = k then some v else d.get? k' := by
  by_cases h : k' = k
  · subst k'
    simp
  · simp [get?_set_ne d v h, h]

@[simp] theorem get?_erase_self (d : Dict K V) (k : K) : (erase d k).get? k = none := by
  induction d with
  | nil => rfl
  | cons entry rest ih =>
    obtain ⟨l, w⟩ := entry
    by_cases hl : l = k
    · simpa [erase, hl] using ih
    · simpa [erase, get?, hl] using ih

theorem get?_erase_ne (d : Dict K V) (h : k' ≠ k) : (erase d k).get? k' = d.get? k' := by
  induction d with
  | nil => rfl
  | cons entry rest ih =>
    obtain ⟨l, w⟩ := entry
    by_cases hl : l = k
    · subst l
      simpa [erase, get?, Ne.symm h] using ih
    · by_cases hl' : l = k'
      · simp [erase, get?, hl', h]
      · simpa [erase, get?, hl, hl'] using ih

theorem get?_erase (d : Dict K V) (k k' : K) :
    (erase d k).get? k' = if k' = k then none else d.get? k' := by
  by_cases h : k' = k
  · subst k'
    simp
  · simp [get?_erase_ne d h, h]

theorem mem_of_get? (h : d.get? k = some v) : (k, v) ∈ d := by
  induction d with
  | nil => simp at h
  | cons entry rest ih =>
    obtain ⟨l, w⟩ := entry
    by_cases hl : l = k
    · subst l
      simp only [get?, ↓reduceIte, Option.some.injEq] at h
      simp [h]
    · simp only [get?, hl, ↓reduceIte] at h
      exact List.mem_cons_of_mem _ (ih h)

theorem mem_values_of_get? (h : d.get? k = some v) : v ∈ d.values :=
  List.mem_map.mpr ⟨(k, v), mem_of_get? h, rfl⟩

theorem mem_set (h : entry ∈ set d k v) : entry = (k, v) ∨ entry ∈ d := by
  induction d with
  | nil => exact Or.inl (by simpa [set] using h)
  | cons first rest ih =>
    obtain ⟨l, w⟩ := first
    by_cases hl : l = k
    · simp only [set, hl, ↓reduceIte, List.mem_cons] at h
      rcases h with h | h
      · exact Or.inl h
      · exact Or.inr (List.mem_cons_of_mem _ h)
    · simp only [set, hl, ↓reduceIte, List.mem_cons] at h
      rcases h with h | h
      · exact Or.inr (by simp [h])
      · rcases ih h with h | h
        · exact Or.inl h
        · exact Or.inr (List.mem_cons_of_mem _ h)

theorem mem_of_mem_erase (h : entry ∈ erase d k) :
    entry ∈ d := List.mem_of_mem_filter h

theorem set_of_get?_none (h : d.get? k = none) : set d k v = d ++ [(k, v)] := by
  induction d with
  | nil => rfl
  | cons entry rest ih =>
    obtain ⟨l, w⟩ := entry
    by_cases hl : l = k
    · simp [get?, hl] at h
    · simp only [get?, hl, ↓reduceIte] at h
      simp [set, hl, ih h]

/-- With distinct keys every stored pair is the one lookup finds. -/
theorem get?_of_mem (hd : d.keys.Nodup) (h : (k, v) ∈ d) : d.get? k = some v := by
  induction d with
  | nil => simp at h
  | cons entry rest ih =>
    obtain ⟨l, w⟩ := entry
    simp only [keys, List.map_cons, List.nodup_cons] at hd
    rcases List.mem_cons.mp h with heq | hrest
    · obtain ⟨rfl, rfl⟩ := Prod.mk.injEq .. ▸ heq
      simp [get?]
    · have hne : l ≠ k := by
        intro hlk
        subst l
        exact hd.1 (List.mem_map.mpr ⟨(k, v), hrest, rfl⟩)
      simp only [get?, hne, ↓reduceIte]
      exact ih hd.2 hrest

theorem keys_set_nodup (hd : d.keys.Nodup) (k : K) (v : V) : (set d k v).keys.Nodup := by
  induction d with
  | nil => simp [set, keys]
  | cons entry rest ih =>
    obtain ⟨l, w⟩ := entry
    simp only [keys, List.map_cons, List.nodup_cons] at hd
    by_cases hl : l = k
    · subst l
      simpa [set, keys] using hd
    · simp only [set, hl, ↓reduceIte, keys, List.map_cons, List.nodup_cons]
      refine ⟨?_, ih hd.2⟩
      intro hmem
      obtain ⟨entry, hentry, hfst⟩ := List.mem_map.mp hmem
      rcases mem_set hentry with heq | hold
      · rw [heq] at hfst
        exact hl hfst.symm
      · exact hd.1 (List.mem_map.mpr ⟨entry, hold, hfst⟩)

theorem get?_eq_none (h : k ∉ d.keys) : d.get? k = none := by
  cases hget : d.get? k with
  | none => rfl
  | some v => exact absurd (List.mem_map.mpr ⟨(k, v), mem_of_get? hget, rfl⟩) h

theorem mem_keys_of_get? (h : d.get? k = some v) : k ∈ d.keys :=
  List.mem_map.mpr ⟨(k, v), mem_of_get? h, rfl⟩

theorem get?_isSome_of_mem_keys (h : k ∈ d.keys) : (d.get? k).isSome := by
  induction d with
  | nil => simp [keys] at h
  | cons entry rest ih =>
    obtain ⟨l, w⟩ := entry
    by_cases hl : l = k
    · simp [get?, hl]
    · simp only [get?, hl, ↓reduceIte]
      refine ih ?_
      rcases List.mem_cons.mp h with heq | hrest
      · exact absurd heq.symm hl
      · exact hrest

theorem get?_append (d e : Dict K V) (k : K) : get? (d ++ e) k = (d.get? k).or (e.get? k) := by
  induction d with
  | nil => simp
  | cons entry rest ih =>
    obtain ⟨l, w⟩ := entry
    by_cases hl : l = k
    · simp [get?, hl]
    · simp [get?, hl, ih]

theorem get?_append_of_some {e : Dict K V} (h : d.get? k = some v) : get? (d ++ e) k = some v := by
  rw [get?_append, h, Option.some_or]

theorem get?_append_new (h : k ∉ d.keys) : get? (d ++ [(k, v)]) k = some v := by
  rw [get?_append, get?_eq_none h]
  simp [get?_cons]

theorem exists_split_of_get? (h : d.get? k = some v) :
    ∃ pre post, d = pre ++ (k, v) :: post := List.append_of_mem (mem_of_get? h)

theorem set_eq_self (h : d.get? k = some v) : set d k v = d := by
  induction d with
  | nil => simp at h
  | cons entry rest ih =>
    obtain ⟨l, w⟩ := entry
    by_cases hl : l = k
    · simp only [get?, hl, ↓reduceIte, Option.some.injEq] at h
      simp [set, hl, h]
    · simp only [get?, hl, ↓reduceIte] at h
      simp [set, hl, ih h]

/-- Inserting distinct new keys one after the other appends them. -/
theorem foldl_set_eq_append (key : A → K) (value : A → V) (l : List A) (d : Dict K V)
    (h : (d.keys ++ l.map key).Nodup) :
    l.foldl (fun d a => set d (key a) (value a)) d = d ++ l.map (fun a => (key a, value a)) := by
  induction l generalizing d with
  | nil => simp
  | cons a rest ih =>
    have hfresh : key a ∉ d.keys := by
      intro hmem
      exact (List.nodup_append.mp h).2.2 (key a) hmem (key a) (by simp) rfl
    have hset := set_of_get?_none (v := value a) (get?_eq_none hfresh)
    have hrest : (keys (set d (key a) (value a)) ++ rest.map key).Nodup := by
      rw [hset]
      simpa [keys] using h
    rw [List.foldl_cons, ih _ hrest, hset]
    simp

/-- The elements of a list under distinct keys are found by their keys. -/
theorem get?_foldl_set_iff (key : A → K) {l : List A} (h : (l.map key).Nodup) {a : A} :
    (l.foldl (fun d a => set d (key a) a) ([] : Dict K A)).get? k = some a ↔ a ∈ l ∧ key a = k := by
  have happend := foldl_set_eq_append key (fun a => a) l [] (by simpa [keys] using h)
  rw [List.nil_append] at happend
  rw [happend]
  have hkeys : (keys (l.map (fun a => (key a, a)))).Nodup := by
    simpa [keys, Function.comp_def] using h
  constructor
  · intro hget
    obtain ⟨b, hb, heq⟩ := List.mem_map.mp (mem_of_get? hget)
    cases heq
    exact ⟨hb, rfl⟩
  · rintro ⟨ha, rfl⟩
    exact get?_of_mem hkeys (List.mem_map.mpr ⟨a, ha, rfl⟩)

/-- Every value changed, each under its key. -/
def mapValues {W : Type*} (d : Dict K V) (f : K → V → W) : Dict K W :=
  d.map (fun entry => (entry.1, f entry.1 entry.2))

omit [DecidableEq K] in
@[simp] theorem keys_mapValues (d : Dict K V) (f : K → V → W) : (mapValues d f).keys = d.keys := by
  simp [mapValues, keys, Function.comp_def]

theorem get?_mapValues (d : Dict K V) (f : K → V → W) (k : K) :
    (mapValues d f).get? k = (d.get? k).map (f k) := by
  induction d with
  | nil => rfl
  | cons entry rest ih =>
    obtain ⟨l, v⟩ := entry
    by_cases hl : l = k
    · subst hl
      simp [mapValues, get?]
    · simpa [mapValues, get?, hl] using ih

theorem set_eq_mapValues (hd : d.keys.Nodup) (h : d.get? k = some v) (f : V → V) :
    set d k (f v) = mapValues d (fun k' v' => if k' = k then f v' else v') := by
  induction d with
  | nil => simp at h
  | cons entry rest ih =>
    obtain ⟨l, w⟩ := entry
    simp only [keys, List.map_cons, List.nodup_cons] at hd
    by_cases hl : l = k
    · subst hl
      simp only [get?, ↓reduceIte, Option.some.injEq] at h
      subst h
      have hrest : mapValues rest (fun k' v' => if k' = l then f v' else v') = rest := by
        unfold mapValues
        refine (List.map_congr_left ?_).trans (List.map_id' rest)
        intro entry hentry
        have hne : entry.1 ≠ l := by
          rintro rfl
          exact hd.1 (List.mem_map.mpr ⟨entry, hentry, rfl⟩)
        simp [hne]
      simpa [set, mapValues] using hrest.symm
    · simp only [get?, hl, ↓reduceIte] at h
      have hrest := ih hd.2 h
      simp only [mapValues] at hrest
      simp [set, mapValues, hl, hrest]

omit [DecidableEq K] in
theorem foldl_mapValues (act : A → K → V → V) (l : List A) (d : Dict K V) :
    l.foldl (fun d a => mapValues d (act a)) d =
      mapValues d (fun k v => l.foldl (fun v a => act a k v) v) := by
  induction l generalizing d with
  | nil => simp [mapValues]
  | cons a rest ih =>
    rw [List.foldl_cons, ih]
    simp [mapValues]

theorem keys_erase_nodup (hd : d.keys.Nodup) (k : K) : (erase d k).keys.Nodup :=
  hd.sublist (List.filter_sublist.map Prod.fst)

end Dict

end OrderedDict

end Grafy
