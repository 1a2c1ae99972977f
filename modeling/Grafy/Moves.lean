import Mathlib.Data.List.Perm.Basic

/-!
Moving one entry of a list to another place, and moving it among the entries
of one kind while the others keep their places. The two agree where only
entries of that kind lie between the two places.
-/
namespace Grafy.Moves

variable {A B : Type*} {i : ℕ} {a : A}

/-- The entry at place `i`, taken out and put in at place `j` of the rest. -/
def move (l : List A) (i j : ℕ) : List A :=
  match l[i]? with
  | none => l
  | some a => (l.eraseIdx i).insertIdx j a

variable {l : List A}

theorem move_eq (h : l[i]? = some a) (j : ℕ) : move l i j = (l.eraseIdx i).insertIdx j a := by
  simp only [move, h]

theorem length_eraseIdx_succ (h : l[i]? = some a) : (l.eraseIdx i).length + 1 = l.length := by
  obtain ⟨hlt, -⟩ := List.getElem?_eq_some_iff.mp h
  rw [List.length_eraseIdx_of_lt hlt]
  omega

theorem map_move (f : A → B) (l : List A) (i j : ℕ) : (move l i j).map f = move (l.map f) i j := by
  unfold move
  rw [List.getElem?_map]
  cases l[i]? with
  | none => rfl
  | some a => simp only [Option.map_some, List.map_insertIdx, List.eraseIdx_map]

theorem getElem?_move (h : l[i]? = some a) (j k : ℕ) (hj : j < l.length) :
    (move l i j)[k]? =
      if k = j then some a
      else if i ≤ k ∧ k < j then l[k + 1]?
      else if j < k ∧ k ≤ i then l[k - 1]?
      else l[k]? := by
  have hlength := length_eraseIdx_succ h
  rw [move_eq h, List.getElem?_insertIdx]
  rcases Nat.lt_trichotomy k j with hk | rfl | hk
  · rw [if_pos hk, if_neg (by omega), List.getElem?_eraseIdx]
    by_cases hik : i ≤ k
    · rw [if_neg (by omega), if_pos ⟨hik, hk⟩]
    · rw [if_pos (by omega), if_neg (by omega), if_neg (by omega)]
  · rw [if_neg (by omega), if_pos rfl, if_pos (by omega), if_pos rfl]
  · rw [if_neg (by omega), if_neg (by omega), if_neg (by omega), if_neg (by omega),
      List.getElem?_eraseIdx]
    by_cases hik : k ≤ i
    · rw [if_pos (by omega), if_pos ⟨hk, hik⟩]
    · rw [if_neg (by omega), if_neg (by omega)]
      congr 1
      omega

theorem move_self (h : l[i]? = some a) : move l i i = l := by
  obtain ⟨hlt, -⟩ := List.getElem?_eq_some_iff.mp h
  refine List.ext_getElem? fun k => ?_
  rw [getElem?_move h i k hlt]
  split_ifs with hk
  · rw [hk, h]
  · omega
  · omega
  · rfl

variable {j : ℕ}

/-- A move changes nothing where all entries between the two places are alike. -/
theorem move_eq_self_iff (h : l[i]? = some a) (hj : j < l.length) :
    move l i j = l ↔ ∀ k, min i j ≤ k → k ≤ max i j → l[k]? = some a := by
  constructor
  · intro hsame
    have hat := fun k => getElem?_move h j k hj
    simp only [hsame] at hat
    have hup : ∀ k, i + k ≤ j → l[i + k]? = some a := by
      intro k
      induction k with
      | zero => exact fun _ => h
      | succ k ih =>
        intro hk
        have hprev := hat (i + k)
        rw [if_neg (by omega), if_pos (by omega), ih (by omega)] at hprev
        exact hprev.symm
    have hdown : ∀ k, j + k ≤ i → l[i - k]? = some a := by
      intro k
      induction k with
      | zero => exact fun _ => h
      | succ k ih =>
        intro hk
        have hprev := hat (i - k)
        rw [if_neg (by omega), if_neg (by omega), if_pos (by omega), ih (by omega)] at hprev
        exact (congrArg (fun n => l[n]?) (by omega)).trans hprev.symm
    intro k hmin hmax
    rcases Nat.le_total i j with hij | hij
    · have hk := hup (k - i) (by omega)
      rwa [Nat.add_sub_cancel' (by omega)] at hk
    · have hk := hdown (i - k) (by omega)
      rwa [Nat.sub_sub_self (by omega)] at hk
  · intro halike
    refine List.ext_getElem? fun k => ?_
    rw [getElem?_move h j k hj]
    split_ifs with hk hup hdown
    · rw [hk, halike j (by omega) (by omega)]
    · rw [halike (k + 1) (by omega) (by omega), halike k (by omega) (by omega)]
    · rw [halike (k - 1) (by omega) (by omega), halike k (by omega) (by omega)]
    · rfl

theorem move_perm (l : List A) (i j : ℕ) (hj : j < l.length) : (move l i j).Perm l := by
  cases h : l[i]? with
  | none => simp only [move, h, List.Perm.refl]
  | some a =>
    obtain ⟨hlt, rfl⟩ := List.getElem?_eq_some_iff.mp h
    rw [move_eq h]
    refine (List.perm_insertIdx _ _ ?_).trans (List.getElem_cons_eraseIdx_perm hlt)
    have hlength := length_eraseIdx_succ h
    omega

variable {k : ℕ}

theorem move_injective (hnodup : l.Nodup) (hi : i < l.length) (hj : j < l.length)
    (hk : k < l.length) (h : move l i j = move l i k) : j = k := by
  have hget := List.getElem?_eq_getElem hi
  have hjth := getElem?_move hget j j hj
  have hkth := getElem?_move hget k k hk
  rw [if_pos rfl] at hjth hkth
  rw [h] at hjth
  have hnodup' : (move l i k).Nodup := (move_perm l i k hk).nodup_iff.mpr hnodup
  exact (List.getElem?_inj (List.getElem?_eq_some_iff.mp hjth).1 hnodup').mp (hjth.trans hkth.symm)

section Kinds

variable (p : A → Bool)

/-- The entries of one kind replaced, in order, by those given. -/
def fill : List A → List A → List A
  | [], _ => []
  | a :: rest, [] => a :: fill rest []
  | a :: rest, b :: given => if p a then b :: fill rest given else a :: fill rest (b :: given)

variable {p} {a : A} {rest' : List A} {b : A} {rest : List A} {l' : List A}

theorem fill_cons_pos (ha : p a) (rest : List A) (b : A) (given : List A) :
    fill p (a :: rest) (b :: given) = b :: fill p rest given := if_pos ha

theorem fill_cons_neg (ha : p a = false) (rest given : List A) :
    fill p (a :: rest) given = a :: fill p rest given := by
  cases given with
  | nil => rfl
  | cons b given => exact if_neg (by simp [ha])

/-- Every place holds an entry of the same kind as before, and the same entry
where that is another kind. -/
structure Kept (p : A → Bool) (l l' : List A) : Prop where
  kinds : l'.map p = l.map p
  others : ∀ (k : ℕ) (a : A), l[k]? = some a → p a = false → l'[k]? = some a

theorem Kept.tail (h : Kept p (a :: rest) (b :: rest')) : Kept p rest rest' :=
  ⟨(List.cons.inj h.kinds).2, fun k => h.others (k + 1)⟩

theorem Kept.cons (h : Kept p rest rest') (hkind : p b = p a) (hother : p a = false → b = a) :
    Kept p (a :: rest) (b :: rest') := by
  refine ⟨by rw [List.map_cons, List.map_cons, hkind, h.kinds], fun k c hk hc => ?_⟩
  cases k with
  | zero =>
    cases hk
    exact congrArg some (hother hc)
  | succ k => exact h.others k c hk hc

theorem Kept.refl (p : A → Bool) (l : List A) : Kept p l l := ⟨rfl, fun _ _ hk _ => hk⟩

/-- A list that keeps the others is got by filling in its own entries of the kind. -/
theorem fill_filter (h : Kept p l l') : fill p l (l'.filter p) = l' := by
  induction l generalizing l' with
  | nil =>
    obtain rfl := List.map_eq_nil_iff.mp h.kinds
    rfl
  | cons a rest ih =>
    cases l' with
    | nil => cases h.kinds
    | cons b rest' =>
      have hkind : p b = p a := (List.cons.inj h.kinds).1
      have hrest := ih h.tail
      cases hb : p b with
      | true => rw [List.filter_cons_of_pos hb, fill_cons_pos (hkind.symm.trans hb), hrest]
      | false =>
        have ha : p a = false := hkind.symm.trans hb
        obtain rfl : a = b := (Option.some.inj (h.others 0 a rfl ha)).symm
        rw [List.filter_cons_of_neg (by simp [hb]), fill_cons_neg ha, hrest]

variable {l given : List A} {i : ℕ}

/-- As many entries of the kind as there are places for them. -/
structure Fits (p : A → Bool) (l given : List A) : Prop where
  kind : ∀ b ∈ given, p b = true
  length : given.length = (l.filter p).length

theorem Fits.of_perm (h : given.Perm (l.filter p)) : Fits p l given :=
  ⟨fun _ hb => (List.mem_filter.mp (h.mem_iff.mp hb)).2, h.length_eq⟩

theorem Fits.fill (h : Fits p l given) :
    (fill p l given).filter p = given ∧ Kept p l (fill p l given) := by
  induction l generalizing given with
  | nil =>
    obtain rfl := List.length_eq_zero_iff.mp h.length
    exact ⟨rfl, Kept.refl p _⟩
  | cons a rest ih =>
    cases ha : p a with
    | false =>
      have hrest : Fits p rest given :=
        ⟨h.kind, h.length.trans (by rw [List.filter_cons_of_neg (by simp [ha])])⟩
      obtain ⟨hfilter, hkept⟩ := ih hrest
      rw [fill_cons_neg ha]
      exact ⟨by rw [List.filter_cons_of_neg (by simp [ha]), hfilter], hkept.cons rfl (fun _ => rfl)⟩
    | true =>
      have hlength := h.length
      rw [List.filter_cons_of_pos ha] at hlength
      cases given with
      | nil => simp at hlength
      | cons b given =>
        have hb := h.kind b List.mem_cons_self
        have hrest : Fits p rest given :=
          ⟨fun c hc => h.kind c (List.mem_cons_of_mem _ hc), by simpa using hlength⟩
        obtain ⟨hfilter, hkept⟩ := ih hrest
        rw [fill_cons_pos ha]
        refine ⟨by rw [List.filter_cons_of_pos hb, hfilter], hkept.cons (hb.trans ha.symm) ?_⟩
        intro hother
        rw [ha] at hother
        cases hother

theorem Kept.filter_not (h : Kept p l l') :
    l'.filter (fun a => !p a) = l.filter (fun a => !p a) := by
  induction l generalizing l' with
  | nil =>
    obtain rfl := List.map_eq_nil_iff.mp h.kinds
    rfl
  | cons a rest ih =>
    cases l' with
    | nil => cases h.kinds
    | cons b rest' =>
      have hkind : p b = p a := (List.cons.inj h.kinds).1
      cases ha : p a with
      | true => simp only [List.filter_cons, hkind, ha, Bool.not_true, Bool.false_eq_true, if_false,
          ih h.tail]
      | false =>
        obtain rfl : a = b := (Option.some.inj (h.others 0 a rfl ha)).symm
        simp only [List.filter_cons, ha, Bool.not_false, if_true, ih h.tail]

/-- Filling in the same entries in another order permutes the list. -/
theorem fill_perm (h : given.Perm (l.filter p)) : (fill p l given).Perm l := by
  obtain ⟨hfilter, hkept⟩ := (Fits.of_perm h).fill
  have hsplit := List.filter_append_perm p (Moves.fill p l given)
  rw [hfilter, hkept.filter_not] at hsplit
  exact hsplit.symm.trans ((h.append_right _).trans (List.filter_append_perm p l))

theorem exists_split (h : l[i]? = some a) :
    ∃ before after, l = before ++ a :: after ∧ i = before.length := by
  obtain ⟨hlt, rfl⟩ := List.getElem?_eq_some_iff.mp h
  exact ⟨l.take i, l.drop (i + 1), by simp, by simp [Nat.le_of_lt hlt]⟩

theorem getElem?_filter (h : l[i]? = some a) (ha : p a) :
    (l.filter p)[(l.take i).countP p]? = some a := by
  obtain ⟨before, after, rfl, rfl⟩ := exists_split h
  rw [List.take_left, List.filter_append, List.filter_cons_of_pos ha, List.countP_eq_length_filter,
    List.getElem?_append_right (Nat.le_refl _), Nat.sub_self]
  rfl

theorem filter_eraseIdx (h : l[i]? = some a) (ha : p a) :
    (l.eraseIdx i).filter p = (l.filter p).eraseIdx ((l.take i).countP p) := by
  obtain ⟨before, after, rfl, rfl⟩ := exists_split h
  rw [List.take_left, List.countP_eq_length_filter, List.filter_append, List.filter_cons_of_pos ha,
    List.eraseIdx_append_of_length_le (Nat.le_refl _), List.eraseIdx_append_of_length_le
      (Nat.le_refl _)]
  simp

theorem filter_insertIdx (ha : p a) (hj : j ≤ l.length) :
    (l.insertIdx j a).filter p = (l.filter p).insertIdx ((l.take j).countP p) a := by
  induction l generalizing j with
  | nil =>
    obtain rfl := Nat.le_zero.mp hj
    simp [ha]
  | cons b rest ih =>
    cases j with
    | zero => simp [ha]
    | succ j =>
      have hrest := ih (j := j) (Nat.le_of_succ_le_succ hj)
      rw [List.insertIdx_succ_cons, List.take_succ_cons, List.countP_cons]
      cases hb : p b with
      | true => simp [List.filter_cons_of_pos hb, hrest]
      | false => simp [List.filter_cons_of_neg, hb, hrest]

/-- Among the entries of its kind, too, an entry is moved: to as many of the
others as stand before its new place. -/
theorem filter_move (h : l[i]? = some a) (ha : p a) (hj : j < l.length) :
    (move l i j).filter p =
      move (l.filter p) ((l.take i).countP p) (((l.eraseIdx i).take j).countP p) := by
  have hlength := length_eraseIdx_succ h
  rw [move_eq h, filter_insertIdx ha (by omega), filter_eraseIdx h ha,
    move_eq (getElem?_filter h ha)]

theorem kept_move (h : l[i]? = some a) (hj : j < l.length)
    (hkind : ∀ k, min i j ≤ k → k ≤ max i j → (l[k]?).map p = some true) :
    Kept p l (move l i j) := by
  have hpat : (l.map p)[i]? = some true := by
    rw [List.getElem?_map]
    exact hkind i (by omega) (by omega)
  refine ⟨?_, fun k b hk hb => ?_⟩
  · rw [map_move, move_eq_self_iff hpat (by rwa [List.length_map])]
    intro k hmin hmax
    rw [List.getElem?_map]
    exact hkind k hmin hmax
  · have hout : ¬ (min i j ≤ k ∧ k ≤ max i j) := by
      rintro ⟨hmin, hmax⟩
      have hk' := hkind k hmin hmax
      rw [hk, Option.map_some, hb] at hk'
      cases hk'
    rw [getElem?_move h j k hj, if_neg (by omega), if_neg (by omega), if_neg (by omega)]
    exact hk

/-- A move in the list is the move among the entries of the kind exactly when
only entries of the kind lie between the two places, and as many of the others
stand before the new place as the move among them says. -/
theorem move_eq_fill_iff (hnodup : l.Nodup) (h : l[i]? = some a) (ha : p a) (hj : j < l.length)
    (hk : k < (l.filter p).length) :
    move l i j = fill p l (move (l.filter p) ((l.take i).countP p) k) ↔
      (∀ n, min i j ≤ n → n ≤ max i j → (l[n]?).map p = some true) ∧
        ((l.eraseIdx i).take j).countP p = k := by
  have hplace := getElem?_filter h ha
  have hplaceLt := (List.getElem?_eq_some_iff.mp hplace).1
  have hperm := move_perm (l.filter p) ((l.take i).countP p) k hk
  obtain ⟨hfilter, hkept⟩ := (Fits.of_perm hperm).fill
  have hcount : ((l.eraseIdx i).take j).countP p < (l.filter p).length := by
    have hle : ((l.eraseIdx i).take j).countP p ≤ ((l.eraseIdx i).filter p).length := by
      rw [← List.countP_eq_length_filter]
      exact (List.take_sublist j _).countP_le
    rw [filter_eraseIdx h ha, List.length_eraseIdx_of_lt hplaceLt] at hle
    omega
  constructor
  · intro hsame
    have hkinds : (move l i j).map p = l.map p := by
      rw [hsame]
      exact hkept.kinds
    have hpat : (l.map p)[i]? = some true := by
      rw [List.getElem?_map, h, Option.map_some, ha]
    rw [map_move, move_eq_self_iff hpat (by rwa [List.length_map])] at hkinds
    refine ⟨fun n hmin hmax => ?_, ?_⟩
    · rw [← List.getElem?_map]
      exact hkinds n hmin hmax
    · have hmoves := congrArg (List.filter p) hsame
      rw [filter_move h ha hj, hfilter] at hmoves
      exact move_injective (hnodup.filter p) hplaceLt hcount hk hmoves
  · rintro ⟨hkind, rfl⟩
    rw [← filter_move h ha hj]
    exact (fill_filter (kept_move h hj hkind)).symm

end Kinds

end Grafy.Moves
