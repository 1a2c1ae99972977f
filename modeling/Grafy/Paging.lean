import Mathlib.Tactic.Linarith

/-!
Lists cut into pieces and read in windows. A window names places in a longer
list of which the items are a stretch. Pieces are cut as long as a count and a
sum of sizes allow. Reading a window from descriptors of the pieces gives the
same items as reading it from the whole list.
-/
namespace Grafy.Paging

variable {α δ ε : Type*}

/-! Windows -/

/-- The items with a place from `start` up to `stop`, the first of all having the place `first`. -/
def window (start stop first : ℕ) (items : List α) : List α :=
  (items.take (stop - first)).drop (start - first)

variable {start stop first : ℕ} {items : List α}

@[simp] theorem window_nil : window start stop first ([] : List α) = [] := by simp [window]

theorem window_append (items more : List α) :
    window start stop first (items ++ more) =
      window start stop first items ++ window start stop (first + items.length) more := by
  unfold window
  rw [List.take_append, List.drop_append, List.length_take]
  congr 1
  by_cases hlong : items.length ≤ stop - first
  · rw [Nat.min_eq_right hlong, Nat.sub_sub, Nat.sub_sub]
  · have hnone : stop - first - items.length = 0 := by omega
    have hnone' : stop - (first + items.length) = 0 := by omega
    rw [hnone, hnone', List.take_zero, List.drop_nil, List.drop_nil]

theorem window_singleton (item : α) :
    window start stop first [item] = if start ≤ first ∧ first < stop then [item] else [] := by
  unfold window
  split
  · rename_i h
    have hstart : start - first = 0 := by omega
    have hstop : stop - first = (stop - first - 1) + 1 := by omega
    rw [hstart, hstop, List.drop_zero, List.take_succ_cons, List.take_nil]
  · rename_i h
    by_cases hstop : stop ≤ first
    · rw [Nat.sub_eq_zero_of_le hstop, List.take_zero, List.drop_nil]
    · have hstart : start - first = (start - first - 1) + 1 := by omega
      rw [hstart]
      exact List.drop_eq_nil_of_le (by rw [List.length_take, List.length_singleton]; omega)

theorem window_eq_filter (items : List α) :
    window start stop first items =
      ((items.zipIdx first).filter (fun entry => start ≤ entry.2 && entry.2 < stop)).map
        Prod.fst := by
  induction items generalizing first with
  | nil => simp
  | cons item items ih =>
    rw [← List.singleton_append, window_append, window_singleton, List.length_singleton, ih,
      List.singleton_append, List.zipIdx_cons, List.filter_cons]
    by_cases h : start ≤ first ∧ first < stop
    · rw [if_pos h, if_pos (by simpa using h)]
      rfl
    · rw [if_neg h, if_neg (by simpa using h)]
      rfl

theorem window_eq_nil (h : first + items.length ≤ start ∨ stop ≤ first) :
    window start stop first items = [] := by
  refine List.drop_eq_nil_of_le ?_
  rw [List.length_take]
  omega

theorem window_eq_self (hstart : start ≤ first) (hstop : first + items.length ≤ stop) :
    window start stop first items = items := by
  unfold window
  rw [Nat.sub_eq_zero_of_le hstart, List.drop_zero, List.take_of_length_le (by omega)]

theorem window_eq_nil_of_le (h : stop ≤ start) : window start stop first items = [] := by
  refine List.drop_eq_nil_of_le ?_
  rw [List.length_take]
  omega

theorem length_window_le (items : List α) :
    (window start stop first items).length ≤ items.length - (start - first) := by
  unfold window
  rw [List.length_drop, List.length_take]
  omega

theorem window_join {middle : ℕ} (items : List α) (h : start ≤ middle) (h' : middle ≤ stop) :
    window start middle first items ++ window middle stop first items =
      window start stop first items := by
  induction items generalizing first with
  | nil => simp
  | cons item items ih =>
    rw [← List.singleton_append, window_append, window_append, window_append, ← ih]
    simp only [window_singleton, List.length_singleton]
    by_cases hfirst : first < middle
    · have hnone : ¬ (middle ≤ first ∧ first < stop) := by omega
      have hsame : (start ≤ first ∧ first < middle) ↔ (start ≤ first ∧ first < stop) := by omega
      simp only [if_neg hnone, hsame, List.nil_append, List.append_assoc]
    · have hnone : ¬ (start ≤ first ∧ first < middle) := by omega
      have hbefore : window start middle (first + 1) items = [] := window_eq_nil (by omega)
      have hsame : (middle ≤ first ∧ first < stop) ↔ (start ≤ first ∧ first < stop) := by omega
      simp only [if_neg hnone, hsame, hbefore, List.nil_append]

theorem window_clamp {total : ℕ} (h : first + items.length ≤ total) :
    window (min start total) (min stop total) first items = window start stop first items := by
  have hstop : items.take (min stop total - first) = items.take (stop - first) := by
    rcases Nat.le_total stop total with hle | hle
    · rw [Nat.min_eq_left hle]
    · rw [Nat.min_eq_right hle, List.take_of_length_le (by omega),
        List.take_of_length_le (by omega)]
  unfold window
  rw [hstop]
  rcases Nat.le_total start total with hle | hle
  · rw [Nat.min_eq_left hle]
  · rw [Nat.min_eq_right hle, List.drop_eq_nil_of_le (by rw [List.length_take]; omega),
      List.drop_eq_nil_of_le (by rw [List.length_take]; omega)]

/-- A window in places of the items' own. -/
theorem window_local (items : List α) :
    window (min items.length (start - first)) (min items.length (stop - first)) 0 items =
      window start stop first items := by
  rw [Nat.min_comm, Nat.min_comm items.length, window_clamp (Nat.zero_add _).le]
  rfl

/-- The items of a window stand in the whole list from its place on. -/
theorem window_eq_take (items : List α) :
    window start stop first items =
      (items.drop (start - first)).take (window start stop first items).length := by
  unfold window
  rw [List.drop_take, List.length_take, List.take_eq_take_iff]
  omega

/-- The windows of pages that follow each other from a place on. -/
def pages : ℕ → List ℕ → List (ℕ × ℕ)
  | _, [] => []
  | offset, limit :: rest => (offset, limit) :: pages (offset + limit) rest

theorem flatMap_pages (offset : ℕ) (limits : List ℕ) (items : List α) :
    (pages offset limits).flatMap (fun page => window page.1 (page.1 + page.2) first items) =
      window offset (offset + limits.sum) first items := by
  induction limits generalizing offset with
  | nil => simp [pages, window]
  | cons limit limits ih =>
    rw [pages, List.flatMap_cons, ih, List.sum_cons, ← Nat.add_assoc,
      window_join items (Nat.le_add_right _ _) (Nat.le_add_right _ _)]

theorem mem_pages {offset : ℕ} {limits : List ℕ} {page : ℕ × ℕ} (h : page ∈ pages offset limits) :
    page.2 ∈ limits := by
  induction limits generalizing offset with
  | nil => cases h
  | cons limit limits ih =>
    rcases List.mem_cons.mp h with rfl | h
    · exact List.mem_cons_self
    · exact List.mem_cons_of_mem _ (ih h)

/-! Pieces -/

section Cutting

variable (size : α → ℕ) (maxCount target : ℕ)

/-- The items that go into a piece and those that are left: one more is taken while there are
fewer than `maxCount` and, but for the first, the sizes and one for each item stay within the
target. -/
def takeFitting (count estimated : ℕ) : List α → List α × List α
  | [] => ([], [])
  | item :: rest =>
    if maxCount ≤ count then ([], item :: rest)
    else if 0 < count ∧ target < estimated + size item then ([], item :: rest)
    else
      let cut := takeFitting (count + 1) (estimated + (size item + 1)) rest
      (item :: cut.1, cut.2)

theorem takeFitting_append (count estimated : ℕ) (items : List α) :
    (takeFitting size maxCount target count estimated items).1 ++
      (takeFitting size maxCount target count estimated items).2 = items := by
  fun_induction takeFitting size maxCount target count estimated items with
  | case1 => rfl
  | case2 => rfl
  | case3 => rfl
  | case4 count estimated item rest _ _ cut ih => rw [List.cons_append, ih]

theorem length_takeFitting_le (count estimated : ℕ) (items : List α) :
    count + (takeFitting size maxCount target count estimated items).1.length ≤
      max count maxCount := by
  fun_induction takeFitting size maxCount target count estimated items with
  | case1 => exact Nat.le_max_left _ _
  | case2 => exact Nat.le_max_left _ _
  | case3 => exact Nat.le_max_left _ _
  | case4 count estimated item rest _ _ cut ih =>
    have hcut : count + 1 + cut.1.length ≤ max (count + 1) maxCount := ih
    rw [List.length_cons]
    omega

/-- The first item is taken whatever its size. -/
theorem takeFitting_ne_nil (hpos : 0 < maxCount) (estimated : ℕ) (item : α) (rest : List α) :
    (takeFitting size maxCount target 0 estimated (item :: rest)).1 ≠ [] := by
  rw [takeFitting, if_neg (by omega), if_neg (by omega)]
  exact List.cons_ne_nil _ _

theorem takeFitting_rest_length (hpos : 0 < maxCount) (estimated : ℕ) (item : α) (rest : List α) :
    (takeFitting size maxCount target 0 estimated (item :: rest)).2.length <
      (item :: rest).length := by
  have hne := List.length_pos_iff.mpr (takeFitting_ne_nil size maxCount target hpos estimated item
    rest)
  have happend := congrArg List.length
    (takeFitting_append size maxCount target 0 estimated (item :: rest))
  rw [List.length_append] at happend
  omega

variable {maxCount}

/-- The pieces, one after the other, each with the place of its first item. -/
def cutFitting (hpos : 0 < maxCount) (opening offset : ℕ) (items : List α) : List (ℕ × List α) :=
  match items with
  | [] => []
  | item :: rest =>
    let cut := takeFitting size maxCount target 0 opening (item :: rest)
    (offset, cut.1) :: cutFitting hpos opening (offset + cut.1.length) cut.2
termination_by items.length
decreasing_by exact takeFitting_rest_length size maxCount target hpos opening item rest

/-- The pieces are the items again, none of them empty or too long. -/
theorem cutFitting_spec (hpos : 0 < maxCount) (opening offset : ℕ) (items : List α) :
    (cutFitting size target hpos opening offset items).flatMap Prod.snd = items ∧
      ∀ piece ∈ cutFitting size target hpos opening offset items,
        piece.2 ≠ [] ∧ piece.2.length ≤ maxCount := by
  fun_induction cutFitting size target hpos opening offset items with
  | case1 => exact ⟨rfl, nofun⟩
  | case2 offset item rest cut ih =>
    have happend : cut.1 ++ cut.2 = item :: rest := takeFitting_append size _ target 0 opening _
    have hlength : 0 + cut.1.length ≤ max 0 maxCount :=
      length_takeFitting_le size maxCount target 0 opening _
    refine ⟨by rw [List.flatMap_cons, ih.1, happend], fun piece hpiece => ?_⟩
    rcases List.mem_cons.mp hpiece with rfl | hpiece
    · exact ⟨takeFitting_ne_nil size maxCount target hpos opening item rest, by simpa using hlength⟩
    · exact ih.2 piece hpiece

end Cutting

/-! Descriptors of pieces -/

section Reading

variable (offset count : δ → ℕ)

/-- The pieces follow each other from the expected place on; the place after the last. -/
@[simp] def covered (expected : ℕ) : List δ → Option ℕ
  | [] => some expected
  | piece :: rest =>
    if offset piece ≠ expected then none else covered (expected + count piece) rest

/-- The items with places from `start` up to `stop`, loaded piece by piece; a piece outside is
skipped. -/
@[simp] def readWindow (load : δ → Except ε (List α)) (start stop : ℕ) : List δ → Except ε (List α)
  | [] => .ok []
  | piece :: rest =>
    let pieceEnd := offset piece + count piece
    if pieceEnd ≤ start ∨ stop ≤ offset piece then readWindow load start stop rest
    else
      match load piece with
      | .error e => .error e
      | .ok items =>
        match readWindow load start stop rest with
        | .error e => .error e
        | .ok more =>
          .ok ((items.take (min stop pieceEnd - offset piece)).drop
            (max start (offset piece) - offset piece) ++ more)

variable {offset count} {expected : ℕ} {l : List δ} {total : ℕ} {piece : δ}
  {load : δ → Except ε (List α)}

theorem covered_cutFitting (size : α → ℕ) {maxCount : ℕ} (target : ℕ) (hpos : 0 < maxCount)
    (opening first : ℕ) (items : List α) :
    covered Prod.fst (fun piece => piece.2.length)
      first (cutFitting size target hpos opening first items) = some (first + items.length) := by
  fun_induction cutFitting size target hpos opening first items with
  | case1 => rfl
  | case2 first item rest cut ih =>
    have happend : cut.1 ++ cut.2 = item :: rest := takeFitting_append size _ target 0 opening _
    rw [covered, if_neg (by simp), ih, ← happend, List.length_append, Nat.add_assoc]

/-- Descriptors with the places and counts of other ones cover what these cover. -/
theorem covered_congr {δ' : Type*} {offset' count' : δ' → ℕ} {l' : List δ'}
    (h : List.Forall₂ (fun piece piece' => offset piece = offset' piece' ∧ count piece = count'
      piece') l l') :
    covered offset count expected l = covered offset' count' expected l' := by
  induction h generalizing expected with
  | nil => rfl
  | cons hpiece _ ih => rw [covered, covered, hpiece.1, hpiece.2, ih]

theorem le_of_covered (h : covered offset count expected l = some total) : expected ≤ total := by
  induction l generalizing expected with
  | nil => exact (Option.some.inj h).le
  | cons piece rest ih =>
    rw [covered] at h
    split at h
    · cases h
    · exact (Nat.le_add_right _ _).trans (ih h)

theorem within_of_covered (h : covered offset count expected l = some total) (hpiece : piece ∈ l) :
    expected ≤ offset piece ∧ offset piece + count piece ≤ total := by
  induction l generalizing expected with
  | nil => cases hpiece
  | cons head rest ih =>
    rw [covered] at h
    split at h
    · cases h
    rename_i hoffset
    rw [ne_eq, not_not] at hoffset
    have hle := le_of_covered h
    rcases List.mem_cons.mp hpiece with rfl | hpiece
    · omega
    · obtain ⟨hfrom, hto⟩ := ih h hpiece
      omega

/-- A slice of a piece is its part of the window. -/
theorem slice_eq_window (start stop first : ℕ) (items : List α) :
    (items.take (min stop (first + items.length) - first)).drop (max start first - first) =
      window start stop first items := by
  have htake : items.take (min stop (first + items.length) - first) =
      items.take (stop - first) := by
    rw [List.take_eq_take_iff]
    omega
  have hdrop : max start first - first = start - first := by omega
  rw [htake, hdrop]
  rfl

/-- Reading the pieces in a window reads the window of all their items. -/
theorem readWindow_eq {start stop first : ℕ} {pieces : List (List α)}
    (hload : List.Forall₂ (fun descriptor items => load descriptor = .ok items ∧ count descriptor =
      items.length) l pieces) (hcovered : covered offset count first l = some total) :
    readWindow offset count load start stop l = .ok (window start stop first pieces.flatten) := by
  induction hload generalizing first with
  | nil => rw [List.flatten_nil, window_nil]; rfl
  | @cons descriptor items l pieces hpiece _ ih =>
    obtain ⟨hitems, hcount⟩ := hpiece
    rw [covered] at hcovered
    split at hcovered
    · cases hcovered
    rename_i hoffset
    rw [ne_eq, not_not] at hoffset
    rw [hcount] at hcovered
    rw [List.flatten_cons, window_append, readWindow, hoffset, hcount]
    split
    · rename_i houtside
      rw [ih hcovered, window_eq_nil houtside, List.nil_append]
    · rename_i hinside
      rw [not_or, Nat.not_le, Nat.not_le] at hinside
      rw [hitems, ih hcovered]
      simp only [slice_eq_window]

theorem load_of_readWindow {start stop : ℕ} {items : List α}
    (h : readWindow offset count load start stop l = .ok items) (hpiece : piece ∈ l)
    (hstart : start < offset piece + count piece) (hstop : offset piece < stop) :
    ∃ loaded, load piece = .ok loaded := by
  induction l generalizing items with
  | nil => cases hpiece
  | cons head rest ih =>
    rw [readWindow] at h
    split at h
    · rename_i houtside
      rcases List.mem_cons.mp hpiece with rfl | hpiece
      · omega
      · exact ih h hpiece
    · split at h
      · cases h
      rename_i loaded hloaded
      split at h
      · cases h
      rename_i more hmore
      rcases List.mem_cons.mp hpiece with rfl | hpiece
      · exact ⟨loaded, hloaded⟩
      · exact ih hmore hpiece

end Reading

end Grafy.Paging
