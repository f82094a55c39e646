import CompactRinex.Proofs.Text.Lines

/-!
# Rows

A sequence that is too long for one line is cut into rows of a given length, the last of which may
be shorter, and the rows are written on lines of their own. Both steps can be undone: the rows put
together are the sequence (`flatten_groups`), and the lines are the segments of the text between the
separators (`segments_intercalate`).
-/

namespace CompactRinex

namespace Text

/-- A sequence cut into pieces of `n`, the last of which may be shorter. -/
def groups {α : Type} (n : ℕ) (xs : List α) : List (List α) :=
  (List.range ((xs.length + (n - 1)) / n)).map fun row => (xs.drop (n * row)).take n

variable {α : Type} {n : ℕ}

/-- The last group may be short. -/
@[simp] theorem length_groups (n : ℕ) (xs : List α) :
    (groups n xs).length = (xs.length + (n - 1)) / n := by
  simp [groups]

/-- A group starts where the ones before it end. -/
theorem getElem_groups {xs : List α} {row : ℕ} (h : row < (groups n xs).length) :
    (groups n xs)[row] = (xs.drop (n * row)).take n := by
  simp [groups]

/-- The groups consist of the list. -/
theorem mem_of_mem_groups {xs row : List α} (hrow : row ∈ groups n xs) {x : α} (hx : x ∈ row) :
    x ∈ xs := by
  obtain ⟨i, -, rfl⟩ := List.mem_map.1 hrow
  exact List.mem_of_mem_drop (List.mem_of_mem_take hx)

/-- The first row is cut off, and the rest is cut into rows. -/
theorem groups_of_ne_nil (hn : 0 < n) {xs : List α} (h : xs ≠ []) :
    groups n xs = xs.take n :: groups n (xs.drop n) := by
  have hpos : 0 < xs.length := List.length_pos_iff.2 h
  have hcount : (xs.length + (n - 1)) / n = (xs.length - n + (n - 1)) / n + 1 := by
    by_cases hle : n ≤ xs.length
    · rw [← Nat.add_div_right _ hn]
      congr 1
      omega
    · -- A sequence shorter than a row is one row.
      have hone : (xs.length + (n - 1)) / n = 1 := Nat.div_eq_of_lt_le (by omega) (by omega)
      have hrest : (xs.length - n + (n - 1)) / n = 0 := Nat.div_eq_of_lt (by omega)
      rw [hone, hrest]
  rw [groups, hcount, List.range_succ_eq_map, List.map_cons, List.map_map, groups,
    List.length_drop]
  congr 1
  refine List.map_congr_left fun row _ => ?_
  rw [Function.comp_apply, List.drop_drop, Nat.mul_succ, Nat.add_comm]

/-- The rows of a sequence put together are the sequence. -/
theorem flatten_groups (hn : 0 < n) (xs : List α) : (groups n xs).flatten = xs := by
  by_cases h : xs = []
  · subst h
    have hzero : (n - 1) / n = 0 := Nat.div_eq_of_lt (by omega)
    simp [groups, hzero]
  · have hshorter : (xs.drop n).length < xs.length := by
      have hpos := List.length_pos_iff.2 h
      rw [List.length_drop]
      omega
    rw [groups_of_ne_nil hn h, List.flatten_cons, flatten_groups hn (xs.drop n),
      List.take_append_drop]
termination_by xs.length

/-- The lines that have been written with separators between them are found again. -/
theorem segments_intercalate {isSep : α → Bool} {sep : α} (hsep : isSep sep = true)
    {lines : List (List α)} (hne : lines ≠ [])
    (h : ∀ line ∈ lines, ∀ x ∈ line, isSep x = false) :
    segments isSep (List.intercalate [sep] lines) = lines := by
  induction lines with
  | nil => exact absurd rfl hne
  | cons line rest ih =>
    -- A single line is its own only piece.
    have hline : segments isSep (line ++ []) = [line ++ []] :=
      segments_append_of_forall isSep (h line List.mem_cons_self) rfl
    rw [List.append_nil] at hline
    cases rest with
    | nil => rw [List.intercalate_singleton, hline]
    | cons next rest =>
      have hrest := ih (List.cons_ne_nil next rest) fun l hl => h l (List.mem_cons_of_mem _ hl)
      rw [List.intercalate_cons_cons, List.append_assoc, List.singleton_append,
        segments_append_sep isSep hsep, hline, hrest]
      rfl

/-- Each part but the first follows a separator. -/
theorem intercalate_cons (sep : α) (first : List α) (rest : List (List α)) :
    List.intercalate [sep] (first :: rest) = first ++ rest.flatMap (sep :: ·) := by
  induction rest generalizing first with
  | nil => simp
  | cons next rest ih => simp [List.intercalate_cons_cons, ih]

end Text

end CompactRinex
