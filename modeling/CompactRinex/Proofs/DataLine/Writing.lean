import CompactRinex.DataLine
import CompactRinex.Proofs.Difference.Reading

/-!
# Writing data lines

`DataLine.toText` writes the fields of a line with spaces between them, and after one more space the
edit of the flags unless it is empty. A field holds no space, so the line is taken apart where it
was put together (`parse_toText_line`).
-/

namespace CompactRinex.DataLine

/-- The edit of the flags as it stands after the last field. -/
def ending (flags : Text) : Text := if flags = [] then [] else ' ' :: flags

/-- The text of a line. -/
def toText (line : DataLine) : Text :=
  List.intercalate [' '] (line.fields.map Field.toText) ++ ending line.flags

/-- A field holds no space. -/
theorem ne_space_of_mem_toText {f : Field} {c : Char} (h : c ∈ f.toText) : (c != ' ') = true := by
  have hvisible := (Field.visible_of_mem_toText h).1
  rw [bne_iff_ne]
  rintro rfl
  exact absurd hvisible (by decide)

/-- A field ends at the space that follows it. -/
theorem splitSpace_append_space (f : Field) (rest : Text) :
    splitSpace (f.toText ++ ' ' :: rest) = (f.toText, rest) := by
  have hspace : ∀ c ∈ f.toText, (c != ' ') = true := fun c => ne_space_of_mem_toText
  rw [splitSpace, List.takeWhile_append_of_pos hspace, List.dropWhile_append_of_pos hspace]
  simp

/-- The last field ends at the edit of the flags, or with the line. -/
theorem splitSpace_append_ending (f : Field) (flags : Text) :
    splitSpace (f.toText ++ ending flags) = (f.toText, flags) := by
  have hspace : ∀ c ∈ f.toText, (c != ' ') = true := fun c => ne_space_of_mem_toText
  unfold ending
  split
  · next h =>
    rw [splitSpace, List.takeWhile_append_of_pos hspace, List.dropWhile_append_of_pos hspace, h]
    simp
  · exact splitSpace_append_space f flags

/-- The fields are taken off the line one by one. -/
theorem parseFields_intercalate {fields : List Field} (hne : fields ≠ [])
    (hbounded : ∀ f ∈ fields, f.Bounded) (flags : Text) :
    parseFields fields.length
      (List.intercalate [' '] (fields.map Field.toText) ++ ending flags) =
        .ok (fields, flags) := by
  induction fields with
  | nil => exact absurd rfl hne
  | cons f fs ih =>
    have hparse := Field.parse_toText (hbounded f (List.mem_cons_self ..))
    cases fs with
    | nil =>
      -- The last field: only the flags may follow.
      have hsplit := splitSpace_append_ending f flags
      simp only [List.map_cons, List.map_nil, List.intercalate_singleton, List.length_singleton,
        parseFields, hsplit, hparse, bind, Except.bind]
    | cons g gs =>
      have hrest := ih (List.cons_ne_nil _ _) fun f hf => hbounded f (List.mem_cons_of_mem _ hf)
      have hline : List.intercalate [' '] ((f :: g :: gs).map Field.toText) ++ ending flags =
          f.toText ++ ' ' ::
            (List.intercalate [' '] ((g :: gs).map Field.toText) ++ ending flags) := by
        simp [List.intercalate_cons_cons]
      rw [hline, List.length_cons, parseFields, splitSpace_append_space]
      simp only [hparse, hrest, bind, Except.bind]

/-- A written line reads back. -/
theorem parse_toText_line {line : DataLine} (hbounded : ∀ f ∈ line.fields, f.Bounded)
    (hflags : admitsFlags line.fields.length line.flags = true) :
    parse line.fields.length line.toText = .ok line := by
  obtain ⟨fields, flags⟩ := line
  cases fields with
  | nil =>
    -- There is no room for flags either.
    have hnil : flags = [] := by
      simp only [admitsFlags, List.length_nil, Nat.mul_zero, Bool.and_eq_true, decide_eq_true_eq,
        Nat.le_zero, List.length_eq_zero_iff] at hflags
      exact hflags.2
    subst hnil
    rfl
  | cons f fs =>
    have hfields := parseFields_intercalate (List.cons_ne_nil f fs) hbounded flags
    simp only [parse, toText, hfields, hflags, bind, Except.bind, if_true]

/-- Parts in ASCII make a line in ASCII. -/
theorem isAscii_intercalate {parts : List Text} (h : ∀ part ∈ parts, Text.isAscii part) :
    Text.isAscii (List.intercalate [' '] parts) := by
  induction parts with
  | nil => rfl
  | cons part rest ih =>
    have hpart := h part (List.mem_cons_self ..)
    cases rest with
    | nil => simpa using hpart
    | cons next rest =>
      have hrest := ih fun t ht => h t (List.mem_cons_of_mem _ ht)
      rw [List.intercalate_cons_cons, Text.isAscii_append, Text.isAscii_append, hpart, hrest]
      rfl

/-- A written line is ASCII. -/
theorem isAscii_toText {line : DataLine} (hflags : Text.isAscii line.flags) :
    Text.isAscii line.toText := by
  have hfields : Text.isAscii (List.intercalate [' '] (line.fields.map Field.toText)) := by
    refine isAscii_intercalate fun part hpart => ?_
    obtain ⟨f, -, rfl⟩ := List.mem_map.1 hpart
    exact Text.isAscii_iff.2 fun c hc => (Field.visible_of_mem_toText hc).2
  -- Blank flags are left out together with their separator.
  have hending : Text.isAscii (ending line.flags) := by
    unfold ending
    split
    · rfl
    · rw [← List.singleton_append, Text.isAscii_append, hflags]
      rfl
  rw [toText, Text.isAscii_append, hfields, hending]
  rfl

end CompactRinex.DataLine
