import CompactRinex.Proofs.Header.Definitions
import CompactRinex.Proofs.Text.Rows
import CompactRinex.Proofs.Text.Words

/-!
# Written definitions

A definition of observables is written on lines of 60 columns and a label. The first line gives the
system, if the definition is for one, and the number of observables in its first six columns; on all
further lines these are blank. The codes follow in fields of fixed width, as many on a line as there
is room for (`WrittenDefinition.lines`).

The lines say what was written (`remark_first`, `remark_further`): the offsets at which they are cut
are those of the fields, or one column further, where the field of a code is blank. Read one after
the other, the lines of some definitions give each constellation its last one
(`lastDefinition_lines`).
-/

namespace CompactRinex

/-! ## Forms -/

/-- A satellite system that has a definition of its own. -/
inductive SatelliteSystem where
  | gps | beidou | galileo | glonass | qzss | irnss | sbas
  deriving DecidableEq, Repr

namespace SatelliteSystem

/-- The letter by which a definition names the system. -/
def letter : SatelliteSystem → Char
  | gps => 'G'
  | beidou => 'C'
  | galileo => 'E'
  | glonass => 'R'
  | qzss => 'J'
  | irnss => 'I'
  | sbas => 'S'

/-- The constellation of a system. -/
def constellation : SatelliteSystem → Constellation
  | gps => .gps
  | beidou => .beidou
  | galileo => .galileo
  | glonass => .glonass
  | qzss => .qzss
  | irnss => .irnss
  | sbas => .sbas

/-- A system is read off its letter. -/
theorem systemOf_letter (s : SatelliteSystem) :
    Header.systemOf [s.letter] = .ok s.constellation := by
  cases s <;> rfl

/-- A letter is not blank. -/
theorem trim_letter (s : SatelliteSystem) : Text.trim [s.letter] = [s.letter] := by
  cases s <;> rfl

end SatelliteSystem

/-- How a definition is written: for all constellations together, or for one system. -/
inductive DefinitionForm where
  | shared
  | system (s : SatelliteSystem)
  deriving DecidableEq, Repr

namespace DefinitionForm

/-- The constellation that the definition is for. -/
def constellation : DefinitionForm → Constellation
  | shared => .mixed
  | system s => s.constellation

/-- The label of the lines. -/
def label : DefinitionForm → Text
  | shared => "# / TYPES OF OBSERV".toList
  | system _ => "SYS / # / OBS TYPES".toList

/-- What stands before the number of observables. -/
def front : DefinitionForm → Text
  | shared => []
  | system s => [s.letter, ' ', ' ']

/-- The columns of the number of observables. -/
def countWidth : DefinitionForm → ℕ
  | shared => 6
  | system _ => 3

/-- The columns of a code. -/
def codeWidth : DefinitionForm → ℕ
  | shared => 6
  | system _ => 4

/-- The number of codes on a full line. -/
def perLine : DefinitionForm → ℕ
  | shared => 9
  | system _ => 13

/-- A line of a definition: six columns, a row of codes, and the label. -/
def line (form : DefinitionForm) (head : Text) (row : List (CodeField form.codeWidth)) : Text :=
  Text.padRight 60 (head ++ CodeField.rowText row) ++ form.label

end DefinitionForm

/-- A definition as it is written. -/
structure WrittenDefinition where
  /-- What the definition is for. -/
  form : DefinitionForm
  /-- The number of observables that the definition states. -/
  declared : ℕ
  /-- The field of this number. -/
  count : WordField form.countWidth
  /-- The number is in decimal digits. -/
  count_word : count.word = Numeral.digits declared
  /-- The fields of the codes. -/
  fields : List (CodeField form.codeWidth)

namespace WrittenDefinition

/-- What the definition says. -/
def definition (d : WrittenDefinition) : Definition := ⟨d.declared, CodeField.codes d.fields⟩

/-- The lines of the definition. There is always one, also if there are no codes. -/
def lines (d : WrittenDefinition) : List Text :=
  d.form.line (d.form.front ++ d.count.text) (d.fields.take d.form.perLine) ::
    (Text.groups d.form.perLine (d.fields.drop d.form.perLine)).map
      (d.form.line (Text.blanks 6))

end WrittenDefinition

/-- The last of some definitions that is for a constellation. -/
def lastWritten (definitions : List WrittenDefinition) (c : Constellation) : Option Definition :=
  (definitions.reverse.find? fun d => d.form.constellation = c).map WrittenDefinition.definition

/-! ## Labels -/

namespace Header

/-- The label of a line. A line that is not ASCII or ends before the label has none. -/
def label? (line : Text) : Option Text :=
  if !Text.isAscii line || line.length < 60 then none else some (Text.trim (line.drop 60))

/-- A line without a label is no remark. -/
theorem ofLine_of_no_label {line : Text} (h : label? line = none) :
    Remark.ofLine line = .other := by
  unfold label? at h
  unfold Remark.ofLine
  split at h
  · next hrefused =>
    dsimp only
    rw [if_pos hrefused]
  · cases h

/-- The remark of a line is that of its first 60 columns, according to the label. -/
theorem ofLine_of_label {line label : Text} (h : label? line = some label) :
    Remark.ofLine line =
      if label = "# / TYPES OF OBSERV".toList then .ofSharedTypes (line.take 60)
      else if label = "SYS / # / OBS TYPES".toList then .ofSystemTypes (line.take 60)
      else if label = "END OF HEADER".toList then .ends
      else .other := by
  unfold label? at h
  unfold Remark.ofLine
  split at h
  · cases h
  · next hlabelled =>
    cases h
    simp only [hlabelled, if_false, Bool.false_eq_true]

end Header

/-! ## The first 60 columns -/

namespace Remark

variable {n : ℕ} {tail : Text}

/-- A line with a count starts a definition. -/
theorem ofSharedTypes_count (count : WordField 6)
    (hcount : Numeral.readCount count.word = some n) :
    ofSharedTypes (count.text ++ tail) = .defines .mixed n (Text.words tail) := by
  have hword : count.word.isEmpty = false := List.isEmpty_eq_false_iff.2 count.ne_nil
  simp only [ofSharedTypes, List.take_left' count.length_text, List.drop_left' count.length_text,
    count.trim_text, hword, Bool.false_eq_true, if_false, ofTypes, count.trim_word, hcount,
    Option.elim_some]

/-- A line without one goes on with it. -/
theorem ofSharedTypes_blanks :
    ofSharedTypes (Text.blanks 6 ++ tail) = .continues (Text.words tail) := by
  have hblank : Text.trim (Text.blanks 6) = [] := rfl
  simp only [ofSharedTypes, List.take_left' (Text.length_blanks 6),
    List.drop_left' (Text.length_blanks 6), hblank, List.isEmpty_nil, if_true, ofTypes]

/-- The codes are cut off one column late. A separated row loses a blank. -/
theorem ofSystemTypes_count (s : SatelliteSystem) (count : WordField 3)
    (hcount : Numeral.readCount count.word = some n) (htail : Text.Separated tail) :
    ofSystemTypes ([s.letter, ' ', ' '] ++ count.text ++ tail) =
      .defines s.constellation n (Text.words tail) := by
  have hsystem : ([s.letter, ' ', ' '] ++ count.text ++ tail).take 1 = [s.letter] := rfl
  have hnumber : (([s.letter, ' ', ' '] ++ count.text ++ tail).drop 3).take 3 = count.text :=
    List.take_left' count.length_text
  -- The codes start behind the count, after the one space that is skipped.
  have hcodes : ([s.letter, ' ', ' '] ++ count.text ++ tail).drop (6 + 1) = tail.drop 1 := by
    have hhead : ([s.letter, ' ', ' '] ++ count.text).length = 6 := by
      rw [List.length_append, count.length_text]
      rfl
    rw [← List.drop_drop, List.drop_left' hhead]
  have hletter : ([s.letter] : Text).isEmpty = false := rfl
  simp only [ofSystemTypes, hsystem, s.trim_letter, hletter, Bool.false_eq_true, if_false,
    s.systemOf_letter, hnumber, hcodes, htail.words_drop_one, ofTypes, count.trim_text, hcount,
    Option.elim_some]

/-- So does a line without a system. -/
theorem ofSystemTypes_blanks (htail : Text.Separated tail) :
    ofSystemTypes (Text.blanks 6 ++ tail) = .continues (Text.words tail) := by
  have hsystem : Text.trim ((Text.blanks 6 ++ tail).take 1) = [] := rfl
  have hcodes : (Text.blanks 6 ++ tail).drop (6 + 1) = tail.drop 1 := by
    rw [← List.drop_drop, List.drop_left' (Text.length_blanks 6)]
  simp only [ofSystemTypes, hsystem, List.isEmpty_nil, if_true, hcodes, htail.words_drop_one,
    ofTypes]

end Remark

/-! ## The lines of a definition -/

namespace DefinitionForm

variable {form : DefinitionForm} {head : Text} {row : List (CodeField form.codeWidth)}

/-- A full line of codes ends before the label. -/
theorem length_head_add_le (hhead : head.length = 6) (hrow : row.length ≤ form.perLine) :
    (head ++ CodeField.rowText row).length ≤ 60 := by
  rw [List.length_append, CodeField.length_rowText, hhead]
  cases form with
  | shared => simp only [perLine, codeWidth] at hrow ⊢; omega
  | system s => simp only [perLine, codeWidth] at hrow ⊢; omega

/-- A line of a definition has its label, and the columns before it are the head, the row of codes
and spaces. -/
theorem line_columns (hascii : Text.isAscii head = true) (hhead : head.length = 6)
    (hrow : row.length ≤ form.perLine) :
    Header.label? (form.line head row) = some form.label ∧
      ∃ n, (form.line head row).take 60 = head ++ (CodeField.rowText row ++ Text.blanks n) := by
  have hle := length_head_add_le hhead hrow
  have hlength : (Text.padRight 60 (head ++ CodeField.rowText row)).length = 60 := by
    rw [Text.length_padRight]
    omega
  -- The labels stand for themselves, they have no blanks around them.
  have hlabel : Text.isAscii form.label = true ∧ Text.trim form.label = form.label := by
    cases form with
    | shared => exact ⟨rfl, rfl⟩
    | system s => exact ⟨rfl, rfl⟩
  constructor
  · have hline : Text.isAscii (form.line head row) = true := by
      rw [line, Text.isAscii_append, Text.padRight, Text.isAscii_append_blanks,
        Text.isAscii_append, hascii, CodeField.isAscii_rowText, hlabel.1]
      rfl
    have hlong : ¬ (form.line head row).length < 60 := by
      rw [line, List.length_append, hlength]
      omega
    rw [Header.label?, hline, line, List.drop_left' hlength, hlabel.2, ← line]
    simp [hlong]
  · refine ⟨60 - (head ++ CodeField.rowText row).length, ?_⟩
    rw [line, List.take_left' hlength, Text.padRight, List.append_assoc]

/-- A line with blanks in front continues the definition before it. -/
theorem remark_further (hrow : row.length ≤ form.perLine) :
    Remark.ofLine (form.line (Text.blanks 6) row) = .continues (CodeField.codes row) := by
  obtain ⟨hlabel, n, hcontent⟩ :=
    line_columns (Text.isAscii_blanks 6) (Text.length_blanks 6) hrow
  have htail := CodeField.separated_rowText row n
  rw [Header.ofLine_of_label hlabel, hcontent, ← CodeField.words_rowText row n]
  generalize CodeField.rowText row ++ Text.blanks n = tail at htail ⊢
  cases form with
  | shared => exact Remark.ofSharedTypes_blanks
  | system s => exact Remark.ofSystemTypes_blanks htail

end DefinitionForm

namespace WrittenDefinition

variable (d : WrittenDefinition)

/-- The front of a definition has six columns. -/
theorem length_front_count : (d.form.front ++ d.count.text).length = 6 := by
  rw [List.length_append, d.count.length_text]
  cases d.form with
  | shared => rfl
  | system s => rfl

/-- The front of a definition is ASCII. -/
theorem isAscii_front_count : Text.isAscii (d.form.front ++ d.count.text) = true := by
  have hfront : Text.isAscii d.form.front = true := by
    cases d.form with
    | shared => rfl
    | system s => cases s <;> rfl
  rw [Text.isAscii_append, hfront, d.count.isAscii_text]
  rfl

/-- The stated number fits its columns, so it is read back. -/
theorem readCount_word : Numeral.readCount d.count.word = some d.declared := by
  have hdigits : (Numeral.digits d.declared).length ≤ 6 := by
    have hfits := d.count.fits
    rw [d.count_word] at hfits
    have hwidth : d.form.countWidth ≤ 6 := by
      cases d.form with
      | shared => exact (by decide : 6 ≤ 6)
      | system s => exact (by decide : 3 ≤ 6)
    omega
  -- A number of six digits is counted in 64 bits.
  have hsmall : d.declared < UInt64.size := calc
    d.declared < 10 ^ (Numeral.digits d.declared).length := Column.lt_pow_length_digits _
    _ ≤ 10 ^ 6 := Nat.pow_le_pow_right (by decide) hdigits
    _ < UInt64.size := by decide
  rw [d.count_word, Numeral.readCount_digits hsmall]

variable {row : List (CodeField d.form.codeWidth)}

/-- The first line starts the definition. -/
theorem remark_first (hrow : row.length ≤ d.form.perLine) :
    Remark.ofLine (d.form.line (d.form.front ++ d.count.text) row) =
      .defines d.form.constellation d.declared (CodeField.codes row) := by
  obtain ⟨hlabel, n, hcontent⟩ :=
    DefinitionForm.line_columns d.isAscii_front_count d.length_front_count hrow
  have hcount := d.readCount_word
  have htail := CodeField.separated_rowText row n
  rw [Header.ofLine_of_label hlabel, hcontent, ← CodeField.words_rowText row n]
  -- Beyond the count only the words count that the row is read as.
  generalize CodeField.rowText row ++ Text.blanks n = tail at htail ⊢
  obtain ⟨form, declared, count, hword, fields⟩ := d
  cases form with
  | shared => exact Remark.ofSharedTypes_count count hcount
  | system s => exact Remark.ofSystemTypes_count s count hcount htail

/-- The rows of the further lines together with that of the first line are the codes. -/
theorem codes_rows :
    CodeField.codes (d.fields.take d.form.perLine) ++
      ((Text.groups d.form.perLine (d.fields.drop d.form.perLine)).map CodeField.codes).flatten =
        CodeField.codes d.fields := by
  have hpos : 0 < d.form.perLine := by
    cases d.form with
    | shared => exact (by decide : 0 < 9)
    | system s => exact (by decide : 0 < 13)
  unfold CodeField.codes
  rw [← List.map_flatten, Text.flatten_groups hpos, ← List.map_append, List.take_append_drop]

/-- The lines start the definition, and go on with it. -/
theorem remarks_lines :
    d.lines.map Remark.ofLine =
      .defines d.form.constellation d.declared (CodeField.codes (d.fields.take d.form.perLine)) ::
        ((Text.groups d.form.perLine (d.fields.drop d.form.perLine)).map CodeField.codes).map
          .continues := by
  have hfirst := d.remark_first (List.length_take_le d.form.perLine d.fields)
  rw [lines, List.map_cons, hfirst, List.map_map, List.map_map]
  congr 1
  -- All rows but the first go on with the definition.
  refine List.map_congr_left fun row hrow => ?_
  obtain ⟨i, -, rfl⟩ := List.mem_map.1 hrow
  exact DefinitionForm.remark_further (List.length_take_le _ _)

end WrittenDefinition

/-! ## Sequences of definitions -/

namespace Remark

/-- The codes of continuation lines are put together. -/
theorem continuation_map_continues (rows : List (List Text)) (rest : List Remark) :
    continuation (rows.map continues ++ rest) = rows.flatten ++ continuation rest := by
  induction rows with
  | nil => rfl
  | cons row rows ih =>
    rw [List.map_cons, List.cons_append, continuation, ih, List.flatten_cons, List.append_assoc]

/-- Continuation lines start no definition. -/
theorem lastDefinition_map_continues (c : Constellation) (rows : List (List Text))
    (rest : List Remark) :
    lastDefinition c (rows.map continues ++ rest) = lastDefinition c rest := by
  induction rows with
  | nil => rfl
  | cons row rows ih => exact ih

/-- Lines without a remark can be left out. -/
theorem filter_other (keep : Text → Bool) {lines : List Text}
    (h : ∀ line ∈ lines, keep line = false → ofLine line = other) :
    continuation ((lines.filter keep).map ofLine) = continuation (lines.map ofLine) ∧
      ∀ c, lastDefinition c ((lines.filter keep).map ofLine) =
        lastDefinition c (lines.map ofLine) := by
  induction lines with
  | nil => exact ⟨rfl, fun c => rfl⟩
  | cons line lines ih =>
    obtain ⟨hcontinuation, hlast⟩ := ih fun l hl => h l (List.mem_cons_of_mem line hl)
    cases hkeep : keep line with
    | true =>
      rw [List.filter_cons_of_pos hkeep, List.map_cons, List.map_cons]
      constructor
      · cases ofLine line <;> simp only [continuation, hcontinuation]
      · intro c
        cases ofLine line <;> simp only [lastDefinition, hcontinuation, hlast]
    | false =>
      -- A line that is left out says nothing about observables.
      rw [List.filter_cons_of_neg (by simp [hkeep]), List.map_cons,
        h line List.mem_cons_self hkeep]
      exact ⟨hcontinuation, hlast⟩

end Remark

/-- Nothing continues what stands before the lines of some definitions. -/
theorem continuation_lines (definitions : List WrittenDefinition) :
    Remark.continuation ((definitions.flatMap WrittenDefinition.lines).map .ofLine) = [] := by
  cases definitions with
  | nil => rfl
  | cons d definitions =>
    rw [List.flatMap_cons, List.map_append, d.remarks_lines]
    rfl

/-- The last definitions do not depend on the order of definitions for different constellations. -/
theorem lastWritten_congr {definitions definitions' : List WrittenDefinition}
    (h : ∀ c, (definitions.filter fun d => d.form.constellation = c) =
      definitions'.filter fun d => d.form.constellation = c) :
    lastWritten definitions = lastWritten definitions' := by
  funext c
  unfold lastWritten
  rw [← List.head?_filter, ← List.head?_filter, List.filter_reverse, List.filter_reverse, h]

/-- There is a last definition of the constellation of each. -/
theorem lastWritten_ne_none {definitions : List WrittenDefinition} (hne : definitions ≠ []) :
    ∃ c, lastWritten definitions c ≠ none := by
  obtain ⟨d, rest, rfl⟩ := List.exists_cons_of_ne_nil hne
  refine ⟨d.form.constellation, ?_⟩
  simp only [lastWritten, ne_eq, Option.map_eq_none_iff, List.find?_eq_none, not_forall]
  exact ⟨d, by simp, by simp⟩

/-- Read one after the other, the lines of some definitions give each constellation its last one,
with all its codes. -/
theorem lastDefinition_lines (definitions : List WrittenDefinition) (c : Constellation) :
    Remark.lastDefinition c ((definitions.flatMap WrittenDefinition.lines).map .ofLine) =
      lastWritten definitions c := by
  induction definitions with
  | nil => rfl
  | cons d definitions ih =>
    -- A later definition hides an earlier one of the same system.
    have hlater : lastWritten (d :: definitions) c = (lastWritten definitions c).or
        (if d.form.constellation = c then some d.definition else none) := by
      unfold lastWritten
      rw [List.reverse_cons, List.find?_append, List.find?_singleton]
      cases definitions.reverse.find? fun d => d.form.constellation = c with
      | some last => rfl
      | none => by_cases hc : d.form.constellation = c <;> simp [hc]
    rw [hlater, List.flatMap_cons, List.map_append, d.remarks_lines, List.cons_append,
      Remark.lastDefinition, Remark.lastDefinition_map_continues, ih,
      Remark.continuation_map_continues, continuation_lines, List.append_nil, d.codes_rows]
    rfl

end CompactRinex
