import CompactRinex.Proofs.Difference.Reading
import CompactRinex.Proofs.Text.Pieces

/-!
# Words in fields

A word of visible characters can stand anywhere in a field of its own, between blanks (`WordField`).
Trimming the field gives the word back (`WordField.trim_text`). In a row of fields each of which
starts with a blank the words do not touch, so that the words of the row are those of its fields
(`CodeField.words_rowText`). Everything about words follows from the fact that they are cut at every
blank (`words_append_blank`).
-/

namespace CompactRinex

namespace Text

/-! ## Spaces around a text -/

/-- Blanks are ASCII. -/
theorem isAscii_blanks (n : ℕ) : isAscii (blanks n) = true :=
  isAscii_iff.2 fun c hc => by
    rw [List.eq_of_mem_replicate hc]
    decide

/-- Spaces at the end do not make a text ASCII, nor keep it from being so. -/
theorem isAscii_append_blanks (t : Text) (n : ℕ) : isAscii (t ++ blanks n) = isAscii t := by
  rw [isAscii_append, isAscii_blanks, Bool.and_true]

/-- Spaces at the end go when a text is trimmed. -/
theorem trim_append_blanks (t : Text) (n : ℕ) : trim (t ++ blanks n) = trim t := by
  induction n with
  | zero => rw [blanks, List.replicate_zero, List.append_nil]
  | succ n ih =>
    have hlast : t ++ blanks (n + 1) = (t ++ blanks n) ++ [' '] := by
      rw [blanks, List.replicate_succ', ← List.append_assoc]
      rfl
    rw [hlast, ← ih]
    -- The text may be blank altogether, and then the start is cut off as far as the end.
    generalize t ++ blanks n = s
    simp only [trim, trimStart, List.dropWhile_append]
    split
    · next hempty =>
      rw [List.isEmpty_iff.1 hempty]
      rfl
    · rw [trimEnd_append_blank _ isBlank_space]

/-- So do spaces in front of it. -/
theorem trim_blanks_append (n : ℕ) (t : Text) : trim (blanks n ++ t) = trim t := by
  induction n with
  | zero => rfl
  | succ n ih => rw [← ih]; rfl

/-! ## Words -/

/-- Every character is a visible one of ASCII. -/
def isVisible (t : Text) : Bool := t.all fun c => 32 < c.toNat && c.toNat < 127

/-- Visible characters are the printable ones but the space. -/
theorem isVisible_iff {t : Text} :
    isVisible t = true ↔ ∀ c ∈ t, 32 < c.toNat ∧ c.toNat < 127 := by
  simp [isVisible]

/-- A blank stands between the words before it and those after it. -/
theorem words_append_blank {c : Char} (hc : isBlank c = true) (s t : Text) :
    words (s ++ c :: t) = words s ++ words t :=
  stretches_append_sep hc s t

/-- A blank in front belongs to no word. -/
theorem words_cons_blank {c : Char} (hc : isBlank c = true) (t : Text) :
    words (c :: t) = words t :=
  stretches_cons_sep hc t

/-- Blanks hold no word. -/
theorem words_blanks (n : ℕ) : words (blanks n) = [] := by
  induction n with
  | zero => rfl
  | succ n ih => rw [blanks, List.replicate_succ, words_cons_blank isBlank_space, ← blanks, ih]

/-- The text is empty or starts with a blank. -/
def Separated (t : Text) : Prop := ∀ c ∈ t.head?, isBlank c = true

/-- Blanks separate what is around them. -/
theorem separated_blanks (n : ℕ) : Separated (blanks n) := by
  intro c hc
  rw [List.eq_of_mem_replicate (List.mem_of_mem_head? hc)]
  rfl

/-- No word reaches over the start of a separated text. -/
theorem words_append {t : Text} (ht : Separated t) (s : Text) :
    words (s ++ t) = words s ++ words t := by
  cases t with
  | nil => rw [List.append_nil, show words [] = [] from rfl, List.append_nil]
  | cons c t =>
    have hc : isBlank c = true := ht c rfl
    rw [words_append_blank hc, words_cons_blank hc]

/-- Without its first character a separated text has the same words. -/
theorem Separated.words_drop_one {t : Text} (ht : Separated t) : words (t.drop 1) = words t := by
  cases t with
  | nil => rfl
  | cons c t => exact (words_cons_blank (ht c rfl) t).symm

/-- A text without blanks is one word. -/
theorem words_of_visible {t : Text} (hne : t ≠ []) (h : ∀ c ∈ t, isBlank c = false) :
    words t = [t] :=
  stretches_of_forall hne h

end Text

/-! ## Fields -/

/-- A word in a field of `width` columns. The columns after the word are blank too. -/
structure WordField (width : ℕ) where
  /-- The number of spaces before the word. -/
  before : ℕ
  /-- The word. -/
  word : Text
  /-- There is a word. -/
  ne_nil : word ≠ []
  /-- The word is made of visible characters of ASCII. -/
  visible : Text.isVisible word = true
  /-- The word ends inside the field. -/
  fits : before + word.length ≤ width

namespace WordField

variable {width : ℕ}

/-- The columns of the field. -/
def text (f : WordField width) : Text := Text.padRight width (Text.blanks f.before ++ f.word)

variable (f : WordField width)

/-- A word has no blank in it. -/
theorem isBlank_word : ∀ c ∈ f.word, Text.isBlank c = false := by
  intro c hc
  have hvisible := Text.isVisible_iff.1 f.visible c hc
  exact Text.isBlank_of_visible ⟨hvisible.1, by omega⟩

/-- The field has its width. -/
@[simp] theorem length_text : f.text.length = width := by
  have hfits := f.fits
  simp only [text, Text.length_padRight, List.length_append, Text.length_blanks]
  omega

/-- The field is ASCII. -/
theorem isAscii_text : Text.isAscii f.text = true := by
  have hword : Text.isAscii f.word = true := Text.isAscii_iff.2 fun c hc => by
    have hvisible := Text.isVisible_iff.1 f.visible c hc
    omega
  rw [text, Text.padRight, Text.isAscii_append_blanks, Text.isAscii_append, Text.isAscii_blanks,
    hword]
  rfl

/-- A word has no blanks around it. -/
theorem trim_word : Text.trim f.word = f.word := Text.trim_of_visible f.isBlank_word

/-- The word is what is left of the field without the spaces around it. -/
theorem trim_text : Text.trim f.text = f.word := by
  rw [text, Text.padRight, Text.trim_append_blanks, Text.trim_blanks_append, f.trim_word]

/-- The field holds its word only. -/
theorem words_text : Text.words f.text = [f.word] := by
  rw [text, Text.padRight, Text.words_append (Text.separated_blanks _), Text.words_blanks,
    List.append_nil]
  generalize f.before = n
  induction n with
  | zero => exact Text.words_of_visible f.ne_nil f.isBlank_word
  | succ n ih => exact (Text.words_cons_blank Text.isBlank_space _).trans ih

end WordField

/-- The field of an observable code, which does not touch the field before. -/
structure CodeField (width : ℕ) extends WordField width where
  /-- There is a space before the code. -/
  separated : 0 < before

namespace CodeField

variable {width : ℕ}

/-- The columns of a row of fields. -/
def rowText (row : List (CodeField width)) : Text := row.flatMap fun f => f.text

/-- The codes of a row of fields. -/
def codes (row : List (CodeField width)) : List Text := row.map fun f => f.word

/-- A row is as wide as its fields. -/
theorem length_rowText (row : List (CodeField width)) :
    (rowText row).length = width * row.length := by
  induction row with
  | nil => rfl
  | cons f row ih =>
    rw [rowText, List.flatMap_cons, List.length_append, f.length_text, ← rowText, ih,
      List.length_cons, Nat.mul_succ, Nat.add_comm]

/-- A row is ASCII. -/
theorem isAscii_rowText (row : List (CodeField width)) : Text.isAscii (rowText row) = true := by
  induction row with
  | nil => rfl
  | cons f row ih =>
    rw [rowText, List.flatMap_cons, Text.isAscii_append, f.isAscii_text, ← rowText, ih]
    rfl

/-- A row that is followed by spaces is separated from what stands before it. -/
theorem separated_rowText (row : List (CodeField width)) (n : ℕ) :
    Text.Separated (rowText row ++ Text.blanks n) := by
  cases row with
  | nil => exact Text.separated_blanks n
  | cons f row =>
    obtain ⟨before, hbefore⟩ := Nat.exists_eq_add_of_lt f.separated
    rintro c hc
    rw [rowText, List.flatMap_cons, WordField.text, hbefore] at hc
    cases hc
    rfl

/-- The words of a row are the codes of its fields. -/
theorem words_rowText (row : List (CodeField width)) (n : ℕ) :
    Text.words (rowText row ++ Text.blanks n) = codes row := by
  induction row with
  | nil => exact Text.words_blanks n
  | cons f row ih =>
    rw [rowText, List.flatMap_cons, List.append_assoc, ← rowText,
      Text.words_append (separated_rowText row n), f.words_text, ih]
    rfl

end CodeField

end CompactRinex
