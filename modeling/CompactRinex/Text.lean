/-!
# Texts

A line, a field or a whole content is a list of characters. This module holds the measures and the
cuts that do not depend on what a character means: the two lengths (characters and UTF-8 bytes),
padding with blanks, fixed columns, and splitting at a separator.
-/

namespace CompactRinex

/-- A line, a field or a whole content, as the list of its characters. -/
abbrev Text := List Char

namespace Text

/-- Every character is one of the 128 of ASCII. -/
def isAscii (t : Text) : Bool := t.all fun c => c.toNat < 128

/-- The number of bytes of the UTF-8 form. -/
def byteLength (t : Text) : Nat := t.foldr (fun c n => c.utf8Size + n) 0

/-- `n` spaces. -/
def blanks (n : Nat) : Text := List.replicate n ' '

/-- The text, followed by as many spaces as it takes to have `width` characters. -/
def padRight (width : Nat) (t : Text) : Text := t ++ blanks (width - t.length)

/-- The text, preceded by as many spaces as it takes to have `width` characters. -/
def padLeft (width : Nat) (t : Text) : Text := blanks (width - t.length) ++ t

/-- The columns from `start` up to, and without, `stop`. There are none when the text ends before
`stop`. -/
def columns? (t : Text) (start stop : Nat) : Option Text :=
  if stop ≤ t.length then some ((t.drop start).take (stop - start)) else none

/-- What stands before and after the first `sep`, if there is one. -/
def splitFirst? (sep : Char) : Text → Option (Text × Text)
  | [] => none
  | c :: cs =>
    if c = sep then some ([], cs) else (splitFirst? sep cs).map fun p => (c :: p.1, p.2)

/-- The text without the ending `suffix`, if it has that ending. -/
def dropSuffix? (suffix t : Text) : Option Text :=
  if suffix.isSuffixOf t then some (t.take (t.length - suffix.length)) else none

/-! ## Splitting at every separator -/

/-- The segments between the elements for which `isSep` holds, in order. There is always one
segment more than there are separators. -/
def segments {α : Type} (isSep : α → Bool) (xs : List α) : List (List α) :=
  xs.foldr
    (fun x parts =>
      if isSep x then [] :: parts
      else match parts with
        | [] => [[x]]
        | part :: rest => (x :: part) :: rest)
    [[]]

/-- The empty list is one empty segment. -/
@[simp] theorem segments_nil {α : Type} (isSep : α → Bool) : segments isSep [] = [[]] := rfl

/-- A separator starts a new segment. -/
theorem segments_cons_sep {α : Type} {isSep : α → Bool} {x : α} (xs : List α) (h : isSep x) :
    segments isSep (x :: xs) = [] :: segments isSep xs := by
  simp [segments, h]

/-- There is at least one segment. -/
theorem segments_ne_nil {α : Type} (isSep : α → Bool) (xs : List α) : segments isSep xs ≠ [] := by
  cases xs with
  | nil => simp
  | cons x xs =>
    simp only [segments, List.foldr_cons]
    split
    · simp
    · split <;> simp

/-! ## Lengths -/

/-- As many as asked for. -/
@[simp] theorem length_blanks (n : Nat) : (blanks n).length = n := by simp [blanks]

/-- Padding gives exactly the width to every text that is not wider. -/
theorem length_padRight (width : Nat) (t : Text) :
    (padRight width t).length = max width t.length := by
  simp only [padRight, List.length_append, length_blanks]
  omega

/-- The text has the width, or is longer. -/
theorem length_padLeft (width : Nat) (t : Text) :
    (padLeft width t).length = max width t.length := by
  simp only [padLeft, List.length_append, length_blanks]
  omega

/-- The empty text has no bytes. -/
@[simp] theorem byteLength_nil : byteLength [] = 0 := rfl

/-- One more character. -/
@[simp] theorem byteLength_cons (c : Char) (t : Text) :
    byteLength (c :: t) = c.utf8Size + byteLength t := rfl

/-- The bytes of both texts. -/
@[simp] theorem byteLength_append (s t : Text) :
    byteLength (s ++ t) = byteLength s + byteLength t := by
  induction s with
  | nil => simp
  | cons c s ih => rw [List.cons_append, byteLength_cons, byteLength_cons, ih, Nat.add_assoc]

/-- All characters are below 128. -/
theorem isAscii_iff {t : Text} : isAscii t = true ↔ ∀ c ∈ t, c.toNat < 128 := by
  simp [isAscii]

/-- Both texts are ASCII. -/
@[simp] theorem isAscii_append (s t : Text) : isAscii (s ++ t) = (isAscii s && isAscii t) := by
  simp [isAscii]

/-- The characters of one byte are those of ASCII. -/
theorem utf8Size_eq_one_iff {c : Char} : c.utf8Size = 1 ↔ c.toNat < 128 := by
  rw [Char.utf8Size_eq_one_iff, UInt32.le_iff_toNat_le]
  exact Nat.lt_succ_iff.symm

/-- An ASCII text has one byte for each character. -/
theorem byteLength_of_isAscii {t : Text} (h : isAscii t) : byteLength t = t.length := by
  induction t with
  | nil => rfl
  | cons c t ih =>
    rw [isAscii_iff] at h
    have hc : c.utf8Size = 1 := utf8Size_eq_one_iff.2 (h c (by simp))
    have ht := ih (isAscii_iff.2 fun d hd => h d (List.mem_cons_of_mem _ hd))
    rw [byteLength_cons, List.length_cons, hc, ht, Nat.add_comm]

end Text

end CompactRinex
