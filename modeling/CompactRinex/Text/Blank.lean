import CompactRinex.Text

/-!
# Blank characters

The characters that count as blank (the White_Space property), removing them from the ends of a
text, and the words they separate. Dates are split at a smaller set, the ASCII one without the
vertical tab.
-/

namespace CompactRinex.Text

/-- The White_Space property. -/
def isBlank (c : Char) : Bool :=
  let n := c.toNat
  (0x09 ≤ n && n ≤ 0x0D) || n == 0x20 || n == 0x85 || n == 0xA0 || n == 0x1680 ||
    (0x2000 ≤ n && n ≤ 0x200A) || n == 0x2028 || n == 0x2029 || n == 0x202F || n == 0x205F ||
    n == 0x3000

/-- The ASCII blanks without the vertical tab. -/
def isAsciiBlank (c : Char) : Bool :=
  c == ' ' || c == '\t' || c == '\n' || c == '\x0C' || c == '\r'

/-- The text without the blanks it starts with. -/
def trimStart (t : Text) : Text := t.dropWhile isBlank

/-- The text without the blanks it ends with. -/
def trimEnd (t : Text) : Text := (t.reverse.dropWhile isBlank).reverse

/-- The text without the blanks at its two ends. -/
def trim (t : Text) : Text := trimEnd (trimStart t)

/-- Every character is blank. -/
def isAllBlank (t : Text) : Bool := t.all isBlank

/-- The non-empty stretches between blanks. -/
def words (t : Text) : List Text := (segments isBlank t).filter fun w => !w.isEmpty

/-- The non-empty stretches between ASCII blanks. -/
def asciiWords (t : Text) : List Text := (segments isAsciiBlank t).filter fun w => !w.isEmpty

/-- The space is blank. -/
theorem isBlank_space : isBlank ' ' = true := rfl

/-- An ASCII blank is a blank. -/
theorem isBlank_of_isAsciiBlank {c : Char} (h : isAsciiBlank c) : isBlank c := by
  simp only [isAsciiBlank, Bool.or_eq_true, beq_iff_eq] at h
  rcases h with (((rfl | rfl) | rfl) | rfl) | rfl <;> rfl

/-- There is nothing to cut off. -/
@[simp] theorem trimEnd_nil : trimEnd [] = [] := rfl

/-- There is nothing to cut off. -/
@[simp] theorem trim_nil : trim [] = [] := rfl

/-- A blank at the end goes. -/
theorem trimEnd_append_blank (t : Text) {c : Char} (h : isBlank c) :
    trimEnd (t ++ [c]) = trimEnd t := by
  simp [trimEnd, h]

/-- A text that ends in a visible character stays whole. -/
theorem trimEnd_append_visible (t : Text) {c : Char} (h : isBlank c = false) :
    trimEnd (t ++ [c]) = t ++ [c] := by
  simp [trimEnd, h]

/-- Only blanks go: the text is its trimmed form and some blanks. -/
theorem exists_trimEnd_append (t : Text) : ∃ s, t = trimEnd t ++ s ∧ isAllBlank s := by
  refine ⟨(t.reverse.takeWhile isBlank).reverse, ?_, ?_⟩
  · rw [trimEnd, ← List.reverse_append, List.takeWhile_append_dropWhile, List.reverse_reverse]
  · simp only [isAllBlank, List.all_reverse]
    exact List.all_takeWhile

end CompactRinex.Text
