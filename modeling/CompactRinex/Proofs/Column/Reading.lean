import CompactRinex.Column
import Mathlib.Tactic.Ring

/-!
# Reading fixed-point texts

`Column.read` reads a fixed-point text back as the integer that it denotes. A value that fits its
column (`Column.Fits`) is written as a text that reads back as the value (`read_render`), and a text
of `n` characters denotes an integer below `10^n` in magnitude (`natAbs_lt_of_length_fixedPoint`).
-/

namespace CompactRinex.Column

/-- The number of an unsigned fixed-point text with `decimals` decimals, in units of the last one:
at least one digit, and with decimals a point and exactly that many digits. -/
def readUnsigned (decimals : ℕ) (t : Text) : Option ℕ :=
  if decimals = 0 then Numeral.readDigits t
  else match Text.splitFirst? '.' t with
    | none => none
    | some (whole, fraction) =>
      if whole ≠ [] ∧ fraction.length = decimals then Numeral.readDigits (whole ++ fraction)
      else none

/-- The integer of a fixed-point text, which may have spaces and a minus sign in front. -/
def read (decimals : ℕ) (t : Text) : Option ℤ :=
  match t.dropWhile (· == ' ') with
  | '-' :: rest => (readUnsigned decimals rest).map fun n : ℕ => -(n : ℤ)
  | rest => (readUnsigned decimals rest).map fun n : ℕ => (n : ℤ)

/-- An integer fits a column when its shortest text is not wider than the column, and the scale of
the column is a number of 64 bits. -/
def Fits (column : Column) (z : ℤ) : Prop :=
  column.decimals ≤ maxDecimals ∧ (fixedPoint z column.decimals).length ≤ column.width

instance (column : Column) (z : ℤ) : Decidable (column.Fits z) := by
  unfold Fits; infer_instance

/-- The text of an integer in a column that it fits. -/
def text (column : Column) (z : ℤ) : Text :=
  Text.padLeft column.width (fixedPoint z column.decimals)

/-- The digits of a fraction, with the zeros that bring them to `decimals` digits. -/
def fractionDigits (n decimals : ℕ) : Text :=
  let fraction := Numeral.digits (n % scale decimals)
  List.replicate (decimals - fraction.length) '0' ++ fraction

/-- The scale is a power of ten. -/
theorem scale_eq (decimals : ℕ) : scale decimals = 10^decimals := rfl

/-- The scale is a number of 64 bits up to the most decimals there are. -/
theorem scale_lt_size_iff {decimals : ℕ} :
    scale decimals < UInt64.size ↔ decimals ≤ maxDecimals := by
  obtain ⟨hlt, hge⟩ := scale_maxDecimals
  constructor
  · intro h
    by_contra hmore
    have hle : scale (maxDecimals + 1) ≤ scale decimals :=
      Nat.pow_le_pow_right (by decide) (by omega)
    omega
  · intro h
    have hle : scale decimals ≤ scale maxDecimals := Nat.pow_le_pow_right (by decide) h
    omega

/-- A number is its sign, its whole part and its fraction. -/
theorem fixedPoint_eq (z : ℤ) (decimals : ℕ) :
    fixedPoint z decimals = (if z < 0 then ['-'] else []) ++
      Numeral.digits (z.natAbs / scale decimals) ++
        (if decimals = 0 then [] else '.' :: fractionDigits z.natAbs decimals) := rfl

/-- A value that fits is rendered. -/
theorem render_of_fits {column : Column} {value : Int64} (h : column.Fits value.toInt) :
    column.render value = .ok (column.text value.toInt) :=
  render_eq_ok_iff.2 ⟨h.1, h.2, rfl⟩

/-- A value that does not fit is reported. -/
theorem render_of_not_fits {column : Column} {value : Int64} (h : ¬ column.Fits value.toInt) :
    column.render value = .error (.formatOverflow value column.width) := by
  cases hr : column.render value with
  | error e => rw [eq_of_render_error hr]
  | ok t =>
    obtain ⟨hd, hl, -⟩ := render_eq_ok_iff.1 hr
    exact absurd ⟨hd, hl⟩ h

/-! ## Digits -/

/-- There are fewer numbers of `n` digits than `10^n`. -/
theorem lt_pow_length_digits (n : ℕ) : n < 10^(Numeral.digits n).length :=
  (Nat.length_toDigits_le_iff (by decide) Nat.length_toDigits_pos).1 (le_refl _)

/-- There are as many digits after the point as asked for. -/
theorem length_fractionDigits {decimals : ℕ} (n : ℕ) (h : decimals ≠ 0) :
    (fractionDigits n decimals).length = decimals := by
  have hle : (Numeral.digits (n % scale decimals)).length ≤ decimals :=
    (Nat.length_toDigits_le_iff (by decide) (Nat.pos_of_ne_zero h)).2
      (Nat.mod_lt _ (Nat.pow_pos (by decide)))
  simp only [fractionDigits, List.length_append, List.length_replicate]
  omega

/-- A text of digits is read as the number that its digits have. -/
theorem readDigits_eq {t : Text} (hne : t ≠ []) (h : ∀ c ∈ t, c.isDigit) :
    Numeral.readDigits t = some (Nat.ofDigitChars 10 t 0) :=
  if_pos ⟨hne, List.all_eq_true.2 h⟩

/-- They are decimal digits. -/
theorem isDigit_of_mem_fractionDigits {n decimals : ℕ} {c : Char}
    (h : c ∈ fractionDigits n decimals) : c.isDigit := by
  rcases List.mem_append.1 h with h | h
  · rw [List.eq_of_mem_replicate h]; rfl
  · exact Numeral.isDigit_of_mem_digits h

/-- The zeros before a fraction do not count. -/
theorem ofDigitChars_fractionDigits (n decimals : ℕ) :
    Nat.ofDigitChars 10 (fractionDigits n decimals) 0 = n % scale decimals := by
  simp only [fractionDigits, Nat.ofDigitChars_append, Nat.ofDigitChars_replicate_zero, Nat.mul_zero]
  exact Nat.ofDigitChars_ten_toDigits

/-- The digits before and after the point are the digits of the number. -/
theorem ofDigitChars_append_fractionDigits (n : ℕ) {decimals : ℕ} (h : decimals ≠ 0) :
    Nat.ofDigitChars 10 (Numeral.digits (n / scale decimals) ++ fractionDigits n decimals) 0 =
      n := by
  have hw : Nat.ofDigitChars 10 (Numeral.digits (n / scale decimals)) 0 = n / scale decimals :=
    Nat.ofDigitChars_ten_toDigits
  rw [Nat.ofDigitChars_append, Nat.ofDigitChars_eq_ofDigitChars_zero, length_fractionDigits n h, hw,
    ofDigitChars_fractionDigits, ← scale_eq, Nat.div_add_mod]

/-- The digits before and after the point read back as the number. -/
theorem readDigits_append_fractionDigits (n : ℕ) {decimals : ℕ} (h : decimals ≠ 0) :
    Numeral.readDigits (Numeral.digits (n / scale decimals) ++ fractionDigits n decimals) =
      some n := by
  have hne : Numeral.digits (n / scale decimals) ++ fractionDigits n decimals ≠ [] := by
    simp [Numeral.digits_ne_nil]
  have hdigit : ∀ c ∈ Numeral.digits (n / scale decimals) ++ fractionDigits n decimals,
      c.isDigit := by
    intro c hc
    rcases List.mem_append.1 hc with hc | hc
    · exact Numeral.isDigit_of_mem_digits hc
    · exact isDigit_of_mem_fractionDigits hc
  rw [readDigits_eq hne hdigit, ofDigitChars_append_fractionDigits n h]

/-! ## Reading back -/

/-- A text is cut at the first separator. -/
theorem splitFirst?_append {sep : Char} {s : Text} (t : Text) (h : sep ∉ s) :
    Text.splitFirst? sep (s ++ sep :: t) = some (s, t) := by
  induction s with
  | nil => simp [Text.splitFirst?]
  | cons c s ih =>
    simp only [List.mem_cons, not_or] at h
    simp [Text.splitFirst?, Ne.symm h.1, ih h.2]

/-- The text after the sign reads back as the magnitude. -/
theorem readUnsigned_fixedPoint (n decimals : ℕ) :
    readUnsigned decimals (Numeral.digits (n / scale decimals) ++
      (if decimals = 0 then [] else '.' :: fractionDigits n decimals)) = some n := by
  unfold readUnsigned
  split
  · next h =>
    subst h
    rw [List.append_nil, show n / scale 0 = n from Nat.div_one n]
    exact Numeral.readDigits_digits n
  · next h =>
    -- The whole part holds digits only, so the text is cut at its point.
    have hpoint : '.' ∉ Numeral.digits (n / scale decimals) := fun hc =>
      absurd (Numeral.isDigit_of_mem_digits hc) (by decide)
    rw [splitFirst?_append _ hpoint]
    exact (if_pos ⟨Numeral.digits_ne_nil _, length_fractionDigits n h⟩).trans
      (readDigits_append_fractionDigits n h)

/-- The spaces in front of a text are not read. -/
theorem dropWhile_padLeft {width : ℕ} {c : Char} {t : Text} (h : c ≠ ' ') :
    (Text.padLeft width (c :: t)).dropWhile (· == ' ') = c :: t := by
  rw [Text.padLeft, Text.blanks, List.dropWhile_append_of_pos]
  · simp [h]
  · intro d hd
    rw [List.eq_of_mem_replicate hd]; rfl

/-- The text of an integer denotes that integer. -/
theorem read_text (column : Column) (z : ℤ) : read column.decimals (column.text z) = some z := by
  have hu := readUnsigned_fixedPoint z.natAbs column.decimals
  rw [text, fixedPoint_eq]
  by_cases hz : z < 0
  · rw [if_pos hz, List.append_assoc, List.singleton_append, read, dropWhile_padLeft (by decide)]
    simp only [hu, Option.map_some, Option.some.injEq]
    omega
  · -- Without a sign the text starts with a digit.
    rw [if_neg hz, List.nil_append]
    obtain ⟨c, t, hct⟩ := List.exists_cons_of_ne_nil
      (Numeral.digits_ne_nil (z.natAbs / scale column.decimals))
    have hc : c.isDigit := Numeral.isDigit_of_mem_digits (by rw [hct]; simp)
    rw [hct] at hu ⊢
    rw [List.cons_append] at hu ⊢
    rw [read, dropWhile_padLeft (by rintro rfl; exact absurd hc (by decide))]
    split
    · next heq =>
      cases heq
      exact absurd hc (by decide)
    · rw [hu, Option.map_some, Option.some.injEq]
      omega

/-- A rendered value reads back. -/
theorem read_render {column : Column} {value : Int64} {t : Text}
    (h : column.render value = .ok t) : read column.decimals t = some value.toInt := by
  obtain ⟨-, -, rfl⟩ := render_eq_ok_iff.1 h
  exact read_text column value.toInt

/-! ## Bounds -/

/-- A text of `n` characters denotes an integer below `10^n` in magnitude. -/
theorem natAbs_lt_of_length_fixedPoint (z : ℤ) (decimals : ℕ) :
    z.natAbs < 10^(fixedPoint z decimals).length := by
  have hw := lt_pow_length_digits (z.natAbs / scale decimals)
  rw [fixedPoint_eq]
  by_cases h : decimals = 0
  · subst h
    rw [show z.natAbs / scale 0 = z.natAbs from Nat.div_one _] at hw ⊢
    refine lt_of_lt_of_le hw (Nat.pow_le_pow_right (by decide) ?_)
    simp
  · -- The digits before the point are those of the quotient, and the point takes one more column.
    rw [scale_eq, Nat.div_lt_iff_lt_mul (Nat.pow_pos (by decide)), ← Nat.pow_add] at hw
    refine lt_of_lt_of_le hw (Nat.pow_le_pow_right (by decide) ?_)
    simp only [h, if_false, List.length_append, List.length_cons, length_fractionDigits _ h,
      scale_eq]
    omega

/-- An integer that fits a column of `width` characters is below `10^width` in magnitude. -/
theorem Fits.abs_lt {column : Column} {z : ℤ} (h : column.Fits z) :
    |z| < 10^column.width := by
  have hlt := lt_of_lt_of_le (natAbs_lt_of_length_fixedPoint z column.decimals)
    (Nat.pow_le_pow_right (by decide) h.2)
  rw [Int.abs_eq_natAbs]
  exact_mod_cast hlt

end CompactRinex.Column
