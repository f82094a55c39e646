import CompactRinex.Fault

/-!
# Numerical columns

A column holds fixed-point numbers: a value is an integer that counts units of the last decimal.
`Column.render` writes a value right-aligned, or reports that it does not fit.
-/

namespace CompactRinex

/-- A numerical column of the recovered text. -/
structure Column where
  /-- The number of characters of a value. -/
  width : Nat
  /-- The number of decimals of a value. -/
  decimals : Nat
  /-- The order of the differences of a field that does not state one. -/
  order : Nat
  deriving DecidableEq, Repr

namespace Column

/-- The column of an observation: 14 characters, 3 decimals, third differences. -/
def observation : Column := ⟨14, 3, 3⟩

/-- The number of units in one. -/
def scale (decimals : Nat) : Nat := Nat.pow 10 decimals

/-- The shortest text of `value` units of the last of `decimals` decimals: a sign if it is
negative, at least one digit before the point, and no point without decimals. -/
def fixedPoint (value : Int) (decimals : Nat) : Text :=
  let sign : Text := if value < 0 then ['-'] else []
  let whole := Numeral.digits (value.natAbs / scale decimals)
  let fraction := Numeral.digits (value.natAbs % scale decimals)
  sign ++ whole ++
    (if decimals = 0 then [] else
      '.' :: (List.replicate (decimals - fraction.length) '0' ++ fraction))

/-- The most decimals for which the scale is a number of 64 bits (`scale_maxDecimals`). -/
def maxDecimals : Nat := 19

/-- The text of a value, as wide as the column. -/
def render (column : Column) (value : Int64) : Except Fault Text :=
  if column.decimals ≤ maxDecimals then
    let text := fixedPoint value.toInt column.decimals
    if text.length ≤ column.width then .ok (Text.padLeft column.width text)
    else .error (.formatOverflow value column.width)
  else .error (.formatOverflow value column.width)

/-- The text of a missing value. -/
def blank (column : Column) : Text := Text.blanks column.width

/-- A rendered value is its shortest text, padded to the width of the column. -/
theorem render_eq_ok_iff {column : Column} {value : Int64} {t : Text} :
    column.render value = .ok t ↔
      column.decimals ≤ maxDecimals ∧
        (fixedPoint value.toInt column.decimals).length ≤ column.width ∧
        t = Text.padLeft column.width (fixedPoint value.toInt column.decimals) := by
  simp only [render]
  split
  · next hscale =>
    split
    · next hfit => simp [hscale, hfit, eq_comm]
    · next hfit => simp [hfit]
  · next hscale => simp [hscale]

/-- A rendered value is exactly as wide as the column. -/
theorem length_of_render {column : Column} {value : Int64} {t : Text}
    (h : column.render value = .ok t) : t.length = column.width := by
  obtain ⟨-, hfit, rfl⟩ := render_eq_ok_iff.1 h
  rw [Text.length_padLeft]
  omega

/-- The only fault of rendering is that the value does not fit. -/
theorem eq_of_render_error {column : Column} {value : Int64} {e : Fault}
    (h : column.render value = .error e) : e = .formatOverflow value column.width := by
  simp only [render] at h
  split at h
  · split at h
    · cases h
    · cases h; rfl
  · cases h; rfl

/-- With one more decimal the scale has more than 64 bits. -/
theorem scale_maxDecimals :
    scale maxDecimals < UInt64.size ∧ UInt64.size ≤ scale (maxDecimals + 1) := by
  decide

end Column

end CompactRinex
