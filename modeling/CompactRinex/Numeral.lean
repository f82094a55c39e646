import CompactRinex.Text

/-!
# Decimal numerals

A numeral is an optional sign and at least one ASCII digit, and nothing else; a minus sign is read
only where negative values exist. A numeral out of the asked range is none. Written numerals have no
leading zero and no plus sign, and read back as the number (`readNat_digits`, `readInt_ofInt`).
-/

namespace CompactRinex.Numeral

/-- The digits of a number. -/
def digits (n : Nat) : Text := Nat.toDigits 10 n

/-- The numeral of an integer. -/
def ofInt (z : Int) : Text := if z < 0 then '-' :: digits z.natAbs else digits z.natAbs

/-- The number of a run of digits. -/
def readDigits (t : Text) : Option Nat :=
  if t ≠ [] ∧ t.all Char.isDigit then some (Nat.ofDigitChars 10 t 0) else none

/-- An unsigned numeral, which may have a plus sign. -/
def readNat (t : Text) : Option Nat :=
  match t with
  | '+' :: rest => readDigits rest
  | _ => readDigits t

/-- A signed numeral. -/
def readInt (t : Text) : Option Int :=
  match t with
  | '-' :: rest => (readDigits rest).map fun n => -(n : Int)
  | _ => (readNat t).map fun n => (n : Int)

/-- An unsigned numeral below `bound`. -/
def readBelow (bound : Nat) (t : Text) : Option Nat := (readNat t).filter (· < bound)

/-- A numeral of 8 unsigned bits. -/
def readUInt8 (t : Text) : Option UInt8 := (readBelow UInt8.size t).map UInt8.ofNat

/-- A numeral of 64 unsigned bits, as a number: counts and orders. -/
def readCount (t : Text) : Option Nat := readBelow UInt64.size t

/-- A signed numeral from `low` to `high`. -/
def readBetween (low high : Int) (t : Text) : Option Int :=
  (readInt t).filter fun z => low ≤ z ∧ z ≤ high

/-- A numeral of 64 signed bits. -/
def readInt64 (t : Text) : Option Int64 :=
  (readBetween Int64.minValue.toInt Int64.maxValue.toInt t).map Int64.ofInt

/-- Every number has a digit. -/
theorem digits_ne_nil (n : Nat) : digits n ≠ [] := Nat.toDigits_ne_nil

/-- The digits of a number are decimal ones. -/
theorem isDigit_of_mem_digits {n : Nat} {c : Char} (h : c ∈ digits n) : c.isDigit :=
  Nat.isDigit_of_mem_toDigits (by decide) (by decide) h

/-- Digits read back as their number. -/
theorem readDigits_digits (n : Nat) : readDigits (digits n) = some n := by
  have hall : (digits n).all Char.isDigit :=
    List.all_eq_true.2 fun c hc => isDigit_of_mem_digits hc
  rw [readDigits, if_pos ⟨digits_ne_nil n, hall⟩, digits, Nat.ofDigitChars_ten_toDigits]

/-- A written number reads back. -/
theorem readNat_digits (n : Nat) : readNat (digits n) = some n := by
  unfold readNat
  split
  · next rest h =>
    have : ('+').isDigit := isDigit_of_mem_digits (n := n) (by rw [h]; simp)
    exact absurd this (by decide)
  · exact readDigits_digits n

/-- A written integer reads back. -/
theorem readInt_ofInt (z : Int) : readInt (ofInt z) = some z := by
  unfold ofInt
  split
  · next h =>
    have hz : -(z.natAbs : Int) = z := by omega
    show (readDigits (digits z.natAbs)).map (fun n => -(n : Int)) = some z
    rw [readDigits_digits]
    exact congrArg some hz
  · next h =>
    unfold readInt
    split
    · next rest he =>
      -- Without a sign the number starts with a digit.
      have : ('-').isDigit := isDigit_of_mem_digits (n := z.natAbs) (by rw [he]; simp)
      exact absurd this (by decide)
    · have hz : (z.natAbs : Int) = z := by omega
      rw [readNat_digits]
      exact congrArg some hz

end CompactRinex.Numeral
