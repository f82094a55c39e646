import CompactRinex.Proofs.Column.Reading

/-!
# Shortest texts of fixed-point numbers

`Denotes decimals t z` says what a fixed-point text is, whoever writes it: a minus sign in front of
a negative number, at least one digit, and with decimals a point and exactly that many digits, which
are together the digits of the magnitude. A number has many such texts, since zeros may stand before
it, and exactly one that is shortest: `fixedPoint` (`isShortest_iff`). So a column renders the
values whose shortest text it has room for, and renders them right-aligned (`render_shortest`).
-/

namespace CompactRinex

namespace Numeral

/-- The first digit of a text counts as often as there are numbers of the digits after it. -/
theorem ofDigitChars_cons_digit {c : Char} (hc : c.isDigit) (t : Text) :
    ∃ d, d ≤ 9 ∧ c.toNat = 48 + d ∧
      Nat.ofDigitChars 10 t 0 + 10^t.length * d = Nat.ofDigitChars 10 (c :: t) 0 := by
  have hzero : '0'.toNat = 48 := rfl
  have hnine : '9'.toNat = 57 := rfl
  obtain ⟨hlow, hhigh⟩ := Char.isDigit_iff_toNat.1 hc
  refine ⟨c.toNat - 48, by omega, by omega, ?_⟩
  have hrest := @Nat.ofDigitChars_eq_ofDigitChars_zero t (c.toNat - 48)
  rw [Nat.ofDigitChars_cons, hzero, Nat.mul_zero, Nat.zero_add, hrest, Nat.add_comm]

/-- A text of `n` digits has a number below `10^n`. -/
theorem ofDigitChars_lt {t : Text} (h : ∀ c ∈ t, c.isDigit) :
    Nat.ofDigitChars 10 t 0 < 10^t.length := by
  induction t with
  | nil => decide
  | cons c t ih =>
    obtain ⟨d, hd, -, hvalue⟩ := ofDigitChars_cons_digit (h c (List.mem_cons_self ..)) t
    have ht := ih fun e he => h e (List.mem_cons_of_mem _ he)
    have hfirst : 10^t.length * d ≤ 10^t.length * 9 := Nat.mul_le_mul_left _ hd
    rw [← hvalue, List.length_cons, Nat.pow_succ]
    omega

/-- Texts of equally many digits that have the same number are the same. -/
theorem eq_of_ofDigitChars_eq {s t : Text} (hs : ∀ c ∈ s, c.isDigit) (ht : ∀ c ∈ t, c.isDigit)
    (hlength : s.length = t.length)
    (h : Nat.ofDigitChars 10 s 0 = Nat.ofDigitChars 10 t 0) : s = t := by
  induction s generalizing t with
  | nil => exact (List.length_eq_zero_iff.1 hlength.symm).symm
  | cons c s ih =>
    obtain ⟨c', t, rfl⟩ := List.exists_cons_of_length_eq_add_one hlength.symm
    have hlength' : s.length = t.length := Nat.succ.inj hlength
    have hs' : ∀ e ∈ s, e.isDigit := fun e he => hs e (List.mem_cons_of_mem _ he)
    have ht' : ∀ e ∈ t, e.isDigit := fun e he => ht e (List.mem_cons_of_mem _ he)
    obtain ⟨d, -, hd, hvalue⟩ := ofDigitChars_cons_digit (hs c (List.mem_cons_self ..)) s
    obtain ⟨d', -, hd', hvalue'⟩ := ofDigitChars_cons_digit (ht c' (List.mem_cons_self ..)) t
    have hlt := ofDigitChars_lt hs'
    have hlt' := ofDigitChars_lt ht'
    rw [hlength', h] at hvalue
    rw [hlength'] at hlt
    -- The first digit is the quotient by the power of ten, and the others are the remainder.
    have hpos : 0 < 10^t.length := Nat.pow_pos (by decide)
    have hparts := (Nat.div_mod_unique hpos).2 ⟨hvalue, hlt⟩
    have hparts' := (Nat.div_mod_unique hpos).2 ⟨hvalue', hlt'⟩
    have hfirst : d = d' := hparts.1.symm.trans hparts'.1
    have hrest : Nat.ofDigitChars 10 s 0 = Nat.ofDigitChars 10 t 0 :=
      hparts.2.symm.trans hparts'.2
    have hchar : c = c' := Char.toNat_inj.1 (by omega)
    rw [hchar, ih hs' ht' hlength' hrest]

/-- No text of digits is shorter than the written number. -/
theorem length_digits_le {t : Text} (hne : t ≠ []) (h : ∀ c ∈ t, c.isDigit) :
    (digits (Nat.ofDigitChars 10 t 0)).length ≤ t.length :=
  (Nat.length_toDigits_le_iff (by decide) (List.length_pos_iff.2 hne)).2 (ofDigitChars_lt h)

end Numeral

namespace Column

/-- The text is a fixed-point number with this many decimals, which is `z` in units of the last one:
a minus sign if it is negative, at least one digit, and with decimals a point and exactly that many
digits. -/
def Denotes (decimals : ℕ) (t : Text) (z : ℤ) : Prop :=
  ∃ whole fraction : Text, whole ≠ [] ∧ fraction.length = decimals ∧
    (∀ c ∈ whole ++ fraction, c.isDigit) ∧
    t = (if z < 0 then ['-'] else []) ++ whole ++ (if decimals = 0 then [] else '.' :: fraction) ∧
    Nat.ofDigitChars 10 (whole ++ fraction) 0 = z.natAbs

/-- The text denotes the number, and no text that denotes it is shorter. -/
def IsShortest (decimals : ℕ) (t : Text) (z : ℤ) : Prop :=
  Denotes decimals t z ∧ ∀ t', Denotes decimals t' z → t.length ≤ t'.length

/-- The text of a number denotes it. -/
theorem denotes_fixedPoint (decimals : ℕ) (z : ℤ) : Denotes decimals (fixedPoint z decimals) z := by
  have hwhole : ∀ c ∈ Numeral.digits (z.natAbs / scale decimals), c.isDigit :=
    fun c => Numeral.isDigit_of_mem_digits
  -- Without decimals there is no point either.
  by_cases h : decimals = 0
  · subst h
    refine ⟨Numeral.digits (z.natAbs / scale 0), [], Numeral.digits_ne_nil _, rfl, ?_, rfl, ?_⟩
    · rw [List.append_nil]
      exact hwhole
    · rw [List.append_nil, show z.natAbs / scale 0 = z.natAbs from Nat.div_one _]
      exact Nat.ofDigitChars_ten_toDigits
  · refine ⟨Numeral.digits (z.natAbs / scale decimals), fractionDigits z.natAbs decimals,
      Numeral.digits_ne_nil _, length_fractionDigits _ h, ?_, fixedPoint_eq z decimals, ?_⟩
    · intro c hc
      rcases List.mem_append.1 hc with hc | hc
      · exact hwhole c hc
      · exact isDigit_of_mem_fractionDigits hc
    · exact ofDigitChars_append_fractionDigits _ h

/-- The digits before the point of a text have the quotient as their number, and those after the
point the remainder. -/
theorem parts_of_value {n decimals : ℕ} {whole fraction : Text}
    (hfraction : ∀ c ∈ fraction, c.isDigit) (hlength : fraction.length = decimals)
    (hvalue : Nat.ofDigitChars 10 (whole ++ fraction) 0 = n) :
    Nat.ofDigitChars 10 whole 0 = n / scale decimals ∧
      Nat.ofDigitChars 10 fraction 0 = n % scale decimals := by
  have hlt := Numeral.ofDigitChars_lt hfraction
  rw [Nat.ofDigitChars_append, Nat.ofDigitChars_eq_ofDigitChars_zero, hlength] at hvalue
  rw [hlength] at hlt
  -- Whole part and fraction are quotient and remainder, since the fraction is less than the scale.
  have hparts := (Nat.div_mod_unique (Nat.pow_pos (by decide))).2
    ⟨(Nat.add_comm _ _).trans hvalue, hlt⟩
  exact ⟨hparts.1.symm, hparts.2.symm⟩

/-- A text that denotes a number is the one of `fixedPoint`, or it is longer. -/
theorem Denotes.eq_or_lt {decimals : ℕ} {t : Text} {z : ℤ} (h : Denotes decimals t z) :
    t = fixedPoint z decimals ∨ (fixedPoint z decimals).length < t.length := by
  obtain ⟨whole, fraction, hne, hlength, hdigits, rfl, hvalue⟩ := h
  have hwhole : ∀ c ∈ whole, c.isDigit := fun c hc => hdigits c (List.mem_append_left _ hc)
  have hfraction : ∀ c ∈ fraction, c.isDigit := fun c hc => hdigits c (List.mem_append_right _ hc)
  obtain ⟨hquotient, hremainder⟩ := parts_of_value hfraction hlength hvalue
  -- Behind the point there is no choice.
  have hbehind : (if decimals = 0 then [] else '.' :: fraction) =
      if decimals = 0 then [] else '.' :: fractionDigits z.natAbs decimals := by
    by_cases hd : decimals = 0
    · rw [if_pos hd, if_pos hd]
    · rw [if_neg hd, if_neg hd]
      have hsame : fraction.length = (fractionDigits z.natAbs decimals).length :=
        hlength.trans (length_fractionDigits _ hd).symm
      rw [Numeral.eq_of_ofDigitChars_eq hfraction (fun c => isDigit_of_mem_fractionDigits) hsame
        (hremainder.trans (ofDigitChars_fractionDigits _ _).symm)]
  rw [hbehind, fixedPoint_eq]
  -- Before it the digits are those of the quotient, or there are more of them.
  have hle := Numeral.length_digits_le hne hwhole
  rw [hquotient] at hle
  rcases Nat.eq_or_lt_of_le hle with heq | hlt
  · refine Or.inl ?_
    rw [Numeral.eq_of_ofDigitChars_eq hwhole (fun c => Numeral.isDigit_of_mem_digits) heq.symm
      (hquotient.trans Nat.ofDigitChars_ten_toDigits.symm)]
  · refine Or.inr ?_
    simp only [List.length_append]
    omega

/-- The text of a number is its only shortest one. -/
theorem isShortest_iff {decimals : ℕ} {t : Text} {z : ℤ} :
    IsShortest decimals t z ↔ t = fixedPoint z decimals := by
  constructor
  · rintro ⟨ht, hshortest⟩
    have hle := hshortest _ (denotes_fixedPoint decimals z)
    rcases ht.eq_or_lt with heq | hlt
    · exact heq
    · omega
  · rintro rfl
    refine ⟨denotes_fixedPoint decimals z, fun t' ht' => ?_⟩
    rcases ht'.eq_or_lt with rfl | hlt
    · exact le_rfl
    · exact hlt.le

/-- A value has one shortest text. It is rendered if the scale of the column is a number of 64 bits
and this text is not wider than the column: right-aligned, so that the text is as wide as the
column, reads back as the value and is the text of no other value. Any other value is reported as
one that does not fit. -/
theorem render_shortest (column : Column) (value : Int64) :
    ∃ t, (∀ t', IsShortest column.decimals t' value.toInt ↔ t' = t) ∧
      ((∃ s, column.render value = .ok s) ↔
        10^column.decimals < UInt64.size ∧ t.length ≤ column.width) ∧
      (∀ s, column.render value = .ok s →
        s = Text.blanks (column.width - t.length) ++ t ∧ s.length = column.width ∧
          read column.decimals s = some value.toInt ∧
          ∀ value', column.render value' = .ok s → value' = value) ∧
      ((¬ ∃ s, column.render value = .ok s) →
        column.render value = .error (.formatOverflow value column.width)) := by
  refine ⟨fixedPoint value.toInt column.decimals, fun t' => isShortest_iff, ?_, ?_, ?_⟩
  · rw [← scale_eq, scale_lt_size_iff]
    constructor
    · rintro ⟨s, hs⟩
      obtain ⟨hdecimals, hwidth, -⟩ := render_eq_ok_iff.1 hs
      exact ⟨hdecimals, hwidth⟩
    · intro hfits
      exact ⟨_, render_of_fits hfits⟩
  · intro s hs
    obtain ⟨-, -, htext⟩ := render_eq_ok_iff.1 hs
    have hread := read_render hs
    refine ⟨htext, length_of_render hs, hread, fun value' hs' => ?_⟩
    -- Both values are what the text reads back as.
    have hread' := read_render hs'
    rw [hread] at hread'
    exact Int64.toInt_inj.1 (Option.some.inj hread').symm
  · intro hnone
    cases hr : column.render value with
    | error e => rw [eq_of_render_error hr]
    | ok s => exact absurd ⟨s, hr⟩ hnone

end Column

end CompactRinex
