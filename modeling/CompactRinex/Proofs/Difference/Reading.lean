import CompactRinex.Difference.Field
import CompactRinex.Proofs.Column.Reading

/-!
# Reading fields back

`Field.toText` writes a field in digits, a minus sign and `&`, so nothing is trimmed when it is read
and the first `&` is the one after the order: `Field.parse` gives the field back (`parse_toText`).
-/

namespace CompactRinex

namespace Text

/-- A text without blanks is not trimmed. -/
theorem trim_of_visible {t : Text} (h : ∀ c ∈ t, isBlank c = false) : trim t = t := by
  have hdrop : ∀ s : Text, (∀ c ∈ s, isBlank c = false) → s.dropWhile isBlank = s := by
    intro s hs
    cases s with
    | nil => rfl
    | cons c s => rw [List.dropWhile_cons_of_neg]; simp [hs c (List.mem_cons_self ..)]
  have hreverse : ∀ c ∈ t.reverse, isBlank c = false := fun c hc => h c (List.mem_reverse.1 hc)
  rw [trim, trimStart, hdrop t h, trimEnd, hdrop _ hreverse, List.reverse_reverse]

/-- The visible characters of ASCII are not blank. -/
theorem isBlank_of_visible {c : Char} (h : 32 < c.toNat ∧ c.toNat < 128) : isBlank c = false := by
  simp only [isBlank, Bool.or_eq_false_iff, Bool.and_eq_false_iff, decide_eq_false_iff_not,
    beq_eq_false_iff_ne]
  omega

/-- There is nothing to split at without a separator. -/
theorem splitFirst?_eq_none {sep : Char} {t : Text} (h : sep ∉ t) : splitFirst? sep t = none := by
  induction t with
  | nil => rfl
  | cons c t ih =>
    simp only [List.mem_cons, not_or] at h
    simp [splitFirst?, Ne.symm h.1, ih h.2]

end Text

namespace Numeral

/-- A number below 64 bits is read as a count. -/
theorem readCount_digits {n : ℕ} (h : n < UInt64.size) : readCount (digits n) = some n := by
  rw [readCount, readBelow, readNat_digits]
  exact Option.filter_some_pos (decide_eq_true h)

/-- A written value is read back. -/
theorem readInt64_ofInt (v : Int64) : readInt64 (ofInt v.toInt) = some v := by
  -- No value of 64 bits is filtered out.
  have hrange : Int64.minValue.toInt ≤ v.toInt ∧ v.toInt ≤ Int64.maxValue.toInt :=
    ⟨v.minValue_le_toInt, v.toInt_le⟩
  have hfilter : readBetween Int64.minValue.toInt Int64.maxValue.toInt (ofInt v.toInt) =
      some v.toInt := by
    rw [readBetween, readInt_ofInt]
    exact if_pos (decide_eq_true hrange)
  rw [readInt64, hfilter]
  exact congrArg some (Int64.ofInt_toInt v)

/-- The characters of a numeral. -/
theorem mem_ofInt {z : ℤ} {c : Char} (h : c ∈ ofInt z) : c.isDigit ∨ c = '-' := by
  unfold ofInt at h
  split at h
  · rcases List.mem_cons.1 h with rfl | h
    · exact Or.inr rfl
    · exact Or.inl (isDigit_of_mem_digits h)
  · exact Or.inl (isDigit_of_mem_digits h)

/-- Every integer is written with a character. -/
theorem ofInt_ne_nil (z : ℤ) : ofInt z ≠ [] := by
  unfold ofInt
  split
  · exact List.cons_ne_nil _ _
  · exact digits_ne_nil _

end Numeral

namespace Field

/-- The order of a literal field is a number of 64 bits. -/
def Bounded : Field → Prop
  | literal order _ => order < UInt64.size
  | _ => True

/-- The characters of a field. -/
theorem mem_toText {f : Field} {c : Char} (h : c ∈ f.toText) : c.isDigit ∨ c = '-' ∨ c = '&' := by
  cases f with
  | missing => cases h
  | literal order value =>
    rcases List.mem_append.1 h with h | h
    · exact Or.inl (Numeral.isDigit_of_mem_digits h)
    · rcases List.mem_cons.1 h with rfl | h
      · exact Or.inr (Or.inr rfl)
      · exact (Numeral.mem_ofInt h).imp_right Or.inl
  | delta difference => exact (Numeral.mem_ofInt h).imp_right Or.inl

/-- The characters of a field are visible ASCII. -/
theorem visible_of_mem_toText {f : Field} {c : Char} (h : c ∈ f.toText) :
    32 < c.toNat ∧ c.toNat < 128 := by
  rcases mem_toText h with h | rfl | rfl
  · have hdigit := Char.isDigit_iff_toNat.1 h
    exact ⟨lt_of_lt_of_le (by decide) hdigit.1, lt_of_le_of_lt hdigit.2 (by decide)⟩
  · decide
  · decide

/-- A field is written without blanks. -/
theorem isBlank_of_mem_toText {f : Field} {c : Char} (h : c ∈ f.toText) :
    Text.isBlank c = false :=
  Text.isBlank_of_visible (visible_of_mem_toText h)

/-- A written field reads back. -/
theorem parse_toText {f : Field} (h : f.Bounded) : parse f.toText = .ok f := by
  have hblank : ∀ c ∈ f.toText, Text.isBlank c = false := fun c => isBlank_of_mem_toText
  rw [parse, Text.trim_of_visible hblank]
  cases f with
  | missing => rfl
  | literal order value =>
    -- The order is what stands before the first marker.
    have hamp : '&' ∉ Numeral.digits order := fun hc =>
      absurd (Numeral.isDigit_of_mem_digits hc) (by decide)
    have hsplit := Column.splitFirst?_append (Numeral.ofInt value.toInt) hamp
    have horder : Text.trim (Numeral.digits order) = Numeral.digits order :=
      Text.trim_of_visible fun c hc => hblank c (List.mem_append_left _ hc)
    have hvalue : Text.trim (Numeral.ofInt value.toInt) = Numeral.ofInt value.toInt :=
      Text.trim_of_visible fun c hc =>
        hblank c (List.mem_append_right _ (List.mem_cons_of_mem _ hc))
    have hread : parseLiteral? (Numeral.digits order) (Numeral.ofInt value.toInt) =
        some (.literal order value) := by
      simp [parseLiteral?, horder, hvalue, Numeral.readCount_digits h, Numeral.readInt64_ofInt]
    simp [toText, hsplit, hread, Numeral.digits_ne_nil]
  | delta difference =>
    -- Without a marker it is a difference.
    have hamp : '&' ∉ Numeral.ofInt difference.toInt := by
      intro hc
      rcases Numeral.mem_ofInt hc with hc | hc
      · exact absurd hc (by decide)
      · exact absurd hc (by decide)
    simp [toText, Text.splitFirst?_eq_none hamp, Numeral.readInt64_ofInt, Numeral.ofInt_ne_nil]

end Field

end CompactRinex
