import CompactRinex.Proofs.Difference.Reading

/-!
# Blanks in fields

A field may have blanks at its ends and next to its `&`, and these need not be ASCII: a no-break
space goes like any other. `Text.plainBlanks` puts a space for each blank beyond ASCII. A text that
is read as a field holds nothing else beyond ASCII (`Field.plain_of_parse`), and with plain blanks
it is read as the same field (`Field.parse_plainBlanks`).
-/

namespace CompactRinex

namespace Text

/-- A space for a blank beyond ASCII. -/
def plainBlank (c : Char) : Char := if isBlank c ∧ 128 ≤ c.toNat then ' ' else c

/-- The text with a space for each blank beyond ASCII. -/
def plainBlanks (t : Text) : Text := t.map plainBlank

/-- A plain blank stands for a blank. -/
@[simp] theorem isBlank_plainBlank (c : Char) : isBlank (plainBlank c) = isBlank c := by
  unfold plainBlank
  split
  · next h => rw [h.1, isBlank_space]
  · rfl

/-- Only blanks are replaced. -/
theorem plainBlank_of_visible {c : Char} (h : isBlank c = false) : plainBlank c = c :=
  if_neg fun hblank => by rw [h] at hblank; cases hblank.1

/-- A visible character stands for itself only. -/
theorem plainBlank_eq_iff {c d : Char} (hd : isBlank d = false) : plainBlank c = d ↔ c = d := by
  constructor
  · intro h
    have hc : isBlank c = false := by rw [← isBlank_plainBlank, h, hd]
    rw [← h, plainBlank_of_visible hc]
  · rintro rfl
    exact plainBlank_of_visible hd

/-- A text without blanks stays. -/
theorem plainBlanks_of_visible {t : Text} (h : ∀ c ∈ t, 32 < c.toNat ∧ c.toNat < 128) :
    plainBlanks t = t := by
  have hsame : t.map plainBlank = t.map id :=
    List.map_congr_left fun c hc => plainBlank_of_visible (isBlank_of_visible (h c hc))
  rw [plainBlanks, hsame, List.map_id]

/-- Beyond ASCII there are no characters but blanks. -/
def Plain (t : Text) : Prop := ∀ c ∈ t, isBlank c = true ∨ c.toNat < 128

/-- A text of visible ASCII characters is plain. -/
theorem Plain.of_visible {t : Text} (h : ∀ c ∈ t, 32 < c.toNat ∧ c.toNat < 128) : Plain t :=
  fun c hc => Or.inr (h c hc).2

/-- With plain blanks the text is ASCII. -/
theorem Plain.isAscii_plainBlanks {t : Text} (h : Plain t) : isAscii (plainBlanks t) := by
  refine isAscii_iff.2 fun d hd => ?_
  obtain ⟨c, hc, rfl⟩ := List.mem_map.1 hd
  unfold plainBlank
  split
  · decide
  · next hkept =>
    rcases h c hc with hblank | hascii
    · exact Nat.lt_of_not_le fun hbeyond => hkept ⟨hblank, hbeyond⟩
    · exact hascii

/-! ## Trimming and splitting -/

/-- Blanks are cut off whatever they are. -/
theorem trim_plainBlanks (t : Text) : trim (plainBlanks t) = plainBlanks (trim t) := by
  have hblank : isBlank ∘ plainBlank = isBlank := funext isBlank_plainBlank
  simp only [trim, trimStart, trimEnd, plainBlanks, List.dropWhile_map, ← List.map_reverse, hblank]

/-- Trimming takes away nothing but blanks. -/
theorem isBlank_or_mem_trim {t : Text} {c : Char} (h : c ∈ t) : isBlank c = true ∨ c ∈ trim t := by
  have hdrop : ∀ s : Text, c ∈ s → isBlank c = true ∨ c ∈ s.dropWhile isBlank := by
    intro s hs
    rw [← List.takeWhile_append_dropWhile (p := isBlank) (l := s)] at hs
    exact (List.mem_append.1 hs).imp_left fun hc => List.all_eq_true.1 List.all_takeWhile c hc
  rcases hdrop t h with hblank | hstart
  · exact Or.inl hblank
  · exact (hdrop _ (List.mem_reverse.2 hstart)).imp_right List.mem_reverse.2

/-- The blanks around a plain text make no difference. -/
theorem Plain.of_trim {t : Text} (h : Plain (trim t)) : Plain t := fun c hc =>
  (isBlank_or_mem_trim hc).elim Or.inl (h c)

/-- The parts of a cut text. -/
theorem eq_of_splitFirst? {sep : Char} {t before after : Text}
    (h : splitFirst? sep t = some (before, after)) : t = before ++ sep :: after := by
  induction t generalizing before with
  | nil => cases h
  | cons c t ih =>
    unfold splitFirst? at h
    split at h
    · next hsep => cases h; rw [hsep, List.nil_append]
    · obtain ⟨p, hp, hpair⟩ := Option.map_eq_some_iff.1 h
      cases hpair
      rw [List.cons_append, ← ih hp]

/-- A text is split where it was. -/
theorem splitFirst?_plainBlanks {sep : Char} (hsep : isBlank sep = false) (t : Text) :
    splitFirst? sep (plainBlanks t) =
      (splitFirst? sep t).map fun p => (plainBlanks p.1, plainBlanks p.2) := by
  induction t with
  | nil => rfl
  | cons c t ih =>
    have hcons : plainBlanks (c :: t) = plainBlank c :: plainBlanks t := rfl
    simp only [hcons, splitFirst?, plainBlank_eq_iff hsep, ih]
    split
    · rfl
    · simp only [Option.map_map, Function.comp_def, plainBlanks, List.map_cons]

end Text

namespace Numeral

/-- The characters of a numeral are visible ASCII. -/
theorem visible_of_readDigits {t : Text} {n : ℕ} (h : readDigits t = some n) :
    ∀ c ∈ t, 32 < c.toNat ∧ c.toNat < 128 := by
  unfold readDigits at h
  split at h
  · next hdigits =>
    intro c hc
    have hdigit := Char.isDigit_iff_toNat.1 (List.all_eq_true.1 hdigits.2 c hc)
    exact ⟨lt_of_lt_of_le (by decide) hdigit.1, lt_of_le_of_lt hdigit.2 (by decide)⟩
  · cases h

/-- A number is written in visible ASCII characters. -/
theorem visible_of_readNat {t : Text} {n : ℕ} (h : readNat t = some n) :
    ∀ c ∈ t, 32 < c.toNat ∧ c.toNat < 128 := by
  unfold readNat at h
  split at h
  · exact List.forall_mem_cons.2 ⟨by decide, visible_of_readDigits h⟩
  · exact visible_of_readDigits h

/-- So is a number with a sign. -/
theorem visible_of_readInt {t : Text} {z : ℤ} (h : readInt t = some z) :
    ∀ c ∈ t, 32 < c.toNat ∧ c.toNat < 128 := by
  unfold readInt at h
  split at h
  · next rest =>
    cases hn : readDigits rest with
    | none => rw [hn] at h; cases h
    | some n => exact List.forall_mem_cons.2 ⟨by decide, visible_of_readDigits hn⟩
  · cases hn : readNat t with
    | none => rw [hn] at h; cases h
    | some n => exact visible_of_readNat hn

/-- So is a count. -/
theorem visible_of_readCount {t : Text} {n : ℕ} (h : readCount t = some n) :
    ∀ c ∈ t, 32 < c.toNat ∧ c.toNat < 128 :=
  visible_of_readNat (Option.filter_eq_some_iff.1 h).1

/-- So is a number of 64 bits. -/
theorem visible_of_readInt64 {t : Text} {v : Int64} (h : readInt64 t = some v) :
    ∀ c ∈ t, 32 < c.toNat ∧ c.toNat < 128 := by
  obtain ⟨z, hz, -⟩ := Option.map_eq_some_iff.1 h
  exact visible_of_readInt (Option.filter_eq_some_iff.1 hz).1

end Numeral

namespace Field

/-- A literal field, around its `&`. -/
theorem parseLiteral?_eq_some_iff {before after : Text} {f : Field} :
    parseLiteral? before after = some f ↔ ∃ order value,
      Numeral.readCount (Text.trim before) = some order ∧
        Numeral.readInt64 (Text.trim after) = some value ∧ f = literal order value := by
  unfold parseLiteral?
  cases Numeral.readCount (Text.trim before) with
  | none => simp
  | some order =>
    cases Numeral.readInt64 (Text.trim after) with
    | none => simp
    | some value => simp [eq_comm]

/-- What a text that is read as a field holds between its blanks: nothing, an order and a value, or
a difference. -/
theorem parse_eq_ok_iff {t : Text} {f : Field} : parse t = .ok f ↔
    (Text.trim t = [] ∧ f = missing) ∨
    (∃ before after, Text.splitFirst? '&' (Text.trim t) = some (before, after) ∧
      parseLiteral? before after = some f) ∨
    (Text.splitFirst? '&' (Text.trim t) = none ∧
      ∃ value, Numeral.readInt64 (Text.trim t) = some value ∧ f = delta value) := by
  have hread : Numeral.readInt64 [] = none := rfl
  unfold parse
  -- Only the text without its blanks is looked at.
  generalize Text.trim t = s
  cases s with
  | nil => simp [hread, Text.splitFirst?, eq_comm]
  | cons c s =>
    cases hsplit : Text.splitFirst? '&' (c :: s) with
    | none => cases hvalue : Numeral.readInt64 (c :: s) <;> simp [hsplit, hvalue, eq_comm]
    | some p =>
      obtain ⟨before, after⟩ := p
      cases hliteral : parseLiteral? before after <;> simp [hsplit, hliteral, and_assoc]

/-- With plain blanks a field stays the same. -/
theorem parse_plainBlanks {t : Text} {f : Field} (h : parse t = .ok f) :
    parse (Text.plainBlanks t) = .ok f := by
  rw [parse_eq_ok_iff] at h ⊢
  rw [Text.trim_plainBlanks, Text.splitFirst?_plainBlanks (by decide)]
  rcases h with ⟨htrim, rfl⟩ | ⟨before, after, hsplit, hliteral⟩ | ⟨hsplit, value, hvalue, rfl⟩
  · exact Or.inl ⟨by rw [htrim]; rfl, rfl⟩
  · obtain ⟨order, value, horder, hvalue, rfl⟩ := parseLiteral?_eq_some_iff.1 hliteral
    -- Numbers have no blanks in them, so nothing about them changes.
    have hbefore := Text.plainBlanks_of_visible (Numeral.visible_of_readCount horder)
    have hafter := Text.plainBlanks_of_visible (Numeral.visible_of_readInt64 hvalue)
    refine Or.inr (Or.inl ⟨Text.plainBlanks before, Text.plainBlanks after, ?_, ?_⟩)
    · rw [hsplit]
      rfl
    · refine parseLiteral?_eq_some_iff.2 ⟨order, value, ?_, ?_, rfl⟩
      · rw [Text.trim_plainBlanks, hbefore, horder]
      · rw [Text.trim_plainBlanks, hafter, hvalue]
  · have hdelta := Text.plainBlanks_of_visible (Numeral.visible_of_readInt64 hvalue)
    refine Or.inr (Or.inr ⟨?_, value, ?_, rfl⟩)
    · rw [hsplit]
      rfl
    · rw [hdelta, hvalue]

/-- A text that is read as a field holds nothing beyond ASCII but blanks. -/
theorem plain_of_parse {t : Text} {f : Field} (h : parse t = .ok f) : Text.Plain t := by
  refine Text.Plain.of_trim ?_
  rcases parse_eq_ok_iff.1 h with ⟨htrim, -⟩ | ⟨before, after, hsplit, hliteral⟩ |
    ⟨-, value, hvalue, -⟩
  · rw [htrim]
    exact List.forall_mem_nil _
  · obtain ⟨order, value, horder, hvalue, -⟩ := parseLiteral?_eq_some_iff.1 hliteral
    -- Both numbers are plain, and the marker between them is.
    have hbefore := Text.Plain.of_trim (.of_visible (Numeral.visible_of_readCount horder))
    have hafter := Text.Plain.of_trim (.of_visible (Numeral.visible_of_readInt64 hvalue))
    rw [Text.eq_of_splitFirst? hsplit]
    exact List.forall_mem_append.2
      ⟨hbefore, List.forall_mem_cons.2 ⟨Or.inr (by decide), hafter⟩⟩
  · exact .of_visible (Numeral.visible_of_readInt64 hvalue)

end Field

end CompactRinex
