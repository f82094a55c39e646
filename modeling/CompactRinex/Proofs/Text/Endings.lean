import CompactRinex.Proofs.Difference.Blanks
import CompactRinex.Proofs.Positions.Cuts
import CompactRinex.Proofs.Text.Lines
import Mathlib.Data.List.Induction

/-!
# Endings of texts

An ending is dropped from exactly the texts that have it (`dropSuffix?_eq_some_iff`), and what
stands after the last point is what the reversed text has before its first one
(`splitFirst?_eq_some_iff`); letters are compared in lower case (`toLower_eq_iff`). The bytes of a
text end in those of an ASCII text only if the text itself does (`exists_of_encode_eq_append`),
since none of these bytes is part of another character; and a text can be cut in front of any of its
endings (`takeBytes?_append`).
-/

namespace CompactRinex

namespace Text

/-- What is left when the ending is dropped. -/
theorem dropSuffix?_eq_some_iff {suffix t stem : Text} :
    dropSuffix? suffix t = some stem ↔ t = stem ++ suffix := by
  unfold dropSuffix?
  constructor
  · intro h
    split at h
    · next hsuffix =>
      obtain ⟨s, rfl⟩ := List.isSuffixOf_iff_suffix.1 hsuffix
      rw [List.length_append, Nat.add_sub_cancel, List.take_left] at h
      rw [Option.some.inj h]
    · cases h
  · rintro rfl
    rw [if_pos (List.isSuffixOf_iff_suffix.2 ⟨stem, rfl⟩), List.length_append, Nat.add_sub_cancel,
      List.take_left]

/-- Nothing is dropped from a text with another ending. -/
theorem dropSuffix?_eq_none_iff {suffix t : Text} :
    dropSuffix? suffix t = none ↔ ¬suffix <:+ t := by
  rw [Option.eq_none_iff_forall_not_mem]
  constructor
  · rintro h ⟨stem, rfl⟩
    exact h stem (dropSuffix?_eq_some_iff.2 rfl)
  · intro h stem hstem
    exact h ⟨stem, (dropSuffix?_eq_some_iff.1 hstem).symm⟩

/-- A text with another last character does not have the ending. -/
theorem dropSuffix?_of_getLast?_ne (c : Char) {suffix t : Text} (hsuffix : suffix.getLast? = some c)
    (ht : t.getLast? ≠ some c) : dropSuffix? suffix t = none := by
  rw [dropSuffix?_eq_none_iff]
  rintro ⟨stem, rfl⟩
  rw [List.getLast?_append, hsuffix, Option.some_or] at ht
  exact ht rfl

/-- The separator is not in the first part. -/
theorem not_mem_of_splitFirst? {sep : Char} {t before after : Text}
    (h : splitFirst? sep t = some (before, after)) : sep ∉ before := by
  induction t generalizing before with
  | nil => cases h
  | cons c t ih =>
    unfold splitFirst? at h
    split at h
    · cases h
      exact List.not_mem_nil
    · next hne =>
      obtain ⟨p, hp, hpair⟩ := Option.map_eq_some_iff.1 h
      cases hpair
      exact List.not_mem_cons_of_ne_of_not_mem (Ne.symm hne) (ih hp)

/-- A text is split at its first separator. -/
theorem splitFirst?_eq_some_iff {sep : Char} {t before after : Text} :
    splitFirst? sep t = some (before, after) ↔ sep ∉ before ∧ t = before ++ sep :: after := by
  constructor
  · intro h
    exact ⟨not_mem_of_splitFirst? h, eq_of_splitFirst? h⟩
  · rintro ⟨hsep, rfl⟩
    exact Column.splitFirst?_append after hsep

/-- Two letters have the same one in lower case: the letter itself and the one in upper case. -/
theorem toLower_eq_iff {c lower upper : Char}
    (hlower : 'a'.toNat ≤ lower.toNat ∧ lower.toNat ≤ 'z'.toNat)
    (hupper : upper.toNat + 32 = lower.toNat) : c.toLower = lower ↔ c = lower ∨ c = upper := by
  have ha : 'a'.toNat = 97 := rfl
  have hz : 'z'.toNat = 122 := rfl
  unfold Char.toLower
  split
  · next hc =>
    have hlow : 65 ≤ c.toNat := UInt32.le_iff_toNat_le.1 hc.1
    have hhigh : c.toNat ≤ 90 := UInt32.le_iff_toNat_le.1 hc.2
    -- No capital letter is so big that the sum wraps.
    have hsum : (c.val + ('a'.val - 'A'.val)).toNat = c.toNat + 32 := by
      rw [UInt32.toNat_add]
      show (c.toNat + 32) % 2 ^ 32 = c.toNat + 32
      omega
    rw [← Char.toNat_inj, ← Char.toNat_inj, ← Char.toNat_inj]
    show (c.val + ('a'.val - 'A'.val)).toNat = lower.toNat ↔ _
    rw [hsum]
    omega
  · next hc =>
    have hne : c ≠ upper := by
      rintro rfl
      refine hc ⟨UInt32.le_iff_toNat_le.2 ?_, UInt32.le_iff_toNat_le.2 ?_⟩
      · show 65 ≤ c.toNat
        omega
      · show c.toNat ≤ 90
        omega
    exact ⟨Or.inl, fun h => h.resolve_right hne⟩

/-- The byte of an ASCII character. -/
def byteOf (c : Char) : UInt8 := UInt8.ofNat c.toNat

/-- Where the bytes of a text end in that of an ASCII character, the text ends in this character. -/
theorem exists_of_encode_eq_concat {t : Text} {bytes : List UInt8} {c : Char} (hc : c.toNat < 128)
    (h : encode t = bytes ++ [byteOf c]) : ∃ s, t = s ++ [c] ∧ encode s = bytes := by
  rcases t.eq_nil_or_concat with rfl | ⟨s, d, rfl⟩
  · cases bytes <;> cases h
  · rw [List.concat_eq_append, encode_append, encode_cons, encode_nil, List.append_nil] at h
    have hd : d = c := by
      -- The last byte of a character is one of its bytes, and only `c` has this one.
      have hne : String.utf8EncodeChar d ≠ [] := by
        refine List.ne_nil_of_length_pos ?_
        rw [String.length_utf8EncodeChar]
        exact Char.utf8Size_pos d
      have hlast := congrArg List.getLast? h
      rw [List.getLast?_append_of_ne_nil _ hne, List.getLast?_concat] at hlast
      exact (ofNat_mem_utf8EncodeChar_iff hc).1 (List.mem_of_getLast? hlast)
    subst hd
    rw [utf8EncodeChar_of_lt hc] at h
    exact ⟨s, List.concat_eq_append, List.append_cancel_right h⟩

/-- So it is with several of them. -/
theorem exists_of_encode_eq_append {t ending : Text} {bytes : List UInt8}
    (hending : isAscii ending = true) (h : encode t = bytes ++ ending.map byteOf) :
    ∃ s, t = s ++ ending ∧ encode s = bytes := by
  induction ending using List.reverseRecOn generalizing t with
  | nil => exact ⟨t, (List.append_nil t).symm, h.trans (List.append_nil bytes)⟩
  | append_singleton ending c ih =>
    rw [isAscii_append, Bool.and_eq_true] at hending
    rw [List.map_append, ← List.append_assoc] at h
    obtain ⟨s, rfl, hs⟩ :=
      exists_of_encode_eq_concat (isAscii_iff.1 hending.2 c (List.mem_singleton_self c)) h
    obtain ⟨s', rfl, hs'⟩ := ih hending.1 hs
    exact ⟨s', List.append_assoc _ _ _, hs'⟩

/-- A text can be cut at the end of each of its beginnings. -/
theorem takeBytes?_append (s t : Text) : takeBytes? (byteLength s) (s ++ t) = some s := by
  induction s with
  | nil => cases t <;> rfl
  | cons c s ih =>
    have hpos := Char.utf8Size_pos c
    obtain ⟨n, hn⟩ : ∃ n, byteLength (c :: s) = n + 1 :=
      ⟨byteLength (c :: s) - 1, by rw [byteLength_cons]; omega⟩
    -- After the first character the others remain to be taken.
    have hrest : n + 1 - c.utf8Size = byteLength s := by
      rw [byteLength_cons] at hn
      omega
    have hle : c.utf8Size ≤ n + 1 := by
      rw [byteLength_cons] at hn
      omega
    rw [hn, List.cons_append, takeBytes?, if_pos hle, hrest, ih]
    rfl

end Text

end CompactRinex
