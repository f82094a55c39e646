import CompactRinex.Proofs.Overlay.Columns
import CompactRinex.Text.Blank
import Mathlib.Data.List.DropRight

/-!
# Edits between two texts

`Overlay.difference` is the edit that leads from one text to another: a space where they agree, `&`
where the second is blank, and the character of the second anywhere else, without the blanks at the
end. Applied to a text that agrees with the first in every column, it leaves one that agrees with
the second (`getD_merge_difference`), provided that the second holds no `&` and no blank but the
space.
-/

namespace CompactRinex

/-- Printable ASCII. -/
def Text.isPrintable (t : Text) : Bool := t.all fun c => 32 ≤ c.toNat && c.toNat < 127

namespace Text

/-- Printable characters are those from the space to the tilde. -/
theorem isPrintable_iff {t : Text} :
    isPrintable t = true ↔ ∀ c ∈ t, 32 ≤ c.toNat ∧ c.toNat < 127 := by
  simp [isPrintable]

/-- They are ASCII. -/
theorem isAscii_of_isPrintable {t : Text} (h : isPrintable t) : isAscii t :=
  isAscii_iff.2 fun c hc => lt_trans (isPrintable_iff.1 h c hc).2 (by decide)

/-- The only printable blank is the space. -/
theorem eq_space_of_isBlank {c : Char} (h : 32 ≤ c.toNat ∧ c.toNat < 127) (hb : isBlank c) :
    c = ' ' := by
  simp only [isBlank, Bool.or_eq_true, Bool.and_eq_true, decide_eq_true_eq, beq_iff_eq] at hb
  exact Char.toNat_inj.1 (show c.toNat = 32 by omega)

/-! ## Trailing spaces -/

/-- The text holds no blank but the space. -/
def OnlySpaces (t : Text) : Prop := ∀ c ∈ t, isBlank c = true → c = ' '

/-- Their only blank is the space. -/
theorem onlySpaces_of_isPrintable {t : Text} (h : isPrintable t) : OnlySpaces t :=
  fun c hc => eq_space_of_isBlank (isPrintable_iff.1 h c hc)

/-- The text without the spaces that it ends with. -/
def trimSpaces (t : Text) : Text := t.rdropWhile (· == ' ')

/-- Padding brings the text back. -/
theorem padRight_trimSpaces (t : Text) : padRight t.length (trimSpaces t) = t := by
  have hsplit : trimSpaces t ++ t.rtakeWhile (· == ' ') = t :=
    List.rdropWhile_append_rtakeWhile ..
  have hlen := congrArg List.length hsplit
  rw [List.length_append] at hlen
  have hspaces : t.rtakeWhile (· == ' ') = blanks (t.length - (trimSpaces t).length) := by
    refine List.eq_replicate_iff.2 ⟨by omega, fun c hc => ?_⟩
    exact beq_iff_eq.1 (@List.mem_rtakeWhile_imp _ (· == ' ') _ _ hc)
  rw [padRight, ← hspaces, hsplit]

/-- Trailing spaces do not show in any column. -/
theorem getD_trimSpaces (t : Text) (i : ℕ) : (trimSpaces t).getD i ' ' = t.getD i ' ' := by
  conv_rhs => rw [← padRight_trimSpaces t]
  rw [Overlay.getD_padRight]

/-- No space is left at the end. -/
theorem getLast?_trimSpaces_ne (t : Text) : (trimSpaces t).getLast? ≠ some ' ' := by
  intro hlast
  have hne : trimSpaces t ≠ [] := by rintro heq; simp [heq] at hlast
  rw [List.getLast?_eq_getLast_of_ne_nil hne] at hlast
  exact List.rdropWhile_last_not (· == ' ') t hne (beq_iff_eq.2 (Option.some.inj hlast))

/-- Where there are no other blanks, the blanks at the end are spaces. -/
theorem OnlySpaces.trimEnd_eq {t : Text} (h : OnlySpaces t) : trimEnd t = trimSpaces t := by
  induction t using List.reverseRecOn with
  | nil => rfl
  | append_singleton t c ih =>
    have ht : OnlySpaces t := fun d hd => h d (List.mem_append_left _ hd)
    by_cases hc : c = ' '
    · subst hc
      rw [trimEnd_append_blank t isBlank_space, ih ht, trimSpaces, trimSpaces,
        List.rdropWhile_concat, if_pos (beq_self_eq_true ' ')]
    · -- A character other than the space ends both cuts.
      have hvisible : isBlank c = false :=
        Bool.eq_false_iff.2 fun hblank => hc (h c (by simp) hblank)
      rw [trimEnd_append_visible t hvisible, trimSpaces, List.rdropWhile_concat,
        if_neg fun hspace => hc (beq_iff_eq.1 hspace)]

/-- Without its trailing spaces a printable text has the same columns. -/
theorem getD_trimEnd {t : Text} (h : isPrintable t) (i : ℕ) :
    (trimEnd t).getD i ' ' = t.getD i ' ' := by
  rw [(onlySpaces_of_isPrintable h).trimEnd_eq, getD_trimSpaces]

/-- A text without the blanks at its end is not longer. -/
theorem length_trimEnd_le (t : Text) : (trimEnd t).length ≤ t.length := by
  obtain ⟨s, hs, -⟩ := exists_trimEnd_append t
  have hlen := congrArg List.length hs
  rw [List.length_append] at hlen
  omega

/-- It consists of the text. -/
theorem mem_of_mem_trimEnd {t : Text} {c : Char} (h : c ∈ trimEnd t) : c ∈ t := by
  obtain ⟨s, hs, -⟩ := exists_trimEnd_append t
  rw [hs]
  exact List.mem_append_left _ h

/-! ## Texts with the same columns -/

/-- A text that does not end in a space is not longer than a text with the same columns. -/
theorem length_le_of_getD {s t : Text} (h : ∀ i, t.getD i ' ' = s.getD i ' ')
    (hlast : s.getLast? ≠ some ' ') : s.length ≤ t.length := by
  by_contra hlt
  -- The last character is in a column that the shorter text does not have.
  have hne : s ≠ [] := by rintro rfl; simp at hlt
  have hpos : s.length - 1 < s.length := Nat.sub_lt (List.length_pos_iff.2 hne) Nat.one_pos
  have hcol := h (s.length - 1)
  rw [List.getD_eq_default t ' ' (by omega), List.getD_eq_getElem s ' ' hpos] at hcol
  exact hlast (by rw [List.getLast?_eq_getElem?, List.getElem?_eq_getElem hpos, ← hcol])

/-- A text is a shorter one with the same columns, followed by spaces. -/
theorem eq_append_blanks {s t : Text} (h : ∀ i, t.getD i ' ' = s.getD i ' ')
    (hlen : s.length ≤ t.length) : t = s ++ blanks (t.length - s.length) := by
  refine List.ext_getElem (by simp; omega) fun i hi hi' => ?_
  have hcol := h i
  rw [List.getD_eq_getElem t ' ' hi] at hcol
  rw [hcol, ← List.getD_eq_getElem _ ' ' hi', ← Overlay.getD_padRight t.length s]
  rfl

/-- Texts of one length with the same columns are the same. -/
theorem eq_of_getD {s t : Text} (hlen : s.length = t.length)
    (h : ∀ i, s.getD i ' ' = t.getD i ' ') : s = t := by
  have hpad := eq_append_blanks h (le_of_eq hlen.symm)
  rw [hlen, Nat.sub_self] at hpad
  exact hpad.trans (List.append_nil t)

end Text

namespace Overlay

/-- The edit of a column that holds `before` and is to hold `after`. -/
def change (before after : Char) : Char :=
  if before = after then ' ' else if after = ' ' then '&' else after

/-- The edits of all columns of two texts. -/
def changes (before after : Text) : Text :=
  (List.range (max before.length after.length)).map fun i =>
    change (before.getD i ' ') (after.getD i ' ')

/-- The edit that leads from one text to another. -/
def difference (before after : Text) : Text := Text.trimEnd (changes before after)

/-- A text without `&` shows none. An edit could not put one. -/
theorem getD_ne_ampersand {text : Text} (h : '&' ∉ text) (i : ℕ) : text.getD i ' ' ≠ '&' := by
  by_cases hi : i < text.length
  · rw [List.getD_eq_getElem _ _ hi]
    exact fun heq => h (heq ▸ List.getElem_mem hi)
  · rw [List.getD_eq_default _ _ (Nat.le_of_not_lt hi)]
    decide

/-- The change leads from the one character to the other. -/
theorem put_change {before after : Char} (h : after ≠ '&') :
    put ' ' '&' before (change before after) = after := by
  unfold change
  split
  · next heq => rw [put_keep, heq]
  · split
    · next hblank => simp [put, hblank]
    · next hblank => simp [put, hblank, h]

/-- The changes are those of each column. -/
theorem getD_changes (before after : Text) (i : ℕ) :
    (changes before after).getD i ' ' = change (before.getD i ' ') (after.getD i ' ') := by
  by_cases hi : i < max before.length after.length
  · have hlen : i < (changes before after).length := by simpa [changes] using hi
    rw [List.getD_eq_getElem _ _ hlen]
    simp [changes]
  · have hle : max before.length after.length ≤ i := Nat.le_of_not_lt hi
    rw [List.getD_eq_default _ _ (by simpa [changes] using hle),
      List.getD_eq_default _ _ (le_trans (le_max_left _ _) hle),
      List.getD_eq_default _ _ (le_trans (le_max_right _ _) hle)]
    rfl

/-- An edit holds spaces, `&` and characters of the new text. -/
theorem mem_difference {before after : Text} {c : Char} (h : c ∈ difference before after) :
    c = ' ' ∨ c = '&' ∨ c ∈ after := by
  obtain ⟨i, -, rfl⟩ := List.mem_map.1 (Text.mem_of_mem_trimEnd h)
  unfold change
  split
  · exact Or.inl rfl
  · split
    · exact Or.inr (Or.inl rfl)
    · next hblank =>
      -- Past the end of the second text there would be a space.
      by_cases hi : i < after.length
      · rw [List.getD_eq_getElem _ _ hi]
        exact Or.inr (Or.inr (List.getElem_mem hi))
      · exact absurd (List.getD_eq_default _ _ (Nat.le_of_not_lt hi)) hblank

/-- The changes are printable. -/
theorem isPrintable_changes {after : Text} (before : Text) (h : Text.isPrintable after) :
    Text.isPrintable (changes before after) := by
  refine Text.isPrintable_iff.2 fun c hc => ?_
  obtain ⟨i, -, rfl⟩ := List.mem_map.1 hc
  unfold change
  split
  · decide
  · split
    · decide
    · next hblank =>
      by_cases hi : i < after.length
      · rw [List.getD_eq_getElem _ _ hi]
        exact Text.isPrintable_iff.1 h _ (List.getElem_mem hi)
      · exact absurd (List.getD_eq_default _ _ (Nat.le_of_not_lt hi)) hblank

/-- The difference is ASCII. -/
theorem isAscii_difference {after : Text} (before : Text) (h : Text.isPrintable after) :
    Text.isAscii (difference before after) := by
  refine Text.isAscii_iff.2 fun c hc => ?_
  have hascii := Text.isAscii_of_isPrintable (isPrintable_changes before h)
  exact Text.isAscii_iff.1 hascii c (Text.mem_of_mem_trimEnd hc)

/-- The difference is not longer than both texts. -/
theorem length_difference_le (before after : Text) :
    (difference before after).length ≤ max before.length after.length := by
  refine le_trans (Text.length_trimEnd_le _) ?_
  simp [changes]

/-- The edit between two texts leads any text with the columns of the first to one with the columns
of the second. -/
theorem getD_merge_difference {text before after : Text}
    (h : ∀ i, text.getD i ' ' = before.getD i ' ') (hprint : Text.isPrintable after)
    (hamp : '&' ∉ after) (i : ℕ) :
    (merge text (difference before after)).getD i ' ' = after.getD i ' ' := by
  rw [getD_merge, difference, Text.getD_trimEnd (isPrintable_changes before hprint), getD_changes,
    h, put_change (getD_ne_ampersand hamp i)]

end Overlay

end CompactRinex
