import CompactRinex.Overlay
import CompactRinex.Proofs.Outcome
import Mathlib.Data.List.GetD
import Mathlib.Order.Lattice

/-!
# Overlaid texts column by column

A text has a character in every column, a space beyond its end. In these terms an edit is one rule
for each column (`getD_merge`), and the text after several edits is their fold over the columns.
-/

namespace CompactRinex.Overlay

/-- A space keeps the character. -/
theorem put_keep {α : Type} [DecidableEq α] (keep erase c : α) : put keep erase c keep = c := by
  simp [put]

/-- An edit works column by column. -/
theorem getD_mergeWith {α : Type} [DecidableEq α] (keep erase : α) (text edit : List α) (i : ℕ) :
    (mergeWith keep erase text edit).getD i keep =
      put keep erase (text.getD i keep) (edit.getD i keep) := by
  induction edit generalizing text i with
  | nil => simp [mergeWith, put_keep]
  | cons e edit ih =>
    cases text with
    | nil =>
      -- Beyond the text the edit applies to spaces.
      cases i with
      | zero => simp [mergeWith]
      | succ i => simpa [mergeWith] using ih [] i
    | cons c text =>
      cases i with
      | zero => simp [mergeWith]
      | succ i => simpa [mergeWith] using ih text i

/-- Each column of a text is edited by the same column of the edit. -/
theorem getD_merge (text edit : Text) (i : ℕ) :
    (merge text edit).getD i ' ' = put ' ' '&' (text.getD i ' ') (edit.getD i ' ') :=
  getD_mergeWith ' ' '&' text edit i

/-- Blanks show a space everywhere. -/
@[simp] theorem getD_blanks (n i : ℕ) : (Text.blanks n).getD i ' ' = ' ' := by
  by_cases h : i < n
  · exact List.getD_replicate _ h
  · exact List.getD_eq_default _ _ (by rw [Text.length_blanks]; exact Nat.le_of_not_lt h)

/-- Padding keeps a text ASCII. -/
theorem isAscii_padRight {width : ℕ} {text : Text} (h : Text.isAscii text) :
    Text.isAscii (Text.padRight width text) := by
  rw [Text.padRight, Text.isAscii_append, h, Bool.true_and]
  refine Text.isAscii_iff.2 fun c hc => ?_
  rw [List.eq_of_mem_replicate hc]
  decide

/-- A text with all its columns needs no padding. -/
theorem padRight_of_le {width : ℕ} {text : Text} (h : width ≤ text.length) :
    Text.padRight width text = text := by
  rw [Text.padRight, Nat.sub_eq_zero_of_le h]
  exact List.append_nil text

/-- Trailing blanks do not show in any column. -/
theorem getD_padRight (width : ℕ) (text : Text) (i : ℕ) :
    (Text.padRight width text).getD i ' ' = text.getD i ' ' := by
  by_cases h : i < text.length
  · rw [Text.padRight, List.getD_append _ _ _ _ h]
  · rw [Text.padRight, List.getD_append_right _ _ _ _ (Nat.le_of_not_lt h), getD_blanks,
      List.getD_eq_default _ _ (Nat.le_of_not_lt h)]

/-- A text is ASCII when its columns are. -/
theorem isAscii_iff_getD {text : Text} :
    Text.isAscii text ↔ ∀ i, (text.getD i ' ').toNat < 128 := by
  rw [Text.isAscii_iff]
  constructor
  · intro h i
    by_cases hi : i < text.length
    · rw [List.getD_eq_getElem _ _ hi]
      exact h _ (List.getElem_mem hi)
    · rw [List.getD_eq_default _ _ (Nat.le_of_not_lt hi)]
      decide
  · intro h c hc
    obtain ⟨i, hi, rfl⟩ := List.mem_iff_getElem.1 hc
    rw [← List.getD_eq_getElem _ ' ' hi]
    exact h i

/-! ## Edits that are accepted -/

/-- An edit that may stand alone is an edit of nothing. -/
theorem recover_of_reference_eq_none {o : Overlay} (ho : o.reference = none) {change text : Text}
    (h : o.recover change = .ok text) :
    Overlay.recover { o with reference := some [] } change = .ok text := by
  unfold recover at h ⊢
  split at h
  · next hc =>
    obtain ⟨bytes, hbase, hrest⟩ := bind_eq_ok_iff.1 h
    rw [if_pos hc]
    refine bind_eq_ok_iff.2 ⟨[], rfl, ?_⟩
    simp only [base, ho] at hbase
    split at hbase
    · cases hbase
    · cases hbase
      exact hrest
  · cases h

/-- An edit that is accepted is ASCII. -/
theorem isAscii_of_recover_eq_ok {o : Overlay} {change text : Text}
    (h : o.recover change = .ok text) : Text.isAscii change := by
  by_contra hc
  simp [recover, hc] at h

/-- An edit of an ASCII text that is accepted leaves an ASCII text. -/
theorem isAscii_of_recover {o : Overlay} (ho : ∀ t ∈ o.reference, Text.isAscii t)
    {change text : Text} (h : o.recover change = .ok text) : Text.isAscii text := by
  have hc := isAscii_of_recover_eq_ok h
  cases href : o.reference with
  | some reference =>
    have ht := ho reference href
    rw [recover_of_isAscii href ht hc] at h
    cases h
    exact isAscii_merge (isAscii_padRight ht) hc
  | none =>
    -- Without a stored text the change has been merged into an empty one.
    have h' := recover_of_reference_eq_none href h
    rw [recover_of_isAscii (rfl : _ = some []) rfl hc] at h'
    cases h'
    exact isAscii_merge (isAscii_padRight rfl) hc

end CompactRinex.Overlay
