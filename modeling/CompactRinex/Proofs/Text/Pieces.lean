import CompactRinex.Proofs.Text.Rows
import CompactRinex.Text.Blank
import Mathlib.Data.List.TakeWhile

/-!
# Pieces of texts

What the cuts of a text are, without the way they are made. The segments are the only pieces without
a separator that make up the text with separators between them (`segments_eq_iff`). The words are
the non-empty pieces that stand between gaps (`stretches_eq_cons_iff`), whatever counts as a gap.
What is left of a text that is trimmed is the part between the blanks at its ends, which starts and
ends visibly (`trim_eq_iff`).
-/

namespace CompactRinex

namespace Text

/-! ## Segments -/

variable {α : Type} [BEq α] [LawfulBEq α]

/-- Cutting is undone by putting the separators back. -/
theorem intercalate_segments (sep : α) (xs : List α) :
    List.intercalate [sep] (segments (· == sep) xs) = xs := by
  induction xs with
  | nil => rfl
  | cons x xs ih =>
    obtain ⟨part, rest, hparts⟩ := List.exists_cons_of_ne_nil (segments_ne_nil (· == sep) xs)
    rw [hparts] at ih
    by_cases hx : x = sep
    · subst hx
      have hcut : segments (· == x) (x :: xs) = [] :: segments (· == x) xs :=
        segments_cons_sep xs (beq_self_eq_true x)
      rw [hcut, hparts, List.intercalate_cons_cons, ih]
      rfl
    · have hcut : segments (· == sep) (x :: xs) = (x :: part) :: rest :=
        segments_cons_of_not_sep (· == sep) (beq_false_of_ne hx) hparts
      rw [intercalate_cons] at ih
      rw [hcut, intercalate_cons, List.cons_append, ih]

/-- The segments are the pieces without a separator that the separators join to the text. -/
theorem segments_eq_iff {sep : α} {xs : List α} {parts : List (List α)} :
    segments (· == sep) xs = parts ↔
      parts ≠ [] ∧ (∀ part ∈ parts, sep ∉ part) ∧ xs = List.intercalate [sep] parts := by
  constructor
  · rintro rfl
    refine ⟨segments_ne_nil _ xs, fun part hpart hsep => ?_, (intercalate_segments sep xs).symm⟩
    have hnot := isSep_of_mem_segments (· == sep) hpart hsep
    exact absurd rfl (beq_eq_false_iff_ne.1 hnot)
  · rintro ⟨hne, hparts, rfl⟩
    -- No part has a separator in it.
    have hfree : ∀ part ∈ parts, ∀ x ∈ part, (x == sep) = false := fun part hpart x hx =>
      beq_false_of_ne fun heq => hparts part hpart (heq ▸ hx)
    refine segments_intercalate ?_ hne hfree
    exact beq_self_eq_true sep

/-! ## Words -/

/-- The non-empty stretches between separators. -/
def stretches (isSep : Char → Bool) (t : Text) : List Text :=
  (segments isSep t).filter fun w => !w.isEmpty

variable {isSep : Char → Bool}

/-- A separator stands between the stretches before it and those after it. -/
theorem stretches_append_sep {c : Char} (hc : isSep c = true) (s t : Text) :
    stretches isSep (s ++ c :: t) = stretches isSep s ++ stretches isSep t := by
  simp only [stretches, segments_append_sep isSep hc, List.filter_append]

/-- A separator in front belongs to no stretch. -/
theorem stretches_cons_sep {c : Char} (hc : isSep c = true) (t : Text) :
    stretches isSep (c :: t) = stretches isSep t :=
  stretches_append_sep hc [] t

/-- A gap at the start is passed over. -/
theorem stretches_gap_append {gap : Text} (h : ∀ c ∈ gap, isSep c = true) (t : Text) :
    stretches isSep (gap ++ t) = stretches isSep t := by
  induction gap with
  | nil => rfl
  | cons c gap ih =>
    obtain ⟨hc, hgap⟩ := List.forall_mem_cons.1 h
    rw [List.cons_append, stretches_cons_sep hc, ih hgap]

/-- A text without separators is one stretch. -/
theorem stretches_of_forall {w : Text} (hne : w ≠ []) (h : ∀ c ∈ w, isSep c = false) :
    stretches isSep w = [w] := by
  have hsegments : segments isSep (w ++ []) = [w ++ []] := segments_append_of_forall isSep h rfl
  rw [List.append_nil] at hsegments
  rw [stretches, hsegments]
  simp [hne]

/-- No stretch reaches over a separator. -/
theorem stretches_word_append {w rest : Text} (hne : w ≠ []) (hw : ∀ c ∈ w, isSep c = false)
    (hrest : ∀ c ∈ rest.head?, isSep c = true) :
    stretches isSep (w ++ rest) = w :: stretches isSep rest := by
  cases rest with
  | nil => rw [List.append_nil, stretches_of_forall hne hw]; rfl
  | cons c rest =>
    have hc : isSep c = true := hrest c rfl
    rw [stretches_append_sep hc, stretches_of_forall hne hw, stretches_cons_sep hc]
    rfl

/-- What is left after some first characters starts with another one. -/
theorem eq_false_of_mem_head?_dropWhile {p : Char → Bool} {t : Text} {c : Char}
    (hc : c ∈ (t.dropWhile p).head?) : p c = false := by
  have hnot := List.head?_dropWhile_not p t
  rw [Option.mem_def.1 hc] at hnot
  exact hnot

/-- A stretch, with the gap in front of it and what follows. -/
structure Leads (isSep : Char → Bool) (gap w rest : Text) : Prop where
  gap : ∀ c ∈ gap, isSep c = true
  ne_nil : w ≠ []
  word : ∀ c ∈ w, isSep c = false
  rest : ∀ c ∈ rest.head?, isSep c = true

/-- The first word is the first stretch. -/
theorem Leads.stretches_eq {gap w rest : Text} (h : Leads isSep gap w rest) :
    stretches isSep (gap ++ (w ++ rest)) = w :: stretches isSep rest := by
  rw [stretches_gap_append h.gap, stretches_word_append h.ne_nil h.word h.rest]

/-- A text that has something else than separators has a first stretch. -/
theorem exists_leads {t : Text} (h : ¬∀ c ∈ t, isSep c = true) :
    ∃ gap w rest, t = gap ++ (w ++ rest) ∧ Leads isSep gap w rest := by
  -- What follows the gap is not empty.
  have hsome : t.dropWhile isSep ≠ [] := fun hnil => h (List.dropWhile_eq_nil_iff.1 hnil)
  refine ⟨t.takeWhile isSep, (t.dropWhile isSep).takeWhile fun c => !isSep c,
    (t.dropWhile isSep).dropWhile fun c => !isSep c, ?_, ?_⟩
  · rw [List.takeWhile_append_dropWhile, List.takeWhile_append_dropWhile]
  · obtain ⟨c, s, hs⟩ := List.exists_cons_of_ne_nil hsome
    have hc : isSep c = false := by
      refine eq_false_of_mem_head?_dropWhile (t := t) ?_
      rw [hs]
      rfl
    refine ⟨fun c hc => List.mem_takeWhile_imp hc, ?_, fun c hc => ?_, fun c hc => ?_⟩
    · rw [hs, List.takeWhile_cons_of_pos (by rw [hc]; rfl)]
      exact List.cons_ne_nil c _
    · simpa only [Bool.not_eq_true'] using List.mem_takeWhile_imp hc
    · simpa only [Bool.not_eq_false'] using eq_false_of_mem_head?_dropWhile hc

/-- Only a text of separators has no stretches. -/
theorem stretches_eq_nil_iff {t : Text} :
    stretches isSep t = [] ↔ ∀ c ∈ t, isSep c = true := by
  constructor
  · intro h
    by_contra hnot
    obtain ⟨gap, w, rest, rfl, hleads⟩ := exists_leads hnot
    rw [hleads.stretches_eq] at h
    cases h
  · intro h
    have hgap := stretches_gap_append h []
    rw [List.append_nil] at hgap
    exact hgap

/-- The first stretch follows after a gap, and ends in front of a separator. -/
theorem stretches_eq_cons_iff {t w : Text} {ws : List Text} :
    stretches isSep t = w :: ws ↔ ∃ gap rest, t = gap ++ (w ++ rest) ∧ Leads isSep gap w rest ∧
      stretches isSep rest = ws := by
  constructor
  · intro h
    -- There is a stretch, so not all characters separate.
    have hsome : ¬∀ c ∈ t, isSep c = true := by
      intro hall
      rw [stretches_eq_nil_iff.2 hall] at h
      cases h
    obtain ⟨gap, w', rest, rfl, hleads⟩ := exists_leads hsome
    rw [hleads.stretches_eq] at h
    cases h
    exact ⟨gap, rest, rfl, hleads, rfl⟩
  · rintro ⟨gap, rest, rfl, hleads, rfl⟩
    exact hleads.stretches_eq

/-! ## Trimming -/

/-- Neither the first nor the last character is blank. -/
structure Bordered (t : Text) : Prop where
  head : ∀ c ∈ t.head?, isBlank c = false
  last : ∀ c ∈ t.getLast?, isBlank c = false

/-- There is no blank at the start. -/
theorem Bordered.eq_nil_of_append_left {gap s : Text} (h : Bordered (gap ++ s))
    (hgap : ∀ c ∈ gap, isBlank c = true) : gap = [] := by
  cases gap with
  | nil => rfl
  | cons c gap =>
    have hvisible := h.head c rfl
    rw [hgap c List.mem_cons_self] at hvisible
    cases hvisible

/-- There is no blank at the end. -/
theorem Bordered.eq_nil_of_append_right {gap s : Text} (h : Bordered (s ++ gap))
    (hgap : ∀ c ∈ gap, isBlank c = true) : gap = [] := by
  rcases gap.eq_nil_or_concat with rfl | ⟨gap, c, rfl⟩
  · rfl
  · rw [List.concat_eq_append] at h hgap
    have hvisible := h.last c (by rw [← List.append_assoc, List.getLast?_concat]; rfl)
    rw [hgap c List.mem_concat_self] at hvisible
    cases hvisible

/-- Blanks at the start are cut off. -/
theorem trimStart_blank_append {before : Text} (h : isAllBlank before = true) (t : Text) :
    trimStart (before ++ t) = trimStart t :=
  List.dropWhile_append_of_pos fun c hc => List.all_eq_true.1 h c hc

/-- A text without one at its start stays. -/
theorem trimStart_of_head {t : Text} (h : ∀ c ∈ t.head?, isBlank c = false) : trimStart t = t := by
  cases t with
  | nil => rfl
  | cons c t =>
    have hc : ¬isBlank c = true := by
      rw [h c rfl]
      exact Bool.false_ne_true
    exact List.dropWhile_cons_of_neg hc

/-- The end is the start of the reversed text. -/
theorem trimEnd_eq_reverse (t : Text) : trimEnd t = (trimStart t.reverse).reverse := rfl

/-- Blanks at the end are cut off. -/
theorem trimEnd_append_blanks {after : Text} (h : isAllBlank after = true) (t : Text) :
    trimEnd (t ++ after) = trimEnd t := by
  have hreverse : isAllBlank after.reverse = true := by rw [isAllBlank, List.all_reverse]; exact h
  rw [trimEnd_eq_reverse, List.reverse_append, trimStart_blank_append hreverse,
    ← trimEnd_eq_reverse]

/-- A text without one at its end stays. -/
theorem trimEnd_of_last {t : Text} (h : ∀ c ∈ t.getLast?, isBlank c = false) : trimEnd t = t := by
  have hhead : ∀ c ∈ t.reverse.head?, isBlank c = false := by
    rw [List.head?_reverse]
    exact h
  rw [trimEnd_eq_reverse, trimStart_of_head hhead, List.reverse_reverse]

/-- What is cut off at the start is blank. -/
theorem exists_trimStart (t : Text) :
    ∃ before, t = before ++ trimStart t ∧ isAllBlank before = true :=
  ⟨t.takeWhile isBlank, List.takeWhile_append_dropWhile.symm, List.all_takeWhile⟩

/-- Trimming leaves what starts and ends visibly. -/
theorem bordered_trim (t : Text) : Bordered (trim t) := by
  constructor
  · intro c hc
    -- What is trimmed at the end does not touch the start.
    obtain ⟨after, hafter, -⟩ := exists_trimEnd_append (trimStart t)
    refine eq_false_of_mem_head?_dropWhile (t := t) ?_
    rw [← trimStart, hafter]
    exact List.mem_head?_append_of_mem_head? hc
  · intro c hc
    rw [trim, trimEnd_eq_reverse, List.getLast?_reverse] at hc
    exact eq_false_of_mem_head?_dropWhile hc

/-- What is left is what stands between the blanks at the two ends. -/
theorem trim_eq_iff {t s : Text} : trim t = s ↔ ∃ before after, t = before ++ (s ++ after) ∧
    isAllBlank before = true ∧ isAllBlank after = true ∧ Bordered s := by
  constructor
  · rintro rfl
    obtain ⟨before, hstart, hbefore⟩ := exists_trimStart t
    obtain ⟨after, hend, hafter⟩ := exists_trimEnd_append (trimStart t)
    refine ⟨before, after, ?_, hbefore, hafter, bordered_trim t⟩
    rw [trim, ← hend, ← hstart]
  · rintro ⟨before, after, rfl, hbefore, hafter, hs⟩
    rw [trim, trimStart_blank_append hbefore]
    -- If nothing remains, all of the text is blank.
    by_cases hnil : s = []
    · subst hnil
      rw [List.nil_append, trimStart, List.dropWhile_eq_nil_iff.2 (List.all_eq_true.1 hafter)]
      rfl
    · have hhead : ∀ c ∈ (s ++ after).head?, isBlank c = false := by
        rw [List.head?_append_of_ne_nil s hnil]
        exact hs.head
      rw [trimStart_of_head hhead, trimEnd_append_blanks hafter, trimEnd_of_last hs.last]

end Text

end CompactRinex
