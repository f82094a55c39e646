import CompactRinex.Epoch.Description
import CompactRinex.Proofs.Outcome

/-!
# Epoch lines

What the two kinds of epoch lines do to a description: after the marker of its revision the
description stands as it is (`next_marker`), and after a space stands an edit of the description
before it (`next_space`). Whatever line is accepted does one of the two (`next_cases`).
-/

namespace CompactRinex.EpochDescription

/-- What follows an ASCII character in front of the line is the content. -/
theorem content_cons {c : Char} (h : c.utf8Size = 1) (line : Text) :
    content (c :: line) = line := by
  simp [content, Text.dropBytes?, h]

/-- A literal line gives its description, whatever the one before it was. -/
theorem next_marker (d : EpochDescription) {description : Text} (h : Text.isAscii description) :
    d.next (d.revision.marker :: description) =
      .ok ({ d with overlay := d.overlay.force description }, .literal) := by
  have hsize : d.revision.marker.utf8Size = 1 := by cases d.revision <;> rfl
  have hclass : d.classify (d.revision.marker :: description) = .ok .literal := by
    unfold classify
    cases d.revision <;> rfl
  simp only [next, hclass, bind, Except.bind, content_cons hsize, h, if_true]

/-- A line that starts with a space edits the description. -/
theorem next_space (d : EpochDescription) {change text : Text}
    (h : d.overlay.recover change = .ok text) :
    d.next (' ' :: change) =
      .ok ({ d with overlay := { d.overlay with reference := some text } }, .differential) := by
  have hclass : d.classify (' ' :: change) = .ok .differential := by
    unfold classify
    cases d.revision <;> rfl
  simp only [next, hclass, bind, Except.bind, content_cons (show ' '.utf8Size = 1 from rfl), h]

variable {d d' : EpochDescription} {line : Text} {kind : EpochKind}

/-- A line is literal exactly when it starts with the marker. -/
theorem literal_iff_of_classify (h : d.classify line = .ok kind) :
    kind = .literal ↔ line.head? = some d.revision.marker := by
  unfold classify at h
  split at h
  · next hrev hhead => cases h; simp [hrev, hhead, Revision.marker]
  · next hrev hhead => cases h; simp [hrev, hhead, Revision.marker]
  · cases h
  · cases h
  · next hamp hgt _ _ =>
    cases h
    -- The markers of both revisions have been asked for before.
    simp only [reduceCtorEq, false_iff]
    intro hhead
    cases hrev : d.revision with
    | v1 => rw [hrev] at hhead; exact hamp hrev hhead
    | v3 => rw [hrev] at hhead; exact hgt hrev hhead

/-- What an epoch line that is accepted has done. -/
theorem next_cases (h : d.next line = .ok (d', kind)) :
    d.classify line = .ok kind ∧
      ((kind = .literal ∧ Text.isAscii (content line) ∧
        d' = { d with overlay := d.overlay.force (content line) }) ∨
      (kind = .differential ∧ ∃ text, d.overlay.recover (content line) = .ok text ∧
        d' = { d with overlay := { d.overlay with reference := some text } })) := by
  unfold next at h
  obtain ⟨kind', hclass, hnext⟩ := bind_eq_ok_iff.1 h
  cases kind' with
  | literal =>
    simp only at hnext
    split at hnext
    · next hascii =>
      cases hnext
      exact ⟨hclass, Or.inl ⟨rfl, hascii, rfl⟩⟩
    · cases hnext
  | differential =>
    -- The stored description is merged with the change.
    obtain ⟨text, htext, hd⟩ := bind_eq_ok_iff.1 hnext
    cases hd
    exact ⟨hclass, Or.inr ⟨rfl, text, htext, rfl⟩⟩

/-- A description that is accepted is literal exactly when its line starts with the marker. -/
theorem literal_iff_of_next (h : d.next line = .ok (d', kind)) :
    kind = .literal ↔ line.head? = some d.revision.marker :=
  literal_iff_of_classify (next_cases h).1

/-- An epoch line changes neither the revision of the description nor its least width. -/
theorem eq_of_next (h : d.next line = .ok (d', kind)) :
    d'.revision = d.revision ∧ d'.overlay.width = d.overlay.width := by
  obtain ⟨-, ⟨-, -, rfl⟩ | ⟨-, text, -, rfl⟩⟩ := next_cases h
  · exact ⟨rfl, rfl⟩
  · exact ⟨rfl, rfl⟩

end CompactRinex.EpochDescription
