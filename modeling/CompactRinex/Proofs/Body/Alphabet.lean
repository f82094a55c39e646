import CompactRinex.Proofs.Body.Invariant
import CompactRinex.Proofs.Body.Reports
import CompactRinex.Proofs.Difference.Blanks

/-!
# Lines beyond ASCII

A compressed body is ASCII. A data line is held against that as a whole, an epoch line after its
first column, and a clock line not at all: its number is, after the blanks have been trimmed. Two
kinds of lines that are not ASCII are therefore let through. An epoch line whose first character
takes several bytes cannot be cut after one byte, and nothing is left of it; and the blanks around
the offset of the clock may be any blanks. `Misreads` lists both with the ASCII line that each is
taken for, and `step_of_not_isAscii` says that there are no others: any other line beyond ASCII is
refused and leaves the body as it was.
-/

namespace CompactRinex

/-! ## The parts that read a line -/

namespace EpochDescription

/-- Nothing is left of a line whose first character takes several bytes. -/
theorem next_of_multibyte (d : EpochDescription) {c : Char} (hc : 128 ≤ c.toNat) (line : Text) :
    d.next (c :: line) = d.next [] := by
  have hcontent : content (c :: line) = content [] := by
    have hsize : c.utf8Size ≠ 1 := fun hsize => by
      have hascii := Text.utf8Size_eq_one_iff.1 hsize
      omega
    have hpos := c.utf8Size_pos
    have hcut : ¬ c.utf8Size ≤ 1 := by omega
    simp [content, Text.dropBytes?, hcut]
  -- Both lines are edits: the character is not one of the markers.
  have hclass : d.classify (c :: line) = d.classify [] := by
    have hamp : c ≠ '&' := by rintro rfl; exact absurd hc (by decide)
    have hgt : c ≠ '>' := by rintro rfl; exact absurd hc (by decide)
    cases hrevision : d.revision <;> simp [classify, hrevision, hamp, hgt]
  simp only [next, hclass, hcontent]

/-- What an accepted epoch line holds after its first column is ASCII. -/
theorem isAscii_content_of_next {d d' : EpochDescription} {line : Text} {kind : EpochKind}
    (h : d.next line = .ok (d', kind)) : Text.isAscii (content line) := by
  obtain ⟨-, ⟨-, hascii, -⟩ | ⟨-, text, hrecover, -⟩⟩ := next_cases h
  · exact hascii
  · exact Overlay.isAscii_of_recover_eq_ok hrecover

/-- After an ASCII character in front, an epoch line has to be ASCII. -/
theorem next_of_not_isAscii (d : EpochDescription) {c : Char} (hc : c.toNat < 128) {line : Text}
    (hline : Text.isAscii line = false) : ∃ fault, d.next (c :: line) = .error fault := by
  cases hnext : d.next (c :: line) with
  | error fault => exact ⟨fault, rfl⟩
  | ok p =>
    have hascii := isAscii_content_of_next hnext
    rw [content_cons (Text.utf8Size_eq_one_iff.2 hc), hline] at hascii
    cases hascii

end EpochDescription

variable {maxOrder : ℕ}

/-- Lines that are read as the same field are the same to a clock. -/
theorem Clock.next_congr (clock : Clock maxOrder) {line line' : Text}
    (h : Field.parse line = Field.parse line') : clock.next line = clock.next line' := by
  simp only [next, h]

/-- A data line has to be ASCII as a whole. -/
theorem Tracking.decode_of_not_isAscii (t : Tracking maxOrder) (layout : Layout) (s : Satellite)
    (id : Text) {line : Text} (hline : Text.isAscii line = false) :
    ∃ fault, t.decode layout s id line = .fail t fault := by
  unfold decode
  split
  · exact ⟨_, rfl⟩
  · rw [if_neg (by rw [hline]; exact Bool.false_ne_true)]
    exact ⟨_, rfl⟩

namespace Body

variable {b : Body maxOrder} {line : Text}

/-! ## The lines of each phase -/

/-- An epoch line that starts in ASCII has to go on in ASCII. -/
theorem readEpoch_of_not_isAscii {c : Char} (hc : c.toNat < 128)
    (hline : Text.isAscii line = false) : ∃ fault, b.readEpoch (c :: line) = b.refuse fault := by
  obtain ⟨fault, hnext⟩ := b.epoch.next_of_not_isAscii hc hline
  exact ⟨fault, readEpoch_of_error hnext⟩

/-- An epoch line that starts with a longer character is taken for an empty edit. -/
theorem readEpoch_of_multibyte {c : Char} (hc : 128 ≤ c.toNat) :
    b.readEpoch (c :: line) = b.readEpoch [] := by
  have hnext := b.epoch.next_of_multibyte hc line
  simp only [readEpoch, decode_epoch, hnext]

/-- A clock line that is no field is refused, and leaves everything as it is. -/
theorem readClock_of_error (listed : List Listed) {fault : Fault}
    (hfield : Field.parse line = .error fault) :
    b.readClock listed line = b.refuse fault := by
  have hnext : b.clock.next line = .error fault := by
    rw [Clock.next, hfield]
    rfl
  simp only [readClock, Clock.decode, hnext, Outcome.commit, Outcome.fail]

/-- Of a clock line only the field counts that it is read as. -/
theorem readClock_congr (listed : List Listed) {line' : Text}
    (h : Field.parse line = Field.parse line') :
    b.readClock listed line = b.readClock listed line' := by
  have hnext := b.clock.next_congr h
  simp only [readClock, Clock.decode, hnext]

/-- A data line has to be ASCII. -/
theorem readObservation_of_not_isAscii (listed : List Listed) (position : ℕ)
    (hline : Text.isAscii line = false) :
    ∃ fault, b.readObservation listed position line = b.refuse fault := by
  unfold readObservation
  split
  · exact ⟨_, rfl⟩
  · next entry hentry =>
    obtain ⟨fault, hdecode⟩ :=
      b.tracking.decode_of_not_isAscii b.layout entry.satellite entry.id hline
    exact ⟨fault, by simp only [hdecode, Outcome.fail]⟩

/-! ## Lines that are mistaken -/

/-- The body takes a line beyond ASCII for another line. -/
inductive Misreads (b : Body maxOrder) : Text → Text → Prop
  /-- The first column of an epoch line is cut off as one byte. A line that cannot be cut there
  counts as empty. -/
  | epoch {c : Char} {line : Text} (hphase : b.phase = .epoch) (hc : 128 ≤ c.toNat) :
      Misreads b (c :: line) []
  /-- All blanks in a clock line count as spaces. -/
  | clock {listed : List Listed} {line : Text} {field : Field} (hphase : b.phase = .clock listed)
      (hfield : Field.parse line = .ok field) : Misreads b line (Text.plainBlanks line)

/-- A line that is mistaken does what the other line does, which is ASCII. -/
theorem Misreads.step_eq {text : Text} (h : b.Misreads line text) :
    Text.isAscii text = true ∧ b.step line = b.step text := by
  cases h with
  | epoch hphase hc =>
    refine ⟨rfl, ?_⟩
    simp only [step, stepAlong, hphase]
    exact readEpoch_of_multibyte hc
  | clock hphase hfield =>
    refine ⟨(Field.plain_of_parse hfield).isAscii_plainBlanks, ?_⟩
    simp only [step, stepAlong, hphase]
    exact readClock_congr _ (hfield.trans (Field.parse_plainBlanks hfield).symm)

/-- Any other line beyond ASCII is refused, unless it is a special record. -/
theorem refuse_or_misreads (hphase : b.phase.state ≠ .records)
    (hline : Text.isAscii line = false) :
    (∃ fault, b.step line = b.refuse fault) ∨ ∃ text, b.Misreads line text := by
  unfold step stepAlong
  split
  · next hepoch =>
    cases line with
    | nil => cases hline
    | cons c line =>
      -- The first character decides, as it is cut off before the rest is looked at.
      by_cases hc : 128 ≤ c.toNat
      · exact Or.inr ⟨[], .epoch hepoch hc⟩
      · have hrest : Text.isAscii line = false := by
          simpa [Text.isAscii, Nat.lt_of_not_le hc] using hline
        exact Or.inl (readEpoch_of_not_isAscii (Nat.lt_of_not_le hc) hrest)
  · next listed hclock =>
    cases hfield : Field.parse line with
    | error fault => exact Or.inl ⟨fault, readClock_of_error listed hfield⟩
    | ok field => exact Or.inr ⟨_, .clock hclock hfield⟩
  · next listed position _ => exact Or.inl (readObservation_of_not_isAscii listed position hline)
  · next hrecords => exact absurd (by rw [hrecords]; rfl) hphase

/-- A line beyond ASCII that is not a special record is refused and leaves the body as it was,
unless it is mistaken for an ASCII line. Then it does whatever that line does. -/
theorem step_of_not_isAscii (hphase : b.phase.state ≠ .records)
    (hline : Text.isAscii line = false) :
    ((∃ fault, b.step line = b.refuse fault) ↔
      ∀ text, b.Misreads line text → ∃ fault, b.step text = b.refuse fault) ∧
    ∀ text, b.Misreads line text → Text.isAscii text = true ∧ b.step line = b.step text := by
  refine ⟨⟨fun ⟨fault, hstep⟩ text hmisread => ⟨fault, ?_⟩, fun h => ?_⟩,
    fun text hmisread => hmisread.step_eq⟩
  · rw [← hmisread.step_eq.2, hstep]
  · rcases refuse_or_misreads hphase hline with hrefused | ⟨text, hmisread⟩
    · exact hrefused
    · rw [hmisread.step_eq.2]
      exact h text hmisread

/-- After an epoch without satellites and its clock, an accented letter starts the next epoch, and a
no-break space gives its clock. -/
theorem lines_mistaken :
    ∃ b : Body 5, Reachable b ∧ b.phase.state = .epoch ∧
      Text.isAscii ['\u00e9'] = false ∧ (b.step ['\u00e9']).fault = none ∧
      (b.step ['\u00e9']).body.phase.state = .clock ∧
      ∃ b' : Body 5, Reachable b' ∧ b'.phase.state = .clock ∧
        Text.isAscii ['\u00a0'] = false ∧ (b'.step ['\u00a0']).fault = none ∧
        (b'.step ['\u00a0']).output ≠ [] ∧ (b'.step ['\u00a0']).body.phase.state = .epoch := by
  obtain ⟨b, hb⟩ : ∃ b : Body 5,
    ofLayout 5 ((Layout.ofRevision .v3).withObservables .gps 1) = .ok b := ⟨_, rfl⟩
  have h₀ : Reachable b := .start hb
  cases hb
  -- After an epoch line without satellites the clock line is the last one.
  have hclock := h₀.take (.line "> 2021 01 01 00 00 00.0000000  0  0".toList)
  have hepoch := hclock.take (.line [])
  exact ⟨_, hepoch, rfl, rfl, rfl, rfl, _, hclock, rfl, rfl, rfl, nofun, rfl⟩

/-- The same letter in place of a clock. -/
theorem step_of_not_isAscii_clock :
    ∃ b : Body 5, Reachable b ∧ b.phase.state = .clock ∧ Text.isAscii ['\u00e9'] = false ∧
      ∃ fault, b.step ['\u00e9'] = b.refuse fault := by
  obtain ⟨b, hb⟩ : ∃ b : Body 5,
    ofLayout 5 ((Layout.ofRevision .v3).withObservables .gps 1) = .ok b := ⟨_, rfl⟩
  have h₀ : Reachable b := .start hb
  cases hb
  have h := h₀.take (.line "> 2021 01 01 00 00 00.0000000  0  0".toList)
  refine ⟨_, h, rfl, rfl, (step_of_not_isAscii ?phase ?line).1.2 fun text hmisread => ?_⟩
  case phase => nofun
  case line => rfl
  -- A letter is no number, so that nothing is mistaken here.
  cases hmisread with
  | epoch hphase => cases hphase
  | clock _ hfield => cases hfield

end Body

end CompactRinex
