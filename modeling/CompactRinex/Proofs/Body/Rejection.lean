import CompactRinex.Proofs.Body.Alphabet
import CompactRinex.Proofs.Body.ClockLines
import CompactRinex.Proofs.Body.Reports
import CompactRinex.Proofs.Epoch.Line
import CompactRinex.Proofs.Tracking.Rejection

/-!
# Rejected lines

A line that is rejected does not move the body on: the next line is of the same kind, and in front
of data lines of the same satellite. What it may have left behind depends on the kind of line. A
clock that does not fit its column has been taken in; so have the fields of a data line up to the
first one that fails, which does not matter to other satellites; and a literal epoch line has ended
all histories when its parts turn out to be unusable, while an edit that leads to an unusable
description has ended none. `Body.Stays` says so, and `Body.Sound.stays_of_exit` that a body stays
in this way by every exit with a fault unless it awaits a special record.
-/

namespace CompactRinex

variable {maxOrder : ℕ}

/-! ## Faults -/

/-- The fault is that of a cell: an order that is not supported, or a value that does not fit. -/
def Fault.OfCell (maxOrder : ℕ) (fault : Fault) : Prop :=
  fault.OfOrder maxOrder ∨ ∃ value width, fault = .formatOverflow value width

/-- A clock is not written because its offset does not fit. -/
theorem Clock.eq_of_render_error {clock : Clock maxOrder} {fault : Fault}
    (h : clock.render = .error fault) : ∃ value width, fault = .formatOverflow value width := by
  unfold render at h
  split at h
  · next value _ => exact ⟨_, _, Column.eq_of_render_error (map_eq_error_iff.1 h)⟩
  · cases h

/-- One of the parts that start an epoch cannot be read. -/
def EpochDescription.Unusable (d : EpochDescription) (layout : Layout) (fault : Fault) : Prop :=
  d.flag = .error fault ∨ d.count = .error fault ∨ d.satellites layout = .error fault

/-- An epoch that cannot be started has an unusable description. -/
theorem Body.unusable_of_openEpoch {b : Body maxOrder} (hwidth : b.epoch.overlay.width = 0)
    {fault : Fault} (h : b.openEpoch = .error fault) : b.epoch.Unusable b.layout fault := by
  cases hflag : b.epoch.flag with
  | error e =>
    simp only [openEpoch, hflag, bind, Except.bind] at h
    exact Or.inl (by rw [hflag, Except.error.inj h])
  | ok flag =>
    cases hcount : b.epoch.count with
    | error e =>
      simp only [openEpoch, hflag, hcount, bind, Except.bind] at h
      exact Or.inr (Or.inl (by rw [hcount, Except.error.inj h]))
    | ok count =>
      simp only [openEpoch, hflag, hcount, bind, Except.bind] at h
      cases hevent : flag.isEvent with
      | true =>
        -- With a flag and a count the line of an event can be written.
        obtain ⟨text, htext⟩ := EpochDescription.exists_text_of_count hcount
        have hd := EpochDescription.eq_ofText hwidth htext
        rw [hd] at hflag hcount
        have hrender := EpochDescription.render_event hflag hevent hcount
        rw [← hd] at hrender
        simp only [hevent, hrender, if_true] at h
        cases h
      | false =>
        cases hlisted : b.epoch.satellites b.layout with
        | error e =>
          simp only [hevent, hlisted, Bool.false_eq_true, if_false] at h
          exact Or.inr (Or.inr (by rw [hlisted, Except.error.inj h]))
        | ok listed =>
          simp only [hevent, hlisted, Bool.false_eq_true, if_false] at h
          cases h

/-- A data line that is rejected has moved the track of its satellite at most. -/
theorem Tracking.others_of_decode_error {t : Tracking maxOrder} (ht : t.Legible) {layout : Layout}
    {satellite : Satellite} {id line : Text} {fault : Fault}
    (h : (t.decode layout satellite id line).result = .error fault) :
    ((t.decode layout satellite id line).state ≠ t → fault.OfCell maxOrder) ∧
      ∀ s, s ≠ satellite →
        (t.decode layout satellite id line).state.tracks.get? s = t.tracks.get? s := by
  rcases ht.decode_of_error h with ⟨-, hsame⟩ | ⟨columns, dataLine, i, -, -, hstopped⟩
  · exact ⟨fun hne => absurd hsame hne, fun s _ => by rw [hsame]⟩
  · -- The line has been stopped at a cell, by its order or by the width of its column.
    refine ⟨fun _ => ?_, hstopped.others⟩
    obtain ⟨column, field, -, -, -, ⟨horder, -⟩ | ⟨value, width, rfl, -, -⟩⟩ := hstopped.stopped
    · exact Or.inl horder
    · exact Or.inr ⟨value, width, rfl⟩

/-- An epoch line that replaces the description of the epoch before, and can be taken in. -/
def Layout.IsLiteral (l : Layout) (line : Text) : Prop :=
  line.head? = some l.revision.marker ∧ Text.isAscii line

/-! ## Tracks of a body -/

namespace Body

variable {b : Body maxOrder} {line : Text}

/-- A description leaves the tracks or ends all of them. -/
theorem reachable_described (h : b.tracking.Reachable) (epoch : EpochDescription)
    (kind : EpochKind) : (b.described epoch kind).tracking.Reachable := by
  cases kind with
  | literal => exact .empty
  | differential => exact h

/-- What a step does to the tracks is a sequence of operations on them. -/
theorem Exit.tracking_reachable {walks : Walks} {p : Progress maxOrder}
    (hexit : Exit b walks line p)
    (h : b.tracking.Reachable) : p.body.tracking.Reachable := by
  cases hexit with
  | @epochUnusable epoch kind => exact reachable_described h epoch kind
  | @event epoch kind => exact reachable_described h epoch kind
  | @observations epoch kind _ _ listed =>
    exact (reachable_described h epoch kind).perform (.retain (listed.map Listed.satellite))
  | @dataFault _ _ entry | @data _ _ entry =>
    exact h.perform (.decode b.layout entry.satellite entry.id line)
  | _ => exact h

/-- The tracks of a reachable body are reached by operations. -/
theorem Reachable.tracking (h : Reachable b) : b.tracking.Reachable := by
  induction h with
  | start h =>
    obtain ⟨-, clock, -, rfl⟩ := ofLayout_eq_ok h
    exact .empty
  | @along b _ walks input ih =>
    cases input with
    | restart => exact .empty
    | line text => exact (exit_stepAlong b walks text).tracking_reachable ih

/-! ## What a rejected line leaves behind -/

/-- What a line that is rejected with a fault leaves of the body. -/
structure Stays (b : Body maxOrder) (line : Text) (fault : Fault) (b' : Body maxOrder) : Prop where
  /-- The next line is of the same kind, for the same satellites and at the same position. -/
  phase : b'.phase = b.phase
  /-- The layout is in force. -/
  layout : b'.layout = b.layout
  /-- Only a clock line whose offset does not fit has moved the clock. -/
  clock : b'.clock ≠ b.clock →
    (∃ listed, b.phase = .clock listed) ∧ ∃ value width, fault = .formatOverflow value width
  /-- A literal epoch line has ended all histories, and then its parts have been found unusable. -/
  literal : b.phase = .epoch → b.layout.IsLiteral line → b'.tracking = ∅ ∧
    b'.epoch.text? = some line.tail ∧ b'.epoch.Unusable b.layout fault
  /-- Any other epoch line has ended no history, whatever satellites it lists. -/
  differential : b.phase = .epoch → ¬b.layout.IsLiteral line → b'.tracking = b.tracking
  /-- A clock line does not matter to the satellites. -/
  offset : ∀ listed, b.phase = .clock listed → b'.tracking = b.tracking
  /-- A data line may have moved the track of its own satellite, up to the cell that fails. -/
  data : ∀ listed position, b.phase = .observation listed position →
    ∃ entry, listed[position]? = some entry ∧
      (b'.tracking ≠ b.tracking → fault.OfCell maxOrder) ∧
      ∀ s, s ≠ entry.satellite → b'.tracking.tracks.get? s = b.tracking.tracks.get? s

/-- A line that leaves everything as it was. -/
theorem stays_self {fault : Fault} (hepoch : b.phase = .epoch → ¬b.layout.IsLiteral line)
    (hdata : ∀ listed position, b.phase = .observation listed position →
      ∃ entry, listed[position]? = some entry) : Stays b line fault b where
  phase := rfl
  layout := rfl
  clock hne := absurd rfl hne
  literal hphase hliteral := absurd hliteral (hepoch hphase)
  differential _ _ := rfl
  offset _ _ := rfl
  data listed position hphase := by
    obtain ⟨entry, hentry⟩ := hdata listed position hphase
    exact ⟨entry, hentry, fun hne => absurd rfl hne, fun _ _ => rfl⟩

/-- A literal line is taken in as its description. -/
theorem Coherent.next_of_isLiteral (h : Coherent b) (hliteral : b.layout.IsLiteral line) :
    b.epoch.next line =
      .ok ({ b.epoch with overlay := b.epoch.overlay.force line.tail }, .literal) := by
  obtain ⟨hhead, hascii⟩ := hliteral
  cases line with
  | nil => cases hhead
  | cons c rest =>
    obtain rfl := Option.some.inj hhead
    rw [← List.singleton_append, Text.isAscii_append, Bool.and_eq_true] at hascii
    rw [← h.revision_eq]
    exact b.epoch.next_marker hascii.2

/-- A line that is not literal is taken in as an edit, or not at all. -/
theorem Coherent.kind_of_not_isLiteral (h : Coherent b) (hliteral : ¬b.layout.IsLiteral line)
    {epoch : EpochDescription} {kind : EpochKind} (hnext : b.epoch.next line = .ok (epoch, kind)) :
    kind = .differential := by
  cases kind with
  | differential => rfl
  | literal =>
    have hhead := (EpochDescription.literal_iff_of_next hnext).1 rfl
    have hcontent := EpochDescription.isAscii_content_of_next hnext
    rw [h.revision_eq] at hhead
    refine absurd ⟨hhead, ?_⟩ hliteral
    cases line with
    | nil => rfl
    | cons c rest =>
      obtain rfl := Option.some.inj hhead
      -- The marker is one byte, so the content is the rest of the line.
      have hsize : b.layout.revision.marker.utf8Size = 1 := by
        cases b.layout.revision <;> rfl
      rw [EpochDescription.content_cons hsize] at hcontent
      rw [← List.singleton_append, Text.isAscii_append, hcontent, Bool.and_true]
      cases b.layout.revision <;> rfl

/-- By every exit with a fault, except from a special record, the body stays where it is. -/
theorem Sound.stays_of_exit (h : Sound b) (htracking : b.tracking.Legible)
    (hstate : b.phase.state ≠ .records) {walks : Walks} {p : Progress maxOrder}
    (hexit : Exit b walks line p) {fault : Fault} (hfault : p.fault = some fault) :
    Stays b line fault p.body := by
  cases hexit with
  | epochRefused hphase hnext =>
    -- A literal line would have been taken in.
    have hliteral : ¬b.layout.IsLiteral line := fun hliteral => by
      rw [h.next_of_isLiteral hliteral] at hnext
      cases hnext
    exact stays_self (fun _ => hliteral) fun _ _ hdata => by cases hphase.symm.trans hdata
  | @epochUnusable epoch kind _ hphase hnext hopen =>
    cases hfault
    have hwidth : epoch.overlay.width = 0 :=
      (EpochDescription.eq_of_next hnext).2.trans h.width_eq
    have hunusable := unusable_of_openEpoch (b := b.described epoch kind) hwidth hopen
    exact {
      phase := rfl
      layout := rfl
      clock := fun hne => absurd rfl hne
      literal := fun _ hliteral => by
        rw [h.next_of_isLiteral hliteral] at hnext
        cases hnext
        refine ⟨rfl, ?_, hunusable⟩
        show some (Text.padRight b.epoch.overlay.width line.tail) = some line.tail
        rw [h.width_eq, Overlay.padRight_of_le (Nat.zero_le _)]
      differential := fun _ hliteral => by
        obtain rfl := h.kind_of_not_isLiteral hliteral hnext
        rfl
      offset := fun _ hclock => by cases hphase.symm.trans hclock
      data := fun _ _ hdata => by cases hphase.symm.trans hdata }
  | clockRefused hphase hnext =>
    exact stays_self (fun hepoch => by cases hphase.symm.trans hepoch)
      fun _ _ hdata => by cases hphase.symm.trans hdata
  | @clockUnwritten listed clock _ _ hphase _ htext =>
    cases hfault
    have hlists := h.inPhase
    simp only [InPhase, hphase] at hlists
    -- The epoch line can be written, so it is the offset that does not fit.
    have hoverflow : ∃ value width, fault = .formatOverflow value width := by
      cases hrender : clock.render with
      | error e =>
        rw [hrender] at htext
        cases htext
        exact Clock.eq_of_render_error hrender
      | ok offset =>
        obtain ⟨text, hline⟩ := hlists.1.render_eq_ok h.width_eq offset
        simp only [hrender, hline, bind, Except.bind] at htext
        cases htext
    exact {
      phase := rfl
      layout := rfl
      clock := fun _ => ⟨⟨listed, hphase⟩, hoverflow⟩
      literal := fun hepoch => by cases hphase.symm.trans hepoch
      differential := fun hepoch => by cases hphase.symm.trans hepoch
      offset := fun _ _ => rfl
      data := fun _ _ hdata => by cases hphase.symm.trans hdata }
  | unlisted hphase hentry =>
    -- The phase of a sound body does not point behind its list.
    have hposition := h.inPhase
    simp only [InPhase, hphase] at hposition
    exact absurd hposition.1 (Nat.not_lt_of_le (List.getElem?_eq_none_iff.1 hentry))
  | @dataFault _ _ entry _ hphase hentry hresult =>
    cases hfault
    exact {
      phase := rfl
      layout := rfl
      clock := fun hne => absurd rfl hne
      literal := fun hepoch => by cases hphase.symm.trans hepoch
      differential := fun hepoch => by cases hphase.symm.trans hepoch
      offset := fun _ hclock => by cases hphase.symm.trans hclock
      data := fun listed position hdata => by
        obtain ⟨rfl, rfl⟩ := Phase.observation.inj (hphase.symm.trans hdata)
        exact ⟨entry, hentry, Tracking.others_of_decode_error htracking hresult⟩ }
  | recordFault hphase | updateFault hphase | layoutFault hphase =>
    rw [hphase] at hstate
    exact absurd rfl hstate
  | event | observations | clock | data | record | lastRecord => cases hfault

end Body

end CompactRinex
