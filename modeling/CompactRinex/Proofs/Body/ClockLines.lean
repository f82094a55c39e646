import CompactRinex.Proofs.Body.Invariant
import CompactRinex.Proofs.Difference.Lines

/-!
# Clock lines

The offset of the receiver clock has a kernel of its own. `Body.clockLines` are the lines that a run
takes in as clock lines, and `clock_eq_ofLines` says that the kernel is what these lines lead to and
nothing else: neither literal epoch lines nor reinitializations, neither records nor the layouts
that they ask for, and no satellite. The offset is written after every epoch line of observations,
as soon as one of the lines was not blank, and never after that of an event.
-/

namespace CompactRinex

variable {maxOrder : ℕ}

/-- A clock line is taken in by the kernel of the clock, unless it is blank. -/
theorem Clock.ofLines_of_next {column : Column} {lines : List Text} {c c' : Clock maxOrder}
    (h : Kernel.ofLines maxOrder column lines = .ok c.kernel) {line : Text} {value : Option Int64}
    (hnext : c.next line = .ok (c', value)) :
    Kernel.ofLines maxOrder column (lines ++ [line]) = .ok c'.kernel ∧
      (Text.isAllBlank line = true → c' = c) := by
  unfold next at hnext
  obtain ⟨field, hfield, hnext⟩ := bind_eq_ok_iff.1 hnext
  cases hblank : Text.isAllBlank line with
  | true =>
    -- A blank line repeats the offset, and is not one of the lines of the kernel.
    rw [Field.parse_eq_missing_iff.2 hblank] at hfield
    cases hfield
    cases hnext
    rw [Kernel.ofLines_concat_blank column lines hblank]
    exact ⟨h, fun _ => rfl⟩
  | false =>
    have hstep : (c.kernel.step field).map (fun p => (Clock.mk p.1, p.2)) = .ok (c', value) := by
      cases field with
      | missing =>
        rw [Field.parse_eq_missing_iff.1 hfield] at hblank
        cases hblank
      | literal | delta => exact hnext
    obtain ⟨⟨k', value'⟩, hk', hc'⟩ := map_eq_ok_iff.1 hstep
    cases hc'
    rw [Kernel.ofLines_concat column lines hblank]
    refine ⟨bind_eq_ok_iff.2 ⟨c.kernel, h, ?_⟩, nofun⟩
    exact Kernel.takeLine_eq_ok_iff.2 ⟨field, value', hfield, hk'⟩

/-- The text of a clock is that of its latest value. -/
theorem Clock.render_eq_ok {c : Clock maxOrder} {text : Option Text}
    (h : c.render = .ok text) : (text = none ↔ c.value? = none) ∧
      ∀ t ∈ text, ∃ value, c.value? = some value ∧ c.kernel.column.render value = .ok t := by
  unfold render at h
  cases hvalue : c.value? with
  | none =>
    rw [hvalue] at h
    cases h
    exact ⟨iff_of_true rfl rfl, nofun⟩
  | some value =>
    rw [hvalue] at h
    obtain ⟨t, ht, rfl⟩ := map_eq_ok_iff.1 h
    refine ⟨iff_of_false nofun nofun, ?_⟩
    rintro _ ⟨⟩
    exact ⟨value, rfl, ht⟩

namespace EpochDescription

/-- A description with a count has a text. -/
theorem exists_text_of_count {d : EpochDescription} {n : ℕ} (h : d.count = .ok n) :
    ∃ text, d.text? = some text := by
  cases htext : d.text? with
  | none => simp [count, field, htext, bind, Except.bind] at h
  | some text => exact ⟨text, rfl⟩

/-- A description without a least width is its revision and its text. -/
theorem eq_ofText {d : EpochDescription} (hwidth : d.overlay.width = 0) {text : Text}
    (htext : d.text? = some text) : d = ofText d.revision text := by
  obtain ⟨revision, ⟨width, reference⟩⟩ := d
  cases hwidth
  cases htext
  rfl

end EpochDescription

namespace Body

/-- The line of an input that is read as a clock line. -/
def clockLine (b : Body maxOrder) : Input → List Text
  | .restart => []
  | .line text =>
    match b.phase with
    | .clock _ => [text]
    | .epoch | .observation _ _ | .records _ _ => []

/-- The lines of some inputs that are read as clock lines. -/
def clockLines (b : Body maxOrder) : List Input → List Text
  | [] => []
  | input :: inputs => b.clockLine input ++ (b.take input).body.clockLines inputs

/-- Where no clock line is awaited no line changes the clock, and a reinitialization never does. -/
theorem clock_take_of_clockLine {b : Body maxOrder} {input : Input} (h : b.clockLine input = []) :
    (b.take input).body.clock = b.clock := by
  cases input with
  | restart => rfl
  | line text =>
    have hexit := exit_step b text
    simp only [Body.take]
    generalize b.step text = p at hexit
    -- The clock moves on only where a clock line is awaited, whether it can be written or not.
    cases hexit with
    | clockUnwritten hphase | clock hphase =>
      simp only [clockLine, hphase] at h
      cases h
    | _ => rfl

/-- A clock line that is accepted is taken in by the clock, and the epoch line is written with it.
-/
theorem step_of_clock {b : Body maxOrder} {listed : List Listed} (hphase : b.phase = .clock listed)
    {line : Text} (hfault : (b.step line).fault = none) : ∃ value clock text,
      b.clock.next line = .ok ((b.step line).body.clock, value) ∧
      (b.step line).body.clock.render = .ok clock ∧ b.epoch.render clock = .ok text ∧
      (b.step line).output = text ++ ['\n'] := by
  have hexit := exit_step b line
  generalize b.step line = p at hexit hfault ⊢
  cases hexit with
  | clock _ hnext htext =>
    obtain ⟨clock, hclock, htext⟩ := bind_eq_ok_iff.1 htext
    exact ⟨_, clock, _, hnext, hclock, htext, rfl⟩
  | clockRefused | clockUnwritten => cases hfault
  -- The other exits start from other phases.
  | epochRefused h | epochUnusable h | event h | observations h | unlisted h | dataFault h | data h
    | recordFault h | record h | updateFault h | layoutFault h | lastRecord h =>
    rw [hphase] at h
    cases h

/-- The clock is the kernel of the clock lines, also after one more input that is accepted. -/
theorem ofLines_take {b : Body maxOrder} {column : Column} {lines : List Text}
    (h : Kernel.ofLines maxOrder column lines = .ok b.clock.kernel) {input : Input}
    (hfault : (b.take input).fault = none) :
    Kernel.ofLines maxOrder column (lines ++ b.clockLine input) =
      .ok (b.take input).body.clock.kernel := by
  -- Only a clock line moves the clock.
  by_cases hother : b.clockLine input = []
  · rw [hother, List.append_nil, clock_take_of_clockLine hother]
    exact h
  · cases input with
    | restart => exact absurd rfl hother
    | line text =>
      cases hphase : b.phase with
      | clock listed =>
        obtain ⟨_, _, _, hnext, -⟩ := step_of_clock hphase hfault
        simp only [clockLine, hphase]
        exact (Clock.ofLines_of_next h hnext).1
      | epoch | observation | records =>
        exact absurd (by simp only [clockLine, hphase]) hother

/-- The clock is the kernel of the clock lines along a run without faults. -/
theorem ofLines_run {b b' : Body maxOrder} {column : Column} {lines : List Text}
    (h : Kernel.ofLines maxOrder column lines = .ok b.clock.kernel) {inputs : List Input}
    {output : Text} (hrun : b.run inputs = .ok (b', output)) :
    Kernel.ofLines maxOrder column (lines ++ b.clockLines inputs) = .ok b'.clock.kernel := by
  induction inputs generalizing b lines output with
  | nil =>
    cases hrun
    rw [clockLines, List.append_nil]
    exact h
  | cons input inputs ih =>
    -- The first input is accepted, so its line goes to the kernel if it is one of the clock.
    obtain ⟨hfault, ⟨_, output'⟩, hrest, hp⟩ := run_cons_eq_ok_iff.1 hrun
    cases hp
    rw [clockLines, ← List.append_assoc]
    exact ih (ofLines_take h hfault) hrest

/-- A run leads from a reachable body to a reachable one. -/
theorem Reachable.run {b b' : Body maxOrder} (h : Reachable b) {inputs : List Input} {output : Text}
    (hrun : b.run inputs = .ok (b', output)) : Reachable b' := by
  induction inputs generalizing b output with
  | nil => cases hrun; exact h
  | cons input inputs ih =>
    obtain ⟨-, ⟨_, output'⟩, hrest, hp⟩ := run_cons_eq_ok_iff.1 hrun
    cases hp
    exact ih (h.take input) hrest

/-- The epoch line of observations that is written with a clock. -/
theorem Sound.render_of_clock {b : Body maxOrder} (h : Sound b) {listed : List Listed}
    (hphase : b.phase = .clock listed) (clock : Option Text) :
    ∃ text, b.epoch.text? = some text ∧ b.epoch.render clock =
      .ok (EpochDescription.observationLine b.layout.revision text listed.length clock) := by
  have hlists := h.inPhase
  simp only [InPhase, hphase] at hlists
  obtain ⟨⟨flag, hflag, hevent⟩, hcount, hlisted⟩ := hlists.1
  -- The description has a count, so it has a text to be written.
  obtain ⟨text, htext⟩ := EpochDescription.exists_text_of_count hcount
  have hd := EpochDescription.eq_ofText h.width_eq htext
  rw [hd] at hflag hlisted ⊢
  rw [← h.revision_eq]
  exact ⟨text, rfl, EpochDescription.render_observations hflag hevent hlisted clock⟩

/-- The epoch line of an event is written without a clock. -/
theorem Sound.output_of_event {b : Body maxOrder} (h : Sound b) (hphase : b.phase = .epoch)
    {line : Text} (hfault : (b.step line).fault = none) {flag : EpochFlag}
    (hflag : (b.step line).body.epoch.flag = .ok flag) (hevent : flag.isEvent = true) :
    ∃ text, (b.step line).body.epoch.text? = some text ∧ (b.step line).output =
      EpochDescription.eventLine b.layout.revision text ++ ['\n'] := by
  have hc := h.toCoherent.take (.line line)
  have hexit := exit_step b line
  simp only [Body.take] at hc
  generalize b.step line = p at hexit hfault hflag hc ⊢
  cases hexit with
  | @event epoch _ _ _ _ _ _ hflag' hevent' hcount htext =>
    obtain ⟨text, hreference⟩ := EpochDescription.exists_text_of_count hcount
    have hwidth : epoch.overlay.width = 0 := hc.width_eq
    have hd := EpochDescription.eq_ofText hwidth hreference
    have hrevision : epoch.revision = b.layout.revision := hc.revision_eq
    rw [hd] at hflag' hcount htext
    rw [EpochDescription.render_event hflag' hevent' hcount] at htext
    refine ⟨text, hreference, ?_⟩
    rw [← hrevision, Except.ok.inj htext]
  | observations _ _ hflag' hobservations =>
    -- The flag would be one of observations.
    obtain rfl := Except.ok.inj (hflag'.symm.trans hflag)
    rw [hevent] at hobservations
    cases hobservations
  | epochRefused | epochUnusable => cases hfault
  | clockRefused h | clockUnwritten h | clock h | unlisted h | dataFault h | data h | recordFault h
    | record h | updateFault h | layoutFault h | lastRecord h =>
    rw [hphase] at h
    cases h

/-- After a run without faults the clock is the kernel of the column of the clock that has taken in
the clock lines of the run, the blank ones apart. The next clock line is added to these, and the
offset is then written at the end of the epoch line in this column, unless all of them are blank; a
blank line leaves the clock as it is. No other input changes the clock, whether it is accepted or
not, and the epoch line of an event has no clock. -/
theorem clock_eq_ofLines {layout : Layout} {start b : Body maxOrder}
    (hstart : ofLayout maxOrder layout = .ok start) {inputs : List Input} {output : Text}
    (hrun : start.run inputs = .ok (b, output)) :
    Kernel.ofLines maxOrder layout.clock (start.clockLines inputs) = .ok b.clock.kernel ∧
    (∀ listed line, b.phase = .clock listed → (b.step line).fault = none → ∃ k text clock,
      Kernel.ofLines maxOrder layout.clock (start.clockLines inputs ++ [line]) = .ok k ∧
      (Text.isAllBlank line = true → k = b.clock.kernel) ∧
      b.epoch.text? = some text ∧ (b.step line).output =
        EpochDescription.observationLine b.layout.revision text listed.length clock ++ ['\n'] ∧
      (clock = none ↔ ∀ line' ∈ start.clockLines inputs ++ [line], Text.isAllBlank line' = true) ∧
      ∀ offset ∈ clock, ∃ value, k.value? = some value ∧ layout.clock.render value = .ok offset) ∧
    (∀ input, (∀ listed, b.phase ≠ .clock listed) ∨ input = .restart →
      (b.take input).body.clock = b.clock) ∧
    ∀ line flag, b.phase = .epoch → (b.step line).fault = none →
      (b.step line).body.epoch.flag = .ok flag → flag.isEvent = true → ∃ text,
        (b.step line).body.epoch.text? = some text ∧
        (b.step line).output = EpochDescription.eventLine b.layout.revision text ++ ['\n'] := by
  have hsound := ((Reachable.start hstart).run hrun).sound
  have hkernel : Kernel.ofLines maxOrder layout.clock (start.clockLines inputs) =
      .ok b.clock.kernel := by
    rw [← List.nil_append (start.clockLines inputs)]
    refine ofLines_run ?_ hrun
    obtain ⟨-, clock, hclock, rfl⟩ := ofLayout_eq_ok hstart
    obtain ⟨k, hk, rfl⟩ := map_eq_ok_iff.1 hclock
    rw [Kernel.ofLines_nil, hk]
  refine ⟨hkernel, fun listed line hphase hfault => ?_, fun input hinput => ?_,
    fun line flag hphase hfault hflag hevent => hsound.output_of_event hphase hfault hflag hevent⟩
  · -- The next clock line: the kernel takes it in, and the offset is that of the kernel then.
    obtain ⟨value, clock, line', hnext, hclock, hrender, houtput⟩ := step_of_clock hphase hfault
    obtain ⟨hlines, hblank⟩ := Clock.ofLines_of_next hkernel hnext
    obtain ⟨text, htext, hline⟩ := hsound.render_of_clock hphase clock
    obtain ⟨hcolumn, hnone⟩ := Kernel.of_ofLines hlines
    obtain ⟨hclocknone, hoffset⟩ := Clock.render_eq_ok hclock
    rw [hline] at hrender
    cases hrender
    refine ⟨_, text, clock, hlines, fun h => by rw [hblank h], htext, houtput, ?_, ?_⟩
    · exact hclocknone.trans hnone
    · rw [← hcolumn]
      exact hoffset
  · refine clock_take_of_clockLine ?_
    cases input with
    | restart => rfl
    | line text =>
      have hphase := hinput.resolve_right nofun
      cases hclock : b.phase with
      | clock listed => exact absurd hclock (hphase listed)
      | epoch | observation | records => simp only [clockLine, hclock]

/-- Between two clock lines that are not blank there are a blank one, a reinitialization and a
literal epoch line: the second one is a difference to the first. -/
theorem clock_eq_ofLines_resumed :
    ∃ start b : Body 5, ∃ inputs output k text offset,
      ofLayout 5 ((Layout.ofRevision .v3).withObservables .gps 1) = .ok start ∧
      inputs = [.line "> 2021 01 01 00 00 00.0000000  0  0".toList, .line "2&1000".toList,
        .line [' '], .line [], .restart, .line "> 2021 01 01 00 01 00.0000000  0  0".toList] ∧
      start.run inputs = .ok (b, output) ∧
      Kernel.ofLines 5 Revision.v3.clock ["2&1000".toList, [], "5".toList] = .ok k ∧
      k.value? = some 1005 ∧ (b.step "5".toList).output =
        EpochDescription.observationLine b.layout.revision text 0 (some offset) ++ ['\n'] ∧
      Revision.v3.clock.render 1005 = .ok offset := by
  obtain ⟨start, b, output, hstart, hrun, hlines, hphase, hfault⟩ : ∃ start b : Body 5, ∃ output,
      ofLayout 5 ((Layout.ofRevision .v3).withObservables .gps 1) = .ok start ∧
      start.run [.line "> 2021 01 01 00 00 00.0000000  0  0".toList, .line "2&1000".toList,
        .line [' '], .line [], .restart, .line "> 2021 01 01 00 01 00.0000000  0  0".toList] =
          .ok (b, output) ∧
      start.clockLines [.line "> 2021 01 01 00 00 00.0000000  0  0".toList, .line "2&1000".toList,
        .line [' '], .line [], .restart, .line "> 2021 01 01 00 01 00.0000000  0  0".toList] =
          ["2&1000".toList, []] ∧
      b.phase = .clock [] ∧ (b.step "5".toList).fault = none :=
    ⟨_, _, _, rfl, rfl, rfl, rfl, rfl⟩
  -- The restart has not ended the history of the clock.
  obtain ⟨-, hnext, -, -⟩ := clock_eq_ofLines hstart hrun
  obtain ⟨k, text, clock, hk, -, -, houtput, hnone, hoffset⟩ := hnext [] "5".toList hphase hfault
  rw [hlines] at hk hnone
  have hvalue : k.value? = some 1005 := by
    cases hk
    rfl
  cases clock with
  | none => exact absurd (hnone.1 rfl) (by decide)
  | some offset =>
    obtain ⟨value, hvalue', hrender⟩ := hoffset offset rfl
    cases hvalue'.symm.trans hvalue
    exact ⟨start, b, _, output, k, text, offset, hstart, rfl, hrun, hk, hvalue, houtput, hrender⟩

end Body

end CompactRinex
