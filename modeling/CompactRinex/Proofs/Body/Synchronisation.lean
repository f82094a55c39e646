import CompactRinex.Proofs.Body.Epochs
import CompactRinex.Proofs.Body.Reports
import CompactRinex.Proofs.Epoch.Line
import CompactRinex.Proofs.Header.Definitions
import CompactRinex.Proofs.Tracking.TrailingSpaces

/-!
# Bodies that are alike

Two bodies may differ in ways that no caller can see: the tables of their layouts may list the
columns in different orders, and the flags of a satellite may end in more or fewer spaces. `Alike`
allows this and nothing else, and every input keeps it (`Alike.along`), whatever the orders are in
which the tables of each of the two are met. So bodies that are alike report the same from then on:
the same throughout if their tables are met in the same orders (`Alike.reports_eq`), and in any case
the same apart from the constellation that an inconsistent definition is reported for
(`Alike.reports_unnamed_eq`).

Nothing of an earlier epoch survives a literal epoch line: it makes two bodies alike that have the
same layout and the same clock (`literal_alike`).
-/

namespace CompactRinex

/-! ## What does not depend on the order of a table -/

/-- The satellites of an epoch do not depend on the order of the table. -/
theorem EpochDescription.satellites_congr {l₁ l₂ : Layout} (h : l₁.view = l₂.view)
    (d : EpochDescription) : d.satellites l₁ = d.satellites l₂ := by
  have hlisted : d.listedAt l₁ = d.listedAt l₂ := by
    funext position
    simp only [listedAt, Layout.parseSatellite_congr h]
  simp only [satellites, hlisted]

/-- A data line is taken in without looking at the order of the table. -/
theorem Tracking.decode_congr {maxOrder : ℕ} {l₁ l₂ : Layout} (h : l₁.view = l₂.view)
    (t : Tracking maxOrder) (s : Satellite) (id line : Text) :
    t.decode l₁ s id line = t.decode l₂ s id line := by
  have hrevision : l₁.revision = l₂.revision := congrArg LayoutView.revision h
  simp only [decode, Layout.columnsOf_congr h, hrevision]

/-- On any two walks, layouts with the same view take the definitions over and have the same view
again, or neither takes them over. On the same walk the same definition is reported then. -/
theorem Header.updateLayout_congr {l₁ l₂ : Layout} (h : l₁.view = l₂.view) (header : Header)
    (walk₁ walk₂ : Walk (Constellation × Definition)) :
    (∃ l₁' l₂', header.updateLayout walk₁ l₁ = .ok l₁' ∧ header.updateLayout walk₂ l₂ = .ok l₂' ∧
      l₁'.view = l₂'.view) ∨
    ∃ c₁ c₂, header.updateLayout walk₁ l₁ = .error (.badObservables c₁) ∧
      header.updateLayout walk₂ l₂ = .error (.badObservables c₂) ∧ (walk₁ = walk₂ → c₁ = c₂) := by
  rcases header.updateLayout_cases walk₁ l₁ with
    ⟨l₁', hok₁, hconsistent, hrevision₁, hdefault₁, hclock₁, hget₁⟩ | ⟨c₁, d₁, hd₁, hbad₁, herror₁⟩
  · rcases header.updateLayout_cases walk₂ l₂ with
      ⟨l₂', hok₂, -, hrevision₂, hdefault₂, hclock₂, hget₂⟩ | ⟨c₂, d₂, hd₂, hbad₂, -⟩
    · left
      -- Each constellation gets what its definition says, on any walk.
      refine ⟨l₁', l₂', hok₁, hok₂, ?_⟩
      ext1
      · exact (hrevision₁.trans (congrArg LayoutView.revision h)).trans hrevision₂.symm
      · exact (hdefault₁.trans (congrArg LayoutView.defaultConstellation h)).trans hdefault₂.symm
      · exact (hclock₁.trans (congrArg LayoutView.clock h)).trans hclock₂.symm
      · funext c
        show l₁'.columns.get? c = l₂'.columns.get? c
        rw [hget₁, hget₂, Layout.get?_congr h]
    · exact absurd (hconsistent c₂ d₂ hd₂) hbad₂
  · rcases header.updateLayout_cases walk₂ l₂ with
      ⟨l₂', hok₂, hconsistent, -⟩ | ⟨c₂, d₂, -, -, herror₂⟩
    · exact absurd (hconsistent c₁ d₁ hd₁) hbad₁
    · refine Or.inr ⟨c₁, c₂, herror₁, herror₂, ?_⟩
      rintro rfl
      -- On the same walk the first inconsistent definition is the same.
      have hsame : header.updateLayout walk₁ l₂ = .error (.badObservables c₁) :=
        applyDefinitions_eq_error herror₁ l₂
      exact HeaderError.badObservables.inj (Except.error.inj (hsame.symm.trans herror₂))

namespace Body

variable {maxOrder : ℕ} {b₁ b₂ : Body maxOrder}

/-- Two bodies that differ in the order of the table of their layouts, and in spaces at the end of
flags, only. -/
structure Alike (b₁ b₂ : Body maxOrder) : Prop where
  /-- The layouts say the same. -/
  view_eq : b₁.layout.view = b₂.layout.view
  /-- The next line is the same. -/
  phase_eq : b₁.phase = b₂.phase
  /-- The descriptions are the same. -/
  epoch_eq : b₁.epoch = b₂.epoch
  /-- The clocks are the same. -/
  clock_eq : b₁.clock = b₂.clock
  /-- The tracks are the same, apart from spaces at the end of flags. -/
  tracking : b₁.tracking.Resembles b₂.tracking

/-- The same text, the same fault if the tables are met in the same orders, and bodies that are
alike. -/
structure ProgressAlike (walks₁ walks₂ : Walks) (p₁ p₂ : Progress maxOrder) : Prop where
  /-- The bodies are alike. -/
  body : Alike p₁.body p₂.body
  /-- The same text is added. -/
  output_eq : p₁.output = p₂.output
  /-- The fault is the same, apart from the constellation of an inconsistent definition. -/
  unnamed_eq : p₁.fault.map Fault.unnamed = p₂.fault.map Fault.unnamed
  /-- It is the same altogether when the tables are met in the same orders. -/
  fault_eq : walks₁ = walks₂ → p₁.fault = p₂.fault

variable {walks₁ walks₂ : Walks} {p₁ p₂ : Progress maxOrder}

/-- Most lines do not meet a table. -/
theorem ProgressAlike.of_fault_eq (hbody : Alike p₁.body p₂.body) (houtput : p₁.output = p₂.output)
    (hfault : p₁.fault = p₂.fault) : ProgressAlike walks₁ walks₂ p₁ p₂ :=
  ⟨hbody, houtput, congrArg (Option.map Fault.unnamed) hfault, fun _ => hfault⟩

/-- Bodies that are alike may end alike. -/
theorem Alike.finish_eq (h : Alike b₁ b₂) : b₁.finish = b₂.finish := by
  simp only [finish, h.phase_eq]

/-- In the same orders the reports are the same. -/
theorem ProgressAlike.report_eq (h : ProgressAlike walks₁ walks₂ p₁ p₂) (hwalks : walks₁ = walks₂) :
    p₁.report = p₂.report := by
  ext1
  · simp only [Progress.report, h.fault_eq hwalks, h.output_eq]
  · exact h.output_eq
  · exact congrArg Phase.state h.body.phase_eq
  · exact h.body.view_eq
  · exact h.body.finish_eq

/-- In any orders they are the same without the name. -/
theorem ProgressAlike.unnamed_report_eq (h : ProgressAlike walks₁ walks₂ p₁ p₂) :
    p₁.report.unnamed = p₂.report.unnamed := by
  -- The name is the only part of a fault that is left out.
  have hresult : ∀ p : Progress maxOrder, p.report.unnamed.result =
      (p.fault.map Fault.unnamed).elim (.ok (Text.byteLength p.output)) .error := by
    intro p
    simp only [Progress.report, Report.unnamed]
    cases p.fault <;> rfl
  ext1
  · rw [hresult, hresult, h.unnamed_eq, h.output_eq]
  · exact h.output_eq
  · exact congrArg Phase.state h.body.phase_eq
  · exact h.body.view_eq
  · exact h.body.finish_eq

/-! ## Epoch lines -/

/-- The epoch is refused in both, or started in both. -/
theorem Alike.openEpoch (h : Alike b₁ b₂) :
    (∃ fault, b₁.openEpoch = .error fault ∧ b₂.openEpoch = .error fault) ∨
      ∃ p₁ p₂, b₁.openEpoch = .ok p₁ ∧ b₂.openEpoch = .ok p₂ ∧
        ProgressAlike walks₁ walks₂ p₁ p₂ := by
  have hsatellites := EpochDescription.satellites_congr h.view_eq b₂.epoch
  simp only [Body.openEpoch, h.epoch_eq, hsatellites]
  cases b₂.epoch.flag with
  | error fault => exact Or.inl ⟨fault, rfl, rfl⟩
  | ok flag =>
    cases b₂.epoch.count with
    | error fault => exact Or.inl ⟨fault, rfl, rfl⟩
    | ok count =>
      by_cases hevent : flag.isEvent = true
      · -- The line of an event is written, and no track is touched.
        simp only [bind, Except.bind, hevent, if_true]
        cases b₂.epoch.render none with
        | error fault => exact Or.inl ⟨fault, rfl, rfl⟩
        | ok text =>
          exact Or.inr ⟨_, _, rfl, rfl,
            .of_fault_eq ⟨h.view_eq, rfl, rfl, h.clock_eq, h.tracking⟩ rfl rfl⟩
      · -- The satellites are read, and the others are dropped.
        simp only [bind, Except.bind, hevent, Bool.false_eq_true, if_false]
        cases b₂.epoch.satellites b₂.layout with
        | error fault => exact Or.inl ⟨fault, rfl, rfl⟩
        | ok listed =>
          exact Or.inr ⟨_, _, rfl, rfl,
            .of_fault_eq ⟨h.view_eq, rfl, rfl, h.clock_eq, h.tracking.retain _⟩ rfl rfl⟩

/-- A description replaces the ones before it. -/
theorem Alike.described (h : Alike b₁ b₂) (epoch : EpochDescription) (kind : EpochKind) :
    Alike (b₁.described epoch kind) (b₂.described epoch kind) := by
  refine ⟨h.view_eq, h.phase_eq, rfl, h.clock_eq, ?_⟩
  cases kind with
  | literal => exact Tracking.resembles_empty
  | differential => exact h.tracking

/-- The epoch that a description gives is started alike. -/
theorem Alike.startEpoch (h : Alike b₁ b₂) :
    ProgressAlike walks₁ walks₂ b₁.startEpoch b₂.startEpoch := by
  simp only [Body.startEpoch]
  rcases h.openEpoch with ⟨fault, e₁, e₂⟩ | ⟨p₁, p₂, e₁, e₂, hp⟩
  · rw [e₁, e₂]
    exact .of_fault_eq h rfl rfl
  · rw [e₁, e₂]
    exact hp

/-- An epoch line is taken in alike. -/
theorem Alike.readEpoch (h : Alike b₁ b₂) (line : Text) :
    ProgressAlike walks₁ walks₂ (b₁.readEpoch line) (b₂.readEpoch line) := by
  cases hnext : b₁.epoch.next line with
  | error fault =>
    rw [readEpoch_of_error hnext, readEpoch_of_error (h.epoch_eq ▸ hnext)]
    exact .of_fault_eq h rfl rfl
  | ok q =>
    obtain ⟨epoch, kind⟩ := q
    rw [readEpoch_of_ok hnext, readEpoch_of_ok (h.epoch_eq ▸ hnext)]
    exact (h.described epoch kind).startEpoch

/-! ## Clock lines and data lines -/

/-- A clock line is taken in alike. -/
theorem Alike.readClock (h : Alike b₁ b₂) (listed : List Listed) (line : Text) :
    ProgressAlike walks₁ walks₂ (b₁.readClock listed line) (b₂.readClock listed line) := by
  simp only [Body.readClock, h.clock_eq, h.epoch_eq]
  cases (b₂.clock.decode line).result with
  | error fault => exact .of_fault_eq h rfl rfl
  | ok value =>
    simp only
    cases (b₂.clock.decode line).state.render >>= b₂.epoch.render with
    | error fault => exact .of_fault_eq ⟨h.view_eq, h.phase_eq, rfl, rfl, h.tracking⟩ rfl rfl
    | ok text => exact .of_fault_eq ⟨h.view_eq, rfl, rfl, rfl, h.tracking⟩ rfl rfl

/-- A data line is taken in alike, also by flags that end in other spaces. -/
theorem Alike.readObservation (h : Alike b₁ b₂) (listed : List Listed) (position : ℕ)
    (line : Text) :
    ProgressAlike walks₁ walks₂ (b₁.readObservation listed position line)
      (b₂.readObservation listed position line) := by
  simp only [Body.readObservation]
  cases listed[position]? with
  | none => exact .of_fault_eq h rfl rfl
  | some entry =>
    obtain ⟨hresult, hstate⟩ := h.tracking.decode b₂.layout entry.satellite entry.id line
    simp only [Tracking.decode_congr h.view_eq, hresult]
    cases (b₂.tracking.decode b₂.layout entry.satellite entry.id line).result with
    | error fault =>
      exact .of_fault_eq ⟨h.view_eq, h.phase_eq, h.epoch_eq, h.clock_eq, hstate⟩ rfl rfl
    | ok record => exact .of_fault_eq ⟨h.view_eq, rfl, h.epoch_eq, h.clock_eq, hstate⟩ rfl rfl

/-! ## Special records -/

/-- The end of an event is the only step that meets tables. -/
theorem Alike.closeEvent (h : Alike b₁ b₂) (h₁ : Coherent b₁) (h₂ : Coherent b₂)
    (update : Option Header) (output : Text) :
    ProgressAlike walks₁ walks₂
      ⟨(b₁.closeEvent walks₁ update).1, output, (b₁.closeEvent walks₁ update).2⟩
      ⟨(b₂.closeEvent walks₂ update).1, output, (b₂.closeEvent walks₂ update).2⟩ := by
  cases update with
  | none => exact .of_fault_eq ⟨h.view_eq, rfl, h.epoch_eq, h.clock_eq, h.tracking⟩ rfl rfl
  | some header =>
    cases hempty : header.definitions.isEmpty with
    | true =>
      simp only [Body.closeEvent, hempty, if_true]
      exact .of_fault_eq ⟨h.view_eq, rfl, h.epoch_eq, h.clock_eq, h.tracking⟩ rfl rfl
    | false =>
      simp only [Body.closeEvent, hempty, Bool.false_eq_true, if_false]
      rcases Header.updateLayout_congr h.view_eq header walks₁.definitions walks₂.definitions with
        ⟨l₁, l₂, hlayout₁, hlayout₂, hview⟩ | ⟨c₁, c₂, hlayout₁, hlayout₂, hsame⟩
      · -- The new columns have known orders, so that the check reports the same fault.
        have hupdate₁ : updatedLayout walks₁.definitions b₁.layout (some header) = .ok l₁ := by
          simpa [updatedLayout, hempty] using hlayout₁
        have hupdate₂ : updatedLayout walks₂.definitions b₂.layout (some header) = .ok l₂ := by
          simpa [updatedLayout, hempty] using hlayout₂
        have hcheck := Layout.checkAlong_congr hview (h₁.of_updatedLayout hupdate₁).2
          (h₂.of_updatedLayout hupdate₂).2 walks₁.columns walks₂.columns
        simp only [hlayout₁, hlayout₂, hcheck]
        cases l₂.checkAlong maxOrder walks₂.columns with
        | error fault => exact .of_fault_eq ⟨hview, rfl, h.epoch_eq, h.clock_eq, h.tracking⟩ rfl rfl
        | ok u => exact .of_fault_eq ⟨hview, rfl, h.epoch_eq, h.clock_eq, h.tracking⟩ rfl rfl
      · -- Both are refused, and each names the first inconsistent definition that it has met.
        simp only [hlayout₁, hlayout₂]
        refine ⟨⟨h.view_eq, rfl, h.epoch_eq, h.clock_eq, h.tracking⟩, rfl, rfl, fun hwalks => ?_⟩
        rw [hsame (congrArg Walks.definitions hwalks)]

/-- A special record is taken in alike. -/
theorem Alike.readRecord (h : Alike b₁ b₂) (h₁ : Coherent b₁) (h₂ : Coherent b₂) (left : ℕ)
    (update : Option Header) (line : Text) :
    ProgressAlike walks₁ walks₂ (b₁.readRecord walks₁ left update line)
      (b₂.readRecord walks₂ left update line) := by
  -- A record that counts may end the event.
  have hcount : ∀ update, ProgressAlike walks₁ walks₂
      ⟨(b₁.countRecord walks₁ left update).1, line ++ ['\n'],
        (b₁.countRecord walks₁ left update).2⟩
      ⟨(b₂.countRecord walks₂ left update).1, line ++ ['\n'],
        (b₂.countRecord walks₂ left update).2⟩ := by
    intro update
    by_cases hleft : left ≤ 1
    · simp only [Body.countRecord, hleft, if_true]
      exact h.closeEvent h₁ h₂ update _
    · simp only [Body.countRecord, hleft, if_false]
      exact .of_fault_eq ⟨h.view_eq, rfl, h.epoch_eq, h.clock_eq, h.tracking⟩ rfl rfl
  cases update with
  | none => exact hcount none
  | some header =>
    simp only [Body.readRecord]
    cases (header.readLine line).result with
    | error e => exact .of_fault_eq ⟨h.view_eq, rfl, h.epoch_eq, h.clock_eq, h.tracking⟩ rfl rfl
    | ok u => exact hcount (some (header.readLine line).state)

/-! ## Inputs -/

/-- Every input is taken in alike, in whatever orders the tables of the two are met. -/
theorem Alike.along (h : Alike b₁ b₂) (h₁ : Coherent b₁) (h₂ : Coherent b₂) (walks₁ walks₂ : Walks)
    (input : Input) :
    ProgressAlike walks₁ walks₂ (b₁.takeAlong walks₁ input) (b₂.takeAlong walks₂ input) := by
  cases input with
  | restart =>
    exact .of_fault_eq ⟨h.view_eq, h.phase_eq, h.epoch_eq, h.clock_eq, Tracking.resembles_empty⟩
      rfl rfl
  | line text =>
    simp only [takeAlong, stepAlong, h.phase_eq]
    cases b₂.phase with
    | epoch => exact h.readEpoch text
    | clock listed => exact h.readClock listed text
    | observation listed position => exact h.readObservation listed position text
    | records left update => exact h.readRecord h₁ h₂ left update text

/-- Bodies that are alike report the same from then on, when their tables are met in the same
orders. -/
theorem Alike.reports_eq (h : Alike b₁ b₂) (h₁ : Coherent b₁) (h₂ : Coherent b₂)
    (inputs : List (Walks × Input)) : b₁.reports inputs = b₂.reports inputs := by
  induction inputs generalizing b₁ b₂ with
  | nil => rfl
  | cons first inputs ih =>
    obtain ⟨walks, input⟩ := first
    have hp := h.along h₁ h₂ walks walks input
    simp only [reports]
    rw [hp.report_eq rfl, ih hp.body (h₁.along walks input) (h₂.along walks input)]

/-- In any orders they report the same without the name. -/
theorem Alike.reports_unnamed_eq (h : Alike b₁ b₂) (h₁ : Coherent b₁) (h₂ : Coherent b₂)
    {inputs₁ inputs₂ : List (Walks × Input)}
    (hsame : inputs₁.map Prod.snd = inputs₂.map Prod.snd) :
    (b₁.reports inputs₁).map Report.unnamed = (b₂.reports inputs₂).map Report.unnamed := by
  induction inputs₁ generalizing b₁ b₂ inputs₂ with
  | nil =>
    obtain rfl := List.map_eq_nil_iff.1 hsame.symm
    rfl
  | cons first inputs₁ ih =>
    obtain ⟨walks₁, input⟩ := first
    -- The other run takes in the same input first.
    obtain ⟨⟨walks₂, input₂⟩, inputs₂, rfl, heq, hrest⟩ := List.map_eq_cons_iff.1 hsame.symm
    obtain rfl : input₂ = input := heq
    have hp := h.along h₁ h₂ walks₁ walks₂ input₂
    simp only [reports, List.map_cons]
    rw [hp.unnamed_report_eq, ih hp.body (h₁.along walks₁ _) (h₂.along walks₂ _) hrest.symm]

/-! ## Literal epoch lines -/

/-- What a literal epoch line does between two epochs. -/
theorem takeAlong_marker {b : Body maxOrder} (hphase : b.phase = .epoch) (walks : Walks)
    {description : Text} (hascii : Text.isAscii description) :
    b.takeAlong walks (.line (b.epoch.revision.marker :: description)) =
      (b.described { b.epoch with overlay := b.epoch.overlay.force description }
        .literal).startEpoch := by
  simp only [takeAlong, stepAlong, hphase]
  exact readEpoch_of_ok (EpochDescription.next_marker b.epoch hascii)

/-- A literal epoch line is taken in alike between two epochs by bodies that have the same layout
and the same clock: it replaces the description and drops all tracks. -/
theorem literal_alike (h₁ : Coherent b₁) (h₂ : Coherent b₂) (hphase₁ : b₁.phase = .epoch)
    (hphase₂ : b₂.phase = .epoch) (hlayout : b₁.layout.view = b₂.layout.view)
    (hclock : b₁.clock = b₂.clock) {description : Text} (hascii : Text.isAscii description)
    (walks₁ walks₂ : Walks) :
    ProgressAlike walks₁ walks₂
      (b₁.takeAlong walks₁ (.line (b₁.layout.revision.marker :: description)))
      (b₂.takeAlong walks₂ (.line (b₁.layout.revision.marker :: description))) := by
  have hrevision : b₁.epoch.revision = b₂.epoch.revision :=
    h₁.revision_eq.trans ((congrArg LayoutView.revision hlayout).trans h₂.revision_eq.symm)
  have hline₁ := takeAlong_marker hphase₁ walks₁ hascii
  have hline₂ := takeAlong_marker hphase₂ walks₂ hascii
  rw [← hrevision] at hline₂
  rw [← h₁.revision_eq, hline₁, hline₂]
  -- Both descriptions are replaced by the same one, and both lose all tracks.
  refine Alike.startEpoch ⟨hlayout, hphase₁.trans hphase₂.symm, ?_, hclock,
    Tracking.resembles_empty⟩
  simp only [Body.described, Overlay.force, h₁.width_eq, h₂.width_eq, hrevision]

end Body

end CompactRinex
