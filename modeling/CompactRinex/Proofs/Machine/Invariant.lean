import CompactRinex.Proofs.Body.Invariant
import CompactRinex.Proofs.Machine.Simulation

/-!
# The invariant of a machine

`Machine.Sound` says how the fields of a machine go together, also those that are not in use, and
`Reachable.invariant` that they do after all inputs, accepted or not. The satellites that are stored
are those of the description before a clock line, and the position points at one of them before a
data line. So no line is told that the content has ended, and a clock line can be refused for its
number only.
-/

namespace CompactRinex

namespace Machine

variable {maxOrder : ℕ} {m : Machine maxOrder} {b : Body maxOrder}

/-- The fields of a machine go together. -/
structure Sound (m : Machine maxOrder) : Prop where
  /-- The description is ASCII. -/
  isAscii : ∀ text ∈ m.epoch.text?, Text.isAscii text
  /-- The description has the revision of the layout. -/
  revision_eq : m.epoch.revision = m.layout.revision
  /-- The description has no least width. -/
  width_eq : m.epoch.overlay.width = 0
  /-- The orders of the columns are known. -/
  order_known : ∀ column ∈ m.layout.allColumns, KnownOrder maxOrder column
  /-- A satellite with a kernel has flags. -/
  contains_of_kernel : ∀ s i, m.observations.kernels.get? (s, i) ≠ none →
    m.observations.contains s = true
  /-- Flags that are there are a text. -/
  reference_ne_none : ∀ s flags, m.observations.flags.get? s = some flags → flags.reference ≠ none
  /-- Before a data line the position points at a satellite. -/
  position_lt : m.state = .observation → m.position < m.satellites.length
  /-- Before a clock line the position is zero. -/
  position_eq : m.state = .clock → m.position = 0
  /-- Before a clock line the description is one of observations, and these are its satellites. -/
  lists : m.state = .clock → m.epoch.Lists m.layout m.satellites
  /-- Between an epoch line and the last data line only the satellites of the epoch are tracked. -/
  within : m.state = .clock ∨ m.state = .observation → ∀ s,
    m.observations.contains s = true → s ∈ m.satellites.map Listed.satellite
  /-- A header is collected among special records only. -/
  update_eq : m.state ≠ .records → m.update = none
  /-- These are records of header information. -/
  flag_eq : m.update ≠ none → m.epoch.flag = .ok .headerInformationFollows

/-- The fields of the body go together, and so do those of the machine. -/
theorem Represents.sound (h : m.Represents b) (hb : b.Sound) : m.Sound := by
  have hinPhase := hb.inPhase
  simp only [Body.InPhase, h.phase_eq, phase, h.epoch_eq, h.layout_eq] at hinPhase
  refine {
    isAscii := h.epoch_eq ▸ hb.isAscii
    revision_eq := by rw [← h.epoch_eq, ← h.layout_eq, hb.revision_eq]
    width_eq := h.epoch_eq ▸ hb.width_eq
    order_known := h.layout_eq ▸ hb.order_known
    contains_of_kernel := fun s i hkernel => ?kernel
    reference_ne_none := fun s flags hflags => ?reference
    position_lt := fun hstate => ?position
    position_eq := h.position_eq
    lists := fun hstate => ?lists
    within := fun hstate s hs => ?within
    update_eq := h.update_eq
    flag_eq := fun hupdate => ?flag }
  case kernel =>
    rw [h.carries.kernel_eq] at hkernel
    rw [h.carries.contains_eq]
    -- A track that has a kernel is one.
    cases htrack : b.tracking.tracks.get? s with
    | none => exact absurd (by simp only [Tracking.kernel?, htrack, Option.bind_none]) hkernel
    | some track => simp only [Tracking.contains, Table.contains, htrack, Option.isSome_some]
  case reference =>
    rw [h.carries.flags_eq] at hflags
    obtain ⟨track, htrack, rfl⟩ := Option.map_eq_some_iff.1 hflags
    exact hb.flagged s track htrack
  case position =>
    simp only [hstate] at hinPhase
    exact hinPhase.1
  case lists =>
    simp only [hstate] at hinPhase
    exact hinPhase.1
  case within =>
    rw [h.carries.contains_eq] at hs
    rcases hstate with hstate | hstate
    · simp only [hstate] at hinPhase
      exact hinPhase.2 s hs
    · simp only [hstate] at hinPhase
      exact hinPhase.2 s hs
  case flag =>
    -- Only among records there is a header.
    have hstate : m.state = .records := by
      by_contra hstate
      exact hupdate (h.update_eq hstate)
    simp only [hstate] at hinPhase
    exact hinPhase hupdate

/-- In every reachable machine the fields go together. No line is told that the content has ended.
Where a clock line is awaited the epoch line can be written with every clock, the clock line is
refused for its number only, and if it is accepted the data line of the first satellite follows. -/
theorem Reachable.invariant (h : Reachable m) :
    m.Sound ∧ ∀ walks file line, (m.write walks file line).result ≠ .error .truncated ∧
      (m.state = .clock →
        (∀ clock, ∃ text, m.epoch.render clock = .ok text) ∧
        (∀ fault, (m.write walks file line).result = .error fault → fault.Numerical) ∧
        ∀ size, (m.write walks file line).result = .ok size →
          (m.write walks file line).state.1.phase =
            if m.satellites.isEmpty then .epoch else .observation m.satellites 0) := by
  obtain ⟨b, hb, hrepresents⟩ := h.exists_body
  have hsound := hrepresents.sound hb.sound
  refine ⟨hsound, fun walks file line => ?_⟩
  have hexit := Body.exit_stepAlong b walks line
  refine ⟨fun hresult => ?truncated, fun hstate =>
    ⟨(hsound.lists hstate).render_eq_ok hsound.width_eq, fun fault hresult => ?numerical,
      fun size hresult => ?next⟩⟩
  case truncated =>
    exact hb.sound.ofLine_of_exit hexit _ (hrepresents.fault_of_error hresult) rfl
  case numerical =>
    exact hb.sound.numerical_of_exit (hrepresents.phase_of_clock hstate) hexit fault
      (hrepresents.fault_of_error hresult)
  case next =>
    -- An accepted clock line is followed by data, if there are satellites.
    have hclock := hrepresents.phase_of_clock hstate
    have haccepted := hrepresents.fault_of_ok hresult
    rw [← (hrepresents.write walks file line).represents.phase_eq]
    generalize b.stepAlong walks line = p at hexit haccepted ⊢
    cases hexit with
    | clock hawaited =>
      rw [hclock] at hawaited
      cases hawaited
      rfl
    | clockRefused | clockUnwritten => cases haccepted
    | _ => simp_all

/-- A machine that awaits a clock line after it has refused one. -/
theorem invariant_awaiting_clock :
    ∃ m : Machine 5, Reachable m ∧ m.state = .clock ∧
      m.satellites = [⟨⟨.gps, 1⟩, "G01".toList⟩, ⟨⟨.gps, 2⟩, "G02".toList⟩] ∧ m.Sound ∧
      ∀ walks file line, (m.write walks file line).result ≠ .error .truncated ∧
        ∀ fault, (m.write walks file line).result = .error fault → fault.Numerical := by
  obtain ⟨m, hm⟩ : ∃ m : Machine 5,
    ofLayout 5 .inserted ((Layout.ofRevision .v3).withObservables .gps 1) = .ok m := ⟨_, rfl⟩
  have h₀ : Reachable m := .start hm
  cases hm
  have h := (h₀.take .inserted []
    (.line "> 2021 01 01 00 00 00.0000000  0  2      G01G02".toList)).take .inserted []
      (.line "9&1".toList)
  -- The last line has been refused for its order, and the clock line is still awaited.
  have hinvariant := h.invariant
  refine ⟨_, h, rfl, rfl, hinvariant.1, fun walks file line =>
    ⟨(hinvariant.2 walks file line).1, ((hinvariant.2 walks file line).2 rfl).2.1⟩⟩

end Machine

end CompactRinex
