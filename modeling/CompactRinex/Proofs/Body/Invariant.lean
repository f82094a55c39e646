import CompactRinex.Proofs.Body.Run
import CompactRinex.Proofs.Epoch.Writing
import CompactRinex.Proofs.Fault
import CompactRinex.Proofs.Overlay.Columns

/-!
# The invariant of a body

`Sound` says how the parts of a body go together in each phase, and `Reachable.sound` that they do
after all inputs, whether these are accepted or not. What matters most is the wait for a clock line:
the satellites of the phase are still those of the description, which has room for all of them, so
that the epoch line can be written whatever the clock is (`EpochDescription.Lists.render_eq_ok`). A
clock line can therefore only be refused for its number.
-/

namespace CompactRinex

/-! ## Descriptions -/

/-- A description stays ASCII. -/
theorem EpochDescription.isAscii_of_next {d d' : EpochDescription}
    (hd : ∀ t ∈ d.text?, Text.isAscii t) {line : Text} {kind : EpochKind}
    (h : d.next line = .ok (d', kind)) : ∀ t ∈ d'.text?, Text.isAscii t := by
  obtain ⟨-, ⟨-, hascii, rfl⟩ | ⟨-, text, htext, rfl⟩⟩ := next_cases h
  · rintro _ ⟨⟩
    exact Overlay.isAscii_padRight hascii
  · rintro _ ⟨⟩
    exact Overlay.isAscii_of_recover hd htext

/-! ## Tracks -/

variable {maxOrder : ℕ}

/-- The flags of a track stay. -/
theorem Track.flags_advance {t : Track maxOrder} (h : t.flags.reference ≠ none)
    (columns : List Column) (line : DataLine) :
    (t.advance columns line).state.flags.reference ≠ none := by
  simp only [advance, Overlay.edit]
  cases t.flags.recover line.flags with
  | error e => exact h
  | ok text => exact Option.some_ne_none text

/-- A data line leaves the tracks as they are, or it moves the track of its satellite. -/
theorem Tracking.get?_decode (t : Tracking maxOrder) (layout : Layout) (s : Satellite)
    (id line : Text) :
    (t.decode layout s id line).state = t ∨ ∃ columns dataLine, ∀ s',
      (t.decode layout s id line).state.tracks.get? s' = if s' = s then
        some (((t.tracks.get? s).getD (.fresh columns.length)).advance columns dataLine).state
      else t.tracks.get? s' := by
  rcases t.decode_cases layout s id line with ⟨fault, -, hrefused⟩ |
    ⟨columns, dataLine, moved, -, -, hmoved, htaken⟩
  · exact Or.inl (by rw [hrefused]; rfl)
  · refine Or.inr ⟨columns, dataLine, fun s' => ?_⟩
    rw [htaken, hmoved]
    exact Table.get?_insert _ _ s' _

/-- Every satellite that has a track has flags, whatever kernels it has. -/
def Tracking.Flagged (t : Tracking maxOrder) : Prop :=
  ∀ s track, t.tracks.get? s = some track → track.flags.reference ≠ none

/-- A data line gives flags to a new track. -/
theorem Tracking.Flagged.decode {t : Tracking maxOrder} (h : t.Flagged) (layout : Layout)
    (s : Satellite) (id line : Text) : (t.decode layout s id line).state.Flagged := by
  rcases t.get?_decode layout s id line with hsame | ⟨columns, dataLine, hget⟩
  · rw [hsame]
    exact h
  · intro s' track htrack
    rw [hget] at htrack
    split at htrack
    · cases htrack
      -- A new track has a text for its flags from the start.
      refine Track.flags_advance ?_ columns dataLine
      cases hs : t.tracks.get? s with
      | none => exact Option.some_ne_none _
      | some track => exact h s track hs
    · exact h s' track htrack

/-- The tracks that are left keep their flags. -/
theorem Tracking.Flagged.retain {t : Tracking maxOrder} (h : t.Flagged)
    (satellites : List Satellite) : (t.retain satellites).Flagged := by
  intro s track htrack
  simp only [Tracking.retain, Table.get?_restrict] at htrack
  split at htrack
  · exact h s track htrack
  · cases htrack

/-- Only these satellites have tracks. -/
def Tracking.Within (t : Tracking maxOrder) (satellites : List Satellite) : Prop :=
  ∀ s, t.contains s = true → s ∈ satellites

/-- Only the satellites that are retained have tracks. -/
theorem Tracking.within_retain (t : Tracking maxOrder) (satellites : List Satellite) :
    (t.retain satellites).Within satellites := by
  intro s hs
  simp only [Tracking.contains, Table.contains, Tracking.retain, Table.get?_restrict] at hs
  split at hs
  · next hmem => exact List.contains_iff_mem.1 hmem
  · cases hs

/-- The data line of one of the satellites starts a track of no other. -/
theorem Tracking.Within.decode {t : Tracking maxOrder} {satellites : List Satellite}
    (h : t.Within satellites) (layout : Layout) {s : Satellite} (hs : s ∈ satellites)
    (id line : Text) : (t.decode layout s id line).state.Within satellites := by
  rcases t.get?_decode layout s id line with hsame | ⟨columns, dataLine, hget⟩
  · rw [hsame]
    exact h
  · intro s' hs'
    simp only [Tracking.contains, Table.contains, hget] at hs'
    split at hs'
    · next heq => exact heq ▸ hs
    · exact h s' hs'

/-! ## The invariant -/

/-- The description is one of observations, and these are its satellites. -/
structure EpochDescription.Lists (d : EpochDescription) (layout : Layout) (listed : List Listed) :
    Prop where
  /-- The flag is not that of an event. -/
  flag_eq : ∃ flag, d.flag = .ok flag ∧ flag.isEvent = false
  /-- The satellites are counted. -/
  count_eq : d.count = .ok listed.length
  /-- The satellites can be read. -/
  satellites_eq : d.satellites layout = .ok listed

/-- The epoch line of observations can be written, whatever the clock is. -/
theorem EpochDescription.Lists.render_eq_ok {d : EpochDescription} {layout : Layout}
    {listed : List Listed} (h : d.Lists layout listed) (hwidth : d.overlay.width = 0)
    (clock : Option Text) : ∃ text, d.render clock = .ok text := by
  obtain ⟨revision, ⟨width, reference⟩⟩ := d
  cases hwidth
  cases reference with
  | none => cases h.count_eq
  | some text =>
    obtain ⟨flag, hflag, hevent⟩ := h.flag_eq
    exact ⟨_, render_observations hflag hevent h.satellites_eq clock⟩

namespace Body

/-- What the phase says about the other parts. Before a clock line the satellites are those of the
description; before a data line there is a satellite that it belongs to; until the last data line no
other satellites are tracked. A header is collected among the records of header information only. -/
def InPhase (b : Body maxOrder) : Prop :=
  match b.phase with
  | .epoch => True
  | .clock listed =>
    b.epoch.Lists b.layout listed ∧ b.tracking.Within (listed.map Listed.satellite)
  | .observation listed position =>
    position < listed.length ∧ b.tracking.Within (listed.map Listed.satellite)
  | .records _ update => update ≠ none → b.epoch.flag = .ok .headerInformationFollows

/-- The parts of a body go together. -/
structure Sound (b : Body maxOrder) : Prop extends Coherent b where
  /-- The description is ASCII. -/
  isAscii : ∀ text ∈ b.epoch.text?, Text.isAscii text
  /-- A satellite that is tracked has flags. -/
  flagged : b.tracking.Flagged
  /-- They go together as the phase says. -/
  inPhase : b.InPhase

/-- A description is ASCII, and leaves the flags or ends all tracks. -/
theorem Sound.described {b : Body maxOrder} (h : Sound b) {line : Text} {epoch : EpochDescription}
    {kind : EpochKind} (hnext : b.epoch.next line = .ok (epoch, kind)) :
    (∀ text ∈ epoch.text?, Text.isAscii text) ∧ (b.described epoch kind).tracking.Flagged := by
  refine ⟨EpochDescription.isAscii_of_next h.isAscii hnext, ?_⟩
  simp only [Body.described]
  split
  · exact fun s track htrack => nomatch htrack
  · exact h.flagged

/-- A header is collected if the flag says that header information follows. -/
theorem inPhase_recordsPhase {b : Body maxOrder} {flag : EpochFlag}
    (hflag : b.epoch.flag = .ok flag) (count : ℕ) :
    InPhase { b with phase := recordsPhase flag count } := by
  unfold recordsPhase
  by_cases hcount : count = 0
  · simp only [hcount, if_true, InPhase]
  · simp only [hcount, if_false, InPhase]
    by_cases hinfo : flag = .headerInformationFollows
    · exact fun _ => hinfo ▸ hflag
    · simp [hinfo]

/-- Where no header is collected before a record there is none after it either. -/
theorem update_ne_none_of_readUpdate {line : Text} {update update' : Option Header}
    (hread : readUpdate line update = .ok update') (hupdate : update' ≠ none) : update ≠ none := by
  rintro rfl
  cases hread
  exact hupdate rfl

/-- Each exit of a step keeps the invariant. -/
theorem Sound.exit {b : Body maxOrder} (h : Sound b) {walks : Walks} {line : Text}
    {p : Progress maxOrder} (hexit : Exit b walks line p) : Sound p.body := by
  have hc := h.toCoherent.exit hexit
  have hphase' := h.inPhase
  unfold InPhase at hphase'
  cases hexit with
  | epochRefused => exact h
  | epochUnusable hphase hnext =>
    -- The description has been replaced, and nothing is said about it before an epoch line.
    obtain ⟨hascii, hflagged⟩ := h.described hnext
    refine ⟨hc, hascii, hflagged, ?_⟩
    simp only [InPhase, Body.described, hphase]
  | event _ hnext hflag =>
    -- The flag that has opened the records is that of the new description.
    obtain ⟨hascii, hflagged⟩ := h.described hnext
    exact ⟨hc, hascii, hflagged, inPhase_recordsPhase (b := b.described _ _) hflag _⟩
  | observations _ hnext hflag hevent _ hlisted =>
    -- The list comes from the new description, and the other satellites have been dropped.
    obtain ⟨hascii, hflagged⟩ := h.described hnext
    have hcount := (EpochDescription.satellites_eq_ok_iff.1 hlisted).1
    exact ⟨hc, hascii, hflagged.retain _, ⟨⟨_, hflag, hevent⟩, hcount, hlisted⟩,
      Tracking.within_retain _ _⟩
  | clockRefused => exact h
  | clockUnwritten =>
    -- A clock that cannot be written moves nothing else.
    exact ⟨hc, h.isAscii, h.flagged, h.inPhase⟩
  | @clock listed _ _ _ hphase =>
    -- The first data line belongs to the first satellite, if there is one.
    rw [hphase] at hphase'
    refine ⟨hc, h.isAscii, h.flagged, ?_⟩
    cases listed with
    | nil => trivial
    | cons entry rest => exact ⟨Nat.zero_lt_succ _, hphase'.2⟩
  | unlisted => exact h
  | dataFault hphase hentry =>
    -- The line may have started the track of its satellite, which is listed.
    rw [hphase] at hphase'
    have hmem := List.mem_map_of_mem (f := Listed.satellite) (List.mem_of_getElem? hentry)
    refine ⟨hc, h.isAscii, h.flagged.decode _ _ _ _, ?_⟩
    simp only [InPhase, hphase]
    exact ⟨hphase'.1, hphase'.2.decode _ hmem _ _⟩
  | @data listed position _ _ hphase hentry =>
    -- The position moves on, but not behind the list.
    rw [hphase] at hphase'
    have hmem := List.mem_map_of_mem (f := Listed.satellite) (List.mem_of_getElem? hentry)
    refine ⟨hc, h.isAscii, h.flagged.decode _ _ _ _, ?_⟩
    by_cases hlast : position + 1 = listed.length
    · simp only [InPhase, hlast, if_true]
    · simp only [InPhase, hlast, if_false]
      exact ⟨by omega, hphase'.2.decode _ hmem _ _⟩
  | recordFault hphase =>
    -- The header that is collected stays one of header information.
    rw [hphase] at hphase'
    exact ⟨hc, h.isAscii, h.flagged, fun _ => hphase' (Option.some_ne_none _)⟩
  | record hphase hread =>
    rw [hphase] at hphase'
    exact ⟨hc, h.isAscii, h.flagged, fun hupdate =>
      hphase' (update_ne_none_of_readUpdate hread hupdate)⟩
  | updateFault =>
    -- After the last record no header is collected any more.
    exact ⟨hc, h.isAscii, h.flagged, fun hupdate => absurd rfl hupdate⟩
  | layoutFault => exact ⟨hc, h.isAscii, h.flagged, fun hupdate => absurd rfl hupdate⟩
  | lastRecord => exact ⟨hc, h.isAscii, h.flagged, trivial⟩

/-- Every input keeps the invariant. -/
theorem Sound.along {b : Body maxOrder} (h : Sound b) (walks : Walks) (input : Input) :
    Sound (b.takeAlong walks input).body := by
  cases input with
  | line text => exact h.exit (exit_stepAlong b walks text)
  | restart =>
    -- Nothing is tracked any more; the other parts stay.
    refine ⟨h.toCoherent.take .restart, h.isAscii, fun s track htrack => (nomatch htrack), ?_⟩
    have hphase := h.inPhase
    have hwithin : ∀ satellites, (∅ : Tracking maxOrder).Within satellites :=
      fun satellites s hs => nomatch hs
    unfold InPhase at hphase ⊢
    simp only [takeAlong, reinitialize]
    split
    · trivial
    · next hclock => exact ⟨by rw [hclock] at hphase; exact hphase.1, hwithin _⟩
    · next hobservation => exact ⟨by rw [hobservation] at hphase; exact hphase.1, hwithin _⟩
    · next hrecords => rw [hrecords] at hphase; exact hphase

/-- It holds before the first line. -/
theorem sound_ofLayout {layout : Layout} {b : Body maxOrder}
    (h : ofLayout maxOrder layout = .ok b) : Sound b := by
  have hc := coherent_ofLayout h
  obtain ⟨-, clock, -, rfl⟩ := ofLayout_eq_ok h
  exact ⟨hc, nofun, fun s track htrack => (nomatch htrack), trivial⟩

/-- Every reachable body is sound. -/
theorem Reachable.sound {b : Body maxOrder} (h : Reachable b) : Sound b := by
  induction h with
  | start h => exact sound_ofLayout h
  | along _ walks input ih => exact ih.along walks input

/-! ## Faults -/

/-- No line of a sound body is told that the content has ended. -/
theorem Sound.ofLine_of_exit {b : Body maxOrder} (h : Sound b) {walks : Walks} {line : Text}
    {p : Progress maxOrder} (hexit : Exit b walks line p) : ∀ fault ∈ p.fault, fault.OfLine := by
  intro fault hfault
  cases hexit with
  | epochRefused _ hnext =>
    cases hfault
    exact EpochDescription.failsWith_next _ _ _ hnext
  | epochUnusable _ _ hopen =>
    cases hfault
    exact failsWith_openEpoch _ _ hopen
  | clockRefused _ hnext =>
    cases hfault
    exact (Clock.failsWith_next _ _ _ hnext).ofLine
  | clockUnwritten _ _ htext =>
    cases hfault
    exact (((Clock.failsWith_render _).imp fun _ => Fault.Numerical.ofLine).bind fun offset =>
      EpochDescription.failsWith_render _ offset) _ htext
  | unlisted hphase hentry =>
    -- The phase of a sound body does not point behind its list.
    have hposition := h.inPhase
    simp only [InPhase, hphase] at hposition
    exact absurd hposition.1 (Nat.not_lt_of_le (List.getElem?_eq_none_iff.1 hentry))
  | dataFault _ _ hresult =>
    cases hfault
    exact Tracking.failsWith_decode _ _ _ _ _ _ hresult
  | recordFault => cases hfault; nofun
  | updateFault => cases hfault; nofun
  | layoutFault _ _ _ _ _ hcheck =>
    cases hfault
    exact (Layout.failsWith_checkAlong _ _ _ _ hcheck).ofLine
  | event | observations | clock | data | record | lastRecord => cases hfault

/-- A clock line is refused for its number only. -/
theorem Sound.numerical_of_exit {b : Body maxOrder} (h : Sound b) {listed : List Listed}
    (hphase : b.phase = .clock listed) {walks : Walks} {line : Text} {p : Progress maxOrder}
    (hexit : Exit b walks line p) : ∀ fault ∈ p.fault, fault.Numerical := by
  intro fault hfault
  have hlists := h.inPhase
  simp only [InPhase, hphase] at hlists
  cases hexit with
  | clockRefused _ hnext =>
    cases hfault
    exact Clock.failsWith_next _ _ _ hnext
  | clockUnwritten _ _ htext =>
    cases hfault
    -- The epoch line can be written, so it is the offset that does not fit.
    refine ((Clock.failsWith_render _).bind fun offset => ?_) _ htext
    obtain ⟨text, hrender⟩ := hlists.1.render_eq_ok h.width_eq offset
    rw [hrender]
    exact failsWith_ok text
  | clock => cases hfault
  | _ => simp_all

end Body

end CompactRinex
