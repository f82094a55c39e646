import CompactRinex.Proofs.Body.Epochs
import CompactRinex.Proofs.Machine.Program

/-!
# The machine does what the body does

A body has the fields of a machine that are in use, and its tracks are what the two tables of the
machine hold (`Machine.Represents`). What the other fields hold is what earlier lines have left in
them, and it does not matter, for two reasons that are part of the relation: the position is zero
again before a clock line, and no header is collected but among special records.

`Represents.run` says that the program of a line does to the machine and the file what
`Body.stepAlong` does to the body, on the same walks, and that a line that is refused leaves the
fields that say where the machine is (`SamePlace`), special records apart. So every reachable
machine represents a reachable body (`Reachable.exists_body`), and both show the same for ever
(`Represents.reports_eq`).
-/

namespace CompactRinex

open Routine

namespace Machine

variable {maxOrder : ℕ} {m m' : Machine maxOrder} {b b' : Body maxOrder}

/-- What the next line is, with the fields that are in use then. -/
def phase (m : Machine maxOrder) : Phase :=
  match m.state with
  | .epoch => .epoch
  | .clock => .clock m.satellites
  | .observation => .observation m.satellites m.position
  | .records => .records m.records m.update

/-- The body that has these tracks, and the fields of the machine that are in use. -/
def toBody (m : Machine maxOrder) (tracking : Tracking maxOrder) : Body maxOrder :=
  ⟨m.layout, m.phase, m.epoch, m.clock, tracking⟩

/-- The machine represents the body: it has the same content in the fields that are in use, and the
others can do no harm. -/
structure Represents (m : Machine maxOrder) (b : Body maxOrder) : Prop where
  /-- The parts of the body are fields of the machine, apart from the tracks. -/
  body_eq : b = m.toBody b.tracking
  /-- The tables hold the tracks. -/
  carries : m.observations.Carries b.tracking
  /-- The data lines after a clock line start at the first satellite. -/
  position_eq : m.state = .clock → m.position = 0
  /-- No header is left over from an event. -/
  update_eq : m.state ≠ .records → m.update = none

/-- The machines have the same fields but for the description, the clock and the histories. -/
structure SamePlace (m m' : Machine maxOrder) : Prop where
  /-- The layout is in force. -/
  layout_eq : m'.layout = m.layout
  /-- The next line is of the same kind. -/
  state_eq : m'.state = m.state
  /-- The satellites are the same. -/
  satellites_eq : m'.satellites = m.satellites
  /-- The position among them is the same. -/
  position_eq : m'.position = m.position
  /-- As many special records are left. -/
  records_eq : m'.records = m.records
  /-- The same header is collected. -/
  update_eq : m'.update = m.update

/-- A machine is at its own place. -/
theorem SamePlace.refl (m : Machine maxOrder) : m.SamePlace m := ⟨rfl, rfl, rfl, rfl, rfl, rfl⟩

/-- Places are compared step by step. -/
theorem SamePlace.trans {m'' : Machine maxOrder} (h : m.SamePlace m') (h' : m'.SamePlace m'') :
    m.SamePlace m'' :=
  ⟨h'.layout_eq.trans h.layout_eq, h'.state_eq.trans h.state_eq,
    h'.satellites_eq.trans h.satellites_eq, h'.position_eq.trans h.position_eq,
    h'.records_eq.trans h.records_eq, h'.update_eq.trans h.update_eq⟩

/-- A program that starts with the machine `m` and this file has done what the step `p` does. -/
structure Follows {α : Type} (m : Machine maxOrder) (file : Text) (answer : α)
    (p : Progress maxOrder) (o : Outcome (Machine maxOrder × Text) Fault α) : Prop where
  /-- The machine represents the body after the step. -/
  represents : o.state.1.Represents p.body
  /-- The file has grown by the same text. -/
  file_eq : o.state.2 = file ++ p.output
  /-- The program fails as the step does, and otherwise answers. -/
  result_eq : o.result = p.fault.elim (.ok answer) .error
  /-- A line that is refused does not move the machine on, unless it is a special record. -/
  samePlace : p.fault ≠ none → m.state ≠ .records → m.SamePlace o.state.1

variable {file text : Text} {fault : Fault}

/-- A program that ends with a fault, and has stored nothing that tells where the machine is. -/
theorem Represents.refused {α : Type} {answer : α} (h : m'.Represents b')
    (hplace : m.SamePlace m') :
    Follows m file answer ⟨b', [], some fault⟩ (.fail (m', file) fault) where
  represents := h
  file_eq := (List.append_nil file).symm
  result_eq := rfl
  samePlace _ _ := hplace

/-- A program that ends after it has completed a text. -/
theorem Represents.emitted (h : m'.Represents b') :
    Follows m file () ⟨b', text ++ ['\n'], none⟩ (.ok (m', file ++ text ++ ['\n']) ()) where
  represents := h
  file_eq := List.append_assoc file text ['\n']
  result_eq := rfl
  samePlace hfault _ := absurd rfl hfault

/-- What is stored before the place of the machine does not count. -/
theorem Follows.of_samePlace {α : Type} {answer : α} {p : Progress maxOrder}
    {o : Outcome (Machine maxOrder × Text) Fault α} (h : Follows m' file answer p o)
    (hplace : m.SamePlace m') : Follows m file answer p o where
  represents := h.represents
  file_eq := h.file_eq
  result_eq := h.result_eq
  samePlace hfault hstate := hplace.trans (h.samePlace hfault (hplace.state_eq ▸ hstate))

/-- The kind of the next line is the same. -/
theorem Represents.state_eq (h : m.Represents b) : b.phase.state = m.state := by
  rw [h.body_eq]
  show m.phase.state = m.state
  unfold phase
  cases m.state <;> rfl

/-- The layout is the same. -/
theorem Represents.layout_eq (h : m.Represents b) : b.layout = m.layout := by rw [h.body_eq]; rfl

/-- The phase is put together from the fields that are in use. -/
theorem Represents.phase_eq (h : m.Represents b) : b.phase = m.phase := by rw [h.body_eq]; rfl

/-- Between two epochs there is nothing to be put together. -/
theorem Represents.phase_of_epoch (h : m.Represents b) (hstate : m.state = .epoch) :
    b.phase = .epoch := by
  rw [h.phase_eq, phase, hstate]

/-- Before a clock line the phase has the satellites. -/
theorem Represents.phase_of_clock (h : m.Represents b) (hstate : m.state = .clock) :
    b.phase = .clock m.satellites := by
  rw [h.phase_eq, phase, hstate]

/-- Before a data line it has the satellites and the position among them. -/
theorem Represents.phase_of_observation (h : m.Represents b) (hstate : m.state = .observation) :
    b.phase = .observation m.satellites m.position := by
  rw [h.phase_eq, phase, hstate]

/-- The description is the same. -/
theorem Represents.epoch_eq (h : m.Represents b) : b.epoch = m.epoch := by rw [h.body_eq]; rfl

/-- The clock is the same. -/
theorem Represents.clock_eq (h : m.Represents b) : b.clock = m.clock := by rw [h.body_eq]; rfl

/-! ## Epoch lines -/

/-- The machine after an epoch line gave its description. -/
def described (m : Machine maxOrder) (epoch : EpochDescription) (kind : EpochKind) :
    Machine maxOrder :=
  if kind = .literal then reinitialize { m with epoch } else { m with epoch }

/-- A description does not tell where the machine is. -/
theorem samePlace_described (m : Machine maxOrder) (epoch : EpochDescription) (kind : EpochKind) :
    m.SamePlace (m.described epoch kind) := by
  cases kind <;> exact ⟨rfl, rfl, rfl, rfl, rfl, rfl⟩

/-- A literal line empties both tables. -/
theorem Represents.described (h : m.Represents b) (epoch : EpochDescription) (kind : EpochKind) :
    (m.described epoch kind).Represents (b.described epoch kind) := by
  obtain ⟨hbody, hcarries, hposition, hupdate⟩ := h
  rw [hbody]
  cases kind with
  | literal => exact ⟨rfl, Ledger.carries_empty, hposition, hupdate⟩
  | differential => exact ⟨rfl, hcarries, hposition, hupdate⟩

/-- An epoch that cannot be started leaves everything as it is. -/
theorem Represents.unopened (h : m.Represents b) (hopen : b.openEpoch = .error fault) :
    Follows m file () b.startEpoch (.fail (m, file) fault) := by
  simp only [Body.startEpoch, hopen]
  exact h.refused (.refl m)

/-- An event is started. Its records are counted, and those of header information get a header. -/
theorem Represents.openEvent (h : m.Represents b) (hstate : m.state = .epoch) {flag : EpochFlag}
    (hflag : m.epoch.flag = .ok flag) (hevent : flag.isEvent = true) {count : ℕ}
    (hcount : m.epoch.count = .ok count) (file : Text) :
    Follows m file () b.startEpoch (InPlace.outcome (openEvent flag count) (m, file)) := by
  have hnone : m.update = none := h.update_eq (by rw [hstate]; decide)
  simp only [Machine.openEvent, outcome_ask_bind, outcome_push_bind, outcome_change_bind]
  cases htext : m.epoch.render none with
  | error fault =>
    refine h.unopened ?_
    simp only [Body.openEpoch, h.epoch_eq, hflag, hcount, hevent, htext, bind, Except.bind, if_true]
  | ok text =>
    rw [Body.startEpoch_of_event (h.epoch_eq ▸ hflag) hevent (h.epoch_eq ▸ hcount)
      (h.epoch_eq ▸ htext)]
    dsimp only
    obtain ⟨hbody, hcarries, -, -⟩ := h
    generalize b.tracking = tracking at hbody hcarries
    subst hbody
    by_cases hzero : count = 0
    · -- Without records the next line is an epoch line.
      subst hzero
      refine Represents.emitted ⟨?_, hcarries, fun hclock => ?_, fun _ => hnone⟩
      · simp only [Body.recordsPhase, toBody, phase, hstate, if_true]
      · exact absurd (hstate.symm.trans hclock) (by decide)
    · -- The header of the records is new, whatever they are records of.
      have hmoved : State.records ≠ .clock := by decide
      rw [if_pos (Nat.pos_of_ne_zero hzero), outcome_change_bind, outcome_change]
      by_cases hinfo : flag = .headerInformationFollows
      · refine Represents.emitted ⟨?_, ?_, (absurd · hmoved), fun hrecords => absurd rfl hrecords⟩
        · simp only [Body.recordsPhase, hzero, hinfo, toBody, phase, if_true, if_false]
        · simp only [hinfo, if_true]
          exact hcarries
      · refine Represents.emitted ⟨?_, ?_, (absurd · hmoved), fun hrecords => absurd rfl hrecords⟩
        · simp only [Body.recordsPhase, hzero, hinfo, toBody, phase, hnone, if_false]
        · simp only [hinfo, if_false]
          exact hcarries

/-- An epoch of observations is started. Both tables are pruned, and the position is zero again. -/
theorem Represents.openObservations (h : m.Represents b) (hstate : m.state = .epoch)
    {flag : EpochFlag} (hflag : m.epoch.flag = .ok flag) (hevent : flag.isEvent = false) {count : ℕ}
    (hcount : m.epoch.count = .ok count) (file : Text) :
    Follows m file () b.startEpoch (InPlace.outcome openObservations (m, file)) := by
  -- Outside the records no definitions are waiting.
  have hnone : m.update = none := h.update_eq (by rw [hstate]; decide)
  simp only [Machine.openObservations, outcome_ask_bind, outcome_change_bind, outcome_change]
  cases hlisted : m.epoch.satellites m.layout with
  | error fault =>
    refine h.unopened ?_
    simp only [Body.openEpoch, h.epoch_eq, h.layout_eq, hflag, hcount, hevent, hlisted, bind,
      Except.bind, Bool.false_eq_true, if_false]
  | ok listed =>
    have hopen : b.startEpoch = ⟨{ b with
        phase := .clock listed
        tracking := b.tracking.retain (listed.map Listed.satellite) }, [], none⟩ := by
      simp only [Body.startEpoch, Body.openEpoch, h.epoch_eq, h.layout_eq, hflag, hcount, hevent,
        hlisted, bind, Except.bind, Bool.false_eq_true, if_false]
    -- The kernels and the flags of unlisted satellites are dropped together.
    rw [hopen]
    refine ⟨⟨?_, h.carries.retain _, fun _ => rfl, fun _ => hnone⟩, (List.append_nil file).symm,
      rfl, fun hfault => absurd rfl hfault⟩
    rw [h.body_eq]
    rfl

/-- The epoch that the description gives is started. -/
theorem Represents.openEpoch (h : m.Represents b) (hstate : m.state = .epoch) (file : Text) :
    Follows m file () b.startEpoch (InPlace.outcome openEpoch (m, file)) := by
  simp only [Machine.openEpoch, outcome_ask_bind]
  cases hflag : m.epoch.flag with
  | error fault =>
    -- Nothing has been stored besides the text of the description.
    refine h.unopened ?_
    simp only [Body.openEpoch, h.epoch_eq, hflag, bind, Except.bind]
  | ok flag =>
    cases hcount : m.epoch.count with
    | error fault =>
      refine h.unopened ?_
      simp only [Body.openEpoch, h.epoch_eq, hflag, hcount, bind, Except.bind]
    | ok count =>
      dsimp only
      cases hevent : flag.isEvent with
      | true => exact h.openEvent hstate hflag hevent hcount file
      | false => exact h.openObservations hstate hflag hevent hcount file

/-- An epoch line does what it does to the body. -/
theorem Represents.runEpoch (h : m.Represents b) (hstate : m.state = .epoch) (file line : Text) :
    Follows m file () (b.readEpoch line) (InPlace.outcome (runEpoch line) (m, file)) := by
  simp only [Machine.runEpoch, outcome_call_bind, outcome_change_bind, Body.decode_epoch]
  cases hnext : m.epoch.next line with
  | error fault =>
    rw [Body.readEpoch_of_error (h.epoch_eq ▸ hnext)]
    exact h.refused (.refl m)
  | ok q =>
    obtain ⟨epoch, kind⟩ := q
    rw [Body.readEpoch_of_ok (h.epoch_eq ▸ hnext)]
    -- The description is stored before it is looked at, and it says nothing about the place.
    have hplace := m.samePlace_described epoch kind
    exact ((h.described epoch kind).openEpoch (hplace.state_eq.trans hstate) file).of_samePlace
      hplace

/-! ## Clock lines and data lines -/

/-- A clock line does what it does to the body. -/
theorem Represents.runClock (h : m.Represents b) (hstate : m.state = .clock) (file line : Text) :
    Follows m file () (b.readClock m.satellites line)
      (InPlace.outcome (runClock line) (m, file)) := by
  have hzero := h.position_eq hstate
  have hnone : m.update = none := h.update_eq (by rw [hstate]; decide)
  simp only [Machine.runClock, outcome_call_bind, outcome_ask_bind, outcome_push_bind,
    outcome_change, Body.readClock, Outcome.lift, h.clock_eq, h.epoch_eq]
  cases hresult : (m.clock.decode line).result with
  | error fault =>
    -- A line that is refused leaves the clock as it is.
    have hclock : (m.clock.decode line).state = m.clock := Outcome.state_commit_of_error hresult
    simp only [hclock]
    exact h.refused (.refl m)
  | ok value =>
    generalize (m.clock.decode line).state = clock
    have hmoved : Represents { m with clock } { b with epoch := m.epoch, clock } :=
      ⟨by rw [h.body_eq]; rfl, h.carries, h.position_eq, h.update_eq⟩
    have hplace : m.SamePlace { m with clock } := ⟨rfl, rfl, rfl, rfl, rfl, rfl⟩
    dsimp only
    cases clock.render with
    | error fault => exact hmoved.refused hplace
    | ok offset =>
      simp only [bind, Except.bind]
      cases m.epoch.render offset with
      | error fault => exact hmoved.refused hplace
      | ok text =>
        refine Represents.emitted ⟨?_, h.carries, fun _ => hzero, fun _ => hnone⟩
        -- The first data line belongs to the first satellite.
        rw [h.body_eq]
        cases hempty : m.satellites.isEmpty <;>
          simp only [toBody, phase, hzero, if_true, Bool.false_eq_true, if_false]

/-- A data line does what it does to the body. -/
theorem Represents.runObservation (h : m.Represents b) (hstate : m.state = .observation)
    (file line : Text) :
    Follows m file () (b.readObservation m.satellites m.position line)
      (InPlace.outcome (runObservation line) (m, file)) := by
  have hnone : m.update = none := h.update_eq (by rw [hstate]; decide)
  simp only [Machine.runObservation, outcome_ask_bind, outcome_call_bind, outcome_push_bind,
    outcome_change_bind, outcome_change, Body.readObservation, Outcome.lift, h.layout_eq]
  cases m.satellites[m.position]? with
  | none => exact h.refused (.refl m)
  | some entry =>
    obtain ⟨hresult, hdecoded⟩ := h.carries.decode m.layout entry.satellite entry.id line
    dsimp only
    rw [hresult]
    generalize (m.observations.decode m.layout entry.satellite entry.id line).state = observations
      at hdecoded
    generalize b.tracking.decode m.layout entry.satellite entry.id line = decoded at hdecoded
    obtain ⟨tracking, result⟩ := decoded
    -- Refused or not, the two maps have moved as the one table has.
    have hmoved : Represents { m with observations } { b with layout := m.layout, tracking } :=
      ⟨by rw [h.body_eq]; rfl, hdecoded, h.position_eq, h.update_eq⟩
    have hplace : m.SamePlace { m with observations } := ⟨rfl, rfl, rfl, rfl, rfl, rfl⟩
    cases result with
    | error fault => exact hmoved.refused hplace
    | ok record =>
      -- The position moves on, and the last satellite ends the epoch.
      refine Represents.emitted ⟨?_, hdecoded, ?_, fun _ => hnone⟩
      · rw [h.body_eq]
        by_cases hlast : m.position + 1 = m.satellites.length <;>
          simp only [toBody, phase, hlast, hstate, if_true, if_false]
      · by_cases hlast : m.position + 1 = m.satellites.length <;>
          simp [hlast, hstate]

/-! ## Special records -/

/-- A program that ends an event or fails to. The file has already grown. -/
structure Closes (file : Text) (counted : Body maxOrder × Option Fault)
    (o : Outcome (Machine maxOrder × Text) Fault Unit) : Prop where
  /-- The machine represents the body after the record. -/
  represents : o.state.1.Represents counted.1
  /-- The file stays as it is. -/
  file_eq : o.state.2 = file
  /-- The program fails as the step does. -/
  result_eq : o.result = counted.2.elim (.ok ()) .error

/-- What the definitions of a header make of a machine. -/
theorem outcome_applyUpdate (m : Machine maxOrder) (file : Text) (walks : Walks) {header : Header}
    (hdefined : header.definitions.isEmpty = false) :
    InPlace.outcome (applyUpdate walks header) (m, file) =
      match header.updateLayout walks.definitions m.layout with
      | .error e => .fail (m, file) (.headerUpdate e)
      | .ok layout => ⟨({ m with layout }, file), layout.checkAlong maxOrder walks.columns⟩ := by
  simp only [applyUpdate, hdefined, Bool.false_eq_true, if_false, outcome_ask_bind,
    outcome_change_bind, outcome_ask]
  cases header.updateLayout walks.definitions m.layout <;> rfl

/-- The end of an event does what it does to the body. -/
theorem Represents.closeEvent (h : m.Represents b) (hstate : m.state = .records)
    (hrecords : m.records = 0) (walks : Walks) (file : Text) :
    Closes file (b.closeEvent walks m.update) (InPlace.outcome (closeEvent walks) (m, file)) := by
  -- With the header taken out, the machine waits for one more record.
  have hwaiting : ∀ layout, Represents { m with layout, update := none }
      { b with layout, phase := .records 0 none } := by
    refine fun layout => ⟨?_, h.carries, fun hclock => ?_, fun _ => rfl⟩
    · rw [h.body_eq]
      simp only [toBody, phase, hstate, hrecords]
    · exact absurd (hstate.symm.trans hclock) (by decide)
  have hclosed : ∀ layout, Represents { m with layout, update := none, state := .epoch }
      { b with layout, phase := .epoch } :=
    fun layout => ⟨by rw [h.body_eq]; rfl, h.carries, nofun, fun _ => rfl⟩
  simp only [Machine.closeEvent, outcome_look_bind, outcome_change_bind, Body.closeEvent,
    h.layout_eq]
  cases m.update with
  | none => exact ⟨h.layout_eq ▸ hclosed b.layout, rfl, rfl⟩
  | some header =>
    dsimp only [Option.elim]
    cases hdefined : header.definitions.isEmpty with
    | true =>
      simp only [applyUpdate, hdefined, if_true]
      exact ⟨h.layout_eq ▸ hclosed b.layout, rfl, rfl⟩
    | false =>
      rw [InPlace.outcome_bind, outcome_applyUpdate _ _ _ hdefined]
      simp only [Bool.false_eq_true, if_false]
      cases header.updateLayout walks.definitions m.layout with
      | error e => exact ⟨h.layout_eq ▸ hwaiting b.layout, rfl, rfl⟩
      | ok layout =>
        dsimp only
        cases layout.checkAlong maxOrder walks.columns with
        | error fault => exact ⟨hwaiting layout, rfl, rfl⟩
        | ok u => exact ⟨hclosed layout, rfl, rfl⟩

/-- A record is counted as it is in the body, with any header that is collected. -/
theorem Represents.countRecord (h : m.Represents b) (hstate : m.state = .records) (walks : Walks)
    (file : Text) (update : Option Header) :
    Closes file (b.countRecord walks m.records update)
      (InPlace.outcome (countRecord walks) ({ m with update }, file)) := by
  have hcounted : Represents { m with records := m.records - 1, update }
      { b with phase := .records (m.records - 1) update } := by
    refine ⟨?_, h.carries, fun hclock => ?_, fun hrecords => absurd hstate hrecords⟩
    · rw [h.body_eq]
      simp only [toBody, phase, hstate]
    · exact absurd (hstate.symm.trans hclock) (by decide)
  simp only [Machine.countRecord, outcome_change_bind, outcome_look_bind, Body.countRecord]
  by_cases hlast : m.records ≤ 1
  · have hzero : m.records - 1 = 0 := Nat.sub_eq_zero_of_le hlast
    -- The last record closes the event.
    rw [if_pos hzero, if_pos hlast]
    exact hcounted.closeEvent hstate hzero walks file
  · have hmore : m.records - 1 ≠ 0 := by omega
    rw [if_neg hmore, if_neg hlast]
    exact ⟨hcounted, rfl, rfl⟩

/-- A special record does what it does to the body. -/
theorem Represents.runRecords (h : m.Represents b) (hstate : m.state = .records) (walks : Walks)
    (file line : Text) :
    Follows m file () (b.readRecord walks m.records m.update line)
      (InPlace.outcome (runRecords walks line) (m, file)) := by
  -- The record is in the file whatever comes of it.
  have hpassed : ∀ {counted o}, Closes (file ++ line ++ ['\n']) counted o →
      Follows m file () ⟨counted.1, line ++ ['\n'], counted.2⟩ o := fun hcloses =>
    ⟨hcloses.represents, by rw [hcloses.file_eq, List.append_assoc], hcloses.result_eq,
      fun _ hrecords => absurd hstate hrecords⟩
  simp only [Machine.runRecords, outcome_push_bind, outcome_call_bind, readUpdate]
  cases hupdate : m.update with
  | none =>
    have hcounted := hpassed (h.countRecord hstate walks (file ++ line ++ ['\n']) none)
    have hsame : { m with update := none } = m := by rw [← hupdate]
    rw [hsame] at hcounted
    exact hcounted
  | some header =>
    have hcounted := hpassed
      (h.countRecord hstate walks (file ++ line ++ ['\n']) (some (header.readLine line).state))
    simp only [Body.readRecord]
    cases (header.readLine line).result with
    | error e =>
      -- A record that is not understood does not count.
      have hwaiting : Represents { m with update := some (header.readLine line).state }
          { b with phase := .records m.records (some (header.readLine line).state) } := by
        refine ⟨?_, h.carries, fun hclock => ?_, fun hrecords => absurd hstate hrecords⟩
        · rw [h.body_eq]
          simp only [toBody, phase, hstate]
        · exact absurd (hstate.symm.trans hclock) (by decide)
      exact ⟨hwaiting, List.append_assoc file line ['\n'], rfl,
        fun _ hrecords => absurd hstate hrecords⟩
    | ok u => exact hcounted

/-! ## Any input -/

/-- The program of a line does what the step does, on the same walks. -/
theorem Represents.run (h : m.Represents b) (walks : Walks) (file line : Text) :
    Follows m file () (b.stepAlong walks line) (InPlace.outcome (run walks line) (m, file)) := by
  simp only [Machine.run, outcome_look_bind, Body.stepAlong, h.phase_eq, phase]
  cases hstate : m.state with
  | epoch => exact h.runEpoch hstate file line
  | clock => exact h.runClock hstate file line
  | observation => exact h.runObservation hstate file line
  | records => exact h.runRecords hstate walks file line

/-- The answer is by how much the file has grown. -/
theorem write_eq_run (m : Machine maxOrder) (walks : Walks) (file line : Text) :
    m.write walks file line =
      ⟨(InPlace.outcome (run walks line) (m, file)).state,
        (InPlace.outcome (run walks line) (m, file)).result.map fun _ =>
          Text.byteLength (InPlace.outcome (run walks line) (m, file)).state.2 -
            Text.byteLength file⟩ := by
  rw [Machine.write, decompress, outcome_size_bind, InPlace.outcome_bind]
  cases InPlace.outcome (Machine.run walks line) (m, file) with
  | mk state result => cases result <;> rfl

/-- So does the next line. It is answered with the number of bytes that it has added. -/
theorem Represents.write (h : m.Represents b) (walks : Walks) (file line : Text) :
    Follows m file (Text.byteLength (b.stepAlong walks line).output) (b.stepAlong walks line)
      (m.write walks file line) := by
  obtain ⟨hrepresents, hfile, hresult, hplace⟩ := h.run walks file line
  generalize b.stepAlong walks line = p at hrepresents hfile hresult hplace ⊢
  rw [write_eq_run]
  refine ⟨hrepresents, hfile, ?_, hplace⟩
  -- The file has grown by the output.
  have hsize : Text.byteLength (file ++ p.output) - Text.byteLength file =
      Text.byteLength p.output := by
    rw [Text.byteLength_append]
    omega
  dsimp only
  rw [hresult, hfile, hsize]
  cases p.fault <;> rfl

/-- A line that is refused with a fault has been refused in the body with the same fault. -/
theorem Represents.fault_of_error (h : m.Represents b) {walks : Walks} {line : Text}
    (hresult : (m.write walks file line).result = .error fault) :
    (b.stepAlong walks line).fault = some fault := by
  rw [(h.write walks file line).result_eq] at hresult
  cases hfault : (b.stepAlong walks line).fault with
  | none => rw [hfault] at hresult; cases hresult
  | some fault' =>
    rw [hfault] at hresult
    exact congrArg some (Except.error.inj hresult)

/-- A line that is accepted has been accepted in the body. -/
theorem Represents.fault_of_ok (h : m.Represents b) {walks : Walks} {line : Text} {size : ℕ}
    (hresult : (m.write walks file line).result = .ok size) :
    (b.stepAlong walks line).fault = none := by
  rw [(h.write walks file line).result_eq] at hresult
  cases hfault : (b.stepAlong walks line).fault with
  | none => rfl
  | some fault => rw [hfault] at hresult; cases hresult

/-- Every input does what it does to the body. -/
theorem Represents.takeAlong (h : m.Represents b) (walks : Walks) (file : Text) (input : Input) :
    Follows m file (Text.byteLength (b.takeAlong walks input).output) (b.takeAlong walks input)
      (m.takeAlong walks file input) := by
  cases input with
  | line text => exact h.write walks file text
  | restart =>
    have hrestarted : m.reinitialize.Represents b.reinitialize :=
      ⟨by rw [h.body_eq]; rfl, Ledger.carries_empty, h.position_eq, h.update_eq⟩
    exact ⟨hrestarted, (List.append_nil file).symm, rfl, fun hfault => absurd rfl hfault⟩

/-- The machine for a layout represents the body for the layout. -/
theorem exists_body_ofLayout {walk : Walk (Constellation × List Column)} {layout : Layout}
    (h : ofLayout maxOrder walk layout = .ok m) :
    ∃ b, Body.ofLayout maxOrder layout = .ok b ∧ m.Represents b := by
  unfold ofLayout at h
  obtain ⟨u, hcheck, hrest⟩ := bind_eq_ok_iff.1 h
  obtain ⟨clock, hclock, hm⟩ := bind_eq_ok_iff.1 hrest
  cases hm
  have hok := (Layout.checkAlong_eq_ok_iff maxOrder layout walk).1 hcheck
  refine ⟨⟨layout, .epoch, .unset layout.revision, clock, ∅⟩, ?_,
    ⟨rfl, Ledger.carries_empty, nofun, fun _ => rfl⟩⟩
  rw [Body.ofLayout, hok, hclock]
  rfl

/-- Every reachable machine represents a reachable body. -/
theorem Reachable.exists_body (h : Reachable m) : ∃ b, b.Reachable ∧ m.Represents b := by
  induction h with
  | start h =>
    obtain ⟨b, hb, hrepresents⟩ := exists_body_ofLayout h
    exact ⟨b, .start hb, hrepresents⟩
  | take _ walks file input ih =>
    obtain ⟨b, hb, hrepresents⟩ := ih
    exact ⟨_, hb.along walks input, (hrepresents.takeAlong walks file input).represents⟩

/-! ## Reports -/

/-- A caller is shown the same. -/
theorem Follows.report_eq {p : Progress maxOrder}
    {o : Outcome (Machine maxOrder × Text) Fault ℕ}
    (h : Follows m file (Text.byteLength p.output) p o) : report file o = p.report := by
  obtain ⟨hrepresents, hfile, hresult, -⟩ := h
  ext1
  · exact hresult
  · show o.state.2.drop file.length = p.output
    rw [hfile, List.drop_left]
  · exact hrepresents.state_eq.symm
  · exact congrArg Layout.view hrepresents.layout_eq.symm
  · show finish o.state.1 = p.body.finish
    simp only [finish, Body.finish, hrepresents.phase_eq, phase]
    cases o.state.1.state <;> rfl

/-- The machine and the body show the same for ever, whatever is in the file. -/
theorem Represents.reports_eq (h : m.Represents b) (file : Text)
    (inputs : List (Walks × Input)) : m.reports file inputs = b.reports inputs := by
  induction inputs generalizing m b file with
  | nil => rfl
  | cons first inputs ih =>
    obtain ⟨walks, input⟩ := first
    have hfollows := h.takeAlong walks file input
    simp only [reports, Body.reports]
    rw [hfollows.report_eq, ih hfollows.represents]

end Machine

end CompactRinex
