import CompactRinex.Proofs.Body.Run
import CompactRinex.Proofs.Positions.Header
import CompactRinex.Proofs.Positions.Tracks

/-!
# Bodies in memory

The state of a body with its kernels in slots, and the same program on it, with every access by
position, every cut of a line and every division as it is carried out: where one of them is not
possible, there is no result. `Memory.toBody` reads the body off the memory. `Memory.step?_eq` says
that every line has a result, which is the one of `Body.step`, and `Memory.accesses_within` collects
this for everything that a caller gives a text or a kernel to.
-/

namespace CompactRinex

/-- The description after a line, with the edit put into its text in place. -/
def EpochDescription.next? (d : EpochDescription) (line : Text) :
    Option (Except Fault (EpochDescription × EpochKind)) :=
  match d.classify line with
  | .error e => some (.error e)
  | .ok .literal =>
    some (if Text.isAscii (content line) then
      .ok ({ d with overlay := d.overlay.force (content line) }, .literal)
    else .error .nonAscii)
  | .ok .differential => do
    let text ← d.overlay.recover? (content line)
    some (text.map fun text =>
      ({ d with overlay := { d.overlay with reference := some text } }, .differential))

/-- An epoch line is cut where it can be. -/
theorem EpochDescription.next?_eq (d : EpochDescription) (line : Text) :
    d.next? line = some (d.next line) := by
  unfold next? next
  cases d.classify line with
  | error e => rfl
  | ok kind =>
    cases kind with
    | literal => rfl
    | differential =>
      -- Only a difference is written into the stored text.
      simp only [Overlay.recover?_eq, Option.bind_some, bind, Except.bind]
      cases d.overlay.recover (content line) <;> rfl

/-- The state between two lines of a body, in memory. -/
structure Memory (maxOrder : ℕ) where
  /-- The layout in force. -/
  layout : Layout
  /-- What the next line is. -/
  phase : Phase
  /-- The description of the latest epoch. -/
  epoch : EpochDescription
  /-- The slots of the receiver clock. -/
  clock : Slots maxOrder
  /-- The histories of the satellites. -/
  tracks : Table Satellite (SlotTrack maxOrder)

/-- What a line leads to in memory. -/
structure MemoryProgress (maxOrder : ℕ) where
  /-- The state after the line, also after a fault. -/
  memory : Memory maxOrder
  /-- The text that the line adds to the recovered file. -/
  output : Text
  /-- What is wrong with the line. -/
  fault : Option Fault

namespace Memory

variable {maxOrder : ℕ}

/-- The body in memory. -/
def toBody (m : Memory maxOrder) : Body maxOrder :=
  ⟨m.layout, m.phase, m.epoch, ⟨m.clock.toKernel⟩, SlotTrack.toTracking m.tracks⟩

end Memory

/-- What the line leads to in the body in memory. -/
def MemoryProgress.toProgress {maxOrder : ℕ} (p : MemoryProgress maxOrder) : Progress maxOrder :=
  ⟨p.memory.toBody, p.output, p.fault⟩

namespace Memory

variable {maxOrder : ℕ}

/-- The memory before the first line. -/
def ofLayout (maxOrder : ℕ) (layout : Layout) : Except Fault (Memory maxOrder) := do
  layout.check maxOrder
  let clock ← Slots.ofColumn maxOrder layout.clock
  .ok ⟨layout, .epoch, .unset layout.revision, clock, ∅⟩

/-- Ends the history of every satellite. The clock goes on. -/
def reinitialize (m : Memory maxOrder) : Memory maxOrder := { m with tracks := ∅ }

/-- A line that is refused. -/
def refuse (m : Memory maxOrder) (fault : Fault) : MemoryProgress maxOrder := ⟨m, [], some fault⟩

/-- A line that is accepted and completes `text`. -/
def emit (m : Memory maxOrder) (text : Text) : MemoryProgress maxOrder := ⟨m, text ++ ['\n'], none⟩

/-- Starts the epoch that the description gives. -/
def openEpoch (m : Memory maxOrder) : Except Fault (MemoryProgress maxOrder) := do
  let flag ← m.epoch.flag
  let count ← m.epoch.count
  if flag.isEvent then
    let line ← m.epoch.render none
    .ok (emit { m with phase := Body.recordsPhase flag count } line)
  else
    let listed ← m.epoch.satellites m.layout
    let tracks := m.tracks.restrict (listed.map Listed.satellite).contains
    .ok ⟨{ m with phase := .clock listed, tracks }, [], none⟩

/-- Takes in an epoch line, whose edit is put in place. -/
def readEpoch? (m : Memory maxOrder) (line : Text) : Option (MemoryProgress maxOrder) := do
  match ← m.epoch.next? line with
  | .error fault => some (m.refuse fault)
  | .ok (epoch, kind) =>
    let described := { m with epoch }
    let m := if kind = .literal then described.reinitialize else described
    match m.openEpoch with
    | .ok progress => some progress
    | .error fault => some (m.refuse fault)

/-- Takes in a clock line. -/
def readClock? (m : Memory maxOrder) (listed : List Listed) (line : Text) :
    Option (MemoryProgress maxOrder) := do
  match ← m.clock.nextOffset? line with
  | .error fault => some (m.refuse fault)
  | .ok (clock, _) => do
    -- The clock stays moved even if its offset cannot be written.
    let m := { m with clock }
    let offset ← m.clock.renderOffset?
    match offset >>= m.epoch.render with
    | .error fault => some (m.refuse fault)
    | .ok text =>
      some (emit { m with phase := if listed.isEmpty then .epoch else .observation listed 0 } text)

/-- Takes in the data line of the satellite at a position of the list. -/
def readObservation? (m : Memory maxOrder) (listed : List Listed) (position : ℕ) (line : Text) :
    Option (MemoryProgress maxOrder) :=
  match listed[position]? with
  | none => some (m.refuse .truncated)
  | some entry => do
    let decoded ← SlotTrack.decode? m.tracks m.layout entry.satellite entry.id line
    let m := { m with tracks := decoded.state }
    match decoded.result with
    | .error fault => some (m.refuse fault)
    | .ok record =>
      let phase :=
        if position + 1 = listed.length then .epoch else .observation listed (position + 1)
      some (emit { m with phase } record)

/-- Counts a record that has been understood. This changes the layout and the phase only. -/
def countRecord (m : Memory maxOrder) (left : ℕ) (update : Option Header) :
    Memory maxOrder × Option Fault :=
  let counted := m.toBody.countRecord .inserted left update
  ({ m with layout := counted.1.layout, phase := counted.1.phase }, counted.2)

/-- Takes in a special record, whose fields are cut if it is one of header information. -/
def readRecord? (m : Memory maxOrder) (left : ℕ) (update : Option Header) (line : Text) :
    Option (MemoryProgress maxOrder) :=
  let output := line ++ ['\n']
  match update with
  | none =>
    let counted := m.countRecord left none
    some ⟨counted.1, output, counted.2⟩
  | some header => do
    let read ← header.readLine? line
    match read.result with
    | .error e =>
      let waiting := { m with phase := .records left (some read.state) }
      some ⟨waiting, output, some (.headerUpdate e)⟩
    | .ok () =>
      let counted := m.countRecord left (some read.state)
      some ⟨counted.1, output, counted.2⟩

/-- Takes in the next line. -/
def step? (m : Memory maxOrder) (line : Text) : Option (MemoryProgress maxOrder) :=
  match m.phase with
  | .epoch => m.readEpoch? line
  | .clock listed => m.readClock? listed line
  | .observation listed position => m.readObservation? listed position line
  | .records left update => m.readRecord? left update line

/-- Takes in the next line and adds its text at the end of the recovered file. The answer is the
number of bytes that the file has now, less those that it had. -/
def write? (m : Memory maxOrder) (file line : Text) :
    Option (Outcome (Memory maxOrder × Text) Fault ℕ) := do
  let progress ← m.step? line
  let grown := file ++ progress.output
  match progress.fault with
  | some fault => some (.fail (progress.memory, grown) fault)
  | none => do
    let size ← sub? (Text.byteLength grown) (Text.byteLength file)
    some (.ok (progress.memory, grown) size)

/-- Takes in one input after the other, whether there are faults or not, and collects the answers to
the lines. -/
def writeAll? (m : Memory maxOrder) (file : Text) :
    List Input → Option ((Memory maxOrder × Text) × List (Except Fault ℕ))
  | [] => some ((m, file), [])
  | .restart :: inputs => m.reinitialize.writeAll? file inputs
  | .line text :: inputs => do
    let o ← m.write? file text
    let rest ← o.state.1.writeAll? o.state.2 inputs
    some (rest.1, o.result :: rest.2)

end Memory

/-- Takes in one input after the other, whether there are faults or not, and collects the answers to
the lines. -/
def Body.writeAll {maxOrder : ℕ} (b : Body maxOrder) (file : Text) :
    List Input → (Body maxOrder × Text) × List (Except Fault ℕ)
  | [] => ((b, file), [])
  | .restart :: inputs => b.reinitialize.writeAll file inputs
  | .line text :: inputs =>
    let o := b.write file text
    let rest := o.state.1.writeAll o.state.2 inputs
    (rest.1, o.result :: rest.2)

namespace Memory

variable {maxOrder : ℕ}

/-- The memory for a layout can be made whenever the body can. -/
theorem map_toBody_ofLayout (maxOrder : ℕ) (layout : Layout) :
    (ofLayout maxOrder layout).map toBody = Body.ofLayout maxOrder layout := by
  unfold ofLayout Body.ofLayout
  cases layout.check maxOrder with
  | error e => rfl
  | ok u =>
    simp only [bind, Except.bind, Clock.ofColumn, ← Slots.map_toKernel_ofColumn]
    cases Slots.ofColumn maxOrder layout.clock <;> rfl

/-- Starting an epoch accesses nothing. -/
theorem map_toProgress_openEpoch (m : Memory maxOrder) :
    m.openEpoch.map MemoryProgress.toProgress = m.toBody.openEpoch := by
  unfold openEpoch Body.openEpoch
  simp only [toBody]
  cases m.epoch.flag with
  | error e => rfl
  | ok flag =>
    cases m.epoch.count with
    | error e => rfl
    | ok count =>
      simp only [bind, Except.bind]
      cases flag.isEvent with
      | true => cases m.epoch.render none <;> rfl
      | false =>
        cases m.epoch.satellites m.layout with
        | error e => rfl
        | ok listed =>
          simp only [Bool.false_eq_true, if_false, Except.map, MemoryProgress.toProgress, toBody,
            SlotTrack.toTracking, Tracking.retain, Table.mapValues_restrict]

/-- All accesses of an epoch line are within bounds. -/
theorem readEpoch?_eq (m : Memory maxOrder) (line : Text) :
    ∃ p, m.readEpoch? line = some p ∧ p.toProgress = m.toBody.readEpoch line := by
  have hepoch : m.toBody.epoch = m.epoch := rfl
  simp only [readEpoch?, Body.readEpoch, EpochDescription.decode, EpochDescription.next?_eq, hepoch,
    Option.bind_eq_bind, Option.bind_some]
  rcases m.epoch.next line with fault | ⟨epoch, kind⟩
  · exact ⟨_, rfl, rfl⟩
  · -- A literal line ends the histories in memory and in the body.
    have hstart :
        (if kind = .literal then reinitialize { m with epoch } else { m with epoch }).toBody =
          if kind = .literal then Body.reinitialize { m.toBody with epoch }
          else { m.toBody with epoch } := by
      split <;> rfl
    simp only [Outcome.commit, Outcome.ok]
    generalize (if kind = .literal then reinitialize { m with epoch }
      else { m with epoch }) = start at hstart ⊢
    rw [← hstart, ← map_toProgress_openEpoch]
    cases start.openEpoch with
    | error fault => exact ⟨_, rfl, rfl⟩
    | ok progress => exact ⟨_, rfl, rfl⟩

/-- So are those of a clock line. -/
theorem readClock?_eq (m : Memory maxOrder) (listed : List Listed) (line : Text) :
    ∃ p, m.readClock? listed line = some p ∧ p.toProgress = m.toBody.readClock listed line := by
  obtain ⟨next, hnext, hread⟩ := m.clock.nextOffset?_eq line
  have hclock : m.toBody.clock = ⟨m.clock.toKernel⟩ := rfl
  simp only [readClock?, Body.readClock, Clock.decode, hclock, hnext, ← hread, Option.bind_eq_bind,
    Option.bind_some]
  rcases next with fault | ⟨clock, offset⟩
  · exact ⟨_, rfl, rfl⟩
  · simp only [Except.map, Outcome.commit, Outcome.ok, Slots.renderOffset?_eq, Option.bind_some]
    have hepoch : m.toBody.epoch = m.epoch := rfl
    rw [hepoch]
    cases (Clock.mk clock.toKernel).render >>= m.epoch.render with
    | error fault => exact ⟨_, rfl, rfl⟩
    | ok text => exact ⟨_, rfl, rfl⟩

/-- So are those of a data line. -/
theorem readObservation?_eq (m : Memory maxOrder) (listed : List Listed) (position : ℕ)
    (line : Text) : ∃ p, m.readObservation? listed position line = some p ∧
      p.toProgress = m.toBody.readObservation listed position line := by
  unfold readObservation? Body.readObservation
  cases listed[position]? with
  | none => exact ⟨_, rfl, rfl⟩
  | some entry =>
    obtain ⟨o, ho, hlift⟩ :=
      SlotTrack.decode?_eq m.tracks m.layout entry.satellite entry.id line
    -- The slots have moved as the kernels have.
    have hdecode : m.toBody.tracking.decode m.toBody.layout entry.satellite entry.id line =
        o.lift SlotTrack.toTracking := hlift.symm
    simp only [ho, hdecode, Option.bind_eq_bind, Option.bind_some, Outcome.lift]
    cases o.result with
    | error fault => exact ⟨_, rfl, rfl⟩
    | ok record => exact ⟨_, rfl, rfl⟩

/-- Counting a record changes the layout and the phase only. -/
theorem toBody_countRecord (m : Memory maxOrder) (left : ℕ) (update : Option Header) :
    ((m.countRecord left update).1.toBody, (m.countRecord left update).2) =
      m.toBody.countRecord .inserted left update := by
  unfold countRecord Body.countRecord Body.closeEvent
  split_ifs
  · cases update with
    | none => rfl
    | some header =>
      dsimp only
      split_ifs
      · rfl
      · cases header.updateLayout Walks.inserted.definitions m.toBody.layout with
        | error e => rfl
        | ok layout =>
          dsimp only
          cases layout.checkAlong maxOrder Walks.inserted.columns <;> rfl
  · rfl

/-- So are those of a special record. -/
theorem readRecord?_eq (m : Memory maxOrder) (left : ℕ) (update : Option Header) (line : Text) :
    ∃ p, m.readRecord? left update line = some p ∧
      p.toProgress = m.toBody.readRecord .inserted left update line := by
  unfold readRecord? Body.readRecord
  cases update with
  | none =>
    refine ⟨_, rfl, ?_⟩
    simp only [← toBody_countRecord]
    rfl
  | some header =>
    simp only [Header.readLine?_eq, Option.bind_eq_bind, Option.bind_some]
    cases (header.readLine line).result with
    | error e => exact ⟨_, rfl, rfl⟩
    | ok u =>
      refine ⟨_, rfl, ?_⟩
      simp only [← toBody_countRecord]
      rfl

/-- Every line has a result in memory, which is the one that it has in the body. -/
theorem step?_eq (m : Memory maxOrder) (line : Text) :
    ∃ p, m.step? line = some p ∧ p.toProgress = m.toBody.step line := by
  have hphase : m.toBody.phase = m.phase := rfl
  unfold step? Body.step Body.stepAlong
  rw [hphase]
  cases m.phase with
  | epoch => exact m.readEpoch?_eq line
  | clock listed => exact m.readClock?_eq listed line
  | observation listed position => exact m.readObservation?_eq listed position line
  | records left update => exact m.readRecord?_eq left update line

/-- No file becomes shorter. -/
theorem write?_eq (m : Memory maxOrder) (file line : Text) :
    ∃ o, m.write? file line = some o ∧
      o.lift (fun p => (p.1.toBody, p.2)) = m.toBody.write file line := by
  obtain ⟨p, hp, hprogress⟩ := m.step?_eq line
  -- The subtraction of the sizes is one that has a result.
  have hgrown : Text.byteLength file ≤ Text.byteLength (file ++ p.output) := by
    rw [Text.byteLength_append]
    exact Nat.le_add_right _ _
  simp only [write?, Body.write, hp, ← hprogress, sub?, if_pos hgrown, Option.bind_eq_bind,
    Option.bind_some, MemoryProgress.toProgress]
  cases p.fault with
  | none => exact ⟨_, rfl, rfl⟩
  | some fault => exact ⟨_, rfl, rfl⟩

/-- All inputs of a sequence have a result, also after faults. -/
theorem writeAll?_eq (m : Memory maxOrder) (file : Text) (inputs : List Input) :
    ∃ m', m.writeAll? file inputs =
        some ((m', (m.toBody.writeAll file inputs).1.2), (m.toBody.writeAll file inputs).2) ∧
      m'.toBody = (m.toBody.writeAll file inputs).1.1 := by
  -- What the accesses rely on is part of the slots, so the induction needs nothing of the memory.
  induction inputs generalizing m file with
  | nil => exact ⟨m, rfl, rfl⟩
  | cons input inputs ih =>
    cases input with
    | restart => exact ih m.reinitialize file
    | line text =>
      obtain ⟨o, ho, hlift⟩ := m.write?_eq file text
      obtain ⟨m', hm', hbody⟩ := ih o.state.1 o.state.2
      simp only [writeAll?, Body.writeAll, ho, ← hlift, Outcome.lift, Option.bind_eq_bind,
        Option.bind_some, hm']
      exact ⟨m', rfl, hbody⟩

/-- Whatever lines a body or a header is given, whatever text is read as a compression and whatever
is done with a kernel, no access is out of its range: the same program with partial accesses has a
result everywhere, and it is the result of the program. -/
theorem accesses_within (maxOrder : ℕ) :
    (∀ layout, (ofLayout maxOrder layout).map toBody = Body.ofLayout maxOrder layout) ∧
      (∀ (m : Memory maxOrder) (file : Text) (inputs : List Input), ∃ m',
        m.writeAll? file inputs =
            some ((m', (m.toBody.writeAll file inputs).1.2), (m.toBody.writeAll file inputs).2) ∧
          m'.toBody = (m.toBody.writeAll file inputs).1.1) ∧
      (∀ (h : Header) (line : Text), h.parseLine? line = some (h.parseLine line)) ∧
      (∀ t, Compression.parse? t = some (Compression.parse t)) ∧
      (∀ column, (Slots.ofColumn maxOrder column).map Slots.toKernel =
        Kernel.ofColumn maxOrder column) ∧
      ∀ (s : Slots maxOrder) (ops : List Kernel.Operation), ∃ s',
        s.performAll? ops = some (s', (s.toKernel.performAll ops).2) ∧
          s'.toKernel = (s.toKernel.performAll ops).1 :=
  ⟨map_toBody_ofLayout maxOrder, writeAll?_eq, Header.parseLine?_eq, Compression.parse?_eq,
    Slots.map_toKernel_ofColumn maxOrder, Slots.performAll?_eq⟩

end Memory

end CompactRinex
