import CompactRinex.Body
import CompactRinex.Proofs.Outcome

/-!
# The exits of a step

`Body.Exit b walks line p` lists what taking in a line can do, with one constructor for each way
out: what the line has passed until then, and the state, the text and the fault that are left.
`exit_stepAlong` says that every step leaves by one of them, in whatever order the tables are met,
so an invariant of bodies is checked once for each exit.
-/

namespace CompactRinex

namespace Body

variable {maxOrder : ℕ}

/-- The body after an epoch line gave its description. A literal line ends all histories. -/
def described (b : Body maxOrder) (epoch : EpochDescription) (kind : EpochKind) : Body maxOrder :=
  { b with epoch, tracking := if kind = .literal then ∅ else b.tracking }

/-- The collected header after a record, if one is collected. -/
def readUpdate (line : Text) : Option Header → Except HeaderError (Option Header)
  | none => .ok none
  | some header =>
    match (header.readLine line).result with
    | .ok () => .ok (some (header.readLine line).state)
    | .error e => .error e

/-- The layout that the records of an event ask for. -/
def updatedLayout (walk : Walk (Constellation × Definition)) (layout : Layout) :
    Option Header → Except HeaderError Layout
  | none => .ok layout
  | some header =>
    if header.definitions.isEmpty then .ok layout else header.updateLayout walk layout

/-- The ways out of a step. -/
inductive Exit (b : Body maxOrder) (walks : Walks) (line : Text) : Progress maxOrder → Prop where
  /-- An epoch line that gives no description. -/
  | epochRefused {fault : Fault} (hphase : b.phase = .epoch)
      (hnext : b.epoch.next line = .error fault) :
      Exit b walks line ⟨b, [], some fault⟩
  /-- An epoch line whose description is unusable. -/
  | epochUnusable {epoch : EpochDescription} {kind : EpochKind} {fault : Fault}
      (hphase : b.phase = .epoch) (hnext : b.epoch.next line = .ok (epoch, kind))
      (hopen : (b.described epoch kind).openEpoch = .error fault) :
      Exit b walks line ⟨b.described epoch kind, [], some fault⟩
  /-- The epoch line of an event. -/
  | event {epoch : EpochDescription} {kind : EpochKind} {flag : EpochFlag} {count : ℕ} {text : Text}
      (hphase : b.phase = .epoch) (hnext : b.epoch.next line = .ok (epoch, kind))
      (hflag : epoch.flag = .ok flag) (hevent : flag.isEvent = true)
      (hcount : epoch.count = .ok count) (htext : epoch.render none = .ok text) :
      Exit b walks line ⟨{ b.described epoch kind with phase := recordsPhase flag count },
        text ++ ['\n'], none⟩
  /-- The epoch line of observations. -/
  | observations {epoch : EpochDescription} {kind : EpochKind} {flag : EpochFlag} {count : ℕ}
      {listed : List Listed} (hphase : b.phase = .epoch)
      (hnext : b.epoch.next line = .ok (epoch, kind)) (hflag : epoch.flag = .ok flag)
      (hevent : flag.isEvent = false) (hcount : epoch.count = .ok count)
      (hlisted : epoch.satellites b.layout = .ok listed) :
      Exit b walks line ⟨{ b.described epoch kind with
        phase := .clock listed
        tracking := (b.described epoch kind).tracking.retain (listed.map Listed.satellite) },
        [], none⟩
  /-- A clock line that cannot be taken in. -/
  | clockRefused {listed : List Listed} {fault : Fault} (hphase : b.phase = .clock listed)
      (hnext : b.clock.next line = .error fault) :
      Exit b walks line ⟨b, [], some fault⟩
  /-- A clock line after which the epoch line cannot be written. -/
  | clockUnwritten {listed : List Listed} {clock : Clock maxOrder} {value : Option Int64}
      {fault : Fault} (hphase : b.phase = .clock listed)
      (hnext : b.clock.next line = .ok (clock, value))
      (htext : clock.render >>= b.epoch.render = .error fault) :
      Exit b walks line ⟨{ b with clock }, [], some fault⟩
  /-- A clock line. -/
  | clock {listed : List Listed} {clock : Clock maxOrder} {value : Option Int64} {text : Text}
      (hphase : b.phase = .clock listed) (hnext : b.clock.next line = .ok (clock, value))
      (htext : clock.render >>= b.epoch.render = .ok text) :
      Exit b walks line ⟨{ b with
        clock
        phase := if listed.isEmpty then .epoch else .observation listed 0 }, text ++ ['\n'], none⟩
  /-- A line after the last satellite. -/
  | unlisted {listed : List Listed} {position : ℕ} (hphase : b.phase = .observation listed position)
      (hentry : listed[position]? = none) :
      Exit b walks line ⟨b, [], some .truncated⟩
  /-- A data line with a fault. -/
  | dataFault {listed : List Listed} {position : ℕ} {entry : Listed} {fault : Fault}
      (hphase : b.phase = .observation listed position) (hentry : listed[position]? = some entry)
      (hresult : (b.tracking.decode b.layout entry.satellite entry.id line).result =
        .error fault) :
      Exit b walks line ⟨{ b with
        tracking := (b.tracking.decode b.layout entry.satellite entry.id line).state },
        [], some fault⟩
  /-- A data line. -/
  | data {listed : List Listed} {position : ℕ} {entry : Listed} {record : Text}
      (hphase : b.phase = .observation listed position) (hentry : listed[position]? = some entry)
      (hresult : (b.tracking.decode b.layout entry.satellite entry.id line).result = .ok record) :
      Exit b walks line ⟨{ b with
        tracking := (b.tracking.decode b.layout entry.satellite entry.id line).state
        phase := if position + 1 = listed.length then .epoch
          else .observation listed (position + 1) }, record ++ ['\n'], none⟩
  /-- A record that is not understood. -/
  | recordFault {left : ℕ} {header : Header} {e : HeaderError}
      (hphase : b.phase = .records left (some header))
      (hread : readUpdate line (some header) = .error e) :
      Exit b walks line ⟨{ b with phase := .records left (some (header.readLine line).state) },
        line ++ ['\n'], some (.headerUpdate e)⟩
  /-- A record that is not the last one. -/
  | record {left : ℕ} {update update' : Option Header} (hphase : b.phase = .records left update)
      (hread : readUpdate line update = .ok update') (hleft : 1 < left) :
      Exit b walks line ⟨{ b with phase := .records (left - 1) update' }, line ++ ['\n'], none⟩
  /-- The last record, when the layout that the records ask for cannot be made. -/
  | updateFault {left : ℕ} {update update' : Option Header} {e : HeaderError}
      (hphase : b.phase = .records left update) (hread : readUpdate line update = .ok update')
      (hleft : left ≤ 1) (hlayout : updatedLayout walks.definitions b.layout update' = .error e) :
      Exit b walks line
        ⟨{ b with phase := .records 0 none }, line ++ ['\n'], some (.headerUpdate e)⟩
  /-- The last record, when the layout that the records ask for is not supported. -/
  | layoutFault {left : ℕ} {update : Option Header} {header : Header} {layout : Layout}
      {fault : Fault} (hphase : b.phase = .records left update)
      (hread : readUpdate line update = .ok (some header)) (hleft : left ≤ 1)
      (hdefinitions : header.definitions.isEmpty = false)
      (hlayout : header.updateLayout walks.definitions b.layout = .ok layout)
      (hcheck : layout.checkAlong maxOrder walks.columns = .error fault) :
      Exit b walks line ⟨{ b with layout, phase := .records 0 none }, line ++ ['\n'], some fault⟩
  /-- The last record. -/
  | lastRecord {left : ℕ} {update update' : Option Header} {layout : Layout}
      (hphase : b.phase = .records left update) (hread : readUpdate line update = .ok update')
      (hleft : left ≤ 1) (hlayout : updatedLayout walks.definitions b.layout update' = .ok layout)
      (hcheck : layout = b.layout ∨ layout.check maxOrder = .ok ()) :
      Exit b walks line ⟨{ b with layout, phase := .epoch }, line ++ ['\n'], none⟩

/-! ## The kinds of lines -/

/-- A description is replaced by an accepted line only. -/
theorem decode_epoch (d : EpochDescription) (line : Text) :
    d.decode line = .commit d (d.next line) := rfl

/-- An epoch line that gives no description leaves the body as it is. -/
theorem readEpoch_of_error {b : Body maxOrder} {line : Text} {fault : Fault}
    (h : b.epoch.next line = .error fault) : b.readEpoch line = ⟨b, [], some fault⟩ := by
  simp only [readEpoch, decode_epoch, h, Outcome.commit, Outcome.fail, refuse]

/-- Starts the epoch that the description gives, or leaves the body with an unusable one. -/
def startEpoch (b : Body maxOrder) : Progress maxOrder :=
  match b.openEpoch with
  | .ok progress => progress
  | .error fault => b.refuse fault

/-- An epoch line that gives a description starts the epoch that it describes. -/
theorem readEpoch_of_ok {b : Body maxOrder} {line : Text} {epoch : EpochDescription}
    {kind : EpochKind} (h : b.epoch.next line = .ok (epoch, kind)) :
    b.readEpoch line = (b.described epoch kind).startEpoch := by
  have hb : (if kind = .literal then Body.reinitialize { b with epoch } else { b with epoch }) =
      b.described epoch kind := by
    cases kind <;> rfl
  simp only [readEpoch, decode_epoch, h, Outcome.commit, Outcome.ok, hb]
  cases hopen : (b.described epoch kind).openEpoch with
  | ok progress => simp only [startEpoch, hopen]
  | error fault => simp only [startEpoch, hopen]

/-- What an epoch that can be started has passed. -/
theorem openEpoch_cases {b : Body maxOrder} {p : Progress maxOrder} (h : b.openEpoch = .ok p) :
    ∃ flag count, b.epoch.flag = .ok flag ∧ b.epoch.count = .ok count ∧
      ((flag.isEvent = true ∧ ∃ text, b.epoch.render none = .ok text ∧
        p = ⟨{ b with phase := recordsPhase flag count }, text ++ ['\n'], none⟩) ∨
      (flag.isEvent = false ∧ ∃ listed, b.epoch.satellites b.layout = .ok listed ∧
        p = ⟨{ b with
          phase := .clock listed
          tracking := b.tracking.retain (listed.map Listed.satellite) }, [], none⟩)) := by
  unfold openEpoch at h
  obtain ⟨flag, hflag, hrest⟩ := bind_eq_ok_iff.1 h
  obtain ⟨count, hcount, hrest⟩ := bind_eq_ok_iff.1 hrest
  refine ⟨flag, count, hflag, hcount, ?_⟩
  -- The flag says whether records or satellites follow.
  by_cases hevent : flag.isEvent = true
  · left
    rw [if_pos hevent] at hrest
    obtain ⟨text, htext, hp⟩ := bind_eq_ok_iff.1 hrest
    cases hp
    exact ⟨hevent, text, htext, rfl⟩
  · right
    rw [if_neg hevent] at hrest
    obtain ⟨listed, hlisted, hp⟩ := bind_eq_ok_iff.1 hrest
    cases hp
    exact ⟨Bool.eq_false_iff.2 hevent, listed, hlisted, rfl⟩

/-- The exits of an epoch line. -/
theorem exit_readEpoch {b : Body maxOrder} (hphase : b.phase = .epoch) (walks : Walks)
    (line : Text) : Exit b walks line (b.readEpoch line) := by
  cases hnext : b.epoch.next line with
  | error fault =>
    rw [readEpoch_of_error hnext]
    exact .epochRefused hphase hnext
  | ok p =>
    obtain ⟨epoch, kind⟩ := p
    rw [readEpoch_of_ok hnext, startEpoch]
    -- The description is kept even if it turns out to be unusable.
    cases hopen : (b.described epoch kind).openEpoch with
    | error fault => exact .epochUnusable hphase hnext hopen
    | ok progress =>
      obtain ⟨flag, count, hflag, hcount, ⟨hevent, text, htext, rfl⟩ |
        ⟨hevent, listed, hlisted, rfl⟩⟩ :=
        openEpoch_cases hopen
      · exact .event hphase hnext hflag hevent hcount htext
      · exact .observations hphase hnext hflag hevent hcount hlisted

/-- The exits of a clock line. -/
theorem exit_readClock {b : Body maxOrder} {listed : List Listed} (hphase : b.phase = .clock listed)
    (walks : Walks) (line : Text) : Exit b walks line (b.readClock listed line) := by
  simp only [readClock, Clock.decode]
  cases hnext : b.clock.next line with
  | error fault => exact .clockRefused hphase hnext
  | ok p =>
    obtain ⟨clock, value⟩ := p
    simp only [Outcome.commit, Outcome.ok]
    -- The clock has moved on already when its offset is written.
    cases htext : clock.render >>= b.epoch.render with
    | error fault => exact .clockUnwritten hphase hnext htext
    | ok text => exact .clock hphase hnext htext

/-- The exits of a data line. -/
theorem exit_readObservation {b : Body maxOrder} {listed : List Listed} {position : ℕ}
    (hphase : b.phase = .observation listed position) (walks : Walks) (line : Text) :
    Exit b walks line (b.readObservation listed position line) := by
  simp only [readObservation]
  cases hentry : listed[position]? with
  | none => exact .unlisted hphase hentry
  | some entry =>
    simp only
    cases hresult : (b.tracking.decode b.layout entry.satellite entry.id line).result with
    | error fault => exact .dataFault hphase hentry hresult
    | ok record => exact .data hphase hentry hresult

/-- The exits of a record that has been understood. -/
theorem exit_countRecord {b : Body maxOrder} {walks : Walks} {line : Text} {left : ℕ}
    {update update' : Option Header} (hphase : b.phase = .records left update)
    (hread : readUpdate line update = .ok update') :
    Exit b walks line ⟨(b.countRecord walks left update').1, line ++ ['\n'],
      (b.countRecord walks left update').2⟩ := by
  simp only [countRecord]
  split
  · next hleft =>
    cases update' with
    | none => exact .lastRecord hphase hread hleft rfl (Or.inl rfl)
    | some header =>
      cases hempty : header.definitions.isEmpty with
      | true =>
        -- Records without definitions ask for no other layout.
        simp only [closeEvent, hempty, if_true]
        exact .lastRecord hphase hread hleft (by simp [updatedLayout, hempty]) (Or.inl rfl)
      | false =>
        simp only [closeEvent, hempty, Bool.false_eq_true, if_false]
        cases hlayout : header.updateLayout walks.definitions b.layout with
        | error e =>
          exact .updateFault hphase hread hleft (by simp [updatedLayout, hempty, hlayout])
        | ok layout =>
          cases hcheck : layout.checkAlong maxOrder walks.columns with
          | error fault =>
            simp only [hcheck]
            exact .layoutFault hphase hread hleft hempty hlayout hcheck
          | ok u =>
            simp only [hcheck]
            exact .lastRecord hphase hread hleft (by simp [updatedLayout, hempty, hlayout])
              (Or.inr ((Layout.checkAlong_eq_ok_iff maxOrder layout walks.columns).1 hcheck))
  · next hleft => exact .record hphase hread (Nat.lt_of_not_le hleft)

/-- The exits of a special record. -/
theorem exit_readRecord {b : Body maxOrder} {left : ℕ} {update : Option Header}
    (hphase : b.phase = .records left update) (walks : Walks) (line : Text) :
    Exit b walks line (b.readRecord walks left update line) := by
  cases update with
  | none => exact exit_countRecord hphase rfl
  | some header =>
    simp only [readRecord]
    cases hread : (header.readLine line).result with
    | error e => exact .recordFault hphase (by simp [readUpdate, hread])
    | ok u => exact exit_countRecord hphase (by simp [readUpdate, hread])

/-- Every step leaves by one of the exits, in whatever order the tables are met. -/
theorem exit_stepAlong (b : Body maxOrder) (walks : Walks) (line : Text) :
    Exit b walks line (b.stepAlong walks line) := by
  unfold stepAlong
  split
  · next hphase => exact exit_readEpoch hphase walks line
  · next listed hphase => exact exit_readClock hphase walks line
  · next listed position hphase => exact exit_readObservation hphase walks line
  · next left update hphase => exact exit_readRecord hphase walks line

/-- So does every step with the tables in the order of insertion. -/
theorem exit_step (b : Body maxOrder) (line : Text) : Exit b .inserted line (b.step line) :=
  exit_stepAlong b .inserted line

/-- A step adds nothing, or a text that ends its last line. -/
theorem output_eq_nil_or (b : Body maxOrder) (line : Text) :
    (b.step line).output = [] ∨ ∃ text, (b.step line).output = text ++ ['\n'] := by
  have hexit := exit_step b line
  generalize b.step line = p at hexit ⊢
  cases hexit with
  | epochRefused | epochUnusable | observations | clockRefused | clockUnwritten | unlisted
    | dataFault => exact Or.inl rfl
  | event | clock | data | recordFault | record | updateFault | layoutFault | lastRecord =>
    exact Or.inr ⟨_, rfl⟩

end Body

end CompactRinex
