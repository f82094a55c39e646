import CompactRinex.Clock
import CompactRinex.Header
import CompactRinex.Tracking

/-!
# Bodies

The body of a compressed file is a sequence of epochs. An epoch of observations is an epoch line, a
clock line and one data line for each satellite; an event is an epoch line and as many special
records as it says. `Body.step` takes in one line, and says which text it adds to the recovered file
and what is wrong with the line, if anything is; `Body.write` adds the text to the file. A line with
a fault may have left its mark: each exit says which.

Where several definitions or several columns are at fault, the one that is reported depends on the
order in which a table is met. `Body.stepAlong` takes in a line for any such order (`Walks`);
`Body.step` is the one for the order of insertion.
-/

namespace CompactRinex

/-- What the next line of a body is. -/
inductive Phase where
  /-- An epoch line. -/
  | epoch
  /-- A clock line, before the data lines of these satellites. -/
  | clock (listed : List Listed)
  /-- The data line of the satellite at this position of the list. -/
  | observation (listed : List Listed) (position : Nat)
  /-- A special record. So many are left, and the header that they change is collected. -/
  | records (left : Nat) (update : Option Header)
  deriving Repr

/-- The state between two lines of a body. Differences of orders up to `maxOrder` are supported. -/
structure Body (maxOrder : Nat) where
  /-- The layout in force. -/
  layout : Layout
  /-- What the next line is. -/
  phase : Phase
  /-- The description of the latest epoch. -/
  epoch : EpochDescription
  /-- The receiver clock. -/
  clock : Clock maxOrder
  /-- The histories of the satellites. -/
  tracking : Tracking maxOrder
  deriving Repr

/-- What a line leads to. -/
structure Progress (maxOrder : Nat) where
  /-- The state after the line, also after a fault. -/
  body : Body maxOrder
  /-- The text that the line adds to the recovered file, each line of it ended by a newline. -/
  output : Text
  /-- What is wrong with the line. -/
  fault : Option Fault
  deriving Repr

/-- The orders in which the tables of a body are met while a line is taken in. -/
structure Walks where
  /-- The order of the definitions of a header. -/
  definitions : Walk (Constellation × Definition)
  /-- The order of the columns of a layout. -/
  columns : Walk (Constellation × List Column)

/-- Every table in the order of insertion. -/
def Walks.inserted : Walks := ⟨.inserted, .inserted⟩

namespace Body

variable {maxOrder : Nat}

/-- The state before the first line. -/
def ofLayout (maxOrder : Nat) (layout : Layout) : Except Fault (Body maxOrder) := do
  layout.check maxOrder
  let clock ← Clock.ofColumn maxOrder layout.clock
  .ok ⟨layout, .epoch, .unset layout.revision, clock, ∅⟩

/-- Ends the history of every satellite. The clock goes on. -/
def reinitialize (b : Body maxOrder) : Body maxOrder := { b with tracking := ∅ }

/-- Whether the content may end here: between two epochs. -/
def finish (b : Body maxOrder) : Except Fault Unit :=
  match b.phase with
  | .epoch => .ok ()
  | _ => .error .truncated

/-- A line that is refused. -/
def refuse (b : Body maxOrder) (fault : Fault) : Progress maxOrder := ⟨b, [], some fault⟩

/-- A line that is accepted and completes `text`. -/
def emit (b : Body maxOrder) (text : Text) : Progress maxOrder := ⟨b, text ++ ['\n'], none⟩

/-! ## Epoch lines -/

/-- The special records of an event, if it has any. The records of header information form a header
of their own. -/
def recordsPhase (flag : EpochFlag) (count : Nat) : Phase :=
  if count = 0 then .epoch
  else .records count (if flag = .headerInformationFollows then some ∅ else none)

/-- Starts the epoch that the description gives. -/
def openEpoch (b : Body maxOrder) : Except Fault (Progress maxOrder) := do
  let flag ← b.epoch.flag
  let count ← b.epoch.count
  if flag.isEvent then
    let line ← b.epoch.render none
    .ok (emit { b with phase := recordsPhase flag count } line)
  else
    let listed ← b.epoch.satellites b.layout
    let tracking := b.tracking.retain (listed.map Listed.satellite)
    .ok ⟨{ b with phase := .clock listed, tracking }, [], none⟩

/-- Takes in an epoch line. A literal line ends all histories before its parts are looked at. -/
def readEpoch (b : Body maxOrder) (line : Text) : Progress maxOrder :=
  let decoded := b.epoch.decode line
  match decoded.result with
  | .error fault => b.refuse fault
  | .ok kind =>
    let described := { b with epoch := decoded.state }
    let b := if kind = .literal then described.reinitialize else described
    match b.openEpoch with
    | .ok progress => progress
    | .error fault => b.refuse fault

/-! ## Clock lines -/

/-- Takes in a clock line, which completes the epoch line. An offset that does not fit its column
has been taken in all the same. -/
def readClock (b : Body maxOrder) (listed : List Listed) (line : Text) : Progress maxOrder :=
  let decoded := b.clock.decode line
  match decoded.result with
  | .error fault => b.refuse fault
  | .ok _ =>
    let b := { b with clock := decoded.state }
    match b.clock.render >>= b.epoch.render with
    | .error fault => b.refuse fault
    | .ok text =>
      emit { b with phase := if listed.isEmpty then .epoch else .observation listed 0 } text

/-! ## Data lines -/

/-- Takes in the data line of the satellite at a position of the list. -/
def readObservation (b : Body maxOrder) (listed : List Listed) (position : Nat) (line : Text) :
    Progress maxOrder :=
  match listed[position]? with
  | none => b.refuse .truncated
  | some entry =>
    let decoded := b.tracking.decode b.layout entry.satellite entry.id line
    -- What the line has moved stays moved if one of its fields is refused.
    let b := { b with tracking := decoded.state }
    match decoded.result with
    | .error fault => b.refuse fault
    | .ok record =>
      let phase :=
        if position + 1 = listed.length then .epoch else .observation listed (position + 1)
      emit { b with phase } record

/-! ## Special records -/

/-- Ends an event after its last record. The definitions of observables among the records replace
those of the layout. An update that cannot be used leaves one more record to be passed on; one that
asks for orders that are not supported has changed the layout. -/
def closeEvent (b : Body maxOrder) (walks : Walks) (update : Option Header) :
    Body maxOrder × Option Fault :=
  let waiting := { b with phase := .records 0 none }
  match update with
  | none => ({ b with phase := .epoch }, none)
  | some header =>
    if header.definitions.isEmpty then ({ b with phase := .epoch }, none)
    else match header.updateLayout walks.definitions b.layout with
      | .error e => (waiting, some (.headerUpdate e))
      | .ok layout =>
        match layout.checkAlong maxOrder walks.columns with
        | .error fault =>
          -- The layout is in force before it is checked.
          ({ waiting with layout }, some fault)
        | .ok () => ({ b with layout, phase := .epoch }, none)

/-- Counts a record that has been understood. -/
def countRecord (b : Body maxOrder) (walks : Walks) (left : Nat) (update : Option Header) :
    Body maxOrder × Option Fault :=
  if left ≤ 1 then b.closeEvent walks update
  else ({ b with phase := .records (left - 1) update }, none)

/-- Takes in a special record. It is passed on as it is before it is understood, and a record that
is not understood does not count. -/
def readRecord (b : Body maxOrder) (walks : Walks) (left : Nat) (update : Option Header)
    (line : Text) : Progress maxOrder :=
  let output := line ++ ['\n']
  match update with
  | none =>
    let counted := b.countRecord walks left none
    ⟨counted.1, output, counted.2⟩
  | some header =>
    let read := header.readLine line
    match read.result with
    | .error e =>
      -- A record that is not understood does not count.
      let waiting := { b with phase := .records left (some read.state) }
      ⟨waiting, output, some (.headerUpdate e)⟩
    | .ok () =>
      let counted := b.countRecord walks left (some read.state)
      ⟨counted.1, output, counted.2⟩

/-! ## Any line -/

/-- Takes in the next line, when the tables are met in these orders. -/
def stepAlong (b : Body maxOrder) (walks : Walks) (line : Text) : Progress maxOrder :=
  match b.phase with
  | .epoch => b.readEpoch line
  | .clock listed => b.readClock listed line
  | .observation listed position => b.readObservation listed position line
  | .records left update => b.readRecord walks left update line

/-- Takes in the next line. -/
def step (b : Body maxOrder) (line : Text) : Progress maxOrder := b.stepAlong .inserted line

/-- Takes in the next line and adds its text at the end of the recovered file. The answer is the
number of bytes that the file has grown by. -/
def write (b : Body maxOrder) (file line : Text) : Outcome (Body maxOrder × Text) Fault Nat :=
  let progress := b.step line
  let grown := file ++ progress.output
  match progress.fault with
  | some fault => .fail (progress.body, grown) fault
  | none => .ok (progress.body, grown) (Text.byteLength grown - Text.byteLength file)

end Body

end CompactRinex
