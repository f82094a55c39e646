import CompactRinex.Proofs.Body.Reports
import CompactRinex.Proofs.InPlace.Programs
import CompactRinex.Proofs.Tracking.Tables

/-!
# The body as a machine

A machine has every field that the decompression stores, at all times: the list of satellites, the
position in it, the number of records that are left and the header that is collected are there
whatever the next line is, and keep what was stored last, also when a line is refused halfway. It
has the histories of the satellites in two tables. `Machine.decompress` takes in a line as a program
that makes one store after the other, to the machine and to the recovered file.

Whoever walks along a hashed table meets its pairs in an order of its own, which the program has no
say in. Every program here is given the orders of its walks.
-/

namespace CompactRinex

/-- The state between two lines, field by field. -/
structure Machine (maxOrder : ℕ) where
  /-- The layout in force. -/
  layout : Layout
  /-- The kind of the next line. -/
  state : State
  /-- The description of the latest epoch. -/
  epoch : EpochDescription
  /-- The receiver clock. -/
  clock : Clock maxOrder
  /-- The histories of the satellites. -/
  observations : Ledger maxOrder
  /-- The satellites of the latest epoch of observations. -/
  satellites : List Listed
  /-- The position in that list. -/
  position : ℕ
  /-- The number of special records that are left. -/
  records : ℕ
  /-- The header that special records are collected in. -/
  update : Option Header

/-- A program that changes a machine and the recovered file, store by store. -/
abbrev Routine (maxOrder : ℕ) := InPlace (Machine maxOrder × Text)

namespace Routine

variable {maxOrder : ℕ} {α β : Type}

/-- Stores in fields of the machine. -/
def change (f : Machine maxOrder → Machine maxOrder) : Routine maxOrder Unit :=
  modify fun p => (f p.1, p.2)

/-- Adds a text at the end of the file. -/
def push (text : Text) : Routine maxOrder Unit := modify fun p => (p.1, p.2 ++ text)

/-- Reads fields of the machine. -/
def look (part : Machine maxOrder → α) : Routine maxOrder α := fun p => .ok (part p.1) p

/-- Computes with fields of the machine, and ends with the fault if that fails. -/
def ask (part : Machine maxOrder → Except Fault α) : Routine maxOrder α := fun p =>
  match part p.1 with
  | .ok a => .ok a p
  | .error fault => .error fault p

/-- Carries out an operation on a field of the machine, and ends with its fault if it fails. -/
def call (operation : Machine maxOrder → Outcome (Machine maxOrder) Fault α) :
    Routine maxOrder α := fun p =>
  match (operation p.1).result with
  | .ok a => .ok a ((operation p.1).state, p.2)
  | .error fault => .error fault ((operation p.1).state, p.2)

/-- The number of bytes in the file. -/
def size : Routine maxOrder ℕ := fun p => .ok (Text.byteLength p.2) p

end Routine

namespace Machine

open Routine (change push look ask call size)

variable {maxOrder : ℕ}

/-- The machine before the first line. The columns of the layout are met on a walk, and the first
one that is not admitted is reported. -/
def ofLayout (maxOrder : ℕ) (walk : Walk (Constellation × List Column)) (layout : Layout) :
    Except Fault (Machine maxOrder) := do
  layout.checkAlong maxOrder walk
  let clock ← Clock.ofColumn maxOrder layout.clock
  .ok {
    layout
    state := .epoch
    epoch := .unset layout.revision
    clock
    observations := .empty
    satellites := []
    position := 0
    records := 0
    update := none }

/-- Ends the history of every satellite. The clock goes on. -/
def reinitialize (m : Machine maxOrder) : Machine maxOrder := { m with observations := .empty }

/-- Whether the content may end here. -/
def finish (m : Machine maxOrder) : Except Fault Unit :=
  match m.state with
  | .epoch => .ok ()
  | _ => .error .truncated

/-! ## Epoch lines -/

/-- Starts an event of so many records. Records of header information get a header to be collected
in. -/
def openEvent (flag : EpochFlag) (count : ℕ) : Routine maxOrder Unit := do
  let line ← ask fun m => m.epoch.render none
  push line
  push ['\n']
  change fun m => { m with records := count }
  if 0 < count then do
    change fun m => if flag = .headerInformationFollows then { m with update := some ∅ } else m
    change fun m => { m with state := .records }
  else return ()

/-- Starts an epoch of observations. Only the satellites that it lists keep their histories. -/
def openObservations : Routine maxOrder Unit := do
  let listed ← ask fun m => m.epoch.satellites m.layout
  change fun m => { m with satellites := listed }
  change fun m =>
    { m with observations := m.observations.retain (m.satellites.map Listed.satellite) }
  change fun m => { m with position := 0 }
  change fun m => { m with state := .clock }

/-- Starts the epoch that the description gives. -/
def openEpoch : Routine maxOrder Unit := do
  let flag ← ask fun m => m.epoch.flag
  let count ← ask fun m => m.epoch.count
  if flag.isEvent then openEvent flag count else openObservations

/-- Takes in an epoch line. -/
def runEpoch (line : Text) : Routine maxOrder Unit := do
  let kind ← call fun m => (m.epoch.decode line).lift fun epoch => { m with epoch }
  change fun m => if kind = .literal then m.reinitialize else m
  openEpoch

/-! ## Clock lines -/

/-- Takes in a clock line. The position in the list is the one that the epoch line has stored. -/
def runClock (line : Text) : Routine maxOrder Unit := do
  let _ ← call fun m => (m.clock.decode line).lift fun clock => { m with clock }
  let offset ← ask fun m => m.clock.render
  let text ← ask fun m => m.epoch.render offset
  push text
  push ['\n']
  change fun m => { m with state := if m.satellites.isEmpty then .epoch else .observation }

/-! ## Data lines -/

/-- Takes in the data line of the satellite at the position. -/
def runObservation (line : Text) : Routine maxOrder Unit := do
  let entry ← ask fun m =>
    match m.satellites[m.position]? with
    | some entry => .ok entry
    | none => .error .truncated
  let record ← call fun m =>
    (m.observations.decode m.layout entry.satellite entry.id line).lift fun observations =>
      { m with observations }
  -- From here on nothing can fail.
  push record
  push ['\n']
  change fun m => { m with position := m.position + 1 }
  change fun m => { m with state := if m.position = m.satellites.length then .epoch else m.state }

/-! ## Special records -/

/-- Takes a record into the header that is collected, if there is one. -/
def readUpdate (line : Text) (m : Machine maxOrder) : Outcome (Machine maxOrder) Fault Unit :=
  match m.update with
  | none => .ok m ()
  | some header =>
    let read := header.readLine line
    ⟨{ m with update := some read.state }, read.result.mapError .headerUpdate⟩

/-- Puts the definitions of a header into the layout, and then looks whether their orders are
supported. -/
def applyUpdate (walks : Walks) (header : Header) : Routine maxOrder Unit :=
  if header.definitions.isEmpty then return ()
  else do
    let layout ← ask fun m =>
      (header.updateLayout walks.definitions m.layout).mapError .headerUpdate
    change fun m => { m with layout }
    ask fun m => m.layout.checkAlong maxOrder walks.columns

/-- Ends an event. The header is taken out of its field before it is looked at. -/
def closeEvent (walks : Walks) : Routine maxOrder Unit := do
  let update ← look fun m => m.update
  change fun m => { m with update := none }
  update.elim (return ()) (applyUpdate walks)
  change fun m => { m with state := .epoch }

/-- Counts a record. -/
def countRecord (walks : Walks) : Routine maxOrder Unit := do
  change fun m => { m with records := m.records - 1 }
  let left ← look fun m => m.records
  if left = 0 then closeEvent walks else return ()

/-- Takes in a special record. It is passed on before it is looked at, and counted after that. -/
def runRecords (walks : Walks) (line : Text) : Routine maxOrder Unit := do
  push line
  push ['\n']
  call (readUpdate line)
  countRecord walks

/-! ## Any line -/

/-- Takes in a line of the kind that is awaited. -/
def run (walks : Walks) (line : Text) : Routine maxOrder Unit := do
  let state ← look fun m => m.state
  match state with
  | .epoch => runEpoch line
  | .clock => runClock line
  | .observation => runObservation line
  | .records => runRecords walks line

/-- Takes in the next line, and answers with the number of bytes by which the file has grown. -/
def decompress (walks : Walks) (line : Text) : Routine maxOrder ℕ := do
  let before ← size
  run walks line
  let after ← size
  return after - before

/-- What the next line makes of a machine and a file. -/
def write (m : Machine maxOrder) (walks : Walks) (file line : Text) :
    Outcome (Machine maxOrder × Text) Fault ℕ :=
  InPlace.outcome (decompress walks line) (m, file)

/-- What an input makes of a machine and a file. -/
def takeAlong (m : Machine maxOrder) (walks : Walks) (file : Text) :
    Input → Outcome (Machine maxOrder × Text) Fault ℕ
  | .line text => m.write walks file text
  | .restart => .ok (m.reinitialize, file) 0

/-- A machine that inputs lead to, from the one before the first line of some layout: accepted or
not, whatever is in the file, and whatever the orders are in which the tables are met. -/
inductive Reachable : Machine maxOrder → Prop where
  /-- The machine before the first line. -/
  | start {walk : Walk (Constellation × List Column)} {layout : Layout} {m : Machine maxOrder}
      (h : ofLayout maxOrder walk layout = .ok m) : Reachable m
  /-- The machine after an input. -/
  | take {m : Machine maxOrder} (h : Reachable m) (walks : Walks) (file : Text) (input : Input) :
      Reachable (m.takeAlong walks file input).state.1

/-! ## What a caller is shown -/

/-- What a caller is shown who has given a machine an input, with this content of the file before.
-/
def report (file : Text) (o : Outcome (Machine maxOrder × Text) Fault ℕ) : Report where
  result := o.result
  output := o.state.2.drop file.length
  state := o.state.1.state
  layout := o.state.1.layout.view
  finish := o.state.1.finish

/-- The reports on the inputs that a machine is given, with the orders in which the tables are met
each time. -/
def reports (m : Machine maxOrder) (file : Text) : List (Walks × Input) → List Report
  | [] => []
  | (walks, input) :: inputs =>
    let o := m.takeAlong walks file input
    report file o :: o.state.1.reports o.state.2 inputs

end Machine

/-! ## The steps of a routine -/

namespace Routine

variable {maxOrder : ℕ} {α β : Type} (m : Machine maxOrder) (file : Text)

/-- The program goes on with the fields that have been stored. -/
theorem outcome_change_bind (f : Machine maxOrder → Machine maxOrder)
    (next : Unit → Routine maxOrder β) :
    InPlace.outcome (change f >>= next) (m, file) = InPlace.outcome (next ()) (f m, file) := rfl

/-- The last store of a program. -/
theorem outcome_change (f : Machine maxOrder → Machine maxOrder) :
    InPlace.outcome (change f) (m, file) = .ok (f m, file) () := rfl

/-- The program goes on with a longer file. -/
theorem outcome_push_bind (text : Text) (next : Unit → Routine maxOrder β) :
    InPlace.outcome (push text >>= next) (m, file) = InPlace.outcome (next ()) (m, file ++ text) :=
  rfl

/-- The program goes on with what it has read. -/
theorem outcome_look_bind (part : Machine maxOrder → α) (next : α → Routine maxOrder β) :
    InPlace.outcome (look part >>= next) (m, file) = InPlace.outcome (next (part m)) (m, file) :=
  rfl

/-- The program goes on with the size of the file. -/
theorem outcome_size_bind (next : ℕ → Routine maxOrder β) (s : Machine maxOrder × Text) :
    InPlace.outcome (size >>= next) s = InPlace.outcome (next (Text.byteLength s.2)) s := rfl

/-- The program goes on with the result, or ends with the fault and everything as it was. -/
theorem outcome_ask_bind (part : Machine maxOrder → Except Fault α)
    (next : α → Routine maxOrder β) :
    InPlace.outcome (ask part >>= next) (m, file) =
      match part m with
      | .ok a => InPlace.outcome (next a) (m, file)
      | .error fault => .fail (m, file) fault := by
  rw [InPlace.outcome_bind]
  unfold InPlace.outcome ask
  dsimp only
  cases part m <;> rfl

/-- The last check of a program. -/
theorem outcome_ask (part : Machine maxOrder → Except Fault α) :
    InPlace.outcome (ask part) (m, file) = ⟨(m, file), part m⟩ := by
  unfold InPlace.outcome ask
  dsimp only
  cases part m <;> rfl

/-- The program goes on with the answer, or ends with the fault and what the operation has left. -/
theorem outcome_call_bind (operation : Machine maxOrder → Outcome (Machine maxOrder) Fault α)
    (next : α → Routine maxOrder β) :
    InPlace.outcome (call operation >>= next) (m, file) =
      match (operation m).result with
      | .ok a => InPlace.outcome (next a) ((operation m).state, file)
      | .error fault => .fail ((operation m).state, file) fault := by
  rw [InPlace.outcome_bind]
  unfold InPlace.outcome call
  dsimp only
  cases (operation m).result <;> rfl

end Routine

end CompactRinex
