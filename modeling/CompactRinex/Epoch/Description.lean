import CompactRinex.Epoch.Flag
import CompactRinex.Layout
import CompactRinex.Overlay

/-!
# Epoch descriptions

The description of an epoch is its line without the first column: the date, the flag, a count and
the satellites. A line that starts with the marker of the revision gives it literally, any other
line is an edit of the description before it. The description is ASCII, so its columns are
characters.
-/

namespace CompactRinex

/-- How an epoch line gives its description. -/
inductive EpochKind where
  /-- Literally. -/
  | literal
  /-- As an edit of the description before it. -/
  | differential
  deriving DecidableEq, Repr

/-- A satellite of an epoch. -/
structure Listed where
  /-- The satellite. -/
  satellite : Satellite
  /-- Its identifier, as it is written in the description. -/
  id : Text
  deriving DecidableEq, Repr

/-- The description of the latest epoch. -/
structure EpochDescription where
  /-- Where the parts of a description are. -/
  revision : Revision
  /-- The text of the description. -/
  overlay : Overlay
  deriving DecidableEq, Repr

namespace EpochDescription

/-- No description yet. -/
def unset (revision : Revision) : EpochDescription := ⟨revision, .unset 0⟩

/-- The description forgotten. -/
def reset (d : EpochDescription) : EpochDescription := { d with overlay := d.overlay.reset }

/-- The text of the description, if there is one. -/
def text? (d : EpochDescription) : Option Text := d.overlay.reference

/-! ## Reading epoch lines -/

/-- How a line gives the description. The marker of the other revision is refused. -/
def classify (d : EpochDescription) (line : Text) : Except Fault EpochKind :=
  match d.revision, line.head? with
  | .v1, some '&' => .ok .literal
  | .v3, some '>' => .ok .literal
  | .v1, some '>' => .error .foreignEpochV1
  | .v3, some '&' => .error .foreignEpochV3
  | _, _ => .ok .differential

/-- What a line holds after its first column: its bytes from the second on, if they are a text. -/
def content (line : Text) : Text := (Text.dropBytes? 1 line).getD []

/-- The description after a line. -/
def next (d : EpochDescription) (line : Text) : Except Fault (EpochDescription × EpochKind) := do
  let kind ← d.classify line
  match kind with
  | .literal =>
    if Text.isAscii (content line) then
      .ok ({ d with overlay := d.overlay.force (content line) }, kind)
    else .error .nonAscii
  | .differential => do
    let text ← d.overlay.recover (content line)
    .ok ({ d with overlay := { d.overlay with reference := some text } }, kind)

/-- Takes in a line. A refused line leaves the description alone. -/
def decode (d : EpochDescription) (line : Text) : Outcome EpochDescription Fault EpochKind :=
  .commit d (d.next line)

/-! ## The parts of a description -/

/-- The columns of the description from `start` up to, and without, `stop`. -/
def field (d : EpochDescription) (start stop : Nat) : Except Fault Text :=
  match d.text? with
  | none => .error .missingReference
  | some text =>
    match Text.columns? text start stop with
    | some part => .ok part
    | none => .error .epochTooShort

/-- The flag of the epoch. A blank one stands for `ok`. -/
def flag (d : EpochDescription) : Except Fault EpochFlag := do
  let part ← d.field d.revision.flagColumn (d.revision.flagColumn + 1)
  if Text.isAllBlank part then .ok .ok else EpochFlag.parse part

/-- The number of satellites, or of the special records of an event. -/
def count (d : EpochDescription) : Except Fault Nat := do
  let part ← d.field (d.revision.flagColumn + 1) (d.revision.flagColumn + 4)
  match Numeral.readCount (Text.trim part) with
  | some n => .ok n
  | none => .error .satelliteCount

/-- The satellite at a position of the list. -/
def listedAt (d : EpochDescription) (layout : Layout) (position : Nat) : Except Fault Listed := do
  let start := d.revision.satelliteColumn + 3 * position
  let id ← d.field start (start + 3)
  let satellite ← layout.parseSatellite id
  .ok ⟨satellite, id⟩

/-- The satellites of the epoch, as many as the description says. -/
def satellites (d : EpochDescription) (layout : Layout) : Except Fault (List Listed) := do
  let n ← d.count
  (List.range n).mapM (d.listedAt layout)

/-! ## Recovered epoch lines -/

/-- A line of the first revision with the clock at column 68, if there is a clock. -/
def withClock (line : Text) : Option Text → Text
  | none => line
  | some clock => Text.padRight 68 line ++ clock

/-- The identifiers on one line of the first revision, which has room for 12 of them. -/
def identifiers (d : EpochDescription) (n row : Nat) : Except Fault Text :=
  let start := d.revision.satelliteColumn
  d.field (start + 36 * row) (start + 3 * min n (12 * (row + 1)))

/-- The epoch line of the first revision: the satellites take as many lines as they need, and the
clock ends the first one. -/
def renderV1 (d : EpochDescription) (flag : EpochFlag) (n : Nat) (clock : Option Text) :
    Except Fault Text := do
  let head ← d.field 0 31
  let line := d.revision.lead :: head
  if flag.isEvent then .ok line
  else do
    let rows ← (List.range ((n + 11) / 12)).mapM (d.identifiers n)
    let first := withClock (line ++ rows.headD []) clock
    .ok (first ++ rows.tail.flatMap fun row => '\n' :: Text.blanks 32 ++ row)

/-- The epoch line of the third revision: the satellites are not repeated, and the clock follows
after six blanks. -/
def renderV3 (d : EpochDescription) (flag : EpochFlag) (clock : Option Text) :
    Except Fault Text := do
  let head ← d.field 0 34
  let line := d.revision.lead :: head
  match clock with
  | some clock => .ok (if flag.isEvent then line else line ++ Text.blanks 6 ++ clock)
  | none => .ok line

/-- The recovered epoch line, which may be several lines. An event has no clock. -/
def render (d : EpochDescription) (clock : Option Text) : Except Fault Text := do
  let flag ← d.flag
  let n ← d.count
  match d.revision with
  | .v1 => d.renderV1 flag n clock
  | .v3 => d.renderV3 flag clock

end EpochDescription

end CompactRinex
