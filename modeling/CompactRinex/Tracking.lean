import CompactRinex.Epoch.Description
import CompactRinex.Text.Blank
import CompactRinex.Track

/-!
# Tracking

The tracks of all satellites in view. A satellite that leaves the list of an epoch loses its
history, and a literal epoch line ends all of them. `Tracking.decode` takes in a data line and
answers with the recovered record.
-/

namespace CompactRinex

/-- The tracks of the satellites. -/
structure Tracking (maxOrder : Nat) where
  /-- The track of each satellite that has one. -/
  tracks : Table Satellite (Track maxOrder)
  deriving Repr

namespace Tracking

variable {maxOrder : Nat}

/-- No satellite has a track. -/
def empty : Tracking maxOrder := ⟨∅⟩

instance : EmptyCollection (Tracking maxOrder) := ⟨empty⟩

/-- Keeps the tracks of these satellites only. -/
def retain (t : Tracking maxOrder) (satellites : List Satellite) : Tracking maxOrder :=
  ⟨t.tracks.restrict satellites.contains⟩

/-- The satellite has a track. -/
def contains (t : Tracking maxOrder) (s : Satellite) : Bool := t.tracks.contains s

/-- The latest value of a satellite in a column, if there is one. -/
def value? (t : Tracking maxOrder) (s : Satellite) (column : Nat) : Option Int64 :=
  (t.tracks.get? s).bind fun track => track.value? column

/-! ## Recovered records -/

/-- The number of observations on a line of the first revision. -/
def cellsPerLine : Nat := 5

/-- The lines of a record of the first revision, five cells on each, without trailing blanks. -/
def linesV1 (cells : List Text) : List Text :=
  (List.range ((cells.length + (cellsPerLine - 1)) / cellsPerLine)).map fun row =>
    Text.trimEnd ((cells.drop (cellsPerLine * row)).take cellsPerLine).flatten

/-- The record of a satellite. The first revision does not name the satellite and may need several
lines; the third puts the identifier before the cells. -/
def render (revision : Revision) (id : Text) (cells : List Text) : Text :=
  match revision with
  | .v1 => List.intercalate ['\n'] (linesV1 cells)
  | .v3 => Text.trimEnd (id ++ cells.flatten)

/-- Takes in the data line of a satellite, which the epoch names by `id`, and answers with the
record. -/
def decode (t : Tracking maxOrder) (layout : Layout) (s : Satellite) (id line : Text) :
    Outcome (Tracking maxOrder) Fault Text :=
  match layout.columnsOf s with
  | none => .fail t (.unknownObservables s.constellation)
  | some columns =>
    if Text.isAscii line then
      match DataLine.parse columns.length line with
      | .error e => .fail t e
      | .ok dataLine =>
        -- A satellite that is seen for the first time starts with a new track.
        let track := (t.tracks.get? s).getD (.fresh columns.length)
        let advanced := track.advance columns dataLine
        ⟨⟨t.tracks.insert s advanced.state⟩, advanced.result.map (render layout.revision id)⟩
    else .fail t .nonAscii

end Tracking

end CompactRinex
