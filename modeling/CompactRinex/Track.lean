import CompactRinex.DataLine
import CompactRinex.Difference.Kernel
import CompactRinex.Overlay

/-!
# Tracks

A track is the history of one satellite: the kernels of its columns and the text of its flags. A
kernel comes into being with the first field of its column that is not blank, and keeps the form of
the column it was made for.
-/

namespace CompactRinex

/-- The history of a satellite. -/
structure Track (maxOrder : Nat) where
  /-- The flags, two columns for each observable. -/
  flags : Overlay
  /-- The kernels of the columns, as far as there are any. -/
  kernels : List (Option (Kernel maxOrder))
  deriving DecidableEq, Repr

namespace Track

variable {maxOrder : Nat}

/-- The history of a satellite with `count` observables that is seen for the first time. -/
def fresh (count : Nat) : Track maxOrder := ⟨.withReference (2 * count) [], []⟩

/-- The kernel of a column, if there is one. -/
def kernel? (t : Track maxOrder) (column : Nat) : Option (Kernel maxOrder) :=
  (t.kernels[column]?).join

/-- The latest value of a column, if there is one. -/
def value? (t : Track maxOrder) (column : Nat) : Option Int64 :=
  (t.kernel? column).bind Kernel.value?

/-! ## Cells -/

/-- Takes a field into the kernel of its column, which is made if it does not exist, and writes the
value. A value that does not fit has been taken in all the same. -/
def advanceCell (kernel : Option (Kernel maxOrder)) (column : Column) (field : Field) :
    Outcome (Option (Kernel maxOrder)) Fault Text :=
  match field with
  | .missing => .ok kernel column.blank
  | field =>
    match kernel.elim (Kernel.ofColumn maxOrder column) .ok with
    | .error e => .fail kernel e
    | .ok k =>
      match k.step field with
      | .error e =>
        -- A kernel that has been made for the cell stays in it.
        .fail (some k) e
      | .ok (k', none) => .ok (some k') column.blank
      | .ok (k', some value) => ⟨some k', k'.render value⟩

/-- Takes the fields of a line into the kernels, column after column, and writes the values. The
first column that fails ends the line; the columns before it have moved on. -/
def advanceCells : List Column → List Field → List (Option (Kernel maxOrder)) →
    Outcome (List (Option (Kernel maxOrder))) Fault (List Text)
  | column :: columns, field :: fields, kernels =>
    let cell := advanceCell kernels.head?.join column field
    match cell.result with
    | .error e => .fail (cell.state :: kernels.tail) e
    | .ok text =>
      let rest := advanceCells columns fields kernels.tail
      ⟨cell.state :: rest.state, rest.result.map (text :: ·)⟩
  | _, _, kernels => .ok kernels []

/-- The flags of a column, blank beyond the text of the flags. -/
def flagsAt (flags : Text) (column : Nat) : Text :=
  [flags.getD (2 * column) ' ', flags.getD (2 * column + 1) ' ']

/-- The cells of a line: each value followed by its flags. -/
def withFlags (flags : Text) (values : List Text) : List Text :=
  values.mapIdx fun column value => value ++ flagsAt flags column

/-- Takes in a line and writes its cells. -/
def advance (t : Track maxOrder) (columns : List Column) (line : DataLine) :
    Outcome (Track maxOrder) Fault (List Text) :=
  let flags := t.flags.edit line.flags
  match flags.result with
  | .error e => .fail { t with flags := flags.state } e
  | .ok text =>
    let cells := advanceCells columns line.fields t.kernels
    ⟨⟨flags.state, cells.state⟩, cells.result.map (withFlags text)⟩

end Track

end CompactRinex
