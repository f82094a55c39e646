import CompactRinex.Difference.Kernel
import CompactRinex.Table

/-!
# Layouts

What has to be known before a body can be read: its revision, the columns of each constellation and
of the receiver clock, and the constellation of a satellite that does not name its own. Columns
declared for `mixed` apply to every satellite.
-/

namespace CompactRinex

/-- The structure of the body: the first revision compresses RINEX 2, the third RINEX 3 and 4. -/
inductive Revision where
  | v1 | v3
  deriving DecidableEq, Repr

namespace Revision

/-- The revision a version number belongs to. -/
def ofVersion? (v : Version) : Option Revision :=
  if v.major = 1 then some .v1 else if v.major = 3 then some .v3 else none

/-- The first character of a literal epoch line. -/
def marker : Revision → Char
  | v1 => '&'
  | v3 => '>'

/-- The first character of a recovered epoch line. -/
def lead : Revision → Char
  | v1 => ' '
  | v3 => '>'

/-- The column of the epoch flag; the first column of the line is not counted. -/
def flagColumn : Revision → Nat
  | v1 => 27
  | v3 => 30

/-- The column of the first satellite; the first column of the line is not counted. -/
def satelliteColumn : Revision → Nat
  | v1 => 31
  | v3 => 40

/-- The column of the receiver clock. -/
def clock : Revision → Column
  | v1 => ⟨12, 9, 3⟩
  | v3 => ⟨15, 12, 3⟩

end Revision

/-- What has to be known about a body. -/
structure Layout where
  /-- The structure of the lines. -/
  revision : Revision
  /-- The constellation of a satellite with a blank system letter. -/
  defaultConstellation : Constellation
  /-- The column of the receiver clock. -/
  clock : Column
  /-- The columns of each constellation. -/
  columns : Table Constellation (List Column)
  deriving Repr

namespace Layout

/-- The layout of a revision, with no columns declared. -/
def ofRevision (revision : Revision) : Layout := ⟨revision, .gps, revision.clock, ∅⟩

/-- Declares the columns of a constellation. -/
def withColumns (l : Layout) (c : Constellation) (columns : List Column) : Layout :=
  { l with columns := l.columns.insert c columns }

/-- Declares `count` columns of the usual form. -/
def withObservables (l : Layout) (c : Constellation) (count : Nat) : Layout :=
  l.withColumns c (List.replicate count Column.observation)

/-- The columns of a satellite. -/
def columnsOf (l : Layout) (s : Satellite) : Option (List Column) :=
  match l.columns.get? .mixed with
  | some columns => some columns
  | none =>
    l.columns.get? (if s.constellation.isAugmentation then .sbas else s.constellation)

/-- Every column that is declared, the one of the clock first. -/
def allColumns (l : Layout) : List Column := l.clock :: l.columns.values.flatten

/-- Every column that is declared, the one of the clock first and the others as they are met on a
walk along the table. -/
def columnsAlong (l : Layout) (walk : Walk (Constellation × List Column)) : List Column :=
  l.clock :: ((l.columns.along walk).map Prod.snd).flatten

/-- The greatest order of a column. -/
def greatestOrder (l : Layout) : Nat := (l.allColumns.map Column.order).foldl max 0

/-- Whether the orders of all columns are admitted; the first that is not is reported. -/
def checkOrders (maxOrder : Nat) : List Column → Except Fault Unit
  | [] => .ok ()
  | column :: rest => do
    let _ ← admitOrder maxOrder column.order
    checkOrders maxOrder rest

/-- Whether kernels with this maximal order can recover every column. Of several that are not
admitted, the first on the walk is reported. -/
def checkAlong (maxOrder : Nat) (l : Layout) (walk : Walk (Constellation × List Column)) :
    Except Fault Unit :=
  checkOrders maxOrder (l.columnsAlong walk)

/-- Whether kernels with this maximal order can recover every column. -/
def check (maxOrder : Nat) (l : Layout) : Except Fault Unit := l.checkAlong maxOrder .inserted

/-- Reads a satellite identifier of three columns. -/
def parseSatellite (l : Layout) (id : Text) : Except Fault Satellite :=
  let read :=
    if Text.isAllBlank id || !Text.isAscii id then none
    else if id.head? = some ' ' then
      (Numeral.readUInt8 (Text.trim id)).map fun number => ⟨l.defaultConstellation, number⟩
    else Satellite.parse? id
  match read with
  | some s => .ok s
  | none => .error (.badSatellite id)

/-- The new columns of a constellation are put into the table. -/
@[simp] theorem columns_withColumns (l : Layout) (c : Constellation) (columns : List Column) :
    (l.withColumns c columns).columns = l.columns.insert c columns := rfl

/-- A layout passes when every order is at least one and at most the maximal one. -/
theorem checkOrders_eq_ok_iff (maxOrder : Nat) (columns : List Column) :
    checkOrders maxOrder columns = .ok () ↔ ∀ c ∈ columns, 0 < c.order ∧ c.order ≤ maxOrder := by
  induction columns with
  | nil => simp [checkOrders]
  | cons column rest ih =>
    simp only [checkOrders, List.mem_cons, forall_eq_or_imp, ← ih]
    unfold admitOrder
    by_cases hpos : 0 < column.order
    · by_cases hle : column.order ≤ maxOrder
      · simp [hpos, hle, bind, Except.bind]
      · simp [hpos, hle, bind, Except.bind]
    · simp [hpos, bind, Except.bind]

/-- The columns do not depend on the walk. -/
theorem mem_columnsAlong {l : Layout} {walk : Walk (Constellation × List Column)}
    {column : Column} :
    column ∈ l.columnsAlong walk ↔ column ∈ l.allColumns := by
  simp only [columnsAlong, allColumns, Table.values, List.mem_cons, List.mem_flatten, List.mem_map,
    Table.mem_along]

/-- A layout that passes the check passes it on every walk. -/
theorem checkAlong_eq_ok_iff (maxOrder : Nat) (l : Layout)
    (walk : Walk (Constellation × List Column)) :
    l.checkAlong maxOrder walk = .ok () ↔ l.check maxOrder = .ok () := by
  simp only [check, checkAlong, checkOrders_eq_ok_iff, mem_columnsAlong]

end Layout

end CompactRinex
