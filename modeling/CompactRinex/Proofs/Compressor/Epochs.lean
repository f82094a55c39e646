import CompactRinex.Proofs.Body.Epochs
import CompactRinex.Proofs.Compressor.Satellite
import Mathlib.Logic.Function.Basic

/-!
# Compressed epochs

A `Compressor` writes a list of epochs as the lines of a body. An epoch line is literal or the edit
of the description before it; the clock has an encoder of its own; a satellite is encoded on its own
from the moment it comes into view, and starts anew when it has been missing from an epoch and at
every literal epoch line. `EpochRecord.text` is the epoch in the recovered file, written down from
the epoch itself, and `Compressor.Accepts` says what an epoch has to look like.
-/

namespace CompactRinex

/-- What a satellite gives in an epoch. -/
structure SatelliteRecord where
  /-- The satellite, as the description of the epoch names it. -/
  listed : Listed
  /-- The observations, one for each column. -/
  observations : List Observation

/-- What belongs to an epoch besides its description. -/
inductive EpochContent where
  /-- The offset of the clock, unless it stays, and the satellites. -/
  | observations (clock : Option Int64) (records : List SatelliteRecord)
  /-- The special records of an event. -/
  | event (flag : EpochFlag) (records : List Text)

/-- An epoch, and how its line is to be written. -/
structure EpochRecord where
  /-- Whether the line is literal or an edit. -/
  kind : EpochKind
  /-- The description. -/
  description : Text
  /-- The observations or the special records. -/
  content : EpochContent

/-- The orders of the differences. -/
structure Orders where
  /-- The order for the clock. -/
  clock : ℕ
  /-- The order for each column of a satellite. -/
  column : Satellite → ℕ → ℕ

/-- The orders are at least one, and supported. -/
structure Orders.Admitted (maxOrder : ℕ) (o : Orders) : Prop where
  /-- The order for the clock is. -/
  clock : 0 < o.clock ∧ o.clock ≤ maxOrder
  /-- The orders for the columns are. -/
  column : ∀ s i, 0 < o.column s i ∧ o.column s i ≤ maxOrder

/-! ## Events -/

/-- The special records of the event define observables. -/
def redefines (flag : EpochFlag) (records : List Text) : Bool :=
  match collectRecords flag records with
  | .ok (some header) => !header.definitions.isEmpty
  | _ => false

/-- An event without definitions leaves the layout. -/
theorem eventLayout_of_not_redefines {layout layout' : Layout} {flag : EpochFlag}
    {records : List Text} (h : redefines flag records = false)
    (hlayout : eventLayout layout flag records = .ok layout') : layout' = layout := by
  unfold eventLayout at hlayout
  obtain ⟨update, hupdate, hlayout⟩ := bind_eq_ok_iff.1 hlayout
  unfold redefines at h
  rw [hupdate] at h
  cases update with
  | none => cases hlayout; rfl
  | some header =>
    have hempty : header.definitions.isEmpty = true := by simpa using h
    simp only [Body.updatedLayout, hempty, if_true] at hlayout
    cases hlayout
    rfl

/-! ## The recovered file -/

namespace EpochRecord

/-- The layout after the epoch. -/
def nextLayout (layout : Layout) (e : EpochRecord) : Layout :=
  match e.content with
  | .observations _ _ => layout
  | .event flag records => (eventLayout layout flag records).toOption.getD layout

/-- The offset of the clock after the epoch. -/
def nextOffset (offset : Option Int64) (e : EpochRecord) : Option Int64 :=
  match e.content with
  | .observations clock _ => clock.or offset
  | .event _ _ => offset

/-- The epoch in the recovered file. -/
def text (layout : Layout) (offset : Option Int64) (e : EpochRecord) : Text :=
  match e.content with
  | .observations _ records =>
    EpochDescription.observationLine layout.revision e.description records.length
        ((e.nextOffset offset).map fun v => layout.clock.text v.toInt) ++ ['\n'] ++
      records.flatMap fun r =>
        recordText layout.revision r.listed.id
          (List.zipWith Observation.text ((layout.columnsOf r.listed.satellite).getD [])
            r.observations) ++ ['\n']
  | .event _ records =>
    EpochDescription.eventLine layout.revision e.description ++ ['\n'] ++ Text.unlines records

/-- Some epochs in the recovered file, from a layout and an offset of the clock on. -/
def texts (layout : Layout) (offset : Option Int64) : List EpochRecord → Text
  | [] => []
  | e :: es => e.text layout offset ++ texts (e.nextLayout layout) (e.nextOffset offset) es

end EpochRecord

/-! ## The compressor -/

/-- The state between two epochs. -/
structure Compressor where
  /-- The orders of the differences. -/
  orders : Orders
  /-- The layout in force. -/
  layout : Layout
  /-- Observables have been defined anew since the latest literal epoch line. -/
  redefined : Bool
  /-- The description of the latest epoch. -/
  reference : Option Text
  /-- The encoder of the clock. -/
  clock : NumberEncoder
  /-- The encoders of the satellites in view. -/
  satellites : Satellite → Option SatelliteEncoder

namespace Compressor

/-- The state before the first epoch. -/
def start (orders : Orders) (layout : Layout) : Compressor :=
  ⟨orders, layout, false, none, .ofOrder orders.clock, fun _ => none⟩

/-- The epoch line. -/
def epochLine (c : Compressor) (e : EpochRecord) : Text :=
  match e.kind with
  | .literal => c.layout.revision.marker :: e.description
  | .differential => ' ' :: Overlay.difference (c.reference.getD []) e.description

/-- The compressor after the epoch line. -/
def described (c : Compressor) (e : EpochRecord) : Compressor :=
  { c with
    redefined := c.redefined && e.kind ≠ .literal
    reference := some e.description
    satellites := if e.kind = .literal then fun _ => none else c.satellites }

/-- The compressor without the satellites that are out of view. -/
def retain (c : Compressor) (satellites : List Satellite) : Compressor :=
  { c with satellites := fun s => if s ∈ satellites then c.satellites s else none }

/-- The compressor after the data line of a satellite. -/
def follow (c : Compressor) (s : Satellite) (encoder : SatelliteEncoder) : Compressor :=
  { c with satellites := Function.update c.satellites s (some encoder) }

/-- The encoder of a satellite, which is made if it comes into view. -/
def encoderOf (c : Compressor) (s : Satellite) (columns : List Column) : SatelliteEncoder :=
  (c.satellites s).getD (.start (c.orders.column s) columns)

/-- Writes the data lines of an epoch. -/
def encodeRecords (c : Compressor) : List SatelliteRecord → Option (Compressor × List Text)
  | [] => some (c, [])
  | r :: rs => do
    let columns ← c.layout.columnsOf r.listed.satellite
    let (encoder, line) ← (c.encoderOf r.listed.satellite columns).encode r.observations
    let (c, lines) ← (c.follow r.listed.satellite encoder).encodeRecords rs
    some (c, line :: lines)

/-- Writes an epoch. -/
def encode (c : Compressor) (e : EpochRecord) : Option (Compressor × List Text) :=
  match e.content with
  | .observations clock records => do
    let (number, field) ← c.clock.encodeNext clock
    let view := (c.described e).retain (records.map fun r => r.listed.satellite)
    let (next, lines) ← encodeRecords { view with clock := number } records
    some (next, c.epochLine e :: field.toText :: lines)
  | .event flag records =>
    some ({ c.described e with
      layout := e.nextLayout c.layout
      redefined := (c.described e).redefined || redefines flag records },
      c.epochLine e :: records)

/-- Writes some epochs. -/
def encodeAll (c : Compressor) : List EpochRecord → Option (List Text)
  | [] => some []
  | e :: es => do
    let (next, lines) ← c.encode e
    let rest ← next.encodeAll es
    some (lines ++ rest)

/-! ## What is compressed -/

/-- A description that an epoch line can carry. -/
structure Describable (description : Text) : Prop where
  /-- It is printable. -/
  printable : Text.isPrintable description = true
  /-- It holds no character that stands for an erased one. -/
  not_mem : '&' ∉ description
  /-- It does not end in a space. -/
  getLast_ne : description.getLast? ≠ some ' '

/-- The observations of a satellite fit its columns. If observables have been defined anew, the
columns are still those that the satellite had when it came into view. -/
structure AcceptsRecord (c : Compressor) (r : SatelliteRecord) (columns : List Column) : Prop where
  /-- The columns are declared for the satellite. -/
  columnsOf : c.layout.columnsOf r.listed.satellite = some columns
  /-- There is an observation for each column, and it fits. -/
  fits : List.Forall₂ Observation.Fits columns r.observations
  /-- The columns of the satellite are not changed while it is in view. -/
  kept : c.redefined = true → ∀ encoder ∈ c.satellites r.listed.satellite, encoder.columns = columns

/-- The description goes with the observations, and the observations fit their columns. -/
structure AcceptsObservations (c : Compressor) (description : Text) (clock : Option Int64)
    (records : List SatelliteRecord) : Prop where
  /-- The flag is not the one of an event. -/
  flag_eq : ∃ flag, (EpochDescription.ofText c.layout.revision description).flag = .ok flag ∧
    flag.isEvent = false
  /-- The satellites are those that the description names. -/
  satellites_eq : (EpochDescription.ofText c.layout.revision description).satellites c.layout =
    .ok (records.map SatelliteRecord.listed)
  /-- The offset fits the column of the clock. -/
  clock_fits : ∀ v ∈ clock, c.layout.clock.Fits v.toInt
  /-- The observations fit their columns. -/
  records_fit : ∀ r ∈ records, ∃ columns, c.AcceptsRecord r columns

/-- The description goes with the event, and the special records leave a usable layout. -/
structure AcceptsEvent (maxOrder : ℕ) (c : Compressor) (description : Text) (flag : EpochFlag)
    (records : List Text) : Prop where
  /-- The description has the flag. -/
  flag_eq : (EpochDescription.ofText c.layout.revision description).flag = .ok flag
  /-- The flag is the one of an event. -/
  isEvent : flag.isEvent = true
  /-- The description says how many special records there are. -/
  count_eq : (EpochDescription.ofText c.layout.revision description).count = .ok records.length
  /-- The special records are understood, and the layout that they ask for is supported. -/
  layout_eq : ∃ layout, eventLayout c.layout flag records = .ok layout ∧
    layout.check maxOrder = .ok ()

/-- The epoch can be compressed. An edit needs a description before it, so the first epoch has to be
literal; the others need not. -/
def Accepts (maxOrder : ℕ) (c : Compressor) (e : EpochRecord) : Prop :=
  Describable e.description ∧ (e.kind = .differential → c.reference ≠ none) ∧
    match e.content with
    | .observations clock records =>
      (c.described e).AcceptsObservations e.description clock records
    | .event flag records => (c.described e).AcceptsEvent maxOrder e.description flag records

/-- Each epoch can be compressed after those before it. -/
def AcceptsAll (maxOrder : ℕ) (c : Compressor) : List EpochRecord → Prop
  | [] => True
  | e :: es => c.Accepts maxOrder e ∧
    ∀ next lines, c.encode e = some (next, lines) → next.AcceptsAll maxOrder es

end Compressor

end CompactRinex
