import CompactRinex.Clock
import CompactRinex.Proofs.Positions.Cuts
import CompactRinex.Proofs.Positions.Slots
import CompactRinex.Tracking

/-!
# Histories in memory

The clock and the tracks with their kernels in slots. A clock line and a data line are taken in by
the accesses that this needs: the line is cut by offsets, its flags are edited in place, its fields
go into slots and the values are divided by scales. `Slots.nextOffset?_eq` and
`SlotTrack.decode?_eq` say that all of these are possible and lead to the same as the line without
them.
-/

namespace CompactRinex

namespace Table

variable {κ α β : Type} [DecidableEq κ]

/-- The table with a value computed from each value. -/
def mapValues (f : α → β) (t : Table κ α) : Table κ β where
  entries := t.entries.map fun p => (p.1, f p.2)
  nodup := by
    rw [List.map_map]
    exact t.nodup

/-- The values are mapped one by one. -/
theorem get?_mapValues (f : α → β) (t : Table κ α) (k : κ) :
    (t.mapValues f).get? k = (t.get? k).map f := by
  simp only [get?, mapValues]
  induction t.entries with
  | nil => rfl
  | cons p l ih =>
    simp only [List.map_cons, find, ih]
    split <;> rfl

/-- A value that is put in is mapped. -/
theorem mapValues_insert (f : α → β) (t : Table κ α) (k : κ) (a : α) :
    (t.insert k a).mapValues f = (t.mapValues f).insert k (f a) := by
  -- The key is looked for in the same places.
  have hput : ∀ l : List (κ × α), (put k a l).map (fun p => (p.1, f p.2)) =
      put k (f a) (l.map fun p => (p.1, f p.2)) := by
    intro l
    induction l with
    | nil => rfl
    | cons p l ih =>
      simp only [put, List.map_cons]
      split
      · rfl
      · rw [List.map_cons, ih]
  simp only [mapValues, insert, hput]

/-- The values that are left are mapped. -/
theorem mapValues_restrict (f : α → β) (t : Table κ α) (keep : κ → Bool) :
    (t.restrict keep).mapValues f = (t.mapValues f).restrict keep := by
  simp only [mapValues, restrict, List.filter_map]
  rfl

end Table

/-! ## Clock lines -/

namespace Slots

variable {maxOrder : ℕ}

/-- The slots of a clock after a line, and its offset then. -/
def nextOffset? (s : Slots maxOrder) (line : Text) :
    Option (Except Fault (Slots maxOrder × Option Int64)) :=
  match Field.parse line with
  | .error e => some (.error e)
  | .ok .missing => some (.ok (s, s.value?))
  | .ok field => s.step? field

/-- The text of the latest offset, if there is one. -/
def renderOffset? (s : Slots maxOrder) : Option (Except Fault (Option Text)) :=
  match s.value? with
  | some value => do
    let text ← s.column.render? value
    some (text.map some)
  | none => some (.ok none)

/-- In the slots of a clock a line is taken in as in the clock. -/
theorem nextOffset?_eq (s : Slots maxOrder) (line : Text) :
    ∃ next, s.nextOffset? line = some next ∧
      next.map (fun p => (Clock.mk p.1.toKernel, p.2)) = (Clock.mk s.toKernel).next line := by
  unfold nextOffset? Clock.next
  cases Field.parse line with
  | error e => exact ⟨_, rfl, rfl⟩
  | ok field =>
    obtain ⟨next, hnext, hread⟩ := s.step?_eq field
    cases field with
    | missing =>
      refine ⟨_, rfl, ?_⟩
      simp only [Except.map, bind, Except.bind, Clock.value?, value?_toKernel]
    | literal | delta =>
      refine ⟨next, hnext, ?_⟩
      simp only [bind, Except.bind, ← hread]
      cases next <;> rfl

/-- The offset is rendered from the slots in use. -/
theorem renderOffset?_eq (s : Slots maxOrder) :
    s.renderOffset? = some (Clock.mk s.toKernel).render := by
  unfold renderOffset? Clock.render
  simp only [Clock.value?, value?_toKernel, Column.render?_eq, Option.bind_eq_bind,
    Option.bind_some]
  cases s.value? <;> rfl

end Slots

/-! ## Data lines -/

/-- The history of a satellite in memory. -/
structure SlotTrack (maxOrder : ℕ) where
  /-- The flags, two columns for each observable. -/
  flags : Overlay
  /-- The kernels of the columns, as far as there are any. -/
  kernels : List (Option (Slots maxOrder))

namespace SlotTrack

variable {maxOrder : ℕ}

/-- The history in memory. -/
def toTrack (t : SlotTrack maxOrder) : Track maxOrder :=
  ⟨t.flags, t.kernels.map (Option.map Slots.toKernel)⟩

/-- The history of a satellite that is seen for the first time. -/
def fresh (count : ℕ) : SlotTrack maxOrder := ⟨.withReference (2 * count) [], []⟩

/-- Takes a field that is not blank into the slots of its column, which are made if they do not
exist, and writes the value. -/
def takeField? (slots : Option (Slots maxOrder)) (column : Column) (field : Field) :
    Option (Outcome (Option (Slots maxOrder)) Fault Text) :=
  match slots.elim (Slots.ofColumn maxOrder column) .ok with
  | .error e => some (.fail slots e)
  | .ok s => do
    match ← s.step? field with
    | .error e => some (.fail (some s) e)
    | .ok (s', none) => some (.ok (some s') column.blank)
    | .ok (s', some value) => do
      -- The value stays taken in even if it does not fit its column.
      let text ← s'.column.render? value
      some ⟨some s', text⟩

/-- Takes in a field and writes its value. -/
def advanceCell? (slots : Option (Slots maxOrder)) (column : Column) (field : Field) :
    Option (Outcome (Option (Slots maxOrder)) Fault Text) :=
  match field with
  | .missing => some (.ok slots column.blank)
  | field => takeField? slots column field

/-- Takes the fields of a line into the slots, column after column. -/
def advanceCells? : List Column → List Field → List (Option (Slots maxOrder)) →
    Option (Outcome (List (Option (Slots maxOrder))) Fault (List Text))
  | column :: columns, field :: fields, slots => do
    let cell ← advanceCell? slots.head?.join column field
    match cell.result with
    | .error e => some (.fail (cell.state :: slots.tail) e)
    | .ok text => do
      let rest ← advanceCells? columns fields slots.tail
      some ⟨cell.state :: rest.state, rest.result.map (text :: ·)⟩
  | _, _, slots => some (.ok slots [])

/-- Takes in a line and writes its cells. -/
def advance? (t : SlotTrack maxOrder) (columns : List Column) (line : DataLine) :
    Option (Outcome (SlotTrack maxOrder) Fault (List Text)) := do
  let flags ← t.flags.edit? line.flags
  match flags.result with
  | .error e => some (.fail { t with flags := flags.state } e)
  | .ok text => do
    let cells ← advanceCells? columns line.fields t.kernels
    some ⟨⟨flags.state, cells.state⟩, cells.result.map (Track.withFlags text)⟩

/-- Takes in the data line of a satellite, cut by offsets. -/
def decode? (tracks : Table Satellite (SlotTrack maxOrder)) (layout : Layout) (s : Satellite)
    (id line : Text) : Option (Outcome (Table Satellite (SlotTrack maxOrder)) Fault Text) :=
  match layout.columnsOf s with
  | none => some (.fail tracks (.unknownObservables s.constellation))
  | some columns =>
    if Text.isAscii line then do
      match ← DataLine.parse? columns.length line with
      | .error e => some (.fail tracks e)
      | .ok dataLine => do
        let track := (tracks.get? s).getD (.fresh columns.length)
        let advanced ← track.advance? columns dataLine
        some ⟨tracks.insert s advanced.state,
          advanced.result.map (Tracking.render layout.revision id)⟩
    else some (.fail tracks .nonAscii)

/-- The histories in memory. -/
def toTracking (tracks : Table Satellite (SlotTrack maxOrder)) : Tracking maxOrder :=
  ⟨tracks.mapValues toTrack⟩

/-- A field that is not blank is taken in as by the kernel, whether that is there or is made. -/
theorem takeField?_eq (slots : Option (Slots maxOrder)) (column : Column) (field : Field) :
    ∃ o, takeField? slots column field = some o ∧ o.lift (Option.map Slots.toKernel) =
      match (slots.map Slots.toKernel).elim (Kernel.ofColumn maxOrder column) .ok with
      | .error e => .fail (slots.map Slots.toKernel) e
      | .ok k =>
        match k.step field with
        | .error e => .fail (some k) e
        | .ok (k', none) => .ok (some k') column.blank
        | .ok (k', some value) => ⟨some k', k'.render value⟩ := by
  -- Slots are made for a column exactly when a kernel is.
  have hmade : (slots.elim (Slots.ofColumn maxOrder column) .ok).map Slots.toKernel =
      (slots.map Slots.toKernel).elim (Kernel.ofColumn maxOrder column) .ok := by
    cases slots with
    | none => exact Slots.map_toKernel_ofColumn maxOrder column
    | some s => rfl
  unfold takeField?
  rw [← hmade]
  cases slots.elim (Slots.ofColumn maxOrder column) .ok with
  | error e => exact ⟨_, rfl, rfl⟩
  | ok s =>
    obtain ⟨next, hnext, hread⟩ := s.step?_eq field
    simp only [Except.map, hnext, ← hread, Slots.read, Option.bind_eq_bind, Option.bind_some]
    rcases next with e | ⟨s', _ | value⟩
    · exact ⟨_, rfl, rfl⟩
    · exact ⟨_, rfl, rfl⟩
    · refine ⟨⟨some s', s'.column.render value⟩, ?_, rfl⟩
      simp only [Column.render?_eq, Option.bind_some]

/-- The accesses of a cell are within bounds. -/
theorem advanceCell?_eq (slots : Option (Slots maxOrder)) (column : Column) (field : Field) :
    ∃ o, advanceCell? slots column field = some o ∧
      o.lift (Option.map Slots.toKernel) =
        Track.advanceCell (slots.map Slots.toKernel) column field := by
  cases field with
  | missing => exact ⟨_, rfl, rfl⟩
  | literal order value => exact takeField?_eq slots column (.literal order value)
  | delta difference => exact takeField?_eq slots column (.delta difference)

/-- The fields of a line are taken in as by the kernels. -/
theorem advanceCells?_eq (columns : List Column) (fields : List Field)
    (slots : List (Option (Slots maxOrder))) :
    ∃ o, advanceCells? columns fields slots = some o ∧
      o.lift (List.map (Option.map Slots.toKernel)) =
        Track.advanceCells columns fields (slots.map (Option.map Slots.toKernel)) := by
  induction columns generalizing fields slots with
  | nil => exact ⟨_, rfl, rfl⟩
  | cons column columns ih =>
    cases fields with
    | nil => exact ⟨_, rfl, rfl⟩
    | cons field fields =>
      obtain ⟨cell, hcell, hlift⟩ := advanceCell?_eq slots.head?.join column field
      obtain ⟨rest, hrest, hlifts⟩ := ih fields slots.tail
      -- A cell that is not there yet is a cell without a kernel on both sides.
      have hhead : (slots.map (Option.map Slots.toKernel)).head?.join =
          slots.head?.join.map Slots.toKernel := by
        cases slots with
        | nil => rfl
        | cons first slots => rfl
      have hresult : (Track.advanceCell (slots.head?.join.map Slots.toKernel) column field).result =
          cell.result := by
        rw [← hlift]
        rfl
      have hstate : (Track.advanceCell (slots.head?.join.map Slots.toKernel) column field).state =
          cell.state.map Slots.toKernel := by
        rw [← hlift]
        rfl
      simp only [advanceCells?, Track.advanceCells, hcell, hhead, hresult, hstate,
        Option.bind_eq_bind, Option.bind_some, ← List.map_tail, ← hlifts, hrest]
      cases cell.result with
      | error e => exact ⟨_, rfl, rfl⟩
      | ok text => exact ⟨_, rfl, rfl⟩

/-- A line is taken in as by the track, and its flags are put in place. -/
theorem advance?_eq (t : SlotTrack maxOrder) (columns : List Column) (line : DataLine) :
    ∃ o, t.advance? columns line = some o ∧
      o.lift toTrack = t.toTrack.advance columns line := by
  obtain ⟨cells, hcells, hlift⟩ := advanceCells?_eq columns line.fields t.kernels
  simp only [advance?, Track.advance, Overlay.edit?_eq, Option.bind_eq_bind, Option.bind_some,
    toTrack, ← hlift, hcells]
  cases (t.flags.edit line.flags).result with
  | error e => exact ⟨_, rfl, rfl⟩
  | ok text => exact ⟨_, rfl, rfl⟩

/-- A data line is taken in as by the tracking. It is cut when it is known to be ASCII. -/
theorem decode?_eq (tracks : Table Satellite (SlotTrack maxOrder)) (layout : Layout) (s : Satellite)
    (id line : Text) : ∃ o, decode? tracks layout s id line = some o ∧
      o.lift toTracking = (toTracking tracks).decode layout s id line := by
  unfold decode? Tracking.decode
  cases layout.columnsOf s with
  | none => exact ⟨_, rfl, rfl⟩
  | some columns =>
    by_cases hascii : Text.isAscii line
    · simp only [if_pos hascii, DataLine.parse?_eq hascii, Option.bind_eq_bind, Option.bind_some]
      cases DataLine.parse columns.length line with
      | error e => exact ⟨_, rfl, rfl⟩
      | ok dataLine =>
        -- A satellite that has no track starts with the same fresh one.
        have htrack : ((toTracking tracks).tracks.get? s).getD (.fresh columns.length) =
            ((tracks.get? s).getD (.fresh columns.length)).toTrack := by
          rw [toTracking, Table.get?_mapValues]
          cases tracks.get? s <;> rfl
        obtain ⟨o, ho, hlift⟩ :=
          ((tracks.get? s).getD (.fresh columns.length)).advance?_eq columns dataLine
        simp only [ho, htrack, ← hlift, Option.bind_some]
        refine ⟨_, rfl, ?_⟩
        simp only [Outcome.lift, toTracking, Table.mapValues_insert]
    · simp only [if_neg hascii]
      exact ⟨_, rfl, rfl⟩

end SlotTrack

end CompactRinex
