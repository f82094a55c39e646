import CompactRinex.Proofs.Body.Exit

/-!
# Where faults come from

The faults of a number say that it is malformed, that its order is not supported or that it does not
fit its column. A clock line has no others as long as the epoch line can be written
(`Clock.failsWith_next`, `Clock.failsWith_render`). A data line has faults of its shape, before
anything has changed, and faults of its numbers after that (`Tracking.decode_cases`). That the
content ends too early is not the fault of any line: no part of a line reports it.
-/

namespace CompactRinex

namespace Fault

/-- A number is malformed, its order is not supported, or it does not fit its column. -/
def Numerical : Fault → Prop
  | malformedField _ | invalidOrder _ | orderTooBig _ _ | formatOverflow _ _ => True
  | _ => False

/-- The order of the differences is not supported. -/
def OfOrder (maxOrder : ℕ) (fault : Fault) : Prop :=
  ∃ order, fault = invalidOrder order ∨ fault = orderTooBig order maxOrder

/-- The data line cannot be taken apart. -/
def OfShape : Fault → Prop
  | unknownObservables _ | nonAscii | malformedField _ | columnCount _ _ => True
  | _ => False

/-- A line can be blamed for the fault. -/
def OfLine (fault : Fault) : Prop := fault ≠ truncated

/-- A fault of an order is one of a number. -/
theorem OfOrder.numerical {maxOrder : ℕ} {fault : Fault} (h : fault.OfOrder maxOrder) :
    fault.Numerical := by
  obtain ⟨order, rfl | rfl⟩ := h
  · trivial
  · trivial

/-- A fault of a number is one of a line. -/
theorem Numerical.ofLine {fault : Fault} (h : fault.Numerical) : fault.OfLine := by
  rintro rfl
  exact h

/-- A fault of the shape is one of a line. -/
theorem OfShape.ofLine {fault : Fault} (h : fault.OfShape) : fault.OfLine := by
  rintro rfl
  exact h

end Fault

/-! ## Numbers -/

/-- A field is refused for its number. -/
theorem Field.failsWith_parse (t : Text) : FailsWith Fault.Numerical (parse t) := by
  intro e he
  rw [eq_of_parse_error he]
  trivial

/-- An order is refused for itself. -/
theorem ofOrder_admitOrder (maxOrder order : ℕ) :
    FailsWith (Fault.OfOrder maxOrder) (admitOrder maxOrder order) := by
  intro e he
  by_cases h : 0 < order ∧ order ≤ maxOrder
  · rw [admitOrder_of_le h.1 h.2] at he
    cases he
  · rw [admitOrder_of_not h] at he
    cases he
    refine ⟨order, ?_⟩
    split
    · exact Or.inl rfl
    · exact Or.inr rfl

/-- That is a fault of a number. -/
theorem failsWith_admitOrder (maxOrder order : ℕ) :
    FailsWith Fault.Numerical (admitOrder maxOrder order) :=
  (ofOrder_admitOrder maxOrder order).imp fun _ => Fault.OfOrder.numerical

/-- A value is not written if it does not fit. -/
theorem Column.failsWith_render (column : Column) (value : Int64) :
    FailsWith Fault.Numerical (column.render value) := by
  intro e he
  rw [eq_of_render_error he]
  trivial

/-- Columns are refused for an order. -/
theorem Layout.failsWith_checkOrders (maxOrder : ℕ) (columns : List Column) :
    FailsWith Fault.Numerical (checkOrders maxOrder columns) := by
  induction columns with
  | nil => exact failsWith_ok ()
  | cons column rest ih => exact (failsWith_admitOrder maxOrder column.order).bind fun _ => ih

/-- So is a layout, on every walk. -/
theorem Layout.failsWith_checkAlong (maxOrder : ℕ) (l : Layout)
    (walk : Walk (Constellation × List Column)) :
    FailsWith Fault.Numerical (l.checkAlong maxOrder walk) :=
  failsWith_checkOrders maxOrder (l.columnsAlong walk)

section

variable {maxOrder : ℕ}

/-- A kernel is not made for a column whose order is not supported. -/
theorem Kernel.ofOrder_ofColumn (column : Column) :
    FailsWith (Fault.OfOrder maxOrder) (ofColumn maxOrder column) :=
  (ofOrder_admitOrder maxOrder column.order).map _

/-- The only faults of a field are orders that are not supported. -/
theorem Kernel.ofOrder_step (k : Kernel maxOrder) (field : Field) :
    FailsWith (Fault.OfOrder maxOrder) (k.step field) := by
  cases field with
  | missing => exact failsWith_ok _
  | literal order value => exact ((ofOrder_admitOrder maxOrder order).map _).map _
  | delta difference => exact failsWith_ok _

/-- A kernel refuses a field for its number. -/
theorem Kernel.failsWith_step (k : Kernel maxOrder) (field : Field) :
    FailsWith Fault.Numerical (k.step field) :=
  (k.ofOrder_step field).imp fun _ => Fault.OfOrder.numerical

/-- So does the clock refuse a line. -/
theorem Clock.failsWith_next (c : Clock maxOrder) (line : Text) :
    FailsWith Fault.Numerical (c.next line) := by
  refine (Field.failsWith_parse line).bind fun field => ?_
  cases field with
  | missing => exact failsWith_ok _
  | literal order value => exact (Kernel.failsWith_step _ _).map _
  | delta difference => exact (Kernel.failsWith_step _ _).map _

/-- The offset is not written if it does not fit. -/
theorem Clock.failsWith_render (c : Clock maxOrder) :
    FailsWith Fault.Numerical c.render := by
  unfold Clock.render
  cases c.value? with
  | none => exact failsWith_ok none
  | some value => exact (Column.failsWith_render _ value).map some

end

/-! ## Epoch lines -/

/-- An edit is refused for its line. -/
theorem Overlay.failsWith_recover (o : Overlay) (change : Text) :
    FailsWith Fault.OfLine (o.recover change) := by
  unfold recover
  split
  · -- Only a text that is not ASCII is refused, at either end of the merge.
    refine FailsWith.bind ?_ fun bytes => ?_
    · unfold base
      split
      · exact failsWith_ok _
      · split
        · exact failsWith_error nofun
        · exact failsWith_ok _
    · dsimp only
      split
      · exact failsWith_ok _
      · exact failsWith_error nofun
  · exact failsWith_error nofun

namespace EpochDescription

variable (d : EpochDescription)

/-- A description is not given if its line is at fault. -/
theorem failsWith_next (line : Text) : FailsWith Fault.OfLine (d.next line) := by
  refine FailsWith.bind ?_ fun kind => ?_
  · unfold classify
    split
    · exact failsWith_ok _
    · exact failsWith_ok _
    · exact failsWith_error nofun
    · exact failsWith_error nofun
    · exact failsWith_ok _
  · cases kind with
    | literal =>
      simp only
      split
      · exact failsWith_ok _
      · exact failsWith_error nofun
    | differential => exact (Overlay.failsWith_recover _ _).bind fun _ => failsWith_ok _

/-- If a part of the description cannot be cut out, the line is at fault. -/
theorem failsWith_field (start stop : ℕ) : FailsWith Fault.OfLine (d.field start stop) := by
  unfold field
  split
  · exact failsWith_error nofun
  · split
    · exact failsWith_ok _
    · exact failsWith_error nofun

/-- So it is if the flag cannot be read. -/
theorem failsWith_flag : FailsWith Fault.OfLine d.flag := by
  refine (d.failsWith_field _ _).bind fun part => ?_
  split
  · exact failsWith_ok _
  · unfold EpochFlag.parse
    dsimp only
    split
    · exact failsWith_ok _
    · exact failsWith_error nofun

/-- So it is if the count cannot be read. -/
theorem failsWith_count : FailsWith Fault.OfLine d.count := by
  refine (d.failsWith_field _ _).bind fun part => ?_
  split
  · exact failsWith_ok _
  · exact failsWith_error nofun

/-- So it is if a satellite cannot be read. -/
theorem failsWith_satellites (layout : Layout) : FailsWith Fault.OfLine (d.satellites layout) := by
  refine d.failsWith_count.bind fun n => FailsWith.mapM (fun position => ?_) _
  refine (d.failsWith_field _ _).bind fun id => FailsWith.bind ?_ fun _ => failsWith_ok _
  unfold Layout.parseSatellite
  dsimp only
  split
  · exact failsWith_ok _
  · exact failsWith_error nofun

/-- So it is if the epoch line cannot be written. -/
theorem failsWith_render (clock : Option Text) : FailsWith Fault.OfLine (d.render clock) := by
  refine d.failsWith_flag.bind fun flag => d.failsWith_count.bind fun n => ?_
  split
  · refine (d.failsWith_field _ _).bind fun head => ?_
    dsimp only
    split
    · exact failsWith_ok _
    · exact (FailsWith.mapM (fun row => d.failsWith_field _ _) _).bind fun _ => failsWith_ok _
  · refine (d.failsWith_field _ _).bind fun head => ?_
    dsimp only
    split <;> exact failsWith_ok _

end EpochDescription

/-- An epoch is not started if its line is at fault. -/
theorem Body.failsWith_openEpoch {maxOrder : ℕ} (b : Body maxOrder) :
    FailsWith Fault.OfLine b.openEpoch := by
  refine b.epoch.failsWith_flag.bind fun flag => b.epoch.failsWith_count.bind fun n => ?_
  split
  · exact (b.epoch.failsWith_render none).bind fun _ => failsWith_ok _
  · exact (b.epoch.failsWith_satellites b.layout).bind fun _ => failsWith_ok _

/-! ## Data lines -/

/-- The fields of a data line are refused for their shape. -/
theorem DataLine.ofShape_parseFields (count : ℕ) (line : Text) :
    FailsWith Fault.OfShape (parseFields count line) := by
  have hfield : ∀ token, FailsWith Fault.OfShape (Field.parse token) := by
    intro token e he
    rw [Field.eq_of_parse_error he]
    trivial
  induction count generalizing line with
  | zero => exact failsWith_ok _
  | succ count ih => exact (hfield _).bind fun _ => (ih _).bind fun _ => failsWith_ok _

/-- So is a data line, also for what follows them. -/
theorem DataLine.ofShape_parse (count : ℕ) (line : Text) :
    FailsWith Fault.OfShape (parse count line) := by
  refine (ofShape_parseFields count line).bind fun p => ?_
  dsimp only
  split
  · exact failsWith_ok _
  · exact failsWith_error trivial

namespace Track

variable {maxOrder : ℕ}

/-- A cell is refused for its number. -/
theorem failsWith_advanceCell (kernel : Option (Kernel maxOrder)) (column : Column)
    (field : Field) :
    FailsWith Fault.Numerical (advanceCell kernel column field).result := by
  unfold advanceCell
  split
  · exact failsWith_ok _
  · split
    · next e he =>
      -- The kernel cannot be made.
      cases kernel with
      | none =>
        exact failsWith_error (Kernel.ofOrder_ofColumn column e he).numerical
      | some k => cases he
    · split
      · next e he => exact failsWith_error (Kernel.failsWith_step _ _ e he)
      · exact failsWith_ok _
      · exact Column.failsWith_render _ _

/-- So are the cells of a line. -/
theorem failsWith_advanceCells (columns : List Column) (fields : List Field)
    (kernels : List (Option (Kernel maxOrder))) :
    FailsWith Fault.Numerical (advanceCells columns fields kernels).result := by
  induction columns generalizing fields kernels with
  | nil => exact failsWith_ok _
  | cons column columns ih =>
    cases fields with
    | nil => exact failsWith_ok _
    | cons field fields =>
      simp only [advanceCells]
      split
      · next e he => exact failsWith_error (failsWith_advanceCell _ _ _ e he)
      · exact (ih _ _).map _

/-- A track refuses a line that is at fault. -/
theorem failsWith_advance (t : Track maxOrder) (columns : List Column) (line : DataLine) :
    FailsWith Fault.OfLine (t.advance columns line).result := by
  simp only [advance, Overlay.edit]
  cases hrecover : t.flags.recover line.flags with
  | error e => exact failsWith_error (Overlay.failsWith_recover _ _ e hrecover)
  | ok text =>
    exact ((failsWith_advanceCells _ _ _).imp fun _ => Fault.Numerical.ofLine).map _

end Track

namespace Tracking

variable {maxOrder : ℕ}

/-- A data line cannot be taken apart, and leaves the tracks alone, or the track of its satellite
takes in its fields and its flags. -/
theorem decode_cases (t : Tracking maxOrder) (layout : Layout) (s : Satellite) (id line : Text) :
    (∃ fault, Fault.OfShape fault ∧ t.decode layout s id line = .fail t fault) ∨
      ∃ columns dataLine moved, layout.columnsOf s = some columns ∧
        DataLine.parse columns.length line = .ok dataLine ∧
        ((t.tracks.get? s).getD (.fresh columns.length)).advance columns dataLine = moved ∧
        t.decode layout s id line =
          ⟨⟨t.tracks.insert s moved.state⟩, moved.result.map (render layout.revision id)⟩ := by
  unfold decode
  split
  · -- Without columns there is no way to read the line.
    exact Or.inl ⟨.unknownObservables s.constellation, trivial, rfl⟩
  · next columns hcolumns =>
    split
    · split
      · next e he => exact Or.inl ⟨e, DataLine.ofShape_parse _ _ e he, rfl⟩
      · next dataLine hline => exact Or.inr ⟨columns, dataLine, _, hcolumns, hline, rfl, rfl⟩
    · exact Or.inl ⟨.nonAscii, trivial, rfl⟩

/-- The tracks refuse a line that is at fault. -/
theorem failsWith_decode (t : Tracking maxOrder) (layout : Layout) (s : Satellite)
    (id line : Text) : FailsWith Fault.OfLine (t.decode layout s id line).result := by
  rcases t.decode_cases layout s id line with ⟨fault, hshape, hrefused⟩ |
    ⟨columns, dataLine, advanced, -, -, hadvanced, htaken⟩
  · rw [hrefused]
    exact failsWith_error hshape.ofLine
  · rw [htaken, ← hadvanced]
    exact (Track.failsWith_advance _ _ _).map _

end Tracking

end CompactRinex
