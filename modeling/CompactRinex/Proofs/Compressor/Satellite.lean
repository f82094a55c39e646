import CompactRinex.Proofs.DataLine.Writing
import CompactRinex.Proofs.Difference.Encoder
import CompactRinex.Proofs.Epoch.Writing
import CompactRinex.Proofs.Overlay.Difference
import CompactRinex.Proofs.Tracking.Isolated

/-!
# Data lines of a satellite

A `SatelliteEncoder` compresses the observations of one satellite: each column has an encoder of its
own, and the flags of a line are written as their difference from those of the line before it. A
track mirrors the encoder when each of its kernels mirrors the encoder of the column and its flags
are those of the latest line. Taking in the line that the encoder writes keeps this, and recovers
the observations (`Mirrors.advance`).
-/

namespace CompactRinex

/-! ## Observations -/

/-- An observation: a value, unless it is missing, and two flags. -/
structure Observation where
  /-- The value, in units of the last decimal of the column. -/
  value : Option Int64
  /-- The indicator of a loss of lock. -/
  lli : Char
  /-- The indicator of the signal strength. -/
  ssi : Char
  deriving DecidableEq, Repr

namespace Observation

/-- A flag is a digit or a space. -/
def isFlag (c : Char) : Bool := c.isDigit || c == ' '

/-- The observation can be written into the column. -/
structure Fits (column : Column) (o : Observation) : Prop where
  /-- The value fits the column. -/
  value : ∀ v ∈ o.value, column.Fits v.toInt
  /-- The first flag is one. -/
  lli : isFlag o.lli = true
  /-- The second flag is one. -/
  ssi : isFlag o.ssi = true

/-- The text of the value, blank if it is missing. -/
def valueText (column : Column) (o : Observation) : Text :=
  o.value.elim column.blank fun v => column.text v.toInt

/-- The text of the observation in the recovered file. -/
def text (column : Column) (o : Observation) : Text := valueText column o ++ [o.lli, o.ssi]

/-- The flags of some observations, one after the other. -/
def flags (observations : List Observation) : Text := observations.flatMap fun o => [o.lli, o.ssi]

/-- Every observation has two flags. -/
theorem length_flags (observations : List Observation) :
    (flags observations).length = 2 * observations.length := by
  induction observations with
  | nil => rfl
  | cons o rest ih => simp only [flags, List.flatMap_cons] at ih ⊢; simp [ih]; omega

/-- The two flags of an observation stand at its own columns. -/
theorem flagsAt_flags {observations : List Observation} {i : ℕ} (h : i < observations.length) :
    Track.flagsAt (flags observations) i = [observations[i].lli, observations[i].ssi] := by
  induction observations generalizing i with
  | nil => exact absurd h (Nat.not_lt_zero i)
  | cons o rest ih =>
    cases i with
    | zero => rfl
    | succ i => exact ih (Nat.lt_of_succ_lt_succ h)

/-- The values with their flags are the texts of the observations. -/
theorem withFlags_flags {columns : List Column} {observations : List Observation} :
    Track.withFlags (flags observations) (List.zipWith valueText columns observations) =
      List.zipWith text columns observations := by
  refine List.ext_getElem (by simp [Track.withFlags]) fun i hi hi' => ?_
  have hlt : i < observations.length := by
    rw [List.length_zipWith] at hi'
    omega
  simp only [Track.withFlags, List.getElem_mapIdx, List.getElem_zipWith, text, flagsAt_flags hlt]

/-- The flags of observations that fit are printable and erase nothing. -/
theorem isFlag_of_mem_flags {columns : List Column} {observations : List Observation}
    (h : List.Forall₂ Fits columns observations) {c : Char} (hc : c ∈ flags observations) :
    isFlag c = true := by
  induction h with
  | nil => cases hc
  | cons hfits _ ih =>
    rcases List.mem_append.1 hc with hc | hc
    · simp only [List.mem_cons, List.not_mem_nil, or_false] at hc
      rcases hc with rfl | rfl
      · exact hfits.lli
      · exact hfits.ssi
    · exact ih hc

/-- A flag is a printable character, and no erase mark. -/
theorem of_isFlag {c : Char} (h : isFlag c = true) : (32 ≤ c.toNat ∧ c.toNat < 127) ∧ c ≠ '&' := by
  simp only [isFlag, Bool.or_eq_true, beq_iff_eq] at h
  rcases h with h | rfl
  · have hdigit := Char.isDigit_iff_toNat.1 h
    refine ⟨⟨le_trans (by decide) hdigit.1, lt_of_le_of_lt hdigit.2 (by decide)⟩, ?_⟩
    rintro rfl
    exact absurd h (by decide)
  · decide

end Observation

/-- The record of a satellite in the recovered file. The first revision has five observations on
each line. -/
def recordText (revision : Revision) (id : Text) (cells : List Text) : Text :=
  match revision with
  | .v1 => List.intercalate ['\n'] ((Text.groups 5 cells).map fun row => Text.trimEnd row.flatten)
  | .v3 => Text.trimEnd (id ++ cells.flatten)

/-- A record is written in the same way on both sides. -/
theorem render_eq_recordText (revision : Revision) (id : Text) (cells : List Text) :
    Tracking.render revision id cells = recordText revision id cells := by
  cases revision with
  | v1 =>
    simp only [Tracking.render, recordText, Tracking.linesV1, Text.groups, List.map_map]
    rfl
  | v3 => rfl

/-! ## Encoders -/

/-- Writes a value, or a blank field for a missing one. -/
def NumberEncoder.encodeNext (e : NumberEncoder) : Option Int64 → Option (NumberEncoder × Field)
  | none => some (e, .missing)
  | some value => e.encode value

/-- What the data lines of a satellite are compressed with. -/
structure SatelliteEncoder where
  /-- The columns that are declared for the satellite. -/
  columns : List Column
  /-- The encoder of each column. -/
  numbers : List NumberEncoder
  /-- The flags of the latest line. -/
  flags : Text

namespace SatelliteEncoder

/-- The encoder of a satellite of which nothing has been written. The columns are encoded with these
orders. -/
def start (orders : ℕ → ℕ) (columns : List Column) : SatelliteEncoder :=
  ⟨columns, (List.range columns.length).map fun i => .ofOrder (orders i),
    Text.blanks (2 * columns.length)⟩

/-- Writes the values of a line, column after column. -/
def encodeFields : List NumberEncoder → List Observation → Option (List NumberEncoder × List Field)
  | e :: es, o :: os => do
    let (e, field) ← e.encodeNext o.value
    let (es, fields) ← encodeFields es os
    some (e :: es, field :: fields)
  | es, _ => some (es, [])

/-- Writes a line. -/
def encode (e : SatelliteEncoder) (observations : List Observation) :
    Option (SatelliteEncoder × Text) := do
  let (numbers, fields) ← encodeFields e.numbers observations
  let flags := Observation.flags observations
  some ({ e with numbers, flags }, DataLine.toText ⟨fields, Overlay.difference e.flags flags⟩)

end SatelliteEncoder

namespace Track

variable {maxOrder : ℕ}

/-! ## Cells -/

/-- The kernel of a column, if there is one, mirrors the encoder. -/
structure CellMirrors (column : Column) (e : NumberEncoder) (kernel : Option (Kernel maxOrder)) :
    Prop where
  /-- The order of the encoder is at least one. -/
  order_pos : 0 < e.order
  /-- The order of the encoder is supported. -/
  order_le : e.order ≤ maxOrder
  /-- A kernel can be made for the column. -/
  column_order : 0 < column.order ∧ column.order ≤ maxOrder
  /-- Without a kernel nothing has been written. -/
  kernel : kernel.elim (e.row = []) (Kernel.Mirrors column e)

/-- A cell takes in what its encoder writes, and shows the value. -/
theorem CellMirrors.advance {column : Column} {e e' : NumberEncoder}
    {kernel : Option (Kernel maxOrder)} (h : CellMirrors column e kernel) {value : Option Int64}
    {field : Field} (hfit : ∀ v ∈ value, column.Fits v.toInt)
    (hencode : e.encodeNext value = some (e', field)) :
    ∃ kernel', advanceCell kernel column field =
        ⟨kernel', .ok (value.elim column.blank fun v => column.text v.toInt)⟩ ∧
      CellMirrors column e' kernel' ∧ (maxOrder < UInt64.size → field.Bounded) := by
  cases value with
  | none =>
    cases hencode
    exact ⟨kernel, rfl, h, fun _ => trivial⟩
  | some v =>
    have hencode' : e.encode v = some (e', field) := hencode
    obtain ⟨horder, -, hfield, hbounded⟩ := NumberEncoder.of_encode hencode' h.order_pos
    -- The kernel that takes in the field, made now if there is none yet.
    obtain ⟨k, hk, hmirrors⟩ : ∃ k,
        kernel.elim (Kernel.ofColumn maxOrder column) .ok = .ok k ∧ Kernel.Mirrors column e k := by
      cases kernel with
      | some k => exact ⟨k, rfl, h.kernel⟩
      | none =>
        have hmade : ∃ k, Kernel.ofColumn maxOrder column = .ok k := by
          rw [Kernel.ofColumn, admitOrder_of_le h.column_order.1 h.column_order.2]
          exact ⟨_, rfl⟩
        obtain ⟨k, hk⟩ := hmade
        have hm := Kernel.mirrors_ofColumn hk e.order
        have hrow : e.row = [] := h.kernel
        exact ⟨k, hk, hm.column_eq, hm.row_eq.trans hrow.symm, fun hne => absurd hrow hne⟩
    obtain ⟨k', hstep, hmirrors'⟩ := hmirrors.step h.order_pos h.order_le hencode'
    have hrender : k'.render v = .ok (column.text v.toInt) := by
      rw [Kernel.render, hmirrors'.column_eq]
      exact Column.render_of_fits (hfit v rfl)
    refine ⟨some k', ?_, ⟨horder ▸ h.order_pos, horder ▸ h.order_le, h.column_order, hmirrors'⟩,
      fun hM => hbounded (lt_of_le_of_lt h.order_le hM)⟩
    cases field with
    | missing => exact absurd rfl hfield
    | literal order value => simp only [advanceCell, hk, hstep, hrender, Option.elim_some]
    | delta difference => simp only [advanceCell, hk, hstep, hrender, Option.elim_some]

/-- The kernels of a track mirror the encoders of the columns. -/
def KernelsMirror : List Column → List NumberEncoder → List (Option (Kernel maxOrder)) → Prop
  | [], [], _ => True
  | column :: columns, e :: es, kernels =>
    CellMirrors column e kernels.head?.join ∧ KernelsMirror columns es kernels.tail
  | _, _, _ => False

/-- The cells of a line take in what their encoders write, and show the values. -/
theorem KernelsMirror.advanceCells {columns : List Column} {es es' : List NumberEncoder}
    {kernels : List (Option (Kernel maxOrder))} (h : KernelsMirror columns es kernels)
    {observations : List Observation} (hfits : List.Forall₂ Observation.Fits columns observations)
    {fields : List Field}
    (hencode : SatelliteEncoder.encodeFields es observations = some (es', fields)) :
    fields.length = columns.length ∧
      (maxOrder < UInt64.size → ∀ f ∈ fields, f.Bounded) ∧
      (Track.advanceCells columns fields kernels).result =
        .ok (List.zipWith Observation.valueText columns observations) ∧
      KernelsMirror columns es' (Track.advanceCells columns fields kernels).state := by
  induction hfits generalizing es es' kernels fields with
  | nil =>
    cases es with
    | cons => exact h.elim
    | nil =>
      cases hencode
      exact ⟨rfl, by simp, rfl, trivial⟩
  | @cons column o columns observations hfit _ ih =>
    cases es with
    | nil => exact h.elim
    | cons e es =>
      simp only [SatelliteEncoder.encodeFields, Option.bind_eq_bind, Option.bind_eq_some_iff,
        Option.some.injEq, Prod.mk.injEq, Prod.exists] at hencode
      obtain ⟨e', field, hfield, es'', fields', hfields, rfl, rfl⟩ := hencode
      -- The first cell is recovered, and its kernel mirrors the encoder.
      obtain ⟨kernel', hcell, hmirrors, hbounded⟩ := h.1.advance hfit.value hfield
      obtain ⟨hlen, hbounded', hresult, hmirrors'⟩ := ih h.2 hfields
      refine ⟨by simp [hlen], fun hM f hf => ?_, ?_, ?_⟩
      · rcases List.mem_cons.1 hf with rfl | hf
        · exact hbounded hM
        · exact hbounded' hM f hf
      · simp only [Track.advanceCells, hcell, hresult]
        rfl
      · simp only [Track.advanceCells, hcell]
        exact ⟨hmirrors, hmirrors'⟩

/-! ## Lines -/

/-- The track mirrors the encoder of the satellite. -/
structure Mirrors (e : SatelliteEncoder) (t : Track maxOrder) : Prop where
  /-- Each kernel mirrors the encoder of its column. -/
  kernels : KernelsMirror e.columns e.numbers t.kernels
  /-- The flags are those of the latest line, apart from blanks at the end. -/
  flags : ∃ text, t.flags.reference = some text ∧ Text.isAscii text ∧
    ∀ i, text.getD i ' ' = e.flags.getD i ' '
  /-- There are two flags for each column. -/
  length_flags : e.flags.length = 2 * e.columns.length

/-- Without kernels, nothing has been written to any column. -/
theorem kernelsMirror_start {orders : ℕ → ℕ} (horders : ∀ i, 0 < orders i ∧ orders i ≤ maxOrder)
    {columns : List Column} (hcolumns : ∀ c ∈ columns, 0 < c.order ∧ c.order ≤ maxOrder) :
    KernelsMirror columns ((List.range columns.length).map fun i => .ofOrder (orders i))
      ([] : List (Option (Kernel maxOrder))) := by
  induction columns generalizing orders with
  | nil => trivial
  | cons column columns ih =>
    rw [List.length_cons, List.range_succ_eq_map, List.map_cons, List.map_map]
    have hrest : ∀ i, 0 < orders (i + 1) ∧ orders (i + 1) ≤ maxOrder := fun i => horders (i + 1)
    refine ⟨⟨(horders 0).1, (horders 0).2, hcolumns column (List.mem_cons_self ..), rfl⟩, ?_⟩
    exact ih hrest fun c hc => hcolumns c (List.mem_cons_of_mem _ hc)

/-- A fresh track mirrors an encoder of which nothing has been written. -/
theorem mirrors_start {orders : ℕ → ℕ} (horders : ∀ i, 0 < orders i ∧ orders i ≤ maxOrder)
    {columns : List Column} (hcolumns : ∀ c ∈ columns, 0 < c.order ∧ c.order ≤ maxOrder) :
    Mirrors (.start orders columns) (fresh columns.length : Track maxOrder) := by
  refine ⟨kernelsMirror_start horders hcolumns, ?_, Text.length_blanks _⟩
  have hfresh : Follows .v3 [] (fresh columns.length : Track maxOrder) :=
    follows_fresh .v3 columns.length
  obtain ⟨text, href, hascii, htext⟩ := hfresh.flags_eq
  refine ⟨text, href, hascii, fun i => ?_⟩
  rw [htext, SatelliteEncoder.start, Overlay.getD_blanks]
  rfl

/-- The edit of the flags is one that a line may hold. -/
theorem admitsFlags_difference {columns : List Column} {observations : List Observation}
    (hfits : List.Forall₂ Observation.Fits columns observations) {before : Text}
    (hlen : before.length = 2 * columns.length) :
    DataLine.admitsFlags columns.length
      (Overlay.difference before (Observation.flags observations)) = true := by
  have hle := Overlay.length_difference_le before (Observation.flags observations)
  rw [Observation.length_flags, ← hfits.length_eq, hlen, max_self] at hle
  simp only [DataLine.admitsFlags, Bool.and_eq_true, List.all_eq_true, decide_eq_true_eq]
  refine ⟨fun c hc => ?_, hle⟩
  -- Each change is a space, an erase mark or a flag.
  rcases Overlay.mem_difference hc with rfl | rfl | hc
  · rfl
  · rfl
  · have hflag := Observation.isFlag_of_mem_flags hfits hc
    simp only [Observation.isFlag, Bool.or_eq_true] at hflag
    simp only [DataLine.isFlagEdit, Bool.or_eq_true]
    exact Or.inl hflag

/-- A track takes in the line that its encoder writes, and recovers the observations. -/
theorem Mirrors.advance {e e' : SatelliteEncoder} {t : Track maxOrder} (h : Mirrors e t)
    (hM : maxOrder < UInt64.size) {observations : List Observation}
    (hfits : List.Forall₂ Observation.Fits e.columns observations) {line : Text}
    (hencode : e.encode observations = some (e', line)) :
    Text.isAscii line ∧ e'.columns = e.columns ∧
      ∃ dataLine, DataLine.parse e.columns.length line = .ok dataLine ∧
        (t.advance e.columns dataLine).result =
          .ok (List.zipWith Observation.text e.columns observations) ∧
        Mirrors e' (t.advance e.columns dataLine).state := by
  simp only [SatelliteEncoder.encode, Option.bind_eq_bind, Option.bind_eq_some_iff,
    Option.some.injEq, Prod.mk.injEq, Prod.exists] at hencode
  obtain ⟨numbers, fields, hfields, rfl, rfl⟩ := hencode
  obtain ⟨text, href, hascii, htext⟩ := h.flags
  obtain ⟨hlen, hbounded, hresult, hmirrors⟩ := h.kernels.advanceCells hfits hfields
  have hflag : ∀ c ∈ Observation.flags observations, Observation.isFlag c = true :=
    fun c => Observation.isFlag_of_mem_flags hfits
  have hprint : Text.isPrintable (Observation.flags observations) :=
    Text.isPrintable_iff.2 fun c hc => (Observation.of_isFlag (hflag c hc)).1
  have hamp : '&' ∉ Observation.flags observations := fun hc =>
    (Observation.of_isFlag (hflag _ hc)).2 rfl
  -- The line may hold the edit of the flags, so it is taken apart as it was put together.
  have hadmits := admitsFlags_difference hfits h.length_flags
  have hflags := isAscii_of_admitsFlags hadmits
  generalize hedit : Overlay.difference e.flags (Observation.flags observations) = edit
    at hadmits hflags
  rw [← hlen] at hadmits
  have hparse : DataLine.parse fields.length (DataLine.toText ⟨fields, edit⟩) =
      .ok ⟨fields, edit⟩ :=
    @DataLine.parse_toText_line ⟨fields, edit⟩ (hbounded hM) hadmits
  rw [hlen] at hparse
  -- The edit leads from the flags of the track, which may be padded, to those of the line.
  have hmerged : ∀ i, (Overlay.merge (Text.padRight t.flags.width text) edit).getD i ' ' =
      (Observation.flags observations).getD i ' ' := by
    rw [← hedit]
    refine Overlay.getD_merge_difference (fun i => ?_) hprint hamp
    rw [Overlay.getD_padRight, htext]
  refine ⟨DataLine.isAscii_toText hflags, rfl, _, hparse, ?_⟩
  rw [advance_of_isAscii href hascii e.columns hflags]
  refine ⟨?_, hmirrors, ⟨_, rfl, ?_, hmerged⟩, ?_⟩
  · rw [hresult, Except.map, withFlags_congr hmerged, Observation.withFlags_flags]
  · exact Overlay.isAscii_merge (Overlay.isAscii_padRight hascii) hflags
  · rw [Observation.length_flags, hfits.length_eq]

end Track

end CompactRinex
