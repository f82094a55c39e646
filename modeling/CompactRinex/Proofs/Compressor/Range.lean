import CompactRinex.Proofs.Compressor.Epochs

/-!
# Differences within 64 bits

The only epoch that a compressor cannot write is one for which a difference leaves the 64-bit range.
When the columns have at most 16 characters and the orders are at most 8, as they are for all usual
columns, there is no such epoch: the rows of all encoders stay small (`Compressor.Small`), from
epoch to epoch (`Small.encode`).
-/

namespace CompactRinex

/-- The value of the observation fits some column of at most 16 characters. -/
def Observation.Short (o : Observation) : Prop :=
  ∀ v ∈ o.value, ∃ column : Column, column.width ≤ 16 ∧ column.Fits v.toInt

/-- What fits a narrow column is short. -/
theorem Observation.short_of_fits {columns : List Column} {observations : List Observation}
    (h : List.Forall₂ Fits columns observations) (hw : ∀ c ∈ columns, c.width ≤ 16) :
    ∀ o ∈ observations, o.Short := by
  induction h with
  | nil => simp
  | @cons column o columns observations hfits _ ih =>
    intro o' ho'
    rcases List.mem_cons.1 ho' with rfl | ho'
    · exact fun v hv => ⟨column, hw column (List.mem_cons_self ..), hfits.value v hv⟩
    · exact ih (fun c hc => hw c (List.mem_cons_of_mem _ hc)) o' ho'

namespace NumberEncoder

/-- A value that fits a short column can be written, and so can a missing one. -/
theorem Small.encodeNext {e : NumberEncoder} (h : e.Small) {value : Option Int64}
    (hvalue : ∀ v ∈ value, ∃ column : Column, column.width ≤ 16 ∧ column.Fits v.toInt) :
    ∃ e' field, e.encodeNext value = some (e', field) ∧ e'.Small := by
  cases value with
  | none => exact ⟨e, _, rfl, h⟩
  | some v =>
    obtain ⟨column, hw, hfit⟩ := hvalue v rfl
    exact encode_of_fits h hw hfit

end NumberEncoder

namespace SatelliteEncoder

/-- The rows of all columns are small. -/
def Small (e : SatelliteEncoder) : Prop := ∀ number ∈ e.numbers, number.Small

/-- New encoders are small. -/
theorem small_start {orders : ℕ → ℕ} (h : ∀ i, 0 < orders i ∧ orders i ≤ 8)
    (columns : List Column) : (start orders columns).Small := by
  intro number hnumber
  obtain ⟨i, -, rfl⟩ := List.mem_map.1 hnumber
  exact NumberEncoder.small_ofOrder (h i)

/-- Short values can be encoded, and keep the encoders small. -/
theorem encodeFields_of_short {es : List NumberEncoder} (h : ∀ e ∈ es, e.Small)
    {observations : List Observation} (hshort : ∀ o ∈ observations, o.Short) :
    ∃ es' fields, encodeFields es observations = some (es', fields) ∧ ∀ e ∈ es', e.Small := by
  induction es generalizing observations with
  | nil => exact ⟨[], [], rfl, h⟩
  | cons e es ih =>
    cases observations with
    | nil => exact ⟨e :: es, [], rfl, h⟩
    | cons o rest =>
      -- Short values keep the differences of every order short enough.
      obtain ⟨e', field, hfield, he'⟩ :=
        (h e (List.mem_cons_self ..)).encodeNext (hshort o (List.mem_cons_self ..))
      obtain ⟨es', fields, hfields, hes'⟩ := ih (fun e he => h e (List.mem_cons_of_mem _ he))
        fun o ho => hshort o (List.mem_cons_of_mem _ ho)
      refine ⟨e' :: es', field :: fields, ?_, ?_⟩
      · simp only [encodeFields, hfield, hfields, Option.bind_eq_bind, Option.bind_some]
      · intro e'' he''
        rcases List.mem_cons.1 he'' with rfl | he''
        · exact he'
        · exact hes' e'' he''

/-- Observations that fit short columns can be written. -/
theorem Small.encode {e : SatelliteEncoder} (h : e.Small) {observations : List Observation}
    (hshort : ∀ o ∈ observations, o.Short) :
    ∃ e' line, e.encode observations = some (e', line) ∧ e'.Small := by
  obtain ⟨numbers, fields, hfields, hsmall⟩ := encodeFields_of_short h hshort
  have hencode : e.encode observations = some
      ({ e with numbers, flags := Observation.flags observations }, DataLine.toText ⟨fields,
        Overlay.difference e.flags (Observation.flags observations)⟩) := by
    simp only [SatelliteEncoder.encode, hfields, Option.bind_eq_bind, Option.bind_some]
  exact ⟨_, _, hencode, hsmall⟩

end SatelliteEncoder

namespace Compressor

variable {maxOrder : ℕ}

/-- The columns are short, the orders are at most 8, and the rows are small. -/
structure Small (c : Compressor) : Prop where
  /-- The columns are short. -/
  width_le : ∀ column ∈ c.layout.allColumns, column.width ≤ 16
  /-- The orders are at most 8. -/
  orders : c.orders.Admitted 8
  /-- The row of the clock is small. -/
  clock : c.clock.Small
  /-- The rows of the satellites are small. -/
  satellites : ∀ s, ∀ encoder ∈ c.satellites s, encoder.Small

/-- A description keeps the encoders small. -/
theorem Small.described {c : Compressor} (h : c.Small) (e : EpochRecord) :
    (c.described e).Small := by
  refine ⟨h.width_le, h.orders, h.clock, fun s encoder hencoder => ?_⟩
  simp only [Compressor.described] at hencoder
  split at hencoder
  · cases hencoder
  · exact h.satellites s encoder hencoder

/-- So do fewer satellites. -/
theorem Small.retain {c : Compressor} (h : c.Small) (satellites : List Satellite) :
    (c.retain satellites).Small := by
  refine ⟨h.width_le, h.orders, h.clock, fun s encoder hencoder => ?_⟩
  simp only [Compressor.retain] at hencoder
  split at hencoder
  · exact h.satellites s encoder hencoder
  · cases hencoder

/-- The encoder of a satellite is small, also a new one. -/
theorem Small.encoderOf {c : Compressor} (h : c.Small) (s : Satellite) (columns : List Column) :
    (c.encoderOf s columns).Small := by
  unfold Compressor.encoderOf
  cases hencoder : c.satellites s with
  | none => exact SatelliteEncoder.small_start (h.orders.column s) columns
  | some encoder => exact h.satellites s encoder hencoder

/-- A small encoder takes its place among the others. -/
theorem Small.follow {c : Compressor} (h : c.Small) (s : Satellite) {encoder : SatelliteEncoder}
    (hencoder : encoder.Small) : (c.follow s encoder).Small := by
  refine ⟨h.width_le, h.orders, h.clock, fun s' encoder' hencoder' => ?_⟩
  simp only [Compressor.follow, Function.update_apply] at hencoder'
  split at hencoder'
  · cases hencoder'
    exact hencoder
  · exact h.satellites s' encoder' hencoder'

/-- The data lines can be written. -/
theorem Small.encodeRecords {c : Compressor} (h : c.Small) {rs : List SatelliteRecord}
    (hrs : ∀ r ∈ rs, ∃ columns, c.layout.columnsOf r.listed.satellite = some columns ∧
      List.Forall₂ Observation.Fits columns r.observations) :
    ∃ next lines, c.encodeRecords rs = some (next, lines) ∧ next.Small := by
  induction rs generalizing c with
  | nil => exact ⟨c, [], rfl, h⟩
  | cons r rs ih =>
    obtain ⟨columns, hcolumns, hfits⟩ := hrs r (List.mem_cons_self ..)
    have hshort := Observation.short_of_fits hfits fun column hc =>
      h.width_le column (Layout.mem_allColumns_of_columnsOf hcolumns hc)
    obtain ⟨encoder, line, hline, hencoder⟩ :=
      (h.encoderOf r.listed.satellite columns).encode hshort
    obtain ⟨next, lines, hlines, hnext⟩ := ih (h.follow r.listed.satellite hencoder)
      fun r' hr' => hrs r' (List.mem_cons_of_mem _ hr')
    refine ⟨next, line :: lines, ?_, hnext⟩
    simp only [Compressor.encodeRecords, hcolumns, hline, hlines, Option.bind_eq_bind,
      Option.bind_some]

/-- An epoch that is accepted can be written, and the rows are small after it. -/
theorem Small.encode {c : Compressor} (h : c.Small) {e : EpochRecord}
    (haccepts : c.Accepts maxOrder e) :
    ∃ next lines, c.encode e = some (next, lines) ∧ next.Small := by
  obtain ⟨-, -, hrest⟩ := haccepts
  cases hcontent : e.content with
  | observations clock records =>
    rw [hcontent] at hrest
    have hclock : c.layout.clock ∈ c.layout.allColumns := List.mem_cons_self ..
    -- The clock fits its column, so it can be encoded.
    obtain ⟨number, field, hnumber, hsmall⟩ := h.clock.encodeNext fun v hv =>
      ⟨c.layout.clock, h.width_le _ hclock, hrest.clock_fits v hv⟩
    have hview := (h.described e).retain (records.map fun r => r.listed.satellite)
    obtain ⟨next, lines, hlines, hnext⟩ := Small.encodeRecords
      (c := { (c.described e).retain (records.map fun r => r.listed.satellite) with
        clock := number })
      ⟨hview.width_le, hview.orders, hsmall, hview.satellites⟩
      fun r hr => (hrest.records_fit r hr).imp fun _ hr' => ⟨hr'.columnsOf, hr'.fits⟩
    refine ⟨next, c.epochLine e :: field.toText :: lines, ?_, hnext⟩
    simp only [Compressor.encode, hcontent, hnumber, hlines, Option.bind_eq_bind, Option.bind_some]
  | event flag records =>
    rw [hcontent] at hrest
    obtain ⟨layout, hlayout, -⟩ := hrest.layout_eq
    have hlayout' : eventLayout c.layout flag records = .ok layout := hlayout
    have hdescribed := h.described e
    -- The event leads to the layout that it has been accepted for.
    have hnext : e.nextLayout c.layout = layout := by
      simp only [EpochRecord.nextLayout, hcontent, hlayout']
      rfl
    refine ⟨{ c.described e with
      layout
      redefined := (c.described e).redefined || redefines flag records }, c.epochLine e :: records,
      by simp only [Compressor.encode, hcontent, hnext],
      fun column hc => ?_, h.orders, h.clock, hdescribed.satellites⟩
    rcases (of_eventLayout hlayout').2.2 column hc with hc | rfl
    · exact h.width_le column hc
    · decide

/-- Epochs that are accepted one after the other can be written. -/
theorem Small.encodeAll {c : Compressor} (h : c.Small) {es : List EpochRecord}
    (haccepts : c.AcceptsAll maxOrder es) : ∃ lines, c.encodeAll es = some lines := by
  induction es generalizing c with
  | nil => exact ⟨[], rfl⟩
  | cons e es ih =>
    obtain ⟨next, first, hfirst, hnext⟩ := h.encode haccepts.1
    obtain ⟨rest, hrest⟩ := ih hnext (haccepts.2 next first hfirst)
    refine ⟨first ++ rest, ?_⟩
    simp only [Compressor.encodeAll, hfirst, hrest, Option.bind_eq_bind, Option.bind_some]

/-- Before the first epoch all rows are empty. -/
theorem small_start {orders : Orders} (horders : orders.Admitted 8) {layout : Layout}
    (hw : ∀ column ∈ layout.allColumns, column.width ≤ 16) : (start orders layout).Small :=
  ⟨hw, horders, NumberEncoder.small_ofOrder horders.clock,
    fun _ _ hencoder => (nomatch hencoder)⟩

end Compressor

end CompactRinex
