import CompactRinex.Proofs.Compressor.Epochs
import CompactRinex.Proofs.Epoch.Line

/-!
# A body that follows a compressor

Between two epochs a body mirrors a compressor: its description is the latest one, apart from spaces
at the end, and the clock and every track mirror their encoders (`Compressor.Mirrored`). Each line
that the compressor writes for an epoch is accepted, adds its part of the recovered file, and in the
end the two mirror each other again (`Mirrored.encode`).
-/

namespace CompactRinex

namespace Compressor

variable {maxOrder : ℕ}

/-- A satellite is in view of both or of neither, and its track mirrors its encoder. -/
def TrackMirrors : Option SatelliteEncoder → Option (Track maxOrder) → Prop
  | none, none => True
  | some encoder, some track => track.Mirrors encoder
  | _, _ => False

/-- The part of a body that changes during an epoch mirrors the one of the compressor. -/
structure Tracks (c : Compressor) (b : Body maxOrder) : Prop where
  /-- The layouts are the same. -/
  layout : b.layout = c.layout
  /-- The layout is supported. -/
  check : c.layout.check maxOrder = .ok ()
  /-- The orders are supported. -/
  orders : c.orders.Admitted maxOrder
  /-- The track of each satellite mirrors its encoder. -/
  tracks : ∀ s, TrackMirrors (c.satellites s) (b.tracking.tracks.get? s)
  /-- Unless observables have been defined anew, the encoders have the columns of the layout. -/
  columns : c.redefined = false → ∀ s, ∀ encoder ∈ c.satellites s,
    c.layout.columnsOf s = some encoder.columns

/-- The body mirrors the compressor between two epochs. -/
structure Mirrored (c : Compressor) (b : Body maxOrder) : Prop extends c.Tracks b where
  /-- The next line is an epoch line. -/
  phase : b.phase = .epoch
  /-- The description has the revision of the layout. -/
  revision : b.epoch.revision = c.layout.revision
  /-- The description has no least width. -/
  width : b.epoch.overlay.width = 0
  /-- The description is the latest one, apart from spaces at the end. -/
  reference : ∀ description ∈ c.reference, Text.isAscii description ∧
    ∃ n, b.epoch = .ofText c.layout.revision (description ++ Text.blanks n)
  /-- The clock mirrors its encoder. -/
  clock : Kernel.Mirrors c.layout.clock c.clock b.clock.kernel
  /-- The encoder of the clock has its order. -/
  clock_order : c.clock.order = c.orders.clock
  /-- The latest offset fits the column of the clock. -/
  clock_fits : ∀ v ∈ c.clock.row.head?, c.layout.clock.Fits v.toInt

/-! ## The epoch line -/

/-- An epoch line gives its description, apart from spaces at the end. -/
theorem Mirrored.next {c : Compressor} {b : Body maxOrder} (h : Mirrored c b) {e : EpochRecord}
    (hdesc : Describable e.description) (href : e.kind = .differential → c.reference ≠ none) :
    ∃ n, b.epoch.next (c.epochLine e) =
      .ok (.ofText c.layout.revision (e.description ++ Text.blanks n), e.kind) := by
  have hascii := Text.isAscii_of_isPrintable hdesc.printable
  cases hkind : e.kind with
  | literal =>
    refine ⟨0, ?_⟩
    have hnext := EpochDescription.next_marker b.epoch hascii
    rw [h.revision] at hnext
    simp only [epochLine, hkind, hnext, Overlay.force, h.width]
    simp [EpochDescription.ofText, Text.padRight, Text.blanks]
  | differential =>
    obtain ⟨before, hbefore⟩ := Option.ne_none_iff_exists'.1 (href hkind)
    obtain ⟨hbefore_ascii, n, hepoch⟩ := h.reference before hbefore
    -- The compressor edits the description itself, the body what it has made of it.
    have hblanks : Text.padRight (before.length + n) before = before ++ Text.blanks n := by
      rw [Text.padRight, Nat.add_sub_cancel_left]
    have htext : Text.isAscii (before ++ Text.blanks n) := by
      rw [← hblanks]
      exact Overlay.isAscii_padRight hbefore_ascii
    have hagree : ∀ i, (before ++ Text.blanks n).getD i ' ' = before.getD i ' ' := by
      intro i
      rw [← hblanks, Overlay.getD_padRight]
    have hrecover := Overlay.recover_of_isAscii (o := b.epoch.overlay)
      (by rw [hepoch]; rfl) htext (Overlay.isAscii_difference before hdesc.printable)
    have hnext := EpochDescription.next_space b.epoch hrecover
    -- An edit cannot shorten the description, so spaces may be left behind it.
    have hcolumns := Overlay.getD_merge_difference hagree hdesc.printable hdesc.not_mem
    have hlen := Text.length_le_of_getD hcolumns hdesc.getLast_ne
    obtain ⟨m, hm⟩ : ∃ m, Overlay.merge (before ++ Text.blanks n)
        (Overlay.difference before e.description) = e.description ++ Text.blanks m :=
      ⟨_, Text.eq_append_blanks hcolumns hlen⟩
    refine ⟨m, ?_⟩
    rw [← hm]
    simp only [epochLine, hkind, hbefore, Option.getD_some, hnext, h.width, h.revision]
    simp [EpochDescription.ofText, Text.padRight, Text.blanks]

/-- A literal line takes all satellites out of view, any other line none. -/
theorem Tracks.described {c : Compressor} {b : Body maxOrder} (h : Tracks c b) (e : EpochRecord)
    (epoch : EpochDescription) : Tracks (c.described e) (b.described epoch e.kind) := by
  refine ⟨h.layout, h.check, h.orders, fun s => ?_, fun hredefined s encoder hencoder => ?_⟩
  · by_cases hkind : e.kind = .literal
    · simp only [Compressor.described, Body.described, hkind, if_true]
      trivial
    · simp only [Compressor.described, Body.described, hkind, if_false]
      exact h.tracks s
  · by_cases hkind : e.kind = .literal
    · simp [Compressor.described, hkind] at hencoder
    · simp only [Compressor.described, hkind, if_false] at hencoder
      -- What has been redefined is remembered over a difference.
      have hsame : c.redefined = false := by simpa [Compressor.described, hkind] using hredefined
      exact h.columns hsame s encoder hencoder

/-- The satellites that are not listed go out of view. -/
theorem Tracks.retain {c : Compressor} {b : Body maxOrder} (h : Tracks c b)
    (satellites : List Satellite) (phase : Phase) :
    Tracks (c.retain satellites) { b with phase, tracking := b.tracking.retain satellites } := by
  refine ⟨h.layout, h.check, h.orders, fun s => ?_, fun hredefined s encoder hencoder => ?_⟩
  · simp only [Compressor.retain, Tracking.retain, Table.get?_restrict, List.contains_iff_mem]
    by_cases hmem : s ∈ satellites
    · simp only [hmem, if_true]
      exact h.tracks s
    · simp only [hmem, if_false]
      trivial
  · simp only [Compressor.retain] at hencoder
    split at hencoder
    · exact h.columns hredefined s encoder hencoder
    · cases hencoder

/-! ## The clock line -/

/-- The clock takes in what its encoder writes. -/
theorem next_clock {column : Column} {e e' : NumberEncoder} {clock : Clock maxOrder}
    (h : Kernel.Mirrors column e clock.kernel) (horder : 0 < e.order ∧ e.order ≤ maxOrder)
    (hM : maxOrder < UInt64.size) {value : Option Int64} {field : Field}
    (hencode : e.encodeNext value = some (e', field)) :
    ∃ clock' answer, clock.next field.toText = .ok (clock', answer) ∧
      Kernel.Mirrors column e' clock'.kernel ∧ e'.order = e.order ∧
      e'.row.head? = value.or e.row.head? := by
  cases value with
  | none =>
    cases hencode
    exact ⟨clock, _, rfl, h, rfl, rfl⟩
  | some v =>
    have hencode' : e.encode v = some (e', field) := hencode
    obtain ⟨horder', hhead, hfield, hbounded⟩ := NumberEncoder.of_encode hencode' horder.1
    obtain ⟨k, hstep, hmirrors⟩ := h.step horder.1 horder.2 hencode'
    -- The field is read back as it was written.
    have hparse := Field.parse_toText (hbounded (lt_of_le_of_lt horder.2 hM))
    refine ⟨⟨k⟩, some v, ?_, hmirrors, horder', hhead⟩
    simp only [Clock.next, hparse, bind, Except.bind]
    cases field with
    | missing => exact absurd rfl hfield
    | literal order value => simp only [hstep, Except.map]
    | delta difference => simp only [hstep, Except.map]

/-- The latest offset is written when it fits its column. -/
theorem render_clock {column : Column} {e : NumberEncoder} {clock : Clock maxOrder}
    (h : Kernel.Mirrors column e clock.kernel)
    (hfits : ∀ v ∈ e.row.head?, column.Fits v.toInt) :
    clock.render = .ok (e.row.head?.map fun v => column.text v.toInt) := by
  have hvalue : clock.value? = e.row.head? := by rw [Clock.value?, Kernel.value?, h.row_eq]
  simp only [Clock.render, hvalue]
  cases hhead : e.row.head? with
  | none => rfl
  | some v =>
    simp only [Kernel.render, h.column_eq, Column.render_of_fits (hfits v hhead)]
    rfl

/-- A clock line completes the epoch line. -/
theorem take_clock {column : Column} {e e' : NumberEncoder} {b : Body maxOrder}
    {listed : List Listed} (hphase : b.phase = .clock listed)
    (h : Kernel.Mirrors column e b.clock.kernel) (horder : 0 < e.order ∧ e.order ≤ maxOrder)
    (hM : maxOrder < UInt64.size) {value : Option Int64} {field : Field}
    (hencode : e.encodeNext value = some (e', field))
    (hfits : ∀ v ∈ value.or e.row.head?, column.Fits v.toInt) {text : Text}
    (htext : b.epoch.render ((value.or e.row.head?).map fun v => column.text v.toInt) =
      .ok text) :
    ∃ clock, Kernel.Mirrors column e' clock.kernel ∧ e'.order = e.order ∧
      e'.row.head? = value.or e.row.head? ∧
      b.take (.line field.toText) = ⟨{ b with
        clock
        phase := if listed.isEmpty then .epoch else .observation listed 0 },
        text ++ ['\n'], none⟩ := by
  obtain ⟨clock, answer, hnext, hmirrors, horder', hhead⟩ := next_clock h horder hM hencode
  -- The offset is that of the encoder, which has it already.
  have hrender := render_clock hmirrors (by rwa [hhead])
  rw [hhead] at hrender
  exact ⟨clock, hmirrors, horder', hhead,
    Body.take_clockLine hphase hnext (bind_eq_ok_iff.2 ⟨_, hrender, htext⟩)⟩

/-! ## The data lines -/

/-- The observations fit the columns, and the encoder of the satellite, if it has one, is one for
these columns. -/
structure Ready (c : Compressor) (r : SatelliteRecord) (columns : List Column) : Prop where
  columnsOf : c.layout.columnsOf r.listed.satellite = some columns
  fits : List.Forall₂ Observation.Fits columns r.observations
  encoder : ∀ encoder ∈ c.satellites r.listed.satellite, encoder.columns = columns

/-- A record that is accepted has an encoder for its columns. -/
theorem Tracks.ready {c : Compressor} {b : Body maxOrder} (h : Tracks c b) {r : SatelliteRecord}
    {columns : List Column} (hr : c.AcceptsRecord r columns) : c.Ready r columns := by
  refine ⟨hr.columnsOf, hr.fits, fun encoder hencoder => ?_⟩
  cases hredefined : c.redefined with
  | true => exact hr.kept hredefined encoder hencoder
  | false =>
    have hcolumns := h.columns hredefined _ encoder hencoder
    rw [hr.columnsOf] at hcolumns
    exact (Option.some.inj hcolumns).symm

/-- The encoder of a satellite has the columns of the layout. -/
theorem Ready.columns_encoderOf {c : Compressor} {r : SatelliteRecord} {columns : List Column}
    (h : c.Ready r columns) : (c.encoderOf r.listed.satellite columns).columns = columns := by
  unfold encoderOf
  cases hencoder : c.satellites r.listed.satellite with
  | none => rfl
  | some encoder => exact h.encoder encoder hencoder

/-- The records that follow stay ready. -/
theorem Ready.follow {c : Compressor} {r r' : SatelliteRecord} {columns columns' : List Column}
    (h : c.Ready r columns) (h' : c.Ready r' columns') {encoder : SatelliteEncoder}
    (hencoder : encoder.columns = columns) :
    (c.follow r.listed.satellite encoder).Ready r' columns' := by
  refine ⟨h'.columnsOf, h'.fits, fun encoder' hencoder' => ?_⟩
  simp only [Compressor.follow, Function.update_apply] at hencoder'
  split at hencoder'
  · next hsame =>
    cases hencoder'
    -- If a satellite occurs twice, both records have the columns of its system.
    have hcolumns := h'.columnsOf
    rw [hsame, h.columnsOf] at hcolumns
    rw [hencoder, Option.some.inj hcolumns]
  · exact h'.encoder encoder' hencoder'

/-- The track of a satellite mirrors its encoder, also when it comes into view. -/
theorem Tracks.mirrors_encoderOf {c : Compressor} {b : Body maxOrder} (h : Tracks c b)
    {s : Satellite} {columns : List Column} (hcolumns : c.layout.columnsOf s = some columns) :
    Track.Mirrors (c.encoderOf s columns)
      ((b.tracking.tracks.get? s).getD (.fresh columns.length)) := by
  have htrack := h.tracks s
  unfold encoderOf
  cases hencoder : c.satellites s with
  | some encoder =>
    cases hget : b.tracking.tracks.get? s with
    | some track => rw [hencoder, hget] at htrack; exact htrack
    | none => rw [hencoder, hget] at htrack; exact htrack.elim
  | none =>
    cases hget : b.tracking.tracks.get? s with
    | some track => rw [hencoder, hget] at htrack; exact htrack.elim
    | none =>
      -- Both sides start anew.
      refine Track.mirrors_start (h.orders.column s) fun column hc => ?_
      exact (Layout.checkOrders_eq_ok_iff _ _).1 h.check column
        (Layout.mem_allColumns_of_columnsOf hcolumns hc)

/-- A data line recovers the observations of its satellite. -/
theorem Tracks.take_record {c : Compressor} {b : Body maxOrder} (h : Tracks c b)
    (hM : maxOrder < UInt64.size) {listed : List Listed} {position : ℕ}
    (hphase : b.phase = .observation listed position) {r : SatelliteRecord}
    (hentry : listed[position]? = some r.listed) {columns : List Column} (hr : c.Ready r columns)
    {encoder : SatelliteEncoder} {line : Text}
    (hencode : (c.encoderOf r.listed.satellite columns).encode r.observations =
      some (encoder, line)) :
    encoder.columns = columns ∧ ∃ tracking, b.take (.line line) = ⟨{ b with
        tracking
        phase := if position + 1 = listed.length then .epoch
          else .observation listed (position + 1) },
        recordText c.layout.revision r.listed.id
          (List.zipWith Observation.text columns r.observations) ++ ['\n'], none⟩ ∧
      ∀ phase, Tracks (c.follow r.listed.satellite encoder) { b with tracking, phase } := by
  have hcolumns := hr.columns_encoderOf
  have hmirrors := h.mirrors_encoderOf hr.columnsOf
  obtain ⟨hascii, hsame, dataLine, hparse, hresult, hmirrors'⟩ :=
    hmirrors.advance hM (by rw [hcolumns]; exact hr.fits) hencode
  rw [hcolumns] at hsame hparse hresult hmirrors'
  obtain ⟨track, hdecode, htrack⟩ : ∃ track,
      b.tracking.decode b.layout r.listed.satellite r.listed.id line =
        ⟨⟨b.tracking.tracks.insert r.listed.satellite track⟩,
          .ok (recordText c.layout.revision r.listed.id
            (List.zipWith Observation.text columns r.observations))⟩ ∧
      Track.Mirrors encoder track := by
    refine ⟨_, ?_, hmirrors'⟩
    simp only [Tracking.decode, h.layout, hr.columnsOf, hascii, if_true, hparse, hresult,
      Except.map, render_eq_recordText]
  refine ⟨hsame, ⟨b.tracking.tracks.insert r.listed.satellite track⟩, ?_, fun phase =>
    ⟨h.layout, h.check, h.orders, fun s => ?_, fun hredefined s encoder' hencoder' => ?_⟩⟩
  · rw [Body.take_dataLine hphase hentry (by rw [hdecode]), hdecode]
  · -- Only the track of the satellite has changed, as has its encoder.
    simp only [Compressor.follow, Function.update_apply, Table.get?_insert]
    by_cases hs : s = r.listed.satellite
    · simp only [hs, if_true]
      exact htrack
    · simp only [hs, if_false]
      exact h.tracks s
  · simp only [Compressor.follow, Function.update_apply] at hencoder'
    split at hencoder'
    · next hs =>
      cases hencoder'
      rw [hs, hsame]
      exact hr.columnsOf
    · exact h.columns hredefined s encoder' hencoder'

/-- The data lines of an epoch recover the observations of its satellites, one after the other. -/
theorem Tracks.run_records {c : Compressor} {b : Body maxOrder} (h : Tracks c b)
    (hM : maxOrder < UInt64.size) {listed : List Listed} {position : ℕ} {rs : List SatelliteRecord}
    (hlisted : listed.drop position = rs.map SatelliteRecord.listed)
    (hphase : b.phase = if rs.isEmpty then .epoch else .observation listed position)
    (hrs : ∀ r ∈ rs, ∃ columns, c.Ready r columns) {next : Compressor} {lines : List Text}
    (hencode : c.encodeRecords rs = some (next, lines)) :
    ∃ satellites tracking, next = { c with satellites } ∧
      b.run (lines.map .line) = .ok ({ b with tracking, phase := .epoch },
        rs.flatMap fun r => recordText c.layout.revision r.listed.id
          (List.zipWith Observation.text ((c.layout.columnsOf r.listed.satellite).getD [])
            r.observations) ++ ['\n']) ∧
      Tracks next { b with tracking, phase := .epoch } := by
  induction rs generalizing c b position lines with
  | nil =>
    cases hencode
    obtain ⟨layout, phase, epoch, clock, tracking⟩ := b
    obtain rfl : phase = .epoch := hphase
    exact ⟨_, tracking, rfl, rfl, h⟩
  | cons r rs ih =>
    simp only [encodeRecords, Option.bind_eq_bind, Option.bind_eq_some_iff, Option.some.injEq,
      Prod.mk.injEq, Prod.exists] at hencode
    obtain ⟨columns, hcolumns, encoder, line, hline, next, lines', hlines, rfl, rfl⟩ := hencode
    obtain ⟨columns', hr⟩ := hrs r (List.mem_cons_self ..)
    obtain rfl : columns' = columns := Option.some.inj (hr.columnsOf.symm.trans hcolumns)
    -- The satellite of the next line is the one at the position, and the last one ends the epoch.
    have hlen : position < listed.length := by
      by_contra hle
      rw [List.drop_eq_nil_of_le (Nat.le_of_not_lt hle)] at hlisted
      cases hlisted
    rw [List.drop_eq_getElem_cons hlen, List.map_cons, List.cons.injEq] at hlisted
    have hentry : listed[position]? = some r.listed := by
      rw [List.getElem?_eq_getElem hlen, hlisted.1]
    have hlast : position + 1 = listed.length ↔ rs.isEmpty = true := by
      have hcount := congrArg List.length hlisted.2
      rw [List.length_drop, List.length_map] at hcount
      rw [List.isEmpty_iff_length_eq_zero]
      omega
    obtain ⟨hsame, tracking, htake, htracks⟩ := h.take_record hM hphase hentry hr hline
    rw [if_congr hlast rfl rfl] at htake
    obtain ⟨satellites, tracking', rfl, hrun, htracks'⟩ :=
      ih (htracks _) hlisted.2 rfl
        (fun r' hr' => (hrs r' (List.mem_cons_of_mem _ hr')).imp fun _ h' => hr.follow h' hsame)
        hlines
    refine ⟨satellites, tracking', rfl, ?_, htracks'⟩
    rw [List.map_cons, Body.run_cons htake hrun]
    simp only [List.flatMap_cons, hcolumns, Option.getD_some]
    rfl

end Compressor

end CompactRinex
