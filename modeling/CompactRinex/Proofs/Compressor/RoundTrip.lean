import CompactRinex.Proofs.Compressor.Mirror
import CompactRinex.Proofs.Compressor.Range

/-!
# Round trips

A body that mirrors a compressor takes in all lines of an epoch, and then mirrors the compressor
after the epoch (`Mirrored.encode`). By induction on the epochs, a new body recovers everything that
the compressor writes (`run_encodeAll`): every line is accepted, what is added is the recovered file
as it follows from the epochs, and the content may end there.
-/

namespace CompactRinex

namespace Compressor

variable {maxOrder : ℕ}

/-- An epoch line starts the epoch that it describes. -/
theorem Mirrored.take_epochLine {c : Compressor} {b : Body maxOrder} (h : Mirrored c b)
    {e : EpochRecord} (hdesc : Describable e.description)
    (href : e.kind = .differential → c.reference ≠ none) :
    ∃ n, b.take (.line (c.epochLine e)) =
      (b.described (.ofText c.layout.revision (e.description ++ Text.blanks n))
        e.kind).startEpoch := by
  obtain ⟨n, hnext⟩ := h.next hdesc href
  exact ⟨n, Body.take_epochLine h.phase hnext⟩

/-- The description of an epoch is the reference of the next one. -/
theorem reference_described {c : Compressor} {e : EpochRecord} (hdesc : Describable e.description)
    {d : EpochDescription}
    (hd : ∃ n, d = .ofText c.layout.revision (e.description ++ Text.blanks n)) :
    ∀ description ∈ (c.described e).reference, Text.isAscii description ∧
      ∃ n, d = .ofText c.layout.revision (description ++ Text.blanks n) := by
  rintro _ ⟨⟩
  exact ⟨Text.isAscii_of_isPrintable hdesc.printable, hd⟩

/-! ## Events -/

/-- The epoch line of an event is passed on. -/
theorem Mirrored.take_event {c : Compressor} {b : Body maxOrder} (h : Mirrored c b)
    {e : EpochRecord} (hdesc : Describable e.description)
    (href : e.kind = .differential → c.reference ≠ none) {flag : EpochFlag} {records : List Text}
    (haccepts : (c.described e).AcceptsEvent maxOrder e.description flag records) :
    ∃ d, (∃ n, d = .ofText c.layout.revision (e.description ++ Text.blanks n)) ∧
      b.take (.line (c.epochLine e)) =
        ⟨{ b.described d e.kind with phase := Body.recordsPhase flag records.length },
          EpochDescription.eventLine c.layout.revision e.description ++ ['\n'], none⟩ := by
  obtain ⟨n, htake⟩ := h.take_epochLine hdesc href
  -- Spaces at the end of the description are the only difference.
  have hflag := EpochDescription.flag_append (Text.blanks n) haccepts.flag_eq
  have hcount := EpochDescription.count_append (Text.blanks n) haccepts.count_eq
  have htext := EpochDescription.render_event hflag haccepts.isEvent hcount
  rw [EpochDescription.eventLine_append (Text.blanks n) haccepts.count_eq] at htext
  rw [Body.startEpoch_of_event hflag haccepts.isEvent hcount htext] at htake
  exact ⟨_, ⟨n, rfl⟩, htake⟩

/-- The lines of an event. -/
theorem Mirrored.encode_event {c : Compressor} {b : Body maxOrder} (h : Mirrored c b)
    {e : EpochRecord} (hdesc : Describable e.description)
    (href : e.kind = .differential → c.reference ≠ none) {flag : EpochFlag} {records : List Text}
    (hcontent : e.content = .event flag records)
    (haccepts : (c.described e).AcceptsEvent maxOrder e.description flag records)
    {next : Compressor} {lines : List Text} (hencode : c.encode e = some (next, lines)) :
    ∃ b', b.run (lines.map .line) = .ok (b', e.text c.layout c.clock.row.head?) ∧
      Mirrored next b' ∧ next.layout = e.nextLayout c.layout ∧
      next.clock.row.head? = e.nextOffset c.clock.row.head? := by
  obtain ⟨layout, hlayout, hcheck⟩ := haccepts.layout_eq
  have hlayout' : eventLayout c.layout flag records = .ok layout := hlayout
  have hnext : e.nextLayout c.layout = layout := by
    simp only [EpochRecord.nextLayout, hcontent, hlayout']
    rfl
  simp only [encode, hcontent, hnext, Option.some.injEq, Prod.mk.injEq] at hencode
  obtain ⟨rfl, rfl⟩ := hencode
  obtain ⟨hrevision, hclock, -⟩ := of_eventLayout hlayout'
  obtain ⟨d, hd, htake⟩ := h.take_event hdesc href haccepts
  have htracks := h.toTracks.described e d
  have hrun := Body.run_event (b := b.described d e.kind)
    (show eventLayout b.layout flag records = .ok layout by rw [h.layout]; exact hlayout') hcheck
  -- An event touches neither the clock nor the tracks, only the layout that both are read with.
  refine ⟨{ b.described d e.kind with layout, phase := .epoch }, ?_,
    ⟨⟨rfl, hcheck, h.orders, htracks.tracks, fun hredefined => ?_⟩, rfl, ?_, ?_, ?_, ?_,
      h.clock_order, ?_⟩, hnext.symm, ?_⟩
  · rw [List.map_cons, Body.run_cons htake hrun]
    simp only [EpochRecord.text, hcontent]
  · -- The encoders still have the columns of the layout if no observables have been defined.
    simp only [Bool.or_eq_false_iff] at hredefined
    rw [eventLayout_of_not_redefines hredefined.2 hlayout']
    exact htracks.columns hredefined.1
  · obtain ⟨n, rfl⟩ := hd
    exact hrevision.symm
  · obtain ⟨n, rfl⟩ := hd
    rfl
  · rw [hrevision]
    exact reference_described hdesc hd
  · rw [hclock]
    exact h.clock
  · rw [hclock]
    exact h.clock_fits
  · simp only [EpochRecord.nextOffset, hcontent]
    rfl

/-! ## Epochs of observations -/

/-- Satellites that go out of view do not matter to the others. -/
theorem Ready.retain {c : Compressor} {r : SatelliteRecord} {columns : List Column}
    (h : c.Ready r columns) (satellites : List Satellite) (number : NumberEncoder) :
    ({ c.retain satellites with clock := number } : Compressor).Ready r columns := by
  refine ⟨h.columnsOf, h.fits, fun encoder hencoder => ?_⟩
  simp only [Compressor.retain] at hencoder
  split at hencoder
  · exact h.encoder encoder hencoder
  · cases hencoder

/-- The epoch line of an epoch of observations waits for the clock line, which completes it. -/
theorem Mirrored.take_observations {c : Compressor} {b : Body maxOrder} (h : Mirrored c b)
    {e : EpochRecord} (hdesc : Describable e.description)
    (href : e.kind = .differential → c.reference ≠ none) {clock : Option Int64}
    {records : List SatelliteRecord}
    (haccepts : (c.described e).AcceptsObservations e.description clock records) :
    ∃ d, (∃ n, d = .ofText c.layout.revision (e.description ++ Text.blanks n)) ∧
      b.take (.line (c.epochLine e)) =
        ⟨(b.described d e.kind).awaitClock (records.map SatelliteRecord.listed), [], none⟩ ∧
      ∀ offset, d.render offset = .ok
        (EpochDescription.observationLine c.layout.revision e.description records.length
          offset) := by
  obtain ⟨n, htake⟩ := h.take_epochLine hdesc href
  obtain ⟨flag, hflag, hevent⟩ : ∃ flag,
      (EpochDescription.ofText c.layout.revision e.description).flag = .ok flag ∧
        flag.isEvent = false := haccepts.flag_eq
  have hlisted : (EpochDescription.ofText c.layout.revision e.description).satellites c.layout =
    .ok (records.map SatelliteRecord.listed) := haccepts.satellites_eq
  -- The recovered description may have more spaces at its end.
  have hflag' := EpochDescription.flag_append (Text.blanks n) hflag
  have hlisted' := EpochDescription.satellites_append (Text.blanks n) hlisted
  have hlayout : b.layout = c.layout := h.layout
  rw [Body.startEpoch_of_observations hflag' hevent (by rw [← hlisted', ← hlayout]; rfl)] at htake
  refine ⟨_, ⟨n, rfl⟩, htake, fun offset => ?_⟩
  have htext := EpochDescription.render_observations hflag' hevent hlisted' offset
  rw [EpochDescription.observationLine_append (Text.blanks n) hlisted, List.length_map] at htext
  exact htext

/-- The lines of an epoch of observations. -/
theorem Mirrored.encode_observations {c : Compressor} {b : Body maxOrder} (h : Mirrored c b)
    (hM : maxOrder < UInt64.size) {e : EpochRecord} (hdesc : Describable e.description)
    (href : e.kind = .differential → c.reference ≠ none) {clock : Option Int64}
    {records : List SatelliteRecord} (hcontent : e.content = .observations clock records)
    (haccepts : (c.described e).AcceptsObservations e.description clock records)
    {next : Compressor} {lines : List Text} (hencode : c.encode e = some (next, lines)) :
    ∃ b', b.run (lines.map .line) = .ok (b', e.text c.layout c.clock.row.head?) ∧
      Mirrored next b' ∧ next.layout = e.nextLayout c.layout ∧
      next.clock.row.head? = e.nextOffset c.clock.row.head? := by
  simp only [encode, hcontent, Option.bind_eq_bind, Option.bind_eq_some_iff, Option.some.injEq,
    Prod.mk.injEq, Prod.exists] at hencode
  obtain ⟨number, field, hnumber, next, lines', hrecords, rfl, rfl⟩ := hencode
  have hoffset : e.nextOffset c.clock.row.head? = clock.or c.clock.row.head? := by
    simp only [EpochRecord.nextOffset, hcontent]
  have hview : (records.map SatelliteRecord.listed).map Listed.satellite =
      records.map fun r => r.listed.satellite := List.map_map
  -- The epoch line.
  obtain ⟨d, hd, htake, hrender⟩ := h.take_observations hdesc href haccepts
  -- The clock line.
  have hfits : ∀ v ∈ clock.or c.clock.row.head?, c.layout.clock.Fits v.toInt := by
    intro v hv
    cases clock with
    | none => exact h.clock_fits v hv
    | some offset => exact haccepts.clock_fits v hv
  have horders : 0 < c.clock.order ∧ c.clock.order ≤ maxOrder := h.clock_order ▸ h.orders.clock
  obtain ⟨clock', hmirrors, horder, hhead, htake'⟩ := take_clock
    (b := (b.described d e.kind).awaitClock (records.map SatelliteRecord.listed)) rfl h.clock
    horders hM hnumber hfits (hrender _)
  -- The data lines, of which there may be none.
  have htracks := h.toTracks.described e d
  have hretained :=
    htracks.retain ((records.map SatelliteRecord.listed).map Listed.satellite) .epoch
  have hready : ∀ r ∈ records, ∃ columns, ({ (c.described e).retain
      ((records.map SatelliteRecord.listed).map Listed.satellite) with clock := number } :
        Compressor).Ready r columns := fun r hr =>
    (haccepts.records_fit r hr).imp fun _ hr' => (htracks.ready hr').retain _ _
  rw [← hview] at hrecords
  obtain ⟨satellites, tracking, rfl, hrun, htracks'⟩ := Tracks.run_records
    (c := { (c.described e).retain ((records.map SatelliteRecord.listed).map Listed.satellite) with
      clock := number })
    (b := { (b.described d e.kind).awaitClock (records.map SatelliteRecord.listed) with
      phase := if (records.map SatelliteRecord.listed).isEmpty then .epoch
        else .observation (records.map SatelliteRecord.listed) 0
      clock := clock' })
    ⟨hretained.layout, hretained.check, hretained.orders, hretained.tracks, hretained.columns⟩ hM
    List.drop_zero (by rw [List.isEmpty_map]) hready hrecords
  refine ⟨_, ?_, ⟨htracks', rfl, ?_, ?_, reference_described hdesc hd, hmirrors,
    horder.trans h.clock_order, ?_⟩, ?_, ?_⟩
  · rw [List.map_cons, List.map_cons, Body.run_cons htake (Body.run_cons htake' hrun)]
    simp only [EpochRecord.text, hcontent, hoffset]
    rfl
  · obtain ⟨n, rfl⟩ := hd
    rfl
  · obtain ⟨n, rfl⟩ := hd
    rfl
  · rw [hhead]
    exact hfits
  · simp only [EpochRecord.nextLayout, hcontent]
    rfl
  · rw [hoffset]
    exact hhead

/-! ## All epochs -/

/-- The lines of an epoch recover the epoch, and the body mirrors the compressor after it. -/
theorem Mirrored.encode {c : Compressor} {b : Body maxOrder} (h : Mirrored c b)
    (hM : maxOrder < UInt64.size) {e : EpochRecord} (haccepts : c.Accepts maxOrder e)
    {next : Compressor} {lines : List Text} (hencode : c.encode e = some (next, lines)) :
    ∃ b', b.run (lines.map .line) = .ok (b', e.text c.layout c.clock.row.head?) ∧
      Mirrored next b' ∧ next.layout = e.nextLayout c.layout ∧
      next.clock.row.head? = e.nextOffset c.clock.row.head? := by
  obtain ⟨hdesc, href, hrest⟩ := haccepts
  cases hcontent : e.content with
  | observations clock records =>
    rw [hcontent] at hrest
    exact h.encode_observations hM hdesc href hcontent hrest hencode
  | event flag records =>
    rw [hcontent] at hrest
    exact h.encode_event hdesc href hcontent hrest hencode

/-- The lines of all epochs recover all epochs. -/
theorem Mirrored.encodeAll {c : Compressor} {b : Body maxOrder} (h : Mirrored c b)
    (hM : maxOrder < UInt64.size) {es : List EpochRecord} (haccepts : c.AcceptsAll maxOrder es)
    {lines : List Text} (hencode : c.encodeAll es = some lines) :
    ∃ b', b.run (lines.map .line) =
        .ok (b', EpochRecord.texts c.layout c.clock.row.head? es) ∧ b'.phase = .epoch := by
  induction es generalizing c b lines with
  | nil =>
    cases hencode
    exact ⟨b, rfl, h.phase⟩
  | cons e es ih =>
    simp only [Compressor.encodeAll, Option.bind_eq_bind, Option.bind_eq_some_iff,
      Option.some.injEq, Prod.exists] at hencode
    obtain ⟨next, first, hfirst, rest, hrest, rfl⟩ := hencode
    obtain ⟨b', hrun, hmirrored, hlayout, hoffset⟩ := h.encode hM haccepts.1 hfirst
    -- After the first epoch both sides mirror each other again.
    obtain ⟨b'', hrun', hphase⟩ := ih hmirrored (haccepts.2 next first hfirst) hrest
    refine ⟨b'', ?_, hphase⟩
    rw [List.map_append, Body.run_append hrun hrun', hlayout, hoffset]
    rfl

/-- A new body mirrors a compressor that has not written anything. -/
theorem mirrored_start {orders : Orders} (horders : orders.Admitted maxOrder) {layout : Layout}
    {b : Body maxOrder} (h : Body.ofLayout maxOrder layout = .ok b) :
    Mirrored (.start orders layout) b := by
  obtain ⟨hcheck, clock, hclock, rfl⟩ := Body.ofLayout_eq_ok h
  -- The clock of the body starts with the column of the layout.
  have hkernel : Kernel.ofColumn maxOrder layout.clock = .ok clock.kernel := by
    unfold Clock.ofColumn at hclock
    obtain ⟨k, hk, rfl⟩ := map_eq_ok_iff.1 hclock
    exact hk
  exact ⟨⟨rfl, hcheck, horders, fun _ => trivial, fun _ _ _ hencoder => (nomatch hencoder)⟩, rfl,
    rfl, rfl, fun _ hdesc => (nomatch hdesc), Kernel.mirrors_ofColumn hkernel _, rfl,
    fun _ hv => (nomatch hv)⟩

/-- Every body that a compressor writes is recovered: for every layout that a body can be made for,
all orders that are supported and all epochs that can be compressed one after the other, a new body
accepts every line, adds the recovered epochs, and may end after the last of them. With columns of
at most 16 characters and orders up to 8 all these epochs can be written. -/
theorem run_encodeAll (hM : maxOrder < UInt64.size) {layout : Layout} {b : Body maxOrder}
    (hstart : Body.ofLayout maxOrder layout = .ok b) {orders : Orders}
    (horders : orders.Admitted maxOrder) {es : List EpochRecord}
    (haccepts : (start orders layout).AcceptsAll maxOrder es) :
    (∀ lines, (start orders layout).encodeAll es = some lines →
      ∃ b', b.run (lines.map .line) = .ok (b', EpochRecord.texts layout none es) ∧
        b'.finish = .ok ()) ∧
    (orders.Admitted 8 → (∀ column ∈ layout.allColumns, column.width ≤ 16) →
      ∃ lines, (start orders layout).encodeAll es = some lines) := by
  refine ⟨fun lines hencode => ?_, fun hsmall hw => (small_start hsmall hw).encodeAll haccepts⟩
  obtain ⟨b', hrun, hphase⟩ := (mirrored_start horders hstart).encodeAll hM haccepts hencode
  refine ⟨b', hrun, ?_⟩
  simp only [Body.finish, hphase]

/-- Two epochs of a satellite, of which only the first is literal, and an event. -/
theorem run_encodeAll_satellite :
    ∃ b : Body 5, ∃ es, Body.ofLayout 5 ((Layout.ofRevision .v3).withObservables .gps 1) = .ok b ∧
      es = [
        ⟨.literal, " 2021 01 01 00 00 00.0000000  0  1      G01".toList, .observations (some 5)
          [⟨⟨⟨.gps, 1⟩, "G01".toList⟩, [⟨some 1000, ' ', '7'⟩]⟩]⟩,
        ⟨.differential, " 2021 01 01 00 00 30.0000000  0  1      G01".toList, .observations none
          [⟨⟨⟨.gps, 1⟩, "G01".toList⟩, [⟨some 1010, '4', ' '⟩]⟩]⟩,
        ⟨.differential, " 2021 01 01 00 01 00.0000000  3  1".toList,
          .event .newSiteOccupation ["NEW MARKER".toList]⟩] ∧
      (start ⟨3, fun _ _ => 3⟩ ((Layout.ofRevision .v3).withObservables .gps 1)).AcceptsAll 5 es ∧
      ∃ lines, (start ⟨3, fun _ _ => 3⟩
          ((Layout.ofRevision .v3).withObservables .gps 1)).encodeAll es = some lines ∧
        lines.length = 8 ∧ ∃ b', b.run (lines.map .line) = .ok (b', EpochRecord.texts
          ((Layout.ofRevision .v3).withObservables .gps 1) none es) ∧ b'.finish = .ok () := by
  refine ⟨?_, ?_, ?start, ?epochs, ?accepts, ?_, ?lines, ?length,
    (run_encodeAll (by decide) ?start ⟨by decide, fun _ _ => show 0 < 3 ∧ 3 ≤ 5 by decide⟩
      ?accepts).1 _ ?lines⟩
  case start => rfl
  case epochs => rfl
  case lines => rfl
  case length => rfl
  case accepts =>
    have hobservation : ∀ value : Int64, Column.observation.Fits value.toInt → ∀ lli ssi,
        Observation.isFlag lli = true → Observation.isFlag ssi = true →
        List.Forall₂ Observation.Fits [Column.observation] [⟨some value, lli, ssi⟩] := by
      intro value hvalue lli ssi hlli hssi
      refine .cons ⟨?_, hlli, hssi⟩ .nil
      rintro _ ⟨⟩
      exact hvalue
    -- The literal epoch.
    refine ⟨⟨⟨rfl, by decide, by decide⟩, nofun, ⟨_, rfl, rfl⟩, rfl, ?_, ?_⟩, fun next _ h => ?_⟩
    · rintro _ ⟨⟩
      decide
    · intro r hr
      obtain rfl := List.mem_singleton.1 hr
      exact ⟨_, rfl, hobservation 1000 (by decide) ' ' '7' rfl rfl, nofun⟩
    cases h
    -- The epoch whose description is an edit.
    refine ⟨⟨⟨rfl, by decide, by decide⟩, nofun, ⟨_, rfl, rfl⟩, rfl, ?_, ?_⟩, fun next _ h => ?_⟩
    · rintro _ ⟨⟩
    · intro r hr
      obtain rfl := List.mem_singleton.1 hr
      exact ⟨_, rfl, hobservation 1010 (by decide) '4' ' ' rfl rfl, nofun⟩
    cases h
    -- The event.
    exact ⟨⟨⟨rfl, by decide, by decide⟩, nofun, rfl, rfl, rfl, _, rfl, rfl⟩, fun _ _ _ => trivial⟩

end Compressor

end CompactRinex
