import CompactRinex.Proofs.Body.Epochs
import CompactRinex.Proofs.Body.Invariant
import CompactRinex.Proofs.Text.Lines
import Mathlib.Data.List.Induction

/-!
# The blocks of a body

The lines of a body come in blocks: an epoch line of observations, a clock line and one data line
for each satellite that the epoch line lists; or the epoch line of an event and as many special
records as it counts. `Body.Portion` says what the first lines of a block lead to, and how many are
still missing. A body accepts a sequence of lines just if these are whole blocks and a portion of
one more (`run_eq_ok_iff_framed`), and as the epoch line says how long its block is, there is one
way only to cut the sequence (`Framed.unique`).
-/

namespace CompactRinex

/-! ## Data lines -/

namespace Tracking

variable {maxOrder : ℕ}

/-- Takes in data lines, each for its satellite, and answers with the records. -/
def decodeAll (layout : Layout) :
    Tracking maxOrder → List (Listed × Text) → Except Fault (Tracking maxOrder × List Text)
  | t, [] => .ok (t, [])
  | t, (entry, line) :: rest => do
    let decoded := t.decode layout entry.satellite entry.id line
    let record ← decoded.result
    let (t, records) ← decodeAll layout decoded.state rest
    .ok (t, record :: records)

/-- The first data line, and then the others. -/
theorem decodeAll_cons_eq_ok_iff {layout : Layout} {t t' : Tracking maxOrder} {entry : Listed}
    {line : Text} {rest : List (Listed × Text)} {records : List Text} :
    t.decodeAll layout ((entry, line) :: rest) = .ok (t', records) ↔
      ∃ record records', (t.decode layout entry.satellite entry.id line).result = .ok record ∧
        (t.decode layout entry.satellite entry.id line).state.decodeAll layout rest =
          .ok (t', records') ∧ records = record :: records' := by
  simp only [decodeAll]
  constructor
  · intro h
    obtain ⟨record, hrecord, h⟩ := bind_eq_ok_iff.1 h
    obtain ⟨⟨t'', records'⟩, hrest, h⟩ := bind_eq_ok_iff.1 h
    cases h
    exact ⟨record, records', hrecord, hrest, rfl⟩
  · rintro ⟨record, records', hrecord, hrest, rfl⟩
    exact bind_eq_ok_iff.2 ⟨record, hrecord, bind_eq_ok_iff.2 ⟨_, hrest, rfl⟩⟩

/-- One more data line. -/
theorem decodeAll_concat {layout : Layout} {t t' : Tracking maxOrder}
    {pairs : List (Listed × Text)} {records : List Text}
    (h : t.decodeAll layout pairs = .ok (t', records)) {entry : Listed} {line record : Text}
    (hrecord : (t'.decode layout entry.satellite entry.id line).result = .ok record) :
    t.decodeAll layout (pairs ++ [(entry, line)]) =
      .ok ((t'.decode layout entry.satellite entry.id line).state, records ++ [record]) := by
  induction pairs generalizing t records with
  | nil =>
    cases h
    exact decodeAll_cons_eq_ok_iff.2 ⟨record, [], hrecord, rfl, rfl⟩
  | cons pair pairs ih =>
    obtain ⟨first, records', hfirst, hrest, rfl⟩ := decodeAll_cons_eq_ok_iff.1 h
    exact decodeAll_cons_eq_ok_iff.2 ⟨first, _, hfirst, ih hrest, rfl⟩

end Tracking

namespace Body

variable {maxOrder : ℕ}

/-! ## Portions of a block -/

/-- The line is the epoch line of observations. -/
structure StartsObservations (b : Body maxOrder) (line : Text) (d : EpochDescription)
    (kind : EpochKind) (listed : List Listed) : Prop where
  /-- The line gives the description. -/
  next_eq : b.epoch.next line = .ok (d, kind)
  /-- The description lists the satellites. -/
  lists : d.Lists b.layout listed

/-- The line is the epoch line of an event. -/
structure StartsEvent (b : Body maxOrder) (line : Text) (d : EpochDescription) (kind : EpochKind)
    (flag : EpochFlag) (count : ℕ) (head : Text) : Prop where
  /-- The line gives the description. -/
  next_eq : b.epoch.next line = .ok (d, kind)
  /-- The flag of the description. -/
  flag_eq : d.flag = .ok flag
  /-- The flag is that of an event. -/
  isEvent : flag.isEvent = true
  /-- The number of special records. -/
  count_eq : d.count = .ok count
  /-- The recovered epoch line. -/
  head_eq : d.render none = .ok head

/-- After so many data lines the next one follows, or the next epoch line. -/
def dataPhase (listed : List Listed) (count : ℕ) : Phase :=
  if count = listed.length then .epoch else .observation listed count

/-- Before the first data line. -/
theorem dataPhase_zero (listed : List Listed) :
    dataPhase listed 0 = if listed.isEmpty then .epoch else .observation listed 0 := by
  cases listed <;> rfl

/-- After the last data line an epoch line is awaited. -/
theorem dataPhase_eq_epoch_iff {listed : List Listed} {count : ℕ} :
    dataPhase listed count = .epoch ↔ count = listed.length := by
  unfold dataPhase
  split
  · next h => exact iff_of_true rfl h
  · next h => exact iff_of_false nofun h

/-- What the first lines of a block lead to, and how many lines are missing after them. A block
without missing lines is whole. -/
inductive Portion (b : Body maxOrder) : List Text → ℕ → Body maxOrder → Text → Prop where
  /-- The epoch line of observations, which is not written before its clock is known. -/
  | described {line : Text} {d : EpochDescription} {kind : EpochKind} {listed : List Listed}
      (hstart : b.StartsObservations line d kind listed) :
      Portion b [line] (listed.length + 1) ((b.described d kind).awaitClock listed) []
  /-- An epoch line of observations, its clock line, and data lines for the satellites from the
  first one on. -/
  | observations {line offset : Text} {data : List Text} {missing : ℕ} {d : EpochDescription}
      {kind : EpochKind} {listed : List Listed} {clock : Clock maxOrder} {value : Option Int64}
      {head : Text} {tracking : Tracking maxOrder} {records : List Text}
      (hstart : b.StartsObservations line d kind listed)
      (hclock : b.clock.next offset = .ok (clock, value))
      (hhead : clock.render >>= d.render = .ok head)
      (hdata : ((b.described d kind).awaitClock listed).tracking.decodeAll b.layout
        (listed.zip data) = .ok (tracking, records))
      (hmissing : data.length + missing = listed.length) :
      Portion b (line :: offset :: data) missing
        ⟨b.layout, dataPhase listed data.length, d, clock, tracking⟩
        (Text.unlines (head :: records))
  /-- The epoch line of an event and some of its special records. -/
  | records {line : Text} {records : List Text} {missing : ℕ} {d : EpochDescription}
      {kind : EpochKind} {flag : EpochFlag} {head : Text} {update : Option Header}
      (hstart : b.StartsEvent line d kind flag (records.length + (missing + 1)) head)
      (hread : collectRecords flag records = .ok update) :
      Portion b (line :: records) (missing + 1)
        ⟨b.layout, .records (missing + 1) update, d, b.clock, (b.described d kind).tracking⟩
        (Text.unlines (head :: records))
  /-- The epoch line of an event and all of its special records, whose definitions are in force
  then. -/
  | event {line : Text} {records : List Text} {d : EpochDescription} {kind : EpochKind}
      {flag : EpochFlag} {head : Text} {layout : Layout}
      (hstart : b.StartsEvent line d kind flag records.length head)
      (hlayout : eventLayout b.layout flag records = .ok layout)
      (hcheck : layout.check maxOrder = .ok ()) :
      Portion b (line :: records) 0
        ⟨layout, .epoch, d, b.clock, (b.described d kind).tracking⟩
        (Text.unlines (head :: records))

/-! ## The length of a block -/

/-- The number of lines of a block, as its epoch line says. -/
def blockLength (b : Body maxOrder) (line : Text) : Except Fault ℕ := do
  let (d, _) ← b.epoch.next line
  let flag ← d.flag
  let count ← d.count
  .ok (if flag.isEvent then count + 1 else count + 2)

/-- The length of a block is known from its epoch line. -/
theorem blockLength_eq_ok {b : Body maxOrder} {line : Text} {d : EpochDescription}
    {kind : EpochKind} {flag : EpochFlag} {count : ℕ} (hnext : b.epoch.next line = .ok (d, kind))
    (hflag : d.flag = .ok flag) (hcount : d.count = .ok count) :
    b.blockLength line = .ok (if flag.isEvent then count + 1 else count + 2) :=
  bind_eq_ok_iff.2 ⟨_, hnext, bind_eq_ok_iff.2 ⟨_, hflag, bind_eq_ok_iff.2 ⟨_, hcount, rfl⟩⟩⟩

/-- Observations have a clock line, and a data line for each satellite. -/
theorem StartsObservations.blockLength_eq {b : Body maxOrder} {line : Text} {d : EpochDescription}
    {kind : EpochKind} {listed : List Listed} (h : b.StartsObservations line d kind listed) :
    b.blockLength line = .ok (listed.length + 2) := by
  obtain ⟨flag, hflag, hevent⟩ := h.lists.flag_eq
  rw [blockLength_eq_ok h.next_eq hflag h.lists.count_eq, hevent]
  rfl

/-- An event has its records. -/
theorem StartsEvent.blockLength_eq {b : Body maxOrder} {line : Text} {d : EpochDescription}
    {kind : EpochKind} {flag : EpochFlag} {count : ℕ} {head : Text}
    (h : b.StartsEvent line d kind flag count head) : b.blockLength line = .ok (count + 1) := by
  rw [blockLength_eq_ok h.next_eq h.flag_eq h.count_eq, h.isEvent]
  rfl

/-- The lines of a portion and the missing ones make a block. -/
theorem Portion.length_eq {b b' : Body maxOrder} {lines : List Text} {missing : ℕ} {output : Text}
    (h : Portion b lines missing b' output) :
    ∃ line rest, lines = line :: rest ∧ b.blockLength line = .ok (lines.length + missing) := by
  cases h with
  | @described line _ _ listed hstart =>
    refine ⟨line, [], rfl, ?_⟩
    rw [hstart.blockLength_eq, List.length_singleton, Nat.add_comm 1]
  | @observations line offset data _ _ _ listed _ _ _ _ _ hstart _ _ _ hmissing =>
    refine ⟨line, offset :: data, rfl, ?_⟩
    rw [hstart.blockLength_eq, ← hmissing, List.length_cons, List.length_cons,
      Nat.add_right_comm data.length]
  | @records line records missing _ _ _ _ _ hstart _ =>
    refine ⟨line, records, rfl, ?_⟩
    rw [hstart.blockLength_eq, List.length_cons, Nat.add_right_comm]
  | @event line records _ _ _ _ _ hstart _ _ =>
    refine ⟨line, records, rfl, ?_⟩
    rw [hstart.blockLength_eq]
    rfl

/-- A portion has an epoch line at least. -/
theorem Portion.ne_nil {b b' : Body maxOrder} {lines : List Text} {missing : ℕ} {output : Text}
    (h : Portion b lines missing b' output) : lines ≠ [] := by
  obtain ⟨line, rest, rfl, -⟩ := h.length_eq
  exact List.cons_ne_nil line rest

/-- A portion is whole just if the next line is an epoch line. -/
theorem Portion.phase_eq_iff {b b' : Body maxOrder} {lines : List Text} {missing : ℕ}
    {output : Text} (h : Portion b lines missing b' output) : b'.phase = .epoch ↔ missing = 0 := by
  cases h with
  | described => exact iff_of_false nofun (Nat.succ_ne_zero _)
  | observations _ _ _ _ hmissing =>
    rw [dataPhase_eq_epoch_iff]
    omega
  | records => exact iff_of_false nofun (Nat.succ_ne_zero _)
  | event => exact iff_of_true rfl rfl

/-- A portion leaves a layout that can be used. -/
theorem Portion.check {b b' : Body maxOrder} {lines : List Text} {missing : ℕ} {output : Text}
    (h : Portion b lines missing b' output) (hb : b.layout.check maxOrder = .ok ()) :
    b'.layout.check maxOrder = .ok () := by
  cases h with
  | event _ _ hcheck => exact hcheck
  | _ => exact hb

/-! ## Lines of a block, one after the other -/

/-- An epoch line that is accepted starts a block. -/
theorem portion_of_exit {b : Body maxOrder} (hphase : b.phase = .epoch)
    (hcheck : b.layout.check maxOrder = .ok ()) {line : Text} {p : Progress maxOrder}
    (hexit : Exit b .inserted line p) (hfault : p.fault = none) :
    ∃ missing, Portion b [line] missing p.body p.output := by
  cases hexit with
  | epochRefused => cases hfault
  | epochUnusable => cases hfault
  | observations _ hnext hflag hevent hcount hlisted =>
    have hlength := (EpochDescription.satellites_eq_ok_iff.1 hlisted).1
    exact ⟨_, .described ⟨hnext, ⟨_, hflag, hevent⟩, hlength, hlisted⟩⟩
  | @event d kind flag count head _ hnext hflag hevent hcount hhead =>
    rw [← Text.unlines_singleton]
    -- An event without records is a block already.
    cases count with
    | zero => exact ⟨0, .event ⟨hnext, hflag, hevent, hcount, hhead⟩ (eventLayout_nil _ _) hcheck⟩
    | succ missing =>
      rw [← Nat.zero_add (missing + 1)] at hcount
      exact ⟨missing + 1, .records ⟨hnext, hflag, hevent, hcount, hhead⟩ rfl⟩
  | _ => simp_all

/-- One more data line belongs to the next satellite. -/
theorem zip_concat_of_getElem? {listed : List Listed} {data : List Text} {entry : Listed}
    (h : listed[data.length]? = some entry) (line : Text) :
    listed.zip (data ++ [line]) = listed.zip data ++ [(entry, line)] := by
  induction listed generalizing data with
  | nil => cases h
  | cons first listed ih =>
    cases data with
    | nil =>
      cases h
      rw [List.nil_append, List.zip_cons_cons, List.zip_nil_right, List.zip_nil_right]
      rfl
    | cons line' data => rw [List.cons_append, List.zip_cons_cons, List.zip_cons_cons, ih h]; rfl

section Extend

variable {b : Body maxOrder} {line : Text} {d : EpochDescription} {kind : EpochKind}

/-- The line after the epoch line of observations is its clock line. -/
theorem StartsObservations.extend_clock {listed : List Listed}
    (hstart : b.StartsObservations line d kind listed) {offset : Text} {p : Progress maxOrder}
    (hexit : Exit ((b.described d kind).awaitClock listed) .inserted offset p)
    (hfault : p.fault = none) :
    Portion b [line, offset] listed.length p.body p.output := by
  cases hexit with
  | clock hphase hclock hhead =>
    cases hphase
    -- No data line has been taken in yet.
    have hportion := Portion.observations hstart hclock hhead
      (by rw [List.zip_nil_right]; rfl) (Nat.zero_add _)
    rw [Text.unlines_singleton, List.length_nil, dataPhase_zero] at hportion
    exact hportion
  | clockRefused => cases hfault
  | clockUnwritten => cases hfault
  | _ => simp_all [awaitClock]

/-- As long as there is a satellite without one, the next line is a data line. -/
theorem StartsObservations.extend_data {listed : List Listed}
    (hstart : b.StartsObservations line d kind listed) {offset head : Text} {clock : Clock maxOrder}
    {value : Option Int64} (hclock : b.clock.next offset = .ok (clock, value))
    (hhead : clock.render >>= d.render = .ok head) {data records : List Text}
    {tracking : Tracking maxOrder}
    (hdata : ((b.described d kind).awaitClock listed).tracking.decodeAll b.layout
      (listed.zip data) = .ok (tracking, records))
    {missing : ℕ} (hmissing : data.length + (missing + 1) = listed.length) {line' : Text}
    {p : Progress maxOrder}
    (hexit : Exit ⟨b.layout, dataPhase listed data.length, d, clock, tracking⟩ .inserted line' p)
    (hfault : p.fault = none) :
    Portion b (line :: offset :: (data ++ [line'])) missing p.body
      (Text.unlines (head :: records) ++ p.output) := by
  have hphase' : dataPhase listed data.length = .observation listed data.length :=
    if_neg (by omega)
  cases hexit with
  | @data _ _ _ record hphase hentry hresult =>
    cases hphase'.symm.trans hphase
    have houtput : Text.unlines (head :: (records ++ [record])) =
      Text.unlines (head :: records) ++ (record ++ ['\n']) :=
        Text.unlines_concat (head :: records) record
    -- The line belongs to the next satellite of the list.
    have hdata' := Tracking.decodeAll_concat hdata hresult
    rw [← zip_concat_of_getElem? hentry] at hdata'
    have hmissing' : (data ++ [line']).length + missing = listed.length := by
      rw [List.length_append, List.length_singleton]
      omega
    have hportion := Portion.observations hstart hclock hhead hdata' hmissing'
    rw [houtput, List.length_append] at hportion
    exact hportion
  | dataFault => cases hfault
  | unlisted => cases hfault
  | _ => simp_all

/-- As long as an event has records left, the next line is a record. -/
theorem StartsEvent.extend_record {flag : EpochFlag} {head : Text} {records : List Text}
    {missing : ℕ} (hstart : b.StartsEvent line d kind flag (records.length + (missing + 1)) head)
    {update : Option Header} (hread : collectRecords flag records = .ok update)
    (hcheck : b.layout.check maxOrder = .ok ()) {line' : Text} {p : Progress maxOrder}
    (hexit : Exit ⟨b.layout, .records (missing + 1) update, d, b.clock,
      (b.described d kind).tracking⟩ .inserted line' p) (hfault : p.fault = none) :
    Portion b (line :: (records ++ [line'])) missing p.body
      (Text.unlines (head :: records) ++ p.output) := by
  have houtput : Text.unlines (head :: (records ++ [line'])) =
    Text.unlines (head :: records) ++ (line' ++ ['\n']) :=
      Text.unlines_concat (head :: records) line'
  have hlength : records.length + (missing + 1) = (records ++ [line']).length + missing := by
    rw [List.length_append, List.length_singleton]
    omega
  rw [hlength] at hstart
  cases hexit with
  | record hphase hline hleft =>
    cases hphase
    -- Another record is still missing.
    obtain ⟨left, rfl⟩ : ∃ left, missing = left + 1 := ⟨missing - 1, by omega⟩
    rw [← houtput]
    exact .records hstart (collectRecords_concat hread hline)
  | @lastRecord _ _ update' layout hphase hline hleft hlayout hlast =>
    cases hphase
    -- This was the last one, so the block is complete.
    obtain rfl : missing = 0 := by omega
    rw [← houtput]
    refine .event hstart
      (bind_eq_ok_iff.2 ⟨update', collectRecords_concat hread hline, hlayout⟩) ?_
    rcases hlast with rfl | hlast
    · exact hcheck
    · exact hlast
  | recordFault => cases hfault
  | updateFault => cases hfault
  | layoutFault => cases hfault
  | _ => simp_all

end Extend

/-- A line that is accepted after a portion of a block belongs to the block. -/
theorem Portion.extend {b b' : Body maxOrder} {lines : List Text} {missing : ℕ} {output : Text}
    (h : Portion b lines (missing + 1) b' output) (hcheck : b.layout.check maxOrder = .ok ())
    {line : Text} {p : Progress maxOrder} (hexit : Exit b' .inserted line p)
    (hfault : p.fault = none) :
    Portion b (lines ++ [line]) missing p.body (output ++ p.output) := by
  cases h with
  | described hstart => exact hstart.extend_clock hexit hfault
  | observations hstart hclock hhead hdata hmissing =>
    exact hstart.extend_data hclock hhead hdata hmissing hexit hfault
  | records hstart hread => exact hstart.extend_record hread hcheck hexit hfault

/-! ## Portions are accepted -/

/-- Data lines are accepted as long as each of them is. -/
theorem run_data {b : Body maxOrder} {listed : List Listed} {position : ℕ}
    {data records : List Text} {tracking : Tracking maxOrder}
    (hphase : b.phase = dataPhase listed position)
    (hle : position + data.length ≤ listed.length)
    (hdata : b.tracking.decodeAll b.layout ((listed.drop position).zip data) =
      .ok (tracking, records)) :
    b.run (data.map .line) = .ok ({ b with
      phase := dataPhase listed (position + data.length), tracking }, Text.unlines records) := by
  induction data generalizing b position records with
  | nil =>
    rw [List.zip_nil_right] at hdata
    cases hdata
    rw [List.length_nil, Nat.add_zero, ← hphase]
    rfl
  | cons line data ih =>
    rw [List.length_cons] at hle ⊢
    have hlt : position < listed.length := by omega
    rw [List.drop_eq_getElem_cons hlt, List.zip_cons_cons] at hdata
    obtain ⟨record, records', hrecord, hrest, rfl⟩ := Tracking.decodeAll_cons_eq_ok_iff.1 hdata
    -- The first line belongs to the satellite at the position.
    have htake := take_dataLine (hphase.trans (if_neg (Nat.ne_of_lt hlt)))
      (List.getElem?_eq_getElem hlt) hrecord
    have hrun := ih (b := { b with
      phase := dataPhase listed (position + 1)
      tracking := (b.tracking.decode b.layout listed[position].satellite listed[position].id
        line).state }) rfl (by omega) hrest
    rw [Nat.add_assoc, Nat.add_comm 1] at hrun
    rw [List.map_cons, run_cons htake hrun, Text.unlines_cons, List.append_assoc]
    rfl

/-- The epoch line of observations adds nothing yet. -/
theorem StartsObservations.take {b : Body maxOrder} {line : Text} {d : EpochDescription}
    {kind : EpochKind} {listed : List Listed} (h : b.StartsObservations line d kind listed)
    (hphase : b.phase = .epoch) :
    b.take (.line line) = ⟨(b.described d kind).awaitClock listed, [], none⟩ := by
  obtain ⟨flag, hflag, hevent⟩ := h.lists.flag_eq
  rw [take_epochLine hphase h.next_eq,
    startEpoch_of_observations hflag hevent h.lists.satellites_eq]

/-- The epoch line of an event is added at once. -/
theorem StartsEvent.take {b : Body maxOrder} {line : Text} {d : EpochDescription} {kind : EpochKind}
    {flag : EpochFlag} {count : ℕ} {head : Text} (h : b.StartsEvent line d kind flag count head)
    (hphase : b.phase = .epoch) :
    b.take (.line line) =
      ⟨{ b.described d kind with phase := recordsPhase flag count }, head ++ ['\n'], none⟩ := by
  rw [take_epochLine hphase h.next_eq, startEpoch_of_event h.flag_eq h.isEvent h.count_eq h.head_eq]

/-- The lines of a portion are accepted. -/
theorem Portion.run {b b' : Body maxOrder} {lines : List Text} {missing : ℕ} {output : Text}
    (h : Portion b lines missing b' output) (hphase : b.phase = .epoch) :
    b.run (lines.map .line) = .ok (b', output) := by
  cases h with
  | described hstart => exact run_singleton (hstart.take hphase)
  | @observations _ _ data _ d kind listed clock _ _ _ _ hstart hclock hhead hdata hmissing =>
    have htake := take_clockLine (b := (b.described d kind).awaitClock listed) rfl hclock hhead
    rw [← dataPhase_zero] at htake
    -- The clock line leads to the first data line.
    have hrun := run_data (b := { (b.described d kind).awaitClock listed with
      clock, phase := dataPhase listed 0 }) rfl (by omega) hdata
    rw [Nat.zero_add] at hrun
    rw [List.map_cons, List.map_cons, run_cons (hstart.take hphase) (run_cons htake hrun),
      Text.unlines_cons, List.append_assoc]
    rfl
  | @records _ records missing d kind flag head update hstart hread =>
    have hphase' : recordsPhase flag (records.length + (missing + 1)) =
        .records (records.length + (missing + 1))
          (if flag = .headerInformationFollows then some ∅ else none) :=
      if_neg (Nat.succ_ne_zero _)
    -- None of the records is the last one.
    have hrun := run_records_left (b := { b.described d kind with
      phase := recordsPhase flag (records.length + (missing + 1)) }) hphase' hread
    rw [List.map_cons, run_cons (hstart.take hphase) hrun, Text.unlines_cons, List.append_assoc]
    rfl
  | @event _ _ d kind _ _ _ hstart hlayout hcheck =>
    have hrun := run_event (b := b.described d kind) hlayout hcheck
    rw [List.map_cons, run_cons (hstart.take hphase) hrun, Text.unlines_cons, List.append_assoc]
    rfl

/-! ## Sequences of blocks -/

/-- The lines of a body are these blocks and then a portion of one more, which may have no lines. -/
inductive Framed : Body maxOrder → List (List Text) → List Text → Body maxOrder → Text → Prop where
  /-- Nothing follows. -/
  | whole {b : Body maxOrder} : Framed b [] [] b []
  /-- The last block has missing lines. -/
  | cut {b b' : Body maxOrder} {rest : List Text} {missing : ℕ} {output : Text}
      (h : Portion b rest (missing + 1) b' output) : Framed b [] rest b' output
  /-- A block, and what follows it. -/
  | block {b b' b'' : Body maxOrder} {lines : List Text} {blocks : List (List Text)}
      {rest : List Text} {output output' : Text} (h : Portion b lines 0 b' output)
      (hblocks : Framed b' blocks rest b'' output') :
      Framed b (lines :: blocks) rest b'' (output ++ output')

/-- A portion is a block if no lines are missing. -/
theorem Portion.framed {b b' : Body maxOrder} {lines : List Text} {missing : ℕ} {output : Text}
    (h : Portion b lines missing b' output) :
    ∃ blocks rest, blocks.flatten ++ rest = lines ∧ Framed b blocks rest b' output := by
  cases missing with
  | zero =>
    refine ⟨[lines], [], by rw [List.flatten_singleton, List.append_nil], ?_⟩
    rw [← List.append_nil output]
    exact .block h .whole
  | succ missing => exact ⟨[], lines, rfl, .cut h⟩

/-- One more line that is accepted belongs to the last block, or starts one. -/
theorem Framed.extend {b b' : Body maxOrder} {blocks : List (List Text)} {rest : List Text}
    {output : Text} (h : Framed b blocks rest b' output) (hphase : b.phase = .epoch)
    (hcheck : b.layout.check maxOrder = .ok ()) {line : Text} {p : Progress maxOrder}
    (hexit : Exit b' .inserted line p) (hfault : p.fault = none) :
    ∃ blocks' rest', blocks'.flatten ++ rest' = blocks.flatten ++ rest ++ [line] ∧
      Framed b blocks' rest' p.body (output ++ p.output) := by
  induction h with
  | whole =>
    obtain ⟨missing, hportion⟩ := portion_of_exit hphase hcheck hexit hfault
    exact hportion.framed
  | cut h => exact (h.extend hcheck hexit hfault).framed
  | @block _ _ _ lines _ _ _ _ h _ ih =>
    obtain ⟨blocks', rest', hlines, hframed⟩ :=
      ih (h.phase_eq_iff.2 rfl) (h.check hcheck) hexit
    refine ⟨lines :: blocks', rest', ?_, ?_⟩
    · simp only [List.flatten_cons, List.append_assoc] at hlines ⊢
      rw [hlines]
    · rw [List.append_assoc]
      exact .block h hframed

/-- Blocks and a portion of one more are accepted. -/
theorem Framed.run {b b' : Body maxOrder} {blocks : List (List Text)} {rest : List Text}
    {output : Text} (h : Framed b blocks rest b' output) (hphase : b.phase = .epoch) :
    b.run ((blocks.flatten ++ rest).map .line) = .ok (b', output) := by
  induction h with
  | whole => rfl
  | cut h => exact h.run hphase
  | block h _ ih =>
    rw [List.flatten_cons, List.append_assoc, List.map_append]
    exact run_append (h.run hphase) (ih (h.phase_eq_iff.2 rfl))

/-- A body accepts a sequence of lines just if it is one of blocks and a portion of one more. -/
theorem run_eq_ok_iff_framed {b b' : Body maxOrder} (hphase : b.phase = .epoch)
    (hcheck : b.layout.check maxOrder = .ok ()) {lines : List Text} {output : Text} :
    b.run (lines.map .line) = .ok (b', output) ↔
      ∃ blocks rest, blocks.flatten ++ rest = lines ∧ Framed b blocks rest b' output := by
  constructor
  · intro hrun
    -- The induction is on the last line, which extends the last block or starts another one.
    induction lines using List.reverseRecOn generalizing b' output with
    | nil =>
      cases hrun
      exact ⟨[], [], rfl, .whole⟩
    | append_singleton lines line ih =>
      rw [List.map_append] at hrun
      obtain ⟨b'', output', output'', hlines, hline, rfl⟩ := run_append_eq_ok hrun
      obtain ⟨blocks, rest, rfl, hframed⟩ := ih hlines
      obtain ⟨hfault, q, hq, hp⟩ := run_cons_eq_ok_iff.1 hline
      cases hq
      cases hp
      rw [List.append_nil]
      exact hframed.extend hphase hcheck (exit_step b'' line) hfault
  · rintro ⟨blocks, rest, rfl, hframed⟩
    exact hframed.run hphase

/-- Portions that start with the same line are portions of blocks of the same length. -/
theorem Portion.length_add_eq {b b₁ b₂ : Body maxOrder} {lines₁ lines₂ more₁ more₂ : List Text}
    {missing₁ missing₂ : ℕ} {output₁ output₂ : Text} (h₁ : Portion b lines₁ missing₁ b₁ output₁)
    (h₂ : Portion b lines₂ missing₂ b₂ output₂) (h : lines₁ ++ more₁ = lines₂ ++ more₂) :
    lines₁.length + missing₁ = lines₂.length + missing₂ := by
  obtain ⟨line, rest₁, rfl, hlength₁⟩ := h₁.length_eq
  obtain ⟨line', rest₂, rfl, hlength₂⟩ := h₂.length_eq
  obtain rfl : line = line' := (List.cons.inj h).1
  exact Except.ok.inj (hlength₁.symm.trans hlength₂)

/-- A block is not a part of a portion that has missing lines. -/
theorem Portion.append_ne {b b₁ b₂ : Body maxOrder} {lines rest : List Text} {missing : ℕ}
    {output₁ output₂ : Text} (h₁ : Portion b lines 0 b₁ output₁)
    (h₂ : Portion b rest (missing + 1) b₂ output₂) (more : List Text) : lines ++ more ≠ rest := by
  rintro rfl
  have hlength := h₁.length_add_eq h₂ (List.append_nil _).symm
  rw [List.length_append] at hlength
  omega

/-- There is one way only to cut a sequence of lines into blocks. -/
theorem Framed.unique {b b₁ b₂ : Body maxOrder} {blocks₁ blocks₂ : List (List Text)}
    {rest₁ rest₂ : List Text} {output₁ output₂ : Text} (h₁ : Framed b blocks₁ rest₁ b₁ output₁)
    (h₂ : Framed b blocks₂ rest₂ b₂ output₂) (hphase : b.phase = .epoch)
    (h : blocks₁.flatten ++ rest₁ = blocks₂.flatten ++ rest₂) :
    blocks₁ = blocks₂ ∧ rest₁ = rest₂ := by
  induction h₁ generalizing blocks₂ output₂ with
  | whole =>
    cases h₂ with
    | whole => exact ⟨rfl, rfl⟩
    | cut h₂ => exact absurd h.symm h₂.ne_nil
    | block h₂ =>
      rw [List.flatten_cons, List.append_assoc] at h
      exact absurd (List.append_eq_nil_iff.1 h.symm).1 h₂.ne_nil
  | cut h₁ =>
    cases h₂ with
    | whole => exact absurd h h₁.ne_nil
    | cut h₂ => exact ⟨rfl, h⟩
    | block h₂ =>
      rw [List.flatten_cons, List.append_assoc] at h
      exact absurd h.symm (h₂.append_ne h₁ _)
  | @block _ _ _ lines _ _ _ _ h₁ _ ih =>
    rw [List.flatten_cons, List.append_assoc] at h
    cases h₂ with
    | whole => exact absurd (List.append_eq_nil_iff.1 h).1 h₁.ne_nil
    | cut h₂ => exact absurd h (h₁.append_ne h₂ _)
    | @block _ _ _ lines₂ _ _ _ _ h₂ hblocks₂ =>
      rw [List.flatten_cons, List.append_assoc] at h
      obtain ⟨rfl, hrest⟩ := List.append_inj h (h₁.length_add_eq h₂ h)
      -- The blocks are the same, and lead to the same body.
      cases (h₁.run hphase).symm.trans (h₂.run hphase)
      obtain ⟨rfl, rfl⟩ := ih hblocks₂ (h₁.phase_eq_iff.2 rfl) hrest
      exact ⟨rfl, rfl⟩

/-! ## Boundaries -/

/-- The content may end where the next line is an epoch line. -/
theorem finish_eq_ok_iff {b : Body maxOrder} : b.finish = .ok () ↔ b.phase = .epoch := by
  unfold finish
  cases b.phase <;> simp

/-- The content may end before an epoch line, and only there. -/
theorem finish_eq_truncated_iff {b : Body maxOrder} :
    b.finish = .error .truncated ↔ b.phase ≠ .epoch := by
  unfold finish
  cases b.phase <;> simp

/-- After whole blocks an epoch line is awaited. -/
theorem Framed.phase_eq_iff {b b' : Body maxOrder} {blocks : List (List Text)} {rest : List Text}
    {output : Text} (h : Framed b blocks rest b' output) (hphase : b.phase = .epoch) :
    b'.phase = .epoch ↔ rest = [] := by
  induction h with
  | whole => exact iff_of_true hphase rfl
  | cut h =>
    exact iff_of_false (fun hphase' => Nat.succ_ne_zero _ (h.phase_eq_iff.1 hphase')) h.ne_nil
  | block h _ ih => exact ih (h.phase_eq_iff.2 rfl)

/-- Blocks keep the layout admitted. -/
theorem Framed.check {b b' : Body maxOrder} {blocks : List (List Text)} {rest : List Text}
    {output : Text} (h : Framed b blocks rest b' output)
    (hcheck : b.layout.check maxOrder = .ok ()) : b'.layout.check maxOrder = .ok () := by
  induction h with
  | whole => exact hcheck
  | cut h => exact h.check hcheck
  | block h _ ih => exact ih (h.check hcheck)

/-- Whole blocks may be followed by others. -/
theorem Framed.append {b b' b'' : Body maxOrder} {blocks blocks' : List (List Text)}
    {rest rest' : List Text} {output output' : Text} (h : Framed b blocks rest b' output)
    (hrest : rest = []) (h' : Framed b' blocks' rest' b'' output') :
    Framed b (blocks ++ blocks') rest' b'' (output ++ output') := by
  induction h with
  | whole => exact h'
  | cut h => exact absurd hrest h.ne_nil
  | block h _ ih =>
    rw [List.append_assoc]
    exact .block h (ih hrest h')

/-- The first blocks are a sequence of blocks. -/
theorem Framed.take {b b' : Body maxOrder} {blocks : List (List Text)} {rest : List Text}
    {output : Text} (h : Framed b blocks rest b' output) (n : ℕ) :
    ∃ b'' output', Framed b (blocks.take n) [] b'' output' := by
  induction h generalizing n with
  | whole => exact ⟨_, _, by rw [List.take_nil]; exact .whole⟩
  | cut => exact ⟨_, _, by rw [List.take_nil]; exact .whole⟩
  | block h _ ih =>
    cases n with
    | zero => exact ⟨_, _, .whole⟩
    | succ n =>
      obtain ⟨b'', output', hframed⟩ := ih n
      exact ⟨b'', _, .block h hframed⟩

/-- After so many lines a block ends, or no block has started. -/
def Boundary (blocks : List (List Text)) (k : ℕ) : Prop :=
  ∃ n, (blocks.take n).flatten.length = k

/-- The next line is an epoch line at the boundaries of blocks, and there only. -/
theorem Framed.phase_eq_iff_boundary {b b' b'' : Body maxOrder} {blocks : List (List Text)}
    {rest : List Text} {output output' : Text} (h : Framed b blocks rest b'' output)
    (hphase : b.phase = .epoch) (hcheck : b.layout.check maxOrder = .ok ()) {k : ℕ}
    (hk : k ≤ (blocks.flatten ++ rest).length)
    (hrun : b.run (((blocks.flatten ++ rest).take k).map .line) = .ok (b', output')) :
    b'.phase = .epoch ↔ Boundary blocks k := by
  obtain ⟨blocks₁, rest₁, hlines₁, hframed₁⟩ := (run_eq_ok_iff_framed hphase hcheck).1 hrun
  rw [hframed₁.phase_eq_iff hphase]
  constructor
  · rintro rfl
    -- What follows is made of blocks too.
    have hwhole := h.run hphase
    rw [← List.take_append_drop k (blocks.flatten ++ rest), List.map_append] at hwhole
    obtain ⟨b₁, _, _, hfirst, hlast, -⟩ := run_append_eq_ok hwhole
    cases hrun.symm.trans hfirst
    obtain ⟨blocks₂, rest₂, hlines₂, hframed₂⟩ := (run_eq_ok_iff_framed
      ((hframed₁.phase_eq_iff hphase).2 rfl) (hframed₁.check hcheck)).1 hlast
    rw [List.append_nil] at hlines₁
    obtain ⟨rfl, -⟩ := h.unique (hframed₁.append rfl hframed₂) hphase (by
      rw [List.flatten_append, List.append_assoc, hlines₁, hlines₂, List.take_append_drop])
    refine ⟨blocks₁.length, ?_⟩
    rw [List.take_left, hlines₁, List.length_take, Nat.min_eq_left hk]
  · rintro ⟨n, hn⟩
    obtain ⟨_, _, hframed₂⟩ := h.take n
    refine (hframed₁.unique hframed₂ hphase ?_).2
    -- The first `k` lines are those of the first blocks.
    rw [hlines₁, List.append_nil]
    conv_lhs => rw [← List.take_append_drop n blocks, List.flatten_append, List.append_assoc]
    rw [← hn, List.take_left]

/-- Every sequence of lines that a new body accepts is made of blocks, of which only the last one
may have missing lines, and there is one way only to cut it into them. What the body has recovered
is what the blocks say. The next line is an epoch line just at the boundaries of the blocks; the
content may end there, and is truncated everywhere else. -/
theorem exists_framed {layout : Layout} {start b : Body maxOrder}
    (hstart : ofLayout maxOrder layout = .ok start) {lines : List Text} {output : Text}
    (hrun : start.run (lines.map .line) = .ok (b, output)) :
    ∃ blocks rest, blocks.flatten ++ rest = lines ∧ Framed start blocks rest b output ∧
      (∀ blocks' rest' b' output', blocks'.flatten ++ rest' = lines →
        Framed start blocks' rest' b' output' → blocks' = blocks ∧ rest' = rest) ∧
      (b.finish = .ok () ↔ rest = []) ∧ (b.finish = .error .truncated ↔ rest ≠ []) ∧
      ∀ k ≤ lines.length, ∃ b' output',
        start.run ((lines.take k).map .line) = .ok (b', output') ∧
        (b'.phase = .epoch ↔ Boundary blocks k) ∧ (b'.finish = .ok () ↔ Boundary blocks k) ∧
        (b'.finish = .error .truncated ↔ ¬Boundary blocks k) := by
  obtain ⟨hcheck, clock, -, rfl⟩ := ofLayout_eq_ok hstart
  obtain ⟨blocks, rest, rfl, hframed⟩ := (run_eq_ok_iff_framed rfl hcheck).1 hrun
  refine ⟨blocks, rest, rfl, hframed, fun blocks' rest' b' output' hlines hframed' =>
    hframed'.unique hframed rfl hlines, ?_, ?_, fun k hk => ?_⟩
  · rw [finish_eq_ok_iff, hframed.phase_eq_iff rfl]
  · rw [finish_eq_truncated_iff, ne_eq, hframed.phase_eq_iff rfl]
  · -- The first lines are accepted as well.
    have hwhole := hrun
    rw [← List.take_append_drop k (blocks.flatten ++ rest), List.map_append] at hwhole
    obtain ⟨b', first, _, hfirst, -⟩ := run_append_eq_ok hwhole
    have hboundary := hframed.phase_eq_iff_boundary rfl hcheck hk hfirst
    refine ⟨b', first, hfirst, hboundary, ?_, ?_⟩
    · rw [finish_eq_ok_iff, hboundary]
    · rw [finish_eq_truncated_iff, ne_eq, hboundary]

/-- An epoch of a satellite, an epoch without satellites, and an event whose record is missing. -/
theorem exists_framed_event :
    ∃ start b : Body 5, ∃ lines output,
      ofLayout 5 ((Layout.ofRevision .v3).withObservables .gps 1) = .ok start ∧
      lines = ["> 2021 01 01 00 00 00.0000000  0  1      G01".toList, [], "3&1000".toList,
        "> 2021 01 01 00 00 30.0000000  0  0".toList, [],
        "> 2021 01 01 00 01 00.0000000  3  1".toList] ∧
      start.run (lines.map .line) = .ok (b, output) ∧ b.finish = .error .truncated ∧
      ∃ blocks rest, blocks.flatten ++ rest = lines ∧ Framed start blocks rest b output ∧
        rest ≠ [] := by
  obtain ⟨start, hstart⟩ : ∃ start : Body 5,
    ofLayout 5 ((Layout.ofRevision .v3).withObservables .gps 1) = .ok start := ⟨_, rfl⟩
  obtain ⟨b, output, hrun, hfinish⟩ : ∃ b output, start.run (List.map .line
      ["> 2021 01 01 00 00 00.0000000  0  1      G01".toList, [], "3&1000".toList,
        "> 2021 01 01 00 00 30.0000000  0  0".toList, [],
        "> 2021 01 01 00 01 00.0000000  3  1".toList]) = .ok (b, output) ∧
      b.finish = .error .truncated := by
    cases hstart
    exact ⟨_, _, rfl, rfl⟩
  obtain ⟨blocks, rest, hlines, hframed, -, -, hrest, -⟩ := exists_framed hstart hrun
  exact ⟨start, b, _, output, hstart, rfl, hrun, hfinish, blocks, rest, hlines, hframed,
    hrest.1 hfinish⟩

end Body

end CompactRinex
