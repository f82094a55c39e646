import CompactRinex.Proofs.Body.Run
import CompactRinex.Proofs.Epoch.Writing
import CompactRinex.Proofs.Text.Lines

/-!
# The lines of an epoch

What an epoch line starts, and what the special records after it lead to. The records of header
information form a header of their own (`collectRecords`), whose definitions are in force after the
last of them (`eventLayout`); all records are passed on as they are (`Body.run_event`).
-/

namespace CompactRinex

/-! ## Events -/

/-- The header that the special records of an event form, if they form one. -/
def collectRecords (flag : EpochFlag) (records : List Text) : Except HeaderError (Option Header) :=
  records.foldlM (fun update line => Body.readUpdate line update)
    (if flag = .headerInformationFollows then some ∅ else none)

/-- The layout after an event. -/
def eventLayout (layout : Layout) (flag : EpochFlag) (records : List Text) :
    Except HeaderError Layout := do
  let update ← collectRecords flag records
  Body.updatedLayout .inserted layout update

/-- One more record. -/
theorem collectRecords_concat {flag : EpochFlag} {records : List Text}
    {update update' : Option Header} (h : collectRecords flag records = .ok update) {line : Text}
    (hread : Body.readUpdate line update = .ok update') :
    collectRecords flag (records ++ [line]) = .ok update' := by
  unfold collectRecords at h ⊢
  rw [List.foldlM_append]
  exact bind_eq_ok_iff.2 ⟨update, h, bind_eq_ok_iff.2 ⟨update', hread, rfl⟩⟩

/-- An event without records leaves the layout as it is. -/
theorem eventLayout_nil (layout : Layout) (flag : EpochFlag) :
    eventLayout layout flag [] = .ok layout := by
  unfold eventLayout collectRecords
  split
  · rfl
  · rfl

/-- An event adds columns of the usual form only, and leaves the rest of the layout. -/
theorem of_eventLayout {layout layout' : Layout} {flag : EpochFlag} {records : List Text}
    (h : eventLayout layout flag records = .ok layout') :
    layout'.revision = layout.revision ∧ layout'.clock = layout.clock ∧
      ∀ column ∈ layout'.allColumns, column ∈ layout.allColumns ∨ column = Column.observation := by
  unfold eventLayout at h
  obtain ⟨update, -, hlayout⟩ := bind_eq_ok_iff.1 h
  exact Body.of_updatedLayout hlayout

namespace Body

variable {maxOrder : ℕ}

/-! ## Special records -/

/-- A record that is understood is counted. -/
theorem take_record {b : Body maxOrder} {left : ℕ} {update update' : Option Header}
    (hphase : b.phase = .records left update) {line : Text}
    (hread : readUpdate line update = .ok update') :
    b.take (.line line) =
      ⟨(b.countRecord .inserted left update').1, line ++ ['\n'],
        (b.countRecord .inserted left update').2⟩ := by
  simp only [Body.take, step, stepAlong, hphase]
  cases update with
  | none => cases hread; rfl
  | some header =>
    simp only [readUpdate] at hread
    cases hresult : (header.readLine line).result with
    | error e => rw [hresult] at hread; cases hread
    | ok u =>
      rw [hresult] at hread
      cases hread
      simp only [readRecord, hresult]

/-- After the last record the layout that the records ask for is in force. -/
theorem closeEvent_of_ok {b : Body maxOrder} {update : Option Header} {layout : Layout}
    {walks : Walks} (hlayout : updatedLayout walks.definitions b.layout update = .ok layout)
    (hcheck : layout.check maxOrder = .ok ()) :
    b.closeEvent walks update = ({ b with layout, phase := .epoch }, none) := by
  have halong := (Layout.checkAlong_eq_ok_iff maxOrder layout walks.columns).2 hcheck
  cases update with
  | none => cases hlayout; rfl
  | some header =>
    simp only [updatedLayout] at hlayout
    split at hlayout
    · next hempty =>
      cases hlayout
      simp only [closeEvent, hempty, if_true]
    · next hempty =>
      simp only [closeEvent, hempty, Bool.false_eq_true, if_false, hlayout, halong]

/-- Records are passed on and counted as long as there are some left. -/
theorem run_records_left {b : Body maxOrder} {records : List Text} {left : ℕ}
    {update update' : Option Header}
    (hphase : b.phase = .records (records.length + (left + 1)) update)
    (hread : records.foldlM (fun update line => readUpdate line update) update = .ok update') :
    b.run (records.map .line) =
      .ok ({ b with phase := .records (left + 1) update' }, Text.unlines records) := by
  induction records generalizing b update with
  | nil =>
    cases hread
    rw [List.length_nil, Nat.zero_add] at hphase
    rw [← hphase]
    rfl
  | cons line lines ih =>
    rw [List.foldlM_cons] at hread
    obtain ⟨update'', hfirst, hrest⟩ := bind_eq_ok_iff.1 hread
    -- The first record is counted, and there are others after it.
    have hcount : b.countRecord .inserted ((line :: lines).length + (left + 1)) update'' =
        ({ b with phase := .records (lines.length + (left + 1)) update'' }, none) := by
      have hleft : (line :: lines).length + (left + 1) - 1 = lines.length + (left + 1) := by
        rw [List.length_cons]
        omega
      rw [countRecord, if_neg (by rw [List.length_cons]; omega), hleft]
    have htake := take_record hphase hfirst
    rw [hcount] at htake
    have hrun := ih (b := { b with phase := .records (lines.length + (left + 1)) update'' })
      rfl hrest
    rw [List.map_cons, run_cons htake hrun, Text.unlines_cons, List.append_assoc]
    rfl

/-- All records of an event are passed on, and the layout that they ask for is in force then. -/
theorem run_records {b : Body maxOrder} {records : List Text} (hne : records ≠ [])
    {update update' : Option Header} (hphase : b.phase = .records records.length update)
    (hread : records.foldlM (fun update line => readUpdate line update) update = .ok update')
    {layout : Layout} (hlayout : updatedLayout .inserted b.layout update' = .ok layout)
    (hcheck : layout.check maxOrder = .ok ()) :
    b.run (records.map .line) = .ok ({ b with layout, phase := .epoch }, Text.unlines records) := by
  obtain rfl | ⟨first, last, rfl⟩ := records.eq_nil_or_concat
  · exact absurd rfl hne
  · rw [List.concat_eq_append] at hphase hread ⊢
    rw [List.length_append] at hphase
    rw [List.foldlM_append] at hread
    obtain ⟨update'', hfirst, hlast⟩ := bind_eq_ok_iff.1 hread
    rw [List.foldlM_cons] at hlast
    obtain ⟨_, hlast, hdone⟩ := bind_eq_ok_iff.1 hlast
    cases hdone
    -- The layout takes effect with the last record.
    have htake := take_record (b := { b with phase := .records (0 + 1) update'' }) rfl hlast
    rw [countRecord, if_pos (Nat.le_refl _),
      closeEvent_of_ok (b := { b with phase := .records (0 + 1) update'' }) hlayout hcheck] at htake
    rw [List.map_append, List.map_singleton, Text.unlines_concat]
    exact run_append (run_records_left hphase hfirst) (run_singleton htake)

/-- The records of an event, if it has any. -/
theorem run_event {b : Body maxOrder} {flag : EpochFlag} {records : List Text} {layout : Layout}
    (hlayout : eventLayout b.layout flag records = .ok layout)
    (hcheck : layout.check maxOrder = .ok ()) :
    { b with phase := recordsPhase flag records.length }.run (records.map .line) =
      .ok ({ b with layout, phase := .epoch }, Text.unlines records) := by
  cases records with
  | nil =>
    -- Without records nothing is redefined, and the event is over.
    rw [eventLayout_nil] at hlayout
    cases hlayout
    rfl
  | cons line rest =>
    unfold eventLayout at hlayout
    obtain ⟨update, hupdate, hlayout'⟩ := bind_eq_ok_iff.1 hlayout
    exact run_records (b := { b with phase := recordsPhase flag (line :: rest).length })
      (List.cons_ne_nil _ _) rfl hupdate hlayout' hcheck

/-! ## Epoch lines -/

/-- An epoch line that gives a description starts the epoch that it describes. -/
theorem take_epochLine {b : Body maxOrder} (hphase : b.phase = .epoch) {line : Text}
    {d : EpochDescription} {kind : EpochKind} (hnext : b.epoch.next line = .ok (d, kind)) :
    b.take (.line line) = (b.described d kind).startEpoch := by
  simp only [Body.take, step, stepAlong, hphase]
  exact readEpoch_of_ok hnext

/-- An event writes its epoch line and waits for its records. -/
theorem startEpoch_of_event {b : Body maxOrder} {flag : EpochFlag} {count : ℕ} {text : Text}
    (hflag : b.epoch.flag = .ok flag) (hevent : flag.isEvent = true)
    (hcount : b.epoch.count = .ok count) (htext : b.epoch.render none = .ok text) :
    b.startEpoch = ⟨{ b with phase := recordsPhase flag count }, text ++ ['\n'], none⟩ := by
  simp only [startEpoch, openEpoch, hflag, hcount, hevent, htext, bind, Except.bind, if_true, emit]

/-- The body that waits for the clock line of an epoch with these satellites. -/
def awaitClock (b : Body maxOrder) (listed : List Listed) : Body maxOrder :=
  { b with
    phase := .clock listed
    tracking := b.tracking.retain (listed.map Listed.satellite) }

/-- Observations wait for the clock line. -/
theorem startEpoch_of_observations {b : Body maxOrder} {flag : EpochFlag} {listed : List Listed}
    (hflag : b.epoch.flag = .ok flag) (hevent : flag.isEvent = false)
    (hlisted : b.epoch.satellites b.layout = .ok listed) :
    b.startEpoch = ⟨b.awaitClock listed, [], none⟩ := by
  have hcount := (EpochDescription.satellites_eq_ok_iff.1 hlisted).1
  simp only [startEpoch, openEpoch, hflag, hcount, hevent, hlisted, bind, Except.bind,
    Bool.false_eq_true, if_false, awaitClock]

/-! ## Clock lines and data lines -/

/-- A clock line completes the epoch line. -/
theorem take_clockLine {b : Body maxOrder} {listed : List Listed} (hphase : b.phase = .clock listed)
    {line text : Text} {clock : Clock maxOrder} {value : Option Int64}
    (hnext : b.clock.next line = .ok (clock, value))
    (htext : clock.render >>= b.epoch.render = .ok text) :
    b.take (.line line) = ⟨{ b with
        clock
        phase := if listed.isEmpty then .epoch else .observation listed 0 },
      text ++ ['\n'], none⟩ := by
  simp only [Body.take, step, stepAlong, hphase, readClock, Clock.decode, hnext, Outcome.commit,
    Outcome.ok, htext, emit]

/-- A data line belongs to the satellite at the position. -/
theorem take_dataLine {b : Body maxOrder} {listed : List Listed} {position : ℕ}
    (hphase : b.phase = .observation listed position) {entry : Listed}
    (hentry : listed[position]? = some entry) {line record : Text}
    (hrecord : (b.tracking.decode b.layout entry.satellite entry.id line).result = .ok record) :
    b.take (.line line) = ⟨{ b with
      tracking := (b.tracking.decode b.layout entry.satellite entry.id line).state
      phase := if position + 1 = listed.length then .epoch
        else .observation listed (position + 1) }, record ++ ['\n'], none⟩ := by
  simp only [Body.take, step, stepAlong, hphase, readObservation, hentry, hrecord, emit]

end Body

end CompactRinex
