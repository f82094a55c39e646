import CompactRinex.Proofs.Header.Definitions

/-!
# Updates of a layout

The records of an event may define observables anew. `eventDefinition` says which definition of a
constellation counts, from the lines of the event alone, and `Layout.Overwrites` what the layout is
then: these constellations have as many columns of the usual form as their definitions have codes,
and nothing else has changed. An event that is accepted does this to the layout, and leaves the
clock and, unless its epoch line is literal, all histories (`Reachable.overwrites_event`).
-/

namespace CompactRinex

/-- The definition of a constellation by the records of an event. Only records of header information
define anything. -/
def eventDefinition (flag : EpochFlag) (records : List Text) (c : Constellation) :
    Option Definition :=
  if flag = .headerInformationFollows then Remark.lastDefinition c (records.map .ofLine) else none

/-- The second layout is the first one with the columns of some definitions in place of its own. -/
structure Layout.Overwrites (definition : Constellation → Option Definition) (l l' : Layout) :
    Prop where
  /-- The revision stays. -/
  revision_eq : l'.revision = l.revision
  /-- The constellation of satellites that do not name theirs stays. -/
  defaultConstellation_eq : l'.defaultConstellation = l.defaultConstellation
  /-- The column of the clock stays. -/
  clock_eq : l'.clock = l.clock
  /-- A definition has as many codes as it states. -/
  declared_eq : ∀ c d, definition c = some d → d.declared = d.codes.length
  /-- A constellation that is defined has a column of the usual form for each code. -/
  columns_eq : ∀ c d, definition c = some d →
    l'.columns.get? c = some (List.replicate d.declared Column.observation)
  /-- Any other constellation keeps its columns. -/
  columns_eq_of_none : ∀ c, definition c = none → l'.columns.get? c = l.columns.get? c
  /-- Without a definition it is the same layout. -/
  eq_of_none : (∀ c, definition c = none) → l' = l

/-- Without definitions the layout stays. -/
theorem Layout.Overwrites.refl {definition : Constellation → Option Definition}
    (h : ∀ c, definition c = none) (l : Layout) : l.Overwrites definition l where
  revision_eq := rfl
  defaultConstellation_eq := rfl
  clock_eq := rfl
  declared_eq c d hd := by rw [h] at hd; cases hd
  columns_eq c d hd := by rw [h] at hd; cases hd
  columns_eq_of_none _ _ := rfl
  eq_of_none _ := rfl

/-- A layout that takes over the definitions of a header is overwritten by them, in whatever order
they are met. -/
theorem Layout.overwrites_updatedLayout {walk : Walk (Constellation × Definition)} {l l' : Layout}
    {header : Header} (h : Body.updatedLayout walk l (some header) = .ok l') :
    l.Overwrites (fun c => header.definitions.get? c) l' := by
  simp only [Body.updatedLayout] at h
  split at h
  · next hempty =>
    cases h
    exact .refl ((Table.isEmpty_iff _).1 hempty) l
  · next hdefined =>
    rcases header.updateLayout_cases walk l with
      ⟨_, hok, hcodes, hrevision, hdefault, hclock, hget⟩ | ⟨c, d, -, -, herror⟩
    · -- What the last definition of a constellation says is in the table, on any walk.
      obtain rfl := Except.ok.inj (hok.symm.trans h)
      refine ⟨hrevision, hdefault, hclock, hcodes, fun c d hd => ?_, fun c hd => ?_, fun hd => ?_⟩
      · rw [hget, hcodes c d hd, hd]
        rfl
      · rw [hget, hd]
        rfl
      · exact absurd ((Table.isEmpty_iff _).2 hd) hdefined
    · rw [herror] at h
      cases h

/-- Records that are not collected stay so. -/
theorem eq_none_of_readUpdates {records : List Text} {update : Option Header}
    (h : records.foldlM (fun update line => Body.readUpdate line update) none = .ok update) :
    update = none := by
  induction records with
  | nil => cases h; rfl
  | cons line records ih => exact ih h

/-- The layout after an event is overwritten by the definitions of its records. -/
theorem Layout.overwrites_eventLayout {l l' : Layout} {flag : EpochFlag} {records : List Text}
    (h : eventLayout l flag records = .ok l') : l.Overwrites (eventDefinition flag records) l' := by
  unfold eventLayout at h
  obtain ⟨update, hcollect, hlayout⟩ := bind_eq_ok_iff.1 h
  unfold collectRecords at hcollect
  by_cases hflag : flag = .headerInformationFollows
  · -- Collecting starts with an empty header, so that all definitions are those of the records.
    rw [if_pos hflag] at hcollect
    obtain ⟨header, rfl, hget⟩ := Header.get?_readUpdates hcollect
    have hdefinition : eventDefinition flag records = fun c => header.definitions.get? c := by
      funext c
      rw [hget]
      simp only [eventDefinition, hflag, if_true]
      exact (Option.or_none).symm
    rw [hdefinition]
    exact overwrites_updatedLayout hlayout
  · rw [if_neg hflag] at hcollect
    obtain rfl := eq_none_of_readUpdates hcollect
    cases hlayout
    exact .refl (fun c => if_neg hflag) l

namespace Body

variable {maxOrder : ℕ}

/-- Records that are all accepted have been collected, and the last of them has changed the layout
and nothing else. -/
theorem run_records_eq_ok {b b' : Body maxOrder} {records : List Text} (hne : records ≠ [])
    {update : Option Header} (hphase : b.phase = .records records.length update) {output : Text}
    (hrun : b.run (records.map .line) = .ok (b', output)) :
    ∃ update' layout,
      records.foldlM (fun update line => readUpdate line update) update = .ok update' ∧
      updatedLayout .inserted b.layout update' = .ok layout ∧
      b' = { b with layout, phase := .epoch } := by
  induction records generalizing b update output with
  | nil => exact absurd rfl hne
  | cons line records ih =>
    obtain ⟨hfault, ⟨_, output'⟩, hq, hp⟩ := run_cons_eq_ok_iff.1 hrun
    cases hp
    rw [List.length_cons] at hphase
    have hexit := exit_step b line
    simp only [Body.take] at hfault hq
    generalize b.step line = p at hexit hfault hq
    cases hexit with
    | @record left _ update' hphase' hread hleft =>
      -- There is a record left, and the rest goes on from the header collected so far.
      obtain ⟨rfl, rfl⟩ := Phase.records.inj (hphase'.symm.trans hphase)
      have hrest : records ≠ [] := by
        rintro rfl
        simp at hleft
      obtain ⟨update'', layout, hlater, hlayout, rfl⟩ := ih hrest rfl hq
      refine ⟨update'', layout, ?_, hlayout, rfl⟩
      rw [List.foldlM_cons]
      exact bind_eq_ok_iff.2 ⟨update', hread, hlater⟩
    | @lastRecord left _ update' layout hphase' hread hleft hlayout =>
      -- No record is left, and what has been collected changes the layout.
      obtain ⟨rfl, rfl⟩ := Phase.records.inj (hphase'.symm.trans hphase)
      obtain rfl : records = [] := List.length_eq_zero_iff.1 (by omega)
      cases hq
      refine ⟨update', layout, ?_, hlayout, rfl⟩
      rw [List.foldlM_cons]
      exact bind_eq_ok_iff.2 ⟨update', hread, rfl⟩
    | epochRefused | epochUnusable | clockRefused | clockUnwritten | unlisted | dataFault
      | recordFault | updateFault | layoutFault => cases hfault
    | event h | observations h | clock h | data h => rw [hphase] at h; cases h

/-- The records of an event, if it has any, have changed the layout and nothing else. -/
theorem run_event_eq_ok {b b' : Body maxOrder} {flag : EpochFlag} {records : List Text}
    (hphase : b.phase = recordsPhase flag records.length) {output : Text}
    (hrun : b.run (records.map .line) = .ok (b', output)) :
    ∃ layout, eventLayout b.layout flag records = .ok layout ∧
      b' = { b with layout, phase := .epoch } := by
  cases records with
  | nil =>
    cases hrun
    refine ⟨b.layout, eventLayout_nil _ _, ?_⟩
    -- An event without records is over at once.
    have hepoch : b.phase = .epoch := hphase
    rw [← hepoch]
  | cons line rest =>
    obtain ⟨update, layout, hread, hlayout, hb'⟩ :=
      run_records_eq_ok (List.cons_ne_nil _ _) hphase hrun
    exact ⟨layout, bind_eq_ok_iff.2 ⟨update, hread, hlayout⟩, hb'⟩

/-- An event that is accepted overwrites the layout by the definitions of its records, and leaves
everything else but the histories of a literal epoch line. -/
theorem Reachable.overwrites_event {b b' : Body maxOrder} (hb : Reachable b)
    (hphase : b.phase = .epoch) {line : Text} {records : List Text} {output : Text}
    (hrun : b.run ((line :: records).map .line) = .ok (b', output)) {flag : EpochFlag}
    (hflag : (b.step line).body.epoch.flag = .ok flag) (hevent : flag.isEvent = true)
    (hcount : (b.step line).body.epoch.count = .ok records.length) :
    b'.phase = .epoch ∧ b.layout.Overwrites (eventDefinition flag records) b'.layout ∧
      (flag ≠ .headerInformationFollows → b'.layout = b.layout) ∧ b'.clock = b.clock ∧
      b'.tracking = if line.head? = some b.layout.revision.marker then ∅ else b.tracking := by
  rw [List.map_cons] at hrun
  obtain ⟨hfault, ⟨_, output'⟩, hq, hp⟩ := run_cons_eq_ok_iff.1 hrun
  cases hp
  have hexit := exit_step b line
  simp only [Body.take] at hfault hq
  generalize b.step line = p at hexit hfault hq hflag hcount
  cases hexit with
  | event _ hnext hflag' _ hcount' =>
    obtain rfl := Except.ok.inj (hflag'.symm.trans hflag)
    obtain rfl := Except.ok.inj (hcount'.symm.trans hcount)
    obtain ⟨layout, hlayout, rfl⟩ := run_event_eq_ok rfl hq
    have hkind := EpochDescription.literal_iff_of_next hnext
    rw [hb.coherent.revision_eq] at hkind
    have hoverwrites := Layout.overwrites_eventLayout hlayout
    refine ⟨rfl, hoverwrites, fun hother => ?_, rfl, ?_⟩
    · exact hoverwrites.eq_of_none fun c => if_neg hother
    · simp only [described, hkind]
  | observations _ _ hflag' hobservations =>
    -- The flag would be one of observations.
    obtain rfl := Except.ok.inj (hflag'.symm.trans hflag)
    rw [hevent] at hobservations
    cases hobservations
  | epochRefused | epochUnusable | clockRefused | clockUnwritten | unlisted | dataFault
    | recordFault | updateFault | layoutFault => cases hfault
  | clock h | data h | record h | lastRecord h => rw [hphase] at h; cases h

/-- While a satellite is in view, the observables of its system are defined twice, the second time
on two lines: the second definition counts, and the satellite keeps its history. -/
theorem overwrites_event_redefined :
    ∃ b b' : Body 5, ∃ line records output, Reachable b ∧ b.phase = .epoch ∧
      line = "                               4  3".toList ∧
      records =
        ["G    1 C1C                                                  SYS / # / OBS TYPES".toList,
          "G    2 C1C                                                  SYS / # / OBS TYPES".toList,
          "       L1C                                                  SYS / # / OBS TYPES".toList] ∧
      b.run ((line :: records).map .line) = .ok (b', output) ∧
      b.layout.columns.get? .gps = some [⟨10, 2, 3⟩] ∧
      b'.layout.columns.get? .gps = some [⟨14, 3, 3⟩, ⟨14, 3, 3⟩] ∧
      b'.layout.columns.get? .galileo = b.layout.columns.get? .galileo ∧
      b.tracking.value? ⟨.gps, 1⟩ 0 = some 1000 ∧ b'.tracking = b.tracking := by
  obtain ⟨b, hb⟩ : ∃ b : Body 5, ofLayout 5
    (((Layout.ofRevision .v3).withColumns .gps [⟨10, 2, 3⟩]).withObservables .galileo 2) = .ok b :=
    ⟨_, rfl⟩
  have hstart : Reachable b := .start hb
  cases hb
  have hreach := ((hstart.take (.line "> 2021 01 01 00 00 00.0000000  0  1      G01".toList)).take
    (.line [])).take (.line "3&1000".toList)
  -- The last record goes on with the definition before it.
  obtain ⟨-, hoverwrites, -, -, htracking⟩ := @Reachable.overwrites_event _ _ _ hreach rfl
    "                               4  3".toList
    ["G    1 C1C                                                  SYS / # / OBS TYPES".toList,
      "G    2 C1C                                                  SYS / # / OBS TYPES".toList,
      "       L1C                                                  SYS / # / OBS TYPES".toList]
    _ rfl .headerInformationFollows rfl rfl rfl
  exact ⟨_, _, _, _, _, hreach, rfl, rfl, rfl, rfl, rfl,
    hoverwrites.columns_eq .gps ⟨2, ["C1C".toList, "L1C".toList]⟩ rfl,
    hoverwrites.columns_eq_of_none .galileo rfl, rfl, htracking⟩

end Body

end CompactRinex
