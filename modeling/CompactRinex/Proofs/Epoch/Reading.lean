import CompactRinex.Proofs.Epoch.Writing
import CompactRinex.Proofs.Overlay.Columns

/-!
# Reading recovered epoch lines

The recovered line of an epoch of observations can be read back, as every part of it is at fixed
columns. It starts with the columns of the description in front of the satellites. The first
revision goes on with the satellites, twelve on each line, and the third does not repeat them. The
clock stands at a column of its own on the first line and ends it. `Readable` says so, and
`Writable.readable` that every description with satellites and no event is written in this way. The
count of the satellites is among the columns at the front, so the record determines all that has
been written to it (`Readable.columns_eq`, `Readable.clock_eq`).
-/

namespace CompactRinex

namespace Revision

/-- The columns of a description that stand at the front of the recovered line. -/
def frontColumns (r : Revision) : ℕ := r.flagColumn + 4

/-- The column of the clock in a recovered line. -/
def clockColumn : Revision → ℕ
  | v1 => 68
  | v3 => 41

/-- How many of the satellites the recovered line repeats. -/
def repeated : Revision → ℕ → ℕ
  | v1, count => count
  | v3, _ => 0

end Revision

namespace EpochDescription

variable {revision : Revision} {text text' : Text} {layout : Layout} {listed listed' : List Listed}
  {clock clock' : Option Text}

/-! ## Descriptions with the same columns -/

/-- A part of a description depends on the columns up to its end only. -/
theorem field_of_columns {columns start stop : ℕ} (h : text.take columns = text'.take columns)
    (hlen : columns ≤ text.length) (hlen' : columns ≤ text'.length) (hstop : stop ≤ columns) :
    (ofText revision text).field start stop = (ofText revision text').field start stop := by
  have hpart : (text.drop start).take (stop - start) = (text'.drop start).take (stop - start) := by
    rw [← List.drop_take, ← List.drop_take, ← min_eq_left hstop, ← List.take_take, h,
      List.take_take]
  have hfield : (ofText revision text').field start stop =
      .ok ((text.drop start).take (stop - start)) :=
    field_ofText_eq_ok_iff.2 ⟨hstop.trans hlen', hpart.symm⟩
  rw [hfield]
  exact field_ofText_eq_ok_iff.2 ⟨hstop.trans hlen, rfl⟩

/-- The count is among the columns at the front. -/
theorem count_of_columns (h : text.take revision.frontColumns = text'.take revision.frontColumns)
    (hlen : revision.frontColumns ≤ text.length) (hlen' : revision.frontColumns ≤ text'.length) :
    (ofText revision text).count = (ofText revision text').count := by
  have hfield : (ofText revision text).field (revision.flagColumn + 1) revision.frontColumns =
      (ofText revision text').field (revision.flagColumn + 1) revision.frontColumns :=
    field_of_columns h hlen hlen' le_rfl
  unfold EpochDescription.count
  rw [revision_ofText, revision_ofText]
  exact congrArg (· >>= _) hfield

/-- An identifier depends on the columns up to its end. -/
theorem listedAt_of_columns {columns position : ℕ} (h : text.take columns = text'.take columns)
    (hlen : columns ≤ text.length) (hlen' : columns ≤ text'.length)
    (hposition : revision.satelliteColumn + 3 * (position + 1) ≤ columns) :
    (ofText revision text).listedAt layout position =
      (ofText revision text').listedAt layout position := by
  let start := revision.satelliteColumn + 3 * position
  have hfield : (ofText revision text).field start (start + 3) =
      (ofText revision text').field start (start + 3) := field_of_columns h hlen hlen' hposition
  unfold listedAt
  rw [revision_ofText, revision_ofText]
  exact congrArg (· >>= _) hfield

/-- The satellites are the same when the columns up to the last one are. -/
theorem satellites_of_columns (hlisted : (ofText revision text).satellites layout = .ok listed)
    (h : text.take (revision.satelliteColumn + 3 * listed.length) =
      text'.take (revision.satelliteColumn + 3 * listed.length))
    (hlen : revision.satelliteColumn + 3 * listed.length ≤ text.length)
    (hlen' : revision.satelliteColumn + 3 * listed.length ≤ text'.length) :
    (ofText revision text').satellites layout = .ok listed := by
  have hfront : revision.frontColumns ≤ revision.satelliteColumn := by cases revision <;> decide
  obtain ⟨hcount, hentries⟩ := satellites_eq_ok_iff.1 hlisted
  -- The count and every listed satellite are cut out of the columns that agree.
  refine satellites_eq_ok_iff.2 ⟨?_, ?_⟩
  · have htake : text.take revision.frontColumns = text'.take revision.frontColumns := by
      have hmin : min revision.frontColumns (revision.satelliteColumn + 3 * listed.length) =
          revision.frontColumns := by omega
      rw [← hmin, ← List.take_take, h, List.take_take]
    rw [← count_of_columns htake (by omega) (by omega)]
    exact hcount
  · rw [List.forall₂_iff_get] at hentries ⊢
    refine ⟨hentries.1, fun i hi hi' => ?_⟩
    have hentry := hentries.2 i hi hi'
    simp only [List.get_eq_getElem, List.getElem_range] at hentry ⊢
    rw [← listedAt_of_columns h hlen hlen' (by omega)]
    exact hentry

/-! ## The lines of a record -/

/-- The columns of the satellites in a row of a record, which has room for twelve of them. -/
def rowColumns (count row : ℕ) : ℕ := 3 * min 12 (count - 12 * row)

/-- The first line of a record without its clock. -/
def firstLine (revision : Revision) (text : Text) (rows : List Text) : Text :=
  revision.lead :: text.take revision.frontColumns ++ rows.headD []

/-- The satellites that the record repeats, cut into rows. -/
def satelliteRows (revision : Revision) (text : Text) (count : ℕ) : List Text :=
  Text.groups 36 ((text.drop revision.satelliteColumn).take (3 * revision.repeated count))

/-- The lines of a record. -/
def observationLines (revision : Revision) (text : Text) (count : ℕ) (clock : Option Text) :
    List Text :=
  let rows := satelliteRows revision text count
  let first := firstLine revision text rows
  (clock.elim first fun offset => Text.padRight revision.clockColumn first ++ offset) ::
    rows.tail.map (Text.blanks (revision.frontColumns + 1) ++ ·)

/-- The lines of a record with newlines between them are the recovered line. -/
theorem observationLine_eq_intercalate (count : ℕ) (clock : Option Text)
    (hfront : revision.frontColumns ≤ text.length) :
    observationLine revision text count clock =
      List.intercalate ['\n'] (observationLines revision text count clock) := by
  rw [observationLines, Text.intercalate_cons, List.flatMap_map]
  cases revision with
  | v1 =>
    cases clock <;> rfl
  | v3 =>
    have hcolumns : ('>' :: text.take 34).length = 35 := by
      have hfront : 34 ≤ text.length := hfront
      rw [List.length_cons, List.length_take, min_eq_left hfront]
    -- The later revision lists its satellites with their data, there are no rows to come.
    have hrows : satelliteRows .v3 text count = [] := by
      simp [satelliteRows, Revision.repeated, Text.groups]
    rw [hrows]
    cases clock with
    | none => simp [observationLine, firstLine, Revision.lead, Revision.frontColumns,
        Revision.flagColumn]
    | some offset =>
      have hpad : Text.padRight 41 ('>' :: text.take 34) =
          '>' :: text.take 34 ++ Text.blanks 6 := by
        rw [Text.padRight, hcolumns]
      have hfirst : firstLine .v3 text [] = '>' :: text.take 34 := List.append_nil _
      rw [hfirst]
      show '>' :: text.take 34 ++ (Text.blanks 6 ++ offset) =
        Text.padRight 41 ('>' :: text.take 34) ++ offset ++ []
      rw [hpad, List.append_nil, List.append_assoc]

/-- The rows consist of the text. -/
theorem mem_of_mem_satelliteRows {count : ℕ} {row : Text}
    (hrow : row ∈ satelliteRows revision text count) {c : Char} (hc : c ∈ row) : c ∈ text :=
  List.mem_of_mem_drop (List.mem_of_mem_take (Text.mem_of_mem_groups hrow hc))

/-- What the first line shows is the lead and columns of the description. -/
theorem mem_firstLine {count : ℕ} {c : Char}
    (hc : c ∈ firstLine revision text (satelliteRows revision text count)) :
    c = revision.lead ∨ c ∈ text := by
  rw [firstLine, List.mem_append, List.mem_cons] at hc
  rcases hc with (hlead | hfront) | hrow
  · exact Or.inl hlead
  · exact Or.inr (List.mem_of_mem_take hfront)
  · cases hrows : satelliteRows revision text count with
    | nil =>
      rw [hrows] at hrow
      cases hrow
    | cons row rest =>
      rw [hrows] at hrow
      have hmem : row ∈ satelliteRows revision text count := hrows ▸ List.mem_cons_self
      exact Or.inr (mem_of_mem_satelliteRows hmem hrow)

/-- The first line of an ASCII text is ASCII. -/
theorem isAscii_firstLine {count : ℕ} (h : Text.isAscii text) :
    Text.isAscii (firstLine revision text (satelliteRows revision text count)) := by
  refine Text.isAscii_iff.2 fun c hc => ?_
  rcases mem_firstLine hc with rfl | htext
  · cases revision <;> decide
  · exact Text.isAscii_iff.1 h c htext

/-- The lines of a record are lines. -/
theorem newline_not_mem_observationLines {count : ℕ} (htext : '\n' ∉ text)
    (hclock : ∀ offset ∈ clock, '\n' ∉ offset) :
    ∀ line ∈ observationLines revision text count clock, '\n' ∉ line := by
  have hfirst : '\n' ∉ firstLine revision text (satelliteRows revision text count) := fun hmem => by
    rcases mem_firstLine hmem with hlead | hmem
    · cases revision <;> exact absurd hlead (by decide)
    · exact htext hmem
  have hblanks : ∀ n, '\n' ∉ Text.blanks n := fun n hmem =>
    absurd (List.eq_of_mem_replicate hmem) (by decide)
  -- A line is put together from the description, from spaces and from the offset.
  intro line hline hmem
  rcases List.mem_cons.1 hline with rfl | hline
  · cases clock with
    | none => exact hfirst hmem
    | some offset =>
      rcases List.mem_append.1 hmem with hpad | hoffset
      · rcases List.mem_append.1 hpad with hshown | hspace
        · exact hfirst hshown
        · exact hblanks _ hspace
      · exact hclock offset rfl hoffset
  · obtain ⟨row, hrow, rfl⟩ := List.mem_map.1 hline
    rcases List.mem_append.1 hmem with hspace | hcolumn
    · exact hblanks _ hspace
    · exact htext (mem_of_mem_satelliteRows (List.mem_of_mem_tail hrow) hcolumn)

/-! ## Reading a record -/

/-- What the lines of a record hold, and in which columns, where the description has `count`
satellites. -/
structure Readable (revision : Revision) (text : Text) (count : ℕ) (clock : Option Text)
    (lines : List Text) : Prop where
  /-- A line has room for twelve satellites. There is a line also without any. -/
  length : lines.length = max 1 ((revision.repeated count + 11) / 12)
  /-- The first line starts with the columns of the description in front of the satellites. -/
  front : (lines.headD []).take (revision.frontColumns + 1) =
    revision.lead :: text.take revision.frontColumns
  /-- These columns are blank on the other lines. -/
  indent : ∀ line ∈ lines.tail,
    line.take (revision.frontColumns + 1) = Text.blanks (revision.frontColumns + 1)
  /-- The satellites follow, the rows put together as they stand in the description. -/
  satellites : (lines.mapIdx fun row line => (line.drop (revision.frontColumns + 1)).take
      (rowColumns (revision.repeated count) row)).flatten =
    (text.drop revision.satelliteColumn).take (3 * revision.repeated count)
  /-- A line ends with its satellites unless it is the first one and there is a clock. -/
  ending : ∀ row line, lines[row]? = some line → (row = 0 → clock = none) →
    line.length = revision.frontColumns + 1 + rowColumns (revision.repeated count) row
  /-- The first line ends with the clock, which starts at its own column and byte, after blanks. -/
  offset : ∀ offset ∈ clock, ∃ before, lines.headD [] = before ++ offset ∧
    before.length = revision.clockColumn ∧ Text.byteLength before = revision.clockColumn ∧
    ∀ c ∈ before.drop (revision.frontColumns + 1 + rowColumns (revision.repeated count) 0), c = ' '

/-! ### The columns of the lines -/

/-- The front of the first line. -/
theorem length_front (hlisted : (ofText revision text).satellites layout = .ok listed) :
    (revision.lead :: text.take revision.frontColumns).length = revision.frontColumns + 1 := by
  have hfront : revision.frontColumns ≤ text.length :=
    le_length_of_count (satellites_eq_ok_iff.1 hlisted).1
  rw [List.length_cons, List.length_take, min_eq_left hfront]

/-- The description has the columns of all satellites that are repeated. -/
theorem length_repeated (hlisted : (ofText revision text).satellites layout = .ok listed) :
    ((text.drop revision.satelliteColumn).take (3 * revision.repeated listed.length)).length =
      3 * revision.repeated listed.length := by
  rw [List.length_take, List.length_drop]
  cases revision with
  | v1 =>
    have hlen := le_length_of_satellites hlisted
    show min (3 * listed.length) (text.length - 31) = 3 * listed.length
    omega
  | v3 => exact Nat.zero_min _

/-- There is a row for every twelve satellites. -/
theorem length_satelliteRows (hlisted : (ofText revision text).satellites layout = .ok listed) :
    (satelliteRows revision text listed.length).length =
      (revision.repeated listed.length + 11) / 12 := by
  rw [satelliteRows, Text.length_groups, length_repeated hlisted]
  omega

/-- A row has three columns for each of its satellites. -/
theorem length_getElem_satelliteRows
    (hlisted : (ofText revision text).satellites layout = .ok listed) {row : ℕ}
    (h : row < (satelliteRows revision text listed.length).length) :
    (satelliteRows revision text listed.length)[row].length =
      rowColumns (revision.repeated listed.length) row := by
  have hrow : (satelliteRows revision text listed.length)[row] = _ := Text.getElem_groups h
  rw [hrow, List.length_take, List.length_drop, length_repeated hlisted, rowColumns]
  omega

/-- Without satellites the first row is empty. -/
theorem length_headD_satelliteRows
    (hlisted : (ofText revision text).satellites layout = .ok listed) :
    ((satelliteRows revision text listed.length).headD []).length =
      rowColumns (revision.repeated listed.length) 0 := by
  cases hrows : satelliteRows revision text listed.length with
  | nil =>
    -- Without rows there are no satellites to repeat.
    have hlen := length_satelliteRows hlisted
    rw [hrows, List.length_nil] at hlen
    rw [rowColumns]
    simp only [List.headD_nil, List.length_nil]
    omega
  | cons row rest =>
    have hpos : 0 < (satelliteRows revision text listed.length).length := by simp [hrows]
    have hlen := length_getElem_satelliteRows hlisted hpos
    simpa [hrows] using hlen

/-- The first line has the front columns, the flag column and the first row. -/
theorem length_firstLine (hlisted : (ofText revision text).satellites layout = .ok listed) :
    (firstLine revision text (satelliteRows revision text listed.length)).length =
      revision.frontColumns + 1 + rowColumns (revision.repeated listed.length) 0 := by
  rw [firstLine, List.length_append, length_front hlisted, length_headD_satelliteRows hlisted]

/-- The clock has its column to itself. -/
theorem length_firstLine_le (revision : Revision) (count : ℕ) :
    revision.frontColumns + 1 + rowColumns (revision.repeated count) 0 ≤ revision.clockColumn := by
  cases revision with
  | v1 =>
    show 31 + 1 + 3 * min 12 (count - 12 * 0) ≤ 68
    omega
  | v3 =>
    show 34 + 1 + 3 * min 12 (0 - 12 * 0) ≤ 41
    omega

/-- A row of satellites is found behind the columns in front of it. -/
theorem take_rowColumns {front row rest : Text} {columns width : ℕ}
    (hfront : front.length = columns)
    (hrow : row.length = width) : ((front ++ row ++ rest).drop columns).take width = row := by
  rw [List.append_assoc, List.drop_left' hfront, List.take_left' hrow]

/-- The first line shows the front of the description and the first row of satellites. -/
theorem exists_firstLine_append (revision : Revision) (text : Text) (count : ℕ)
    (clock : Option Text) :
    ∃ rest, (observationLines revision text count clock).headD [] =
      firstLine revision text (satelliteRows revision text count) ++ rest := by
  cases clock with
  | none => exact ⟨[], (List.append_nil _).symm⟩
  | some offset => exact ⟨_, List.append_assoc ..⟩

/-- The satellites of all lines are the rows that the satellites have been cut into. -/
theorem flatten_rows (hlisted : (ofText revision text).satellites layout = .ok listed)
    (clock : Option Text) :
    ((observationLines revision text listed.length clock).mapIdx fun row line =>
        (line.drop (revision.frontColumns + 1)).take
          (rowColumns (revision.repeated listed.length) row)).flatten =
      (satelliteRows revision text listed.length).flatten := by
  obtain ⟨rest, hrest⟩ := exists_firstLine_append revision text listed.length clock
  have hhead : (((observationLines revision text listed.length clock).headD []).drop
        (revision.frontColumns + 1)).take (rowColumns (revision.repeated listed.length) 0) =
      (satelliteRows revision text listed.length).headD [] := by
    rw [hrest, firstLine]
    exact take_rowColumns (length_front hlisted) (length_headD_satelliteRows hlisted)
  -- On the other lines the blanks in front are as wide as the front of the first line.
  have htail : (((satelliteRows revision text listed.length).tail.map
        (Text.blanks (revision.frontColumns + 1) ++ ·)).mapIdx fun row line =>
          (line.drop (revision.frontColumns + 1)).take
            (rowColumns (revision.repeated listed.length) (row + 1))) =
      (satelliteRows revision text listed.length).tail := by
    refine List.ext_getElem (by simp) fun row hrow hrow' => ?_
    have hlt : row + 1 < (satelliteRows revision text listed.length).length := by
      rw [List.length_tail] at hrow'
      omega
    have hwidth := length_getElem_satelliteRows hlisted hlt
    rw [List.getElem_mapIdx, List.getElem_map, List.getElem_tail,
      ← List.append_nil (Text.blanks _ ++ _)]
    exact take_rowColumns (Text.length_blanks _) hwidth
  have hrows : (satelliteRows revision text listed.length).headD [] ++
      (satelliteRows revision text listed.length).tail.flatten =
        (satelliteRows revision text listed.length).flatten := by
    cases satelliteRows revision text listed.length <;> rfl
  rw [← hrows, ← hhead]
  rw [observationLines] at *
  rw [List.mapIdx_cons, List.flatten_cons]
  exact congrArg (_ ++ ·) (congrArg List.flatten htail)

/-- The lines of an epoch of observations are readable. -/
theorem readable_observationLines (hascii : Text.isAscii text)
    (hlisted : (ofText revision text).satellites layout = .ok listed) (clock : Option Text) :
    Readable revision text listed.length clock
      (observationLines revision text listed.length clock) where
  length := by
    have hrows := length_satelliteRows hlisted
    rw [observationLines, List.length_cons, List.length_map, List.length_tail, hrows]
    omega
  front := by
    obtain ⟨rest, hrest⟩ := exists_firstLine_append revision text listed.length clock
    rw [hrest, firstLine, List.append_assoc, List.take_left' (length_front hlisted)]
  indent := by
    intro line hline
    obtain ⟨row, -, rfl⟩ := List.mem_map.1 hline
    rw [List.take_left' (Text.length_blanks _)]
  satellites := by
    rw [flatten_rows hlisted, satelliteRows, Text.flatten_groups (by decide)]
  ending := by
    intro row line hline hclock
    cases row with
    | zero =>
      obtain rfl := hclock rfl
      obtain rfl := Option.some.inj hline
      exact length_firstLine hlisted
    | succ row =>
      rw [observationLines, List.getElem?_cons_succ, List.getElem?_map, List.getElem?_tail,
        Option.map_eq_some_iff] at hline
      obtain ⟨columns, hcolumns, rfl⟩ := hline
      obtain ⟨hrow, rfl⟩ := List.getElem?_eq_some_iff.1 hcolumns
      rw [List.length_append, Text.length_blanks, length_getElem_satelliteRows hlisted hrow]
  offset := by
    rintro offset rfl
    have hfirst := length_firstLine hlisted
    have hle := length_firstLine_le revision listed.length
    have hlen : (Text.padRight revision.clockColumn
        (firstLine revision text (satelliteRows revision text listed.length))).length =
        revision.clockColumn := by
      rw [Text.length_padRight]
      omega
    refine ⟨_, rfl, hlen, ?_, fun c hc => ?_⟩
    · rw [Text.byteLength_of_isAscii (Overlay.isAscii_padRight (isAscii_firstLine hascii)), hlen]
    · rw [Text.padRight, ← hfirst, List.drop_left] at hc
      exact List.eq_of_mem_replicate hc

/-- The clock is what the first line holds from its column on. -/
theorem Readable.clock_eq {count : ℕ} {lines : List Text}
    (h : Readable revision text count clock lines) (hclock : ∀ offset ∈ clock, offset ≠ []) :
    clock = if revision.clockColumn < (lines.headD []).length then
      some ((lines.headD []).drop revision.clockColumn) else none := by
  cases clock with
  | none =>
    have hpos : 0 < lines.length := by
      rw [h.length]
      omega
    have hfirst : lines[0]? = some (lines.headD []) := by
      rw [List.getElem?_eq_getElem hpos, List.headD_eq_head?_getD, List.head?_eq_getElem?,
        List.getElem?_eq_getElem hpos]
      rfl
    -- Without an offset the first line ends before its column.
    have hlen := h.ending 0 _ hfirst fun _ => rfl
    have hle := length_firstLine_le revision count
    rw [if_neg (by omega)]
  | some offset =>
    -- With one, the offset is what follows the column.
    obtain ⟨before, hline, hbefore, -⟩ := h.offset offset rfl
    have hpos : 0 < offset.length := List.length_pos_iff.2 (hclock offset rfl)
    rw [hline, List.length_append, hbefore, if_pos (by omega), ← hbefore, List.drop_left]

/-- Two records with the same lines have the same front, and the same satellites if they have as
many. -/
theorem Readable.columns_eq {count count' : ℕ} {lines : List Text}
    (h : Readable revision text count clock lines)
    (h' : Readable revision text' count' clock' lines) :
    text.take revision.frontColumns = text'.take revision.frontColumns ∧
      (count = count' → (text.drop revision.satelliteColumn).take (3 * revision.repeated count) =
        (text'.drop revision.satelliteColumn).take (3 * revision.repeated count)) := by
  refine ⟨(List.cons.inj (h.front.symm.trans h'.front)).2, ?_⟩
  rintro rfl
  exact h.satellites.symm.trans h'.satellites

/-! ## Records of descriptions -/

/-- A description of an epoch of observations, with a clock or without one, as it can be written. -/
structure Writable (revision : Revision) (layout : Layout) (text : Text) (listed : List Listed)
    (clock : Option Text) : Prop where
  /-- The description is a line. -/
  line : '\n' ∉ text
  /-- The description is ASCII. -/
  ascii : Text.isAscii text
  /-- The epoch is no event. -/
  flag : ∃ flag, (ofText revision text).flag = .ok flag ∧ flag.isEvent = false
  /-- These are its satellites. -/
  satellites : (ofText revision text).satellites layout = .ok listed
  /-- The clock is part of a line, and not empty. -/
  clock : ∀ offset ∈ clock, offset ≠ [] ∧ '\n' ∉ offset

/-- The lines of the recovered text. -/
theorem Writable.segments_observationLine (h : Writable revision layout text listed clock) :
    Text.segments (· == '\n') (observationLine revision text listed.length clock) =
      observationLines revision text listed.length clock := by
  have hfront : revision.frontColumns ≤ text.length :=
    le_length_of_count (satellites_eq_ok_iff.1 h.satellites).1
  have hlines : ∀ line ∈ observationLines revision text listed.length clock, '\n' ∉ line :=
    newline_not_mem_observationLines h.line fun offset hoffset => (h.clock offset hoffset).2
  rw [observationLine_eq_intercalate _ _ hfront]
  exact @Text.segments_intercalate Char (· == '\n') '\n' (beq_self_eq_true '\n') _
    (List.cons_ne_nil _ _) fun line hline c hc =>
      beq_false_of_ne fun heq => hlines line hline (heq ▸ hc)

/-- Descriptions with the same front have as many satellites, and the same ones if their columns are
repeated and are the same. -/
theorem Writable.listed_eq (h : Writable revision layout text listed clock)
    (h' : Writable revision layout text' listed' clock')
    (hfront : text.take revision.frontColumns = text'.take revision.frontColumns) :
    listed.length = listed'.length ∧
      (revision = .v1 → (text.drop revision.satelliteColumn).take (3 * listed.length) =
        (text'.drop revision.satelliteColumn).take (3 * listed.length) → listed' = listed) := by
  have hcount := (satellites_eq_ok_iff.1 h.satellites).1
  have hcount' := (satellites_eq_ok_iff.1 h'.satellites).1
  have hlength : listed.length = listed'.length := by
    rw [count_of_columns hfront (le_length_of_count hcount) (le_length_of_count hcount'), hcount']
      at hcount
    exact (Except.ok.inj hcount).symm
  refine ⟨hlength, ?_⟩
  rintro rfl hcolumns
  have hlen := le_length_of_satellites h.satellites
  have hlen' := le_length_of_satellites h'.satellites
  rw [← hlength] at hlen'
  -- The front and the columns of the satellites are all columns up to the last satellite.
  have htake : text.take (31 + 3 * listed.length) = text'.take (31 + 3 * listed.length) := by
    rw [List.take_add, List.take_add]
    exact congrArg₂ (· ++ ·) hfront hcolumns
  have hsame := satellites_of_columns h.satellites htake hlen hlen'
  exact Except.ok.inj (h'.satellites.symm.trans hsame)

/-- The recovered line of an epoch of observations is there and can be read back: its lines have the
parts of the description in their columns, and no description with another front, another clock or,
where they are repeated, other satellites is written in the same way. -/
theorem Writable.readable (h : Writable revision layout text listed clock) :
    ∃ record, (ofText revision text).render clock = .ok record ∧
      Readable revision text listed.length clock (Text.segments (· == '\n') record) ∧
      ∀ text' listed' clock', Writable revision layout text' listed' clock' →
        (ofText revision text').render clock' = .ok record →
        text'.take revision.frontColumns = text.take revision.frontColumns ∧ clock' = clock ∧
          (revision = .v1 → listed' = listed) := by
  obtain ⟨flag, hflag, hevent⟩ := h.flag
  have hread := readable_observationLines h.ascii h.satellites clock
  refine ⟨_, render_observations hflag hevent h.satellites clock, ?_, ?_⟩
  · rw [h.segments_observationLine]
    exact hread
  · intro text' listed' clock' h' hrender
    obtain ⟨flag', hflag', hevent'⟩ := h'.flag
    rw [render_observations hflag' hevent' h'.satellites clock'] at hrender
    -- Equal records have equal lines, from which the parts are read.
    have hlines := congrArg (Text.segments (· == '\n')) (Except.ok.inj hrender)
    rw [h.segments_observationLine, h'.segments_observationLine] at hlines
    have hread' := readable_observationLines h'.ascii h'.satellites clock'
    rw [hlines] at hread'
    obtain ⟨hfront, hcolumns⟩ := hread.columns_eq hread'
    obtain ⟨hlength, hlisted⟩ := h.listed_eq h' hfront
    refine ⟨hfront.symm, ?_, fun hrevision => hlisted hrevision ?_⟩
    · rw [hread.clock_eq fun offset hoffset => (h.clock offset hoffset).1]
      exact hread'.clock_eq fun offset hoffset => (h'.clock offset hoffset).1
    · have hsame := hcolumns hlength
      rw [hrevision] at hsame ⊢
      exact hsame

/-- Thirteen satellites and a clock: the last satellite is on a second line. -/
theorem readable_thirteen :
    let text := "21 01 01 00 00 00.0000000  0 13G01G02G03G04G05G06G07G08G09G10G11G12G13".toList
    let clock := "-0.123456789".toList
    let listed := (List.range 13).map fun i =>
      (⟨⟨.gps, .ofNat (i + 1)⟩, (text.drop (31 + 3 * i)).take 3⟩ : Listed)
    Writable .v1 (.ofRevision .v1) text listed (some clock) ∧
      ∃ record, (ofText .v1 text).render (some clock) = .ok record ∧
        Readable .v1 text 13 (some clock) (Text.segments (· == '\n') record) := by
  intro text clock listed
  have hwritable : Writable .v1 (.ofRevision .v1) text listed (some clock) :=
    { line := by decide
      ascii := by decide
      flag := ⟨.ok, by decide, rfl⟩
      satellites := by decide
      clock := by
        rintro _ ⟨⟩
        decide }
  obtain ⟨record, hrecord, hreadable, -⟩ := hwritable.readable
  exact ⟨hwritable, record, hrecord, hreadable⟩

end EpochDescription

end CompactRinex
