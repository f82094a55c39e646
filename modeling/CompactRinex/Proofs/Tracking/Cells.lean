import CompactRinex.Proofs.Compressor.Satellite
import CompactRinex.Proofs.Tracking.Rejection

/-!
# Reading recovered records

The record of a satellite can be read back. Blanks at the ends of its lines are not written, but
with them each cell has its place: the third revision has all cells behind the identifier, and the
first has five of them on each line (`ReadsBack`). A cell ends with its two flags, and in front of
them is the number of the latest value of its column, or blanks where the field is missing
(`HoldsCell`). This takes that a kernel has the form of the column that is declared, and that no
flag is a blank other than the space. Both are true as long as one layout is used (`Conforms`), as
every operation keeps them.
-/

namespace CompactRinex

/-! ## Blanks -/

namespace Text

variable {s t : Text}

/-- Blanks are spaces. -/
theorem onlySpaces_blanks (n : ℕ) : OnlySpaces (blanks n) :=
  fun _ hc _ => List.eq_of_mem_replicate hc

/-- Two texts whose blanks are spaces. -/
theorem OnlySpaces.append (hs : OnlySpaces s) (ht : OnlySpaces t) : OnlySpaces (s ++ t) :=
  fun c hc => (List.mem_append.1 hc).elim (hs c) (ht c)

/-- A text without blanks. -/
theorem onlySpaces_of_visible (h : ∀ c ∈ t, isBlank c = false) : OnlySpaces t :=
  fun c hc hblank => absurd hblank (Bool.eq_false_iff.1 (h c hc))

/-- A newline is a blank. -/
theorem OnlySpaces.newline_not_mem (h : OnlySpaces t) : '\n' ∉ t :=
  fun hmem => absurd (h '\n' hmem rfl) (by decide)

/-- A digit is not blank. -/
theorem isBlank_of_isDigit {c : Char} (h : c.isDigit = true) : isBlank c = false := by
  have hdigit := Char.isDigit_iff_toNat.1 h
  have h0 : '0'.toNat = 48 := rfl
  have h9 : '9'.toNat = 57 := rfl
  refine Bool.eq_false_iff.2 fun hblank => ?_
  simp only [isBlank, Bool.or_eq_true, Bool.and_eq_true, decide_eq_true_eq, beq_iff_eq] at hblank
  omega

end Text

/-- A number is written without blanks, apart from the spaces in front of it. -/
theorem Column.onlySpaces_text (column : Column) (z : ℤ) : Text.OnlySpaces (column.text z) := by
  -- A sign, digits and a point are visible, only the padding is blank.
  have hsign : Text.OnlySpaces (if z < 0 then ['-'] else []) := by
    split
    · exact Text.onlySpaces_of_visible (List.forall_mem_singleton.2 rfl)
    · exact Text.onlySpaces_of_visible (List.forall_mem_nil _)
  have hdigits : Text.OnlySpaces (Numeral.digits (z.natAbs / scale column.decimals)) :=
    Text.onlySpaces_of_visible fun c hc =>
      Text.isBlank_of_isDigit (Numeral.isDigit_of_mem_digits hc)
  have hfraction : Text.OnlySpaces (if column.decimals = 0 then [] else
      '.' :: fractionDigits z.natAbs column.decimals) := by
    split
    · exact Text.onlySpaces_of_visible (List.forall_mem_nil _)
    · refine Text.onlySpaces_of_visible fun c hc => ?_
      rcases List.mem_cons.1 hc with rfl | hc
      · decide
      · exact Text.isBlank_of_isDigit (isDigit_of_mem_fractionDigits hc)
  rw [text, Text.padLeft, fixedPoint_eq]
  exact (Text.onlySpaces_blanks _).append ((hsign.append hdigits).append hfraction)

/-- Blanks are no number. -/
theorem Column.read_blanks (decimals n : ℕ) : read decimals (Text.blanks n) = none := by
  have hdrop : (Text.blanks n).dropWhile (· == ' ') = [] := by
    rw [List.dropWhile_eq_nil_iff]
    intro c hc
    exact beq_iff_eq.2 (List.eq_of_mem_replicate hc)
  have hnone : readUnsigned decimals [] = none := by
    unfold readUnsigned
    split <;> rfl
  rw [read, hdrop]
  simp only [hnone, Option.map_none]

variable {maxOrder : ℕ}

/-! ## Flags -/

/-- The only blank flag is the space. -/
theorem Observation.onlySpaces_of_isFlag {t : Text} (h : ∀ c ∈ t, isFlag c = true) :
    Text.OnlySpaces t := by
  intro c hc hblank
  have hflag := h c hc
  simp only [isFlag, Bool.or_eq_true, beq_iff_eq] at hflag
  rcases hflag with hdigit | hspace
  · exact absurd hblank (Bool.eq_false_iff.1 (Text.isBlank_of_isDigit hdigit))
  · exact hspace

/-- An edit of flags leaves a flag in each column. -/
theorem Observation.isFlag_put {c e : Char} (hc : isFlag c = true)
    (he : DataLine.isFlagEdit e = true) : isFlag (Overlay.put ' ' '&' c e) = true := by
  unfold Overlay.put
  split
  · exact hc
  · next hspace =>
    split
    · rfl
    · next herase =>
      simp only [DataLine.isFlagEdit, Bool.or_eq_true, beq_iff_eq, hspace, herase, or_false] at he
      simp only [isFlag, he, Bool.true_or]

/-- What a line holds for the flags can be applied to flags. -/
theorem DataLine.isFlagEdit_getD {count : ℕ} {text : Text} {line : DataLine}
    (h : parse count text = .ok line) (i : ℕ) : isFlagEdit (line.flags.getD i ' ') = true := by
  unfold parse at h
  obtain ⟨⟨fields, flags⟩, -, hrest⟩ := bind_eq_ok_iff.1 h
  simp only at hrest
  split at hrest
  · next hadmits =>
    cases hrest
    simp only [admitsFlags, Bool.and_eq_true, List.all_eq_true] at hadmits
    -- Past the end there is a space, which keeps the flag.
    by_cases hi : i < flags.length
    · rw [List.getD_eq_getElem _ _ hi]
      exact hadmits.1 _ (List.getElem_mem hi)
    · rw [List.getD_eq_default _ _ (Nat.le_of_not_lt hi)]
      rfl
  · cases hrest

namespace Track

/-- The text of the flags has a flag in each column. -/
def PlainFlags (t : Track maxOrder) : Prop :=
  ∃ text, t.flags.reference = some text ∧ ∀ i, Observation.isFlag (text.getD i ' ') = true

/-- A new track has blank flags. -/
theorem plainFlags_fresh (count : ℕ) : (fresh count : Track maxOrder).PlainFlags := by
  refine ⟨_, rfl, fun i => ?_⟩
  rw [Overlay.getD_padRight]
  rfl

/-- What a line does to a track with plain flags: they take those of the line, column by column. -/
theorem PlainFlags.advance {t : Track maxOrder} (h : t.PlainFlags) {columns : List Column}
    {text : Text} {line : DataLine} (hline : DataLine.parse columns.length text = .ok line) :
    ∃ before flags, t.flags.reference = some before ∧
      (∀ i, flags.getD i ' ' = Overlay.put ' ' '&' (before.getD i ' ') (line.flags.getD i ' ')) ∧
      (∀ i, Observation.isFlag (flags.getD i ' ') = true) ∧
      t.advance columns line =
        ⟨⟨{ t.flags with reference := some flags },
          (advanceCells columns line.fields t.kernels).state⟩,
          (advanceCells columns line.fields t.kernels).result.map (withFlags flags)⟩ := by
  obtain ⟨before, href, hbefore⟩ := h
  have hascii : Text.isAscii before := Overlay.isAscii_iff_getD.2 fun i =>
    (Observation.of_isFlag (hbefore i)).1.2.trans (by decide)
  -- The stored flags are padded with spaces, so every position has a flag to be merged with.
  have hput : ∀ i, (Overlay.merge (Text.padRight t.flags.width before) line.flags).getD i ' ' =
      Overlay.put ' ' '&' (before.getD i ' ') (line.flags.getD i ' ') := fun i => by
    rw [Overlay.getD_merge, Overlay.getD_padRight]
  refine ⟨before, _, href, hput, fun i => ?_,
    advance_of_isAscii href hascii columns (parse_eq_ok hline).2⟩
  rw [hput]
  exact Observation.isFlag_put (hbefore i) (DataLine.isFlagEdit_getD hline i)

end Track

namespace Tracking

/-! ## One layout -/

/-- The layout of a data line. -/
def Operation.layout? : Operation → Option Layout
  | .decode layout _ _ _ => some layout
  | .retain _ | .reset => none

/-- The tracks have been made with the columns of the layout. -/
structure Conforms (t : Tracking maxOrder) (layout : Layout) : Prop where
  /-- Each column of the flags holds a flag. -/
  plainFlags : ∀ s track, t.tracks.get? s = some track → track.PlainFlags
  /-- A kernel has the form of its column. -/
  column : ∀ s i k, t.kernel? s i = some k →
    ∃ columns, layout.columnsOf s = some columns ∧ columns[i]? = some k.column

/-- Without tracks there is nothing to conform. -/
theorem conforms_empty (layout : Layout) : (∅ : Tracking maxOrder).Conforms layout where
  plainFlags _ track htrack := absurd htrack.symm (Option.some_ne_none track)
  column _ _ k hk := absurd hk.symm (Option.some_ne_none k)

/-- The track of a satellite has plain flags, also a new one. -/
theorem Conforms.getD {t : Tracking maxOrder} {layout : Layout} (h : t.Conforms layout)
    (s : Satellite) (count : ℕ) : ((t.tracks.get? s).getD (.fresh count)).PlainFlags := by
  cases htrack : t.tracks.get? s with
  | none => exact Track.plainFlags_fresh count
  | some track => exact h.plainFlags s track htrack

/-- An operation with the same layout leaves tracks of the same form. -/
theorem Conforms.perform {t : Tracking maxOrder} {layout : Layout} (h : t.Conforms layout)
    {operation : Operation} (hlayout : ∀ used ∈ operation.layout?, used = layout) :
    (t.perform operation).Conforms layout := by
  cases operation with
  | decode used satellite id line =>
    obtain rfl := hlayout used rfl
    refine ⟨?plainFlags, ?column⟩
    case plainFlags =>
      simp only [Tracking.perform]
      rcases t.decode_cases used satellite id line with ⟨fault, -, hrefused⟩ |
        ⟨columns, dataLine, advanced, -, hline, hadvanced, htaken⟩
      · rw [hrefused]
        exact h.plainFlags
      · rw [htaken]
        intro s track htrack
        rw [Table.get?_insert] at htrack
        split at htrack
        · cases htrack
          obtain ⟨-, flags, -, -, hflags, hmoved⟩ :=
            (h.getD satellite columns.length).advance hline
          rw [← hadvanced, hmoved]
          exact ⟨flags, rfl, hflags⟩
        · exact h.plainFlags s track htrack
    case column =>
      intro s i k hk
      -- A kernel has been there before, or it is made for the column of the layout.
      rcases column_decode hk with ⟨k₀, hk₀, hcolumn⟩ | hmade
      · rw [hcolumn]
        exact h.column s i k₀ hk₀
      · exact hmade
  | retain satellites =>
    refine ⟨fun s track htrack => ?_, fun s i k hk => ?_⟩
    · simp only [Tracking.perform, retain, Table.get?_restrict] at htrack
      split at htrack
      · exact h.plainFlags s track htrack
      · cases htrack
    · simp only [Tracking.perform, kernel?_retain] at hk
      split at hk
      · exact h.column s i k hk
      · cases hk
  | reset => exact conforms_empty layout

/-- Operations with the same layout keep the tracks conforming. -/
theorem Conforms.performAll {t : Tracking maxOrder} {layout : Layout} (h : t.Conforms layout)
    {operations : List Operation}
    (hlayout : ∀ operation ∈ operations, ∀ used ∈ operation.layout?, used = layout) :
    (t.performAll operations).Conforms layout := by
  induction operations generalizing t with
  | nil => exact h
  | cons operation rest ih =>
    obtain ⟨hhead, htail⟩ := List.forall_mem_cons.1 hlayout
    exact ih (h.perform hhead) htail

/-! ## Cells -/

/-- What the cell of a column holds, after the data line has led to the tracks `t`. -/
structure HoldsCell (t : Tracking maxOrder) (s : Satellite) (i : ℕ) (column : Column)
    (field : Field) (cell : Text) : Prop where
  /-- The cell is two flags wider than the column. -/
  length : cell.length = column.width + 2
  /-- The cell ends with the flags of the column. -/
  flags : cell.drop column.width =
    [(t.flags s).getD (2 * i) ' ', (t.flags s).getD (2 * i + 1) ' ']
  /-- In front of them it is blank exactly if the field is missing. -/
  blank : field = .missing ↔ cell.take column.width = Text.blanks column.width
  /-- Otherwise it is the number of the latest value. -/
  value : field ≠ .missing → ∃ value, t.value? s i = some value ∧
    column.Shows (cell.take column.width) value

/-- A text that stands for a value is not blank. -/
theorem ne_blanks_of_shows {column : Column} {text : Text} {value : Int64}
    (h : column.Shows text value) : text ≠ Text.blanks column.width := by
  rintro rfl
  have hread := h.read_eq
  rw [Column.read_blanks] at hread
  cases hread

/-- The text of a value after a data line, from what has been written there. -/
theorem Conforms.shows_of_writes {t : Tracking maxOrder} {layout : Layout} (h : t.Conforms layout)
    {s : Satellite} {columns : List Column} (hcolumns : layout.columnsOf s = some columns) {i : ℕ}
    {column : Column} (hcolumn : columns[i]? = some column) {field : Field} {text : Text}
    (hwrites : Track.Writes (t.kernel? s i) column field text) :
    Text.OnlySpaces text ∧ text.length = column.width ∧
      (field = .missing → text = Text.blanks column.width) ∧
      (field ≠ .missing → ∃ value, t.value? s i = some value ∧ column.Shows text value) := by
  obtain ⟨hblank, hvalue⟩ := hwrites
  by_cases hmissing : field = .missing
  · obtain rfl := hblank hmissing
    exact ⟨Text.onlySpaces_blanks _, Text.length_blanks _, fun _ => rfl,
      fun hne => absurd hmissing hne⟩
  · obtain ⟨k, value, hk, hlatest, hrender⟩ := hvalue hmissing
    -- The kernel has the form of the column that is declared.
    obtain ⟨columns', hcolumns', hform⟩ := h.column s i k hk
    obtain rfl : columns = columns' := Option.some.inj (hcolumns.symm.trans hcolumns')
    obtain rfl : column = k.column := Option.some.inj (hcolumn.symm.trans hform)
    have hshows := Column.shows_of_render hrender
    refine ⟨?_, hshows.length_eq, fun he => absurd he hmissing, fun _ => ⟨value, ?_, hshows⟩⟩
    · obtain ⟨-, -, rfl⟩ := Column.render_eq_ok_iff.1 hrender
      exact Column.onlySpaces_text k.column value.toInt
    · rw [value?_eq, hk]
      exact hlatest

/-- The cells of a line that is accepted, before the record is put together from them. -/
theorem Conforms.exists_cells {t : Tracking maxOrder} {layout : Layout} (h : t.Conforms layout)
    {s : Satellite} {id line record : Text}
    (hresult : (t.decode layout s id line).result = .ok record) :
    ∃ columns dataLine cells, layout.columnsOf s = some columns ∧
      DataLine.parse columns.length line = .ok dataLine ∧
      record = render layout.revision id cells ∧
      (∀ c, ((t.decode layout s id line).state.flags s).getD c ' ' =
        Overlay.put ' ' '&' ((t.flags s).getD c ' ') (dataLine.flags.getD c ' ')) ∧
      cells.length = columns.length ∧
      ∀ (i : ℕ) column, columns[i]? = some column → ∃ field cell,
        dataLine.fields[i]? = some field ∧ cells[i]? = some cell ∧ Text.OnlySpaces cell ∧
          HoldsCell (t.decode layout s id line).state s i column field cell := by
  have hafter : (t.decode layout s id line).state.Conforms layout :=
    @Conforms.perform _ t layout h (.decode layout s id line) fun _ hused =>
      (Option.some.inj hused).symm
  obtain ⟨columns, dataLine, cells, hcolumns, hline, hcells, rfl, hstate⟩ := decode_eq_ok hresult
  obtain ⟨before, flags, href, hput, hflag, hmoved⟩ := (h.getD s columns.length).advance hline
  rw [hmoved] at hcells hstate
  obtain ⟨values, hvalues, rfl⟩ := map_eq_ok_iff.1 hcells
  obtain ⟨hlength, hwrites⟩ := Track.writes_of_advanceCells (Track.parse_eq_ok hline).1 hvalues
  -- The flags after the line are those that the cells have been written with.
  have hflags : (t.decode layout s id line).state.flags s = flags := by
    simp only [hstate, Tracking.flags, Table.get?_insert, if_true, Option.bind_some,
      Option.getD_some]
  refine ⟨columns, dataLine, _, hcolumns, hline, rfl, fun c => ?_, ?_, fun i column hcolumn => ?_⟩
  · rw [hflags, hput, getD_flags t s columns.length href]
  · rw [Track.withFlags, List.length_mapIdx, hlength]
  · obtain ⟨field, text, hfield, htext, hwritten⟩ := hwrites i column hcolumn
    rw [← kernel?_insert t s ⟨_, (Track.advanceCells columns dataLine.fields _).state⟩, ← hstate]
      at hwritten
    obtain ⟨hspaces, hwidth, hblank, hvalue⟩ := hafter.shows_of_writes hcolumns hcolumn hwritten
    -- The number is as wide as its column, so the cell can be cut behind it.
    have htake : (text ++ Track.flagsAt flags i).take column.width = text := List.take_left' hwidth
    refine ⟨field, text ++ Track.flagsAt flags i, hfield, ?_, hspaces.append ?_, ?_⟩
    · rw [Track.withFlags, List.getElem?_mapIdx, htext]
      rfl
    · refine Observation.onlySpaces_of_isFlag fun c hc => ?_
      simp only [Track.flagsAt, List.mem_cons, List.not_mem_nil, or_false] at hc
      rcases hc with rfl | rfl
      · exact hflag _
      · exact hflag _
    · refine ⟨?_, ?_, ⟨fun he => htake.trans (hblank he), fun he => ?_⟩, fun hne => ?_⟩
      · rw [List.length_append, hwidth]
        rfl
      · rw [List.drop_left' hwidth, hflags]
        rfl
      · by_contra hne
        obtain ⟨value, -, hshows⟩ := hvalue hne
        exact ne_blanks_of_shows hshows (htake.symm.trans he)
      · rw [htake]
        exact hvalue hne

/-! ## Records -/

/-- The width of some cells: each is two flags wider than its column. -/
def cellsWidth (columns : List Column) : ℕ := (columns.map fun column => column.width + 2).sum

/-- With the blanks at the ends of its lines the record is the cells, five of them on each line in
the first revision, and behind the identifier in the third. -/
def ReadsBack (revision : Revision) (id : Text) (columns : List Column) (cells : List Text)
    (record : Text) : Prop :=
  match revision with
  | .v1 =>
    let lines := Text.segments (· == '\n') record
    lines.length = max 1 ((columns.length + 4) / 5) ∧
      ∀ row line, lines[row]? = some line →
        Text.padRight (cellsWidth ((columns.drop (5 * row)).take 5)) line =
          ((cells.drop (5 * row)).take 5).flatten
  | .v3 => Text.padRight (id.length + cellsWidth columns) record = id ++ cells.flatten

/-- A cell of the width of its column, in which all blanks are spaces. -/
def FillsCell (column : Column) (cell : Text) : Prop :=
  cell.length = column.width + 2 ∧ Text.OnlySpaces cell

/-- The cells are as wide as their columns. -/
theorem length_flatten_cells {columns : List Column} {cells : List Text}
    (h : List.Forall₂ FillsCell columns cells) : cells.flatten.length = cellsWidth columns := by
  induction h with
  | nil => rfl
  | cons hcell _ ih =>
    rw [List.flatten_cons, List.length_append, hcell.1, ih]
    rfl

/-- The blanks of the cells are spaces. -/
theorem onlySpaces_flatten_cells {columns : List Column} {cells : List Text}
    (h : List.Forall₂ FillsCell columns cells) : Text.OnlySpaces cells.flatten := by
  induction h with
  | nil => exact fun _ hc => nomatch hc
  | cons hcell _ ih => exact hcell.2.append ih

/-- The blanks at the end of a line of cells are those that it is padded with. -/
theorem padRight_trimEnd_cells {columns : List Column} {cells : List Text}
    (h : List.Forall₂ FillsCell columns cells) :
    Text.padRight (cellsWidth columns) (Text.trimEnd cells.flatten) = cells.flatten := by
  rw [← length_flatten_cells h, (onlySpaces_flatten_cells h).trimEnd_eq, Text.padRight_trimSpaces]

/-- A record is read back from the cells that it has been put together from. -/
theorem readsBack_render (revision : Revision) {id : Text}
    (hid : ∀ c ∈ id, Text.isBlank c = false) {columns : List Column} {cells : List Text}
    (h : List.Forall₂ FillsCell columns cells) :
    ReadsBack revision id columns cells (render revision id cells) := by
  rw [render_eq_recordText]
  cases revision with
  | v3 =>
    have hspaces : Text.OnlySpaces (id ++ cells.flatten) :=
      (Text.onlySpaces_of_visible hid).append (onlySpaces_flatten_cells h)
    have hlength : id.length + cellsWidth columns = (id ++ cells.flatten).length := by
      rw [List.length_append, length_flatten_cells h]
    show Text.padRight _ (Text.trimEnd _) = _
    rw [hlength, hspaces.trimEnd_eq, Text.padRight_trimSpaces]
  | v1 =>
    have hrow : ∀ row, List.Forall₂ FillsCell ((columns.drop (5 * row)).take 5)
        ((cells.drop (5 * row)).take 5) := fun row => List.forall₂_take _ (List.forall₂_drop _ h)
    by_cases hne : cells = []
    · -- Without cells there is one line, which is empty.
      subst hne
      cases h
      refine ⟨rfl, fun row line hline => ?_⟩
      obtain ⟨rfl, rfl⟩ : row = 0 ∧ line = [] := by
        cases row with
        | zero => exact ⟨rfl, (Option.some.inj hline).symm⟩
        | succ row => cases hline
      rfl
    · have hlines : ∀ line ∈ (Text.groups 5 cells).map fun row => Text.trimEnd row.flatten,
          ∀ c ∈ line, (c == '\n') = false := by
        intro line hline c hc
        obtain ⟨row, hmem, rfl⟩ := List.mem_map.1 hline
        obtain ⟨i, -, rfl⟩ := List.mem_map.1 hmem
        have hspaces := onlySpaces_flatten_cells (hrow i)
        exact beq_false_of_ne fun heq =>
          hspaces.newline_not_mem (heq ▸ Text.mem_of_mem_trimEnd hc)
      have hsegments := @Text.segments_intercalate Char (· == '\n') '\n' (beq_self_eq_true '\n') _
        (by simp [Text.groups_of_ne_nil (show 0 < 5 by decide) hne]) hlines
      have hpos : 0 < cells.length := List.length_pos_iff.2 hne
      unfold ReadsBack recordText
      rw [hsegments]
      refine ⟨?_, fun row line hline => ?_⟩
      · rw [List.length_map, Text.length_groups, h.length_eq]
        omega
      · rw [List.getElem?_map, Option.map_eq_some_iff] at hline
        obtain ⟨group, hgroup, rfl⟩ := hline
        obtain ⟨hlt, rfl⟩ := List.getElem?_eq_some_iff.1 hgroup
        rw [Text.getElem_groups hlt]
        exact padRight_trimEnd_cells (hrow row)

/-- The recovered record of a satellite can be read back as long as one layout is used. The record
consists of the cells of all columns, each in its place. Each cell holds the flags of its column,
which have taken those of the line, and the value of its column, or blanks if the field is missing.
-/
theorem cells_of_record {layout : Layout} {operations : List Operation}
    (hlayout : ∀ operation ∈ operations, ∀ used ∈ operation.layout?, used = layout)
    {t : Tracking maxOrder} (ht : t = performAll ∅ operations) {s : Satellite}
    {id line record : Text}
    (hid : ∀ c ∈ id, Text.isBlank c = false)
    (hresult : (t.decode layout s id line).result = .ok record) :
    ∃ columns dataLine cells, layout.columnsOf s = some columns ∧
      DataLine.parse columns.length line = .ok dataLine ∧
      ReadsBack layout.revision id columns cells record ∧
      (∀ c, ((t.decode layout s id line).state.flags s).getD c ' ' =
        Overlay.put ' ' '&' ((t.flags s).getD c ' ') (dataLine.flags.getD c ' ')) ∧
      cells.length = columns.length ∧
      ∀ (i : ℕ) column, columns[i]? = some column → ∃ field cell,
        dataLine.fields[i]? = some field ∧ cells[i]? = some cell ∧
          HoldsCell (t.decode layout s id line).state s i column field cell := by
  have hconforms : t.Conforms layout := by
    rw [ht]
    exact (conforms_empty layout).performAll hlayout
  obtain ⟨columns, dataLine, cells, hcolumns, hline, rfl, hflags, hlength, hcells⟩ :=
    hconforms.exists_cells hresult
  -- The cells fill their columns, which is all that the record depends on.
  have hfills : List.Forall₂ FillsCell columns cells := by
    refine List.forall₂_iff_get.2 ⟨hlength.symm, fun i hi hi' => ?_⟩
    obtain ⟨field, cell, -, hcell, hspaces, hholds⟩ :=
      hcells i columns[i] (List.getElem?_eq_getElem hi)
    obtain rfl : cells[i] = cell :=
      Option.some.inj ((List.getElem?_eq_getElem hi').symm.trans hcell)
    exact ⟨hholds.length, hspaces⟩
  refine ⟨columns, dataLine, cells, hcolumns, hline, readsBack_render _ hid hfills, hflags, hlength,
    fun i column hcolumn => ?_⟩
  obtain ⟨field, cell, hfield, hcell, -, hholds⟩ := hcells i column hcolumn
  exact ⟨field, cell, hfield, hcell, hholds⟩

/-- Six columns on two lines. The third one has no value, but a flag from this line, and the first
one has kept its flag. -/
theorem cells_of_record_six :
    ∃ (layout : Layout) (operations : List Operation) (t : Tracking 5) (line record : Text),
      layout = (Layout.ofRevision .v1).withObservables .gps 6 ∧
      operations = [.decode layout ⟨.gps, 1⟩ "G01".toList "3&1000 3&7 5&9 3&1 3&2 3&-3 1".toList,
        .retain [⟨.gps, 1⟩]] ∧
      t = performAll ∅ operations ∧
      line = "5 -8  1 1 -1500     7".toList ∧
      record = "         1.0051         -0.001                7          0.002".toList ++
        "           0.003\n        -1.503".toList ∧
      (∀ operation ∈ operations, ∀ used ∈ operation.layout?, used = layout) ∧
      (t.decode layout ⟨.gps, 1⟩ "G01".toList line).result = .ok record ∧
      ∃ columns dataLine cells, layout.columnsOf ⟨.gps, 1⟩ = some columns ∧
        DataLine.parse columns.length line = .ok dataLine ∧
        ReadsBack layout.revision "G01".toList columns cells record ∧
        (∀ c, ((t.decode layout ⟨.gps, 1⟩ "G01".toList line).state.flags ⟨.gps, 1⟩).getD c ' ' =
          Overlay.put ' ' '&' ((t.flags ⟨.gps, 1⟩).getD c ' ') (dataLine.flags.getD c ' ')) ∧
        cells.length = columns.length ∧
        ∀ (i : ℕ) column, columns[i]? = some column → ∃ field cell,
          dataLine.fields[i]? = some field ∧ cells[i]? = some cell ∧
            HoldsCell (t.decode layout ⟨.gps, 1⟩ "G01".toList line).state ⟨.gps, 1⟩ i column field
              cell := by
  refine ⟨_, _, _, _, _, rfl, rfl, rfl, rfl, rfl, ?layouts, ?result,
    cells_of_record ?layouts rfl ?visible ?result⟩
  case layouts =>
    intro operation hoperation used hused
    rcases List.mem_pair.1 hoperation with rfl | rfl
    · exact (Option.some.inj hused).symm
    · cases hused
  case result => rfl
  case visible =>
    exact List.forall_mem_cons.2
      ⟨rfl, List.forall_mem_cons.2 ⟨rfl, List.forall_mem_singleton.2 rfl⟩⟩

end Tracking

end CompactRinex
