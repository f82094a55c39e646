import CompactRinex.Proofs.Outcome
import CompactRinex.Proofs.Overlay.Columns
import CompactRinex.Tracking

/-!
# Isolated kernels

A track holds the kernels of all columns of a satellite side by side. Seen from one column, it is a
single kernel that is made for the first field that is not blank and takes in the fields of that
column only (`Kernel.isolated`); seen from the flags, it is the fold of the edits of all lines.
`Track.Follows` states both about a history of data lines, and `Follows.advance` keeps it along one
more line.
-/

namespace CompactRinex

/-- A data line of a satellite that has been taken in. -/
structure Consumed where
  /-- The identifier of the satellite in its epoch. -/
  id : Text
  /-- The columns that were declared for the satellite. -/
  columns : List Column
  /-- The fields and the edit of the flags. -/
  line : DataLine
  /-- The text that the line added to the recovered file. -/
  output : Text

namespace Consumed

/-- The field of a column with its column, if there is a field that is not blank. -/
def cell? (c : Consumed) (i : ℕ) : Option (Column × Field) :=
  match c.columns[i]?, c.line.fields[i]? with
  | some column, some field => if field = .missing then none else some (column, field)
  | _, _ => none

/-- The fields of a column in the lines of a history, without the blank ones. -/
def cells (i : ℕ) (history : List Consumed) : List (Column × Field) :=
  history.filterMap fun c => c.cell? i

/-- The flags after the lines of a history, from blank ones. -/
def flags (history : List Consumed) : Text :=
  (history.map fun c => c.line.flags).foldl Overlay.merge []

/-- One more line may have one more field. -/
theorem cells_append (i : ℕ) (history : List Consumed) (c : Consumed) :
    cells i (history ++ [c]) = cells i history ++ (c.cell? i).toList := by
  rw [cells, List.filterMap_append]
  cases h : c.cell? i <;> simp [cells, h]

/-- One more line edits the flags. -/
theorem flags_append (history : List Consumed) (c : Consumed) :
    flags (history ++ [c]) = Overlay.merge (flags history) c.line.flags := by
  simp [flags, List.foldl_append]

end Consumed

namespace Kernel

variable {maxOrder : ℕ}

/-- The kernel after some fields. -/
def stepAll (k : Kernel maxOrder) (fields : List Field) : Except Fault (Kernel maxOrder) :=
  fields.foldlM (fun k field => (k.step field).map Prod.fst) k

/-- The kernel that is made for the column of the first field and takes in all fields. There is none
without a field. -/
def isolated (maxOrder : ℕ) : List (Column × Field) → Except Fault (Option (Kernel maxOrder))
  | [] => .ok none
  | (column, field) :: rest => do
    let start ← ofColumn maxOrder column
    let k ← start.stepAll (field :: rest.map Prod.snd)
    .ok (some k)

/-- One more field moves the isolated kernel by one step. -/
theorem isolated_append {cells : List (Column × Field)} {kernel : Option (Kernel maxOrder)}
    (h : isolated maxOrder cells = .ok kernel) {column : Column} {field : Field}
    {k k' : Kernel maxOrder} {value : Option Int64}
    (hk : kernel.elim (ofColumn maxOrder column) .ok = .ok k)
    (hstep : k.step field = .ok (k', value)) :
    isolated maxOrder (cells ++ [(column, field)]) = .ok (some k') := by
  cases cells with
  | nil =>
    -- The first field makes the kernel.
    cases h
    simp only [Option.elim_none] at hk
    simp [isolated, hk, stepAll, hstep, bind, Except.bind, Except.map, pure, Except.pure]
  | cons p rest =>
    obtain ⟨column₀, field₀⟩ := p
    unfold isolated at h
    obtain ⟨start, hstart, hrest⟩ := bind_eq_ok_iff.1 h
    obtain ⟨k₀, hk₀, hkernel⟩ := bind_eq_ok_iff.1 hrest
    cases hkernel
    cases hk
    -- The kernel has been made for the first field, so the column of the new one does not matter.
    have hall : start.stepAll (field₀ :: (rest.map Prod.snd ++ [field])) = .ok k' := by
      rw [← List.cons_append, stepAll, List.foldlM_append]
      change (start.stepAll (field₀ :: rest.map Prod.snd) >>= _) = _
      simp [hk₀, hstep, bind, Except.bind, Except.map, pure, Except.pure]
    simp only [List.cons_append, isolated, hstart, List.map_append, List.map_cons,
      List.map_nil, hall, bind, Except.bind]

end Kernel

namespace Track

variable {maxOrder : ℕ}

/-! ## Lines that are taken in -/

/-- A cell that is written is blank, or it is the value that a kernel has then. -/
theorem advanceCell_cases {kernel : Option (Kernel maxOrder)} {column : Column} {field : Field}
    {text : Text} (h : (advanceCell kernel column field).result = .ok text) :
    (field = .missing ∧ (advanceCell kernel column field).state = kernel ∧ text = column.blank) ∨
    (field ≠ .missing ∧ ∃ k k' value, kernel.elim (Kernel.ofColumn maxOrder column) .ok = .ok k ∧
      k.step field = .ok (k', some value) ∧ (advanceCell kernel column field).state = some k' ∧
      k'.value? = some value ∧ k'.render value = .ok text) := by
  by_cases hfield : field = .missing
  · subst hfield
    cases h
    exact Or.inl ⟨rfl, rfl, rfl⟩
  · right
    refine ⟨hfield, ?_⟩
    -- The kernel may have to be made first; then the field is taken in, and the value written.
    cases hk : kernel.elim (Kernel.ofColumn maxOrder column) Except.ok with
    | error e =>
      cases field <;> simp [advanceCell, hk, Outcome.fail] at h hfield
    | ok k =>
      cases field with
      | missing => exact absurd rfl hfield
      | delta difference =>
        simp only [advanceCell, hk, Kernel.step] at h ⊢
        exact ⟨k, _, _, rfl, rfl, rfl, rfl, h⟩
      | literal order value =>
        simp only [advanceCell, hk, Kernel.step] at h ⊢
        cases hrestart : k.restart value order with
        | error e => simp [hrestart, Except.map, Outcome.fail] at h
        | ok k' =>
          simp only [hrestart, Except.map] at h ⊢
          exact ⟨k, k', value, rfl, by simp only [hrestart], rfl,
            Kernel.value?_of_restart hrestart, h⟩

/-- What a field is written as: blanks for a blank field, and otherwise the value of the kernel that
has taken it in. -/
def Writes (kernel : Option (Kernel maxOrder)) (column : Column) (field : Field) (text : Text) :
    Prop :=
  (field = .missing → text = column.blank) ∧
  (field ≠ .missing → ∃ k value, kernel = some k ∧ k.value? = some value ∧
    k.render value = .ok text)

/-- A cell that is written shows what its kernel holds. -/
theorem writes_of_advanceCell {kernel : Option (Kernel maxOrder)} {column : Column} {field : Field}
    {text : Text} (h : (advanceCell kernel column field).result = .ok text) :
    Writes (advanceCell kernel column field).state column field text := by
  rcases advanceCell_cases h with ⟨hmissing, -, hblank⟩ |
    ⟨hpresent, -, k, value, -, -, hmoved, hvalue, hrender⟩
  · exact ⟨fun _ => hblank, fun hne => absurd hmissing hne⟩
  · exact ⟨fun he => absurd he hpresent, fun _ => ⟨k, value, hmoved, hvalue, hrender⟩⟩

/-- A cell that is written moves the isolated kernel of its column. -/
theorem isolated_advanceCell {cells : List (Column × Field)} {kernel : Option (Kernel maxOrder)}
    (h : Kernel.isolated maxOrder cells = .ok kernel) {column : Column} {field : Field}
    {text : Text} (hcell : (advanceCell kernel column field).result = .ok text) :
    Kernel.isolated maxOrder
        (cells ++ (if field = .missing then none else some (column, field)).toList) =
      .ok (advanceCell kernel column field).state := by
  rcases advanceCell_cases hcell with
    ⟨rfl, hsame, -⟩ | ⟨hmissing, k, k', value, hk, hstep, hmoved, -⟩
  · -- A blank field: the kernel stays, and the history of the column does not grow.
    rw [if_pos rfl, hsame, Option.toList_none, List.append_nil, h]
  · rw [if_neg hmissing, hmoved, Option.toList_some]
    exact Kernel.isolated_append h hk hstep

/-- The first column. -/
theorem join_head? (kernels : List (Option (Kernel maxOrder))) :
    (kernels[0]?).join = kernels.head?.join := by
  rw [List.head?_eq_getElem?]

/-- The columns after the first one. -/
theorem join_tail (kernels : List (Option (Kernel maxOrder))) (i : ℕ) :
    (kernels.tail[i]?).join = (kernels[i + 1]?).join := by
  rw [List.getElem?_tail]

/-- A line that is written has written its first column, and then the others. -/
theorem advanceCells_cons_of_ok {column : Column} {columns : List Column} {field : Field}
    {fields : List Field} {kernels : List (Option (Kernel maxOrder))} {texts : List Text}
    (h : (advanceCells (column :: columns) (field :: fields) kernels).result = .ok texts) :
    ∃ text rest, texts = text :: rest ∧
      (advanceCell kernels.head?.join column field).result = .ok text ∧
      (advanceCells columns fields kernels.tail).result = .ok rest ∧
      (advanceCells (column :: columns) (field :: fields) kernels).state =
        (advanceCell kernels.head?.join column field).state ::
          (advanceCells columns fields kernels.tail).state := by
  simp only [advanceCells] at h
  cases hcell : (advanceCell kernels.head?.join column field).result with
  | error e => simp [hcell, Outcome.fail] at h
  | ok text =>
    simp only [hcell] at h
    obtain ⟨rest, hrest, htexts⟩ := map_eq_ok_iff.1 h
    refine ⟨text, rest, htexts.symm, rfl, hrest, ?_⟩
    simp only [advanceCells, hcell]

/-- When a line is written, the kernel of each column has taken in its own field, and the others
have been left alone. -/
theorem advanceCells_of_ok {columns : List Column} {fields : List Field}
    {kernels : List (Option (Kernel maxOrder))} {texts : List Text}
    (hlen : fields.length = columns.length)
    (h : (advanceCells columns fields kernels).result = .ok texts) :
    texts.length = columns.length ∧
      (∀ (i : ℕ) column field, columns[i]? = some column → fields[i]? = some field →
        ∃ text, texts[i]? = some text ∧
          advanceCell (kernels[i]?).join column field =
            ⟨((advanceCells columns fields kernels).state[i]?).join, .ok text⟩) ∧
      ∀ i, columns.length ≤ i →
        ((advanceCells columns fields kernels).state[i]?).join = (kernels[i]?).join := by
  induction columns generalizing fields kernels texts with
  | nil =>
    cases h
    exact ⟨rfl, by simp, fun i _ => rfl⟩
  | cons column columns ih =>
    cases fields with
    | nil => simp at hlen
    | cons field fields =>
      have hhead := join_head? kernels
      have htail := join_tail kernels
      obtain ⟨text, rest, rfl, hcell, hrest, hstate⟩ := advanceCells_cons_of_ok h
      -- The first cell is moved on by its own, the others by the induction.
      obtain ⟨hl, hcells, hbeyond⟩ := ih (Nat.succ.inj hlen) hrest
      rw [hstate]
      refine ⟨by simp [hl], fun i column' field' hcolumn hfield => ?_, fun i hi => ?_⟩
      · cases i with
        | zero =>
          cases hcolumn
          cases hfield
          refine ⟨text, rfl, ?_⟩
          rw [hhead, ← hcell]
          rfl
        | succ i =>
          simp only [List.getElem?_cons_succ] at hcolumn hfield ⊢
          rw [← htail]
          exact hcells i column' field' hcolumn hfield
      · cases i with
        | zero => simp at hi
        | succ i =>
          simp only [List.length_cons, Nat.add_le_add_iff_right] at hi
          simp only [List.getElem?_cons_succ]
          rw [← htail]
          exact hbeyond i hi

/-- Fields that are written have a value for each column, written from the kernel of the column. -/
theorem writes_of_advanceCells {columns : List Column} {fields : List Field}
    {kernels : List (Option (Kernel maxOrder))} {values : List Text}
    (hlen : fields.length = columns.length)
    (h : (advanceCells columns fields kernels).result = .ok values) :
    values.length = columns.length ∧
      ∀ (i : ℕ) column, columns[i]? = some column → ∃ field text, fields[i]? = some field ∧
        values[i]? = some text ∧
        Writes ((advanceCells columns fields kernels).state[i]?).join column field text := by
  obtain ⟨hlength, hcells, -⟩ := advanceCells_of_ok hlen h
  refine ⟨hlength, fun i column hcolumn => ?_⟩
  have hi : i < fields.length := hlen ▸ (List.getElem?_eq_some_iff.1 hcolumn).1
  obtain ⟨text, htext, hcell⟩ := hcells i column _ hcolumn (List.getElem?_eq_getElem hi)
  refine ⟨_, text, List.getElem?_eq_getElem hi, htext, ?_⟩
  -- What the cell has written is what its kernel holds afterwards.
  have hwrites := writes_of_advanceCell (congrArg Outcome.result hcell)
  rw [hcell] at hwrites
  exact hwrites

/-! ## Tracks and histories -/

/-- The values that a line writes: a blank for a blank field, and otherwise the value of the
isolated kernel of the column. -/
structure Prints (maxOrder : ℕ) (history : List Consumed) (c : Consumed) (values : List Text) :
    Prop where
  /-- Each column has a value. -/
  length_eq : values.length = c.columns.length
  /-- A blank field is written as blanks. -/
  blank : ∀ (i : ℕ) column, c.columns[i]? = some column → c.line.fields[i]? = some .missing →
    values[i]? = some column.blank
  /-- Any other field is written as the value of the isolated kernel. -/
  value : ∀ i, c.cell? i ≠ none → ∃ k value text,
    Kernel.isolated maxOrder (Consumed.cells i history) = .ok (some k) ∧
      k.value? = some value ∧ k.render value = .ok text ∧ values[i]? = some text

/-- The track is what the data lines of a history lead to, column by column. -/
structure Follows (revision : Revision) (history : List Consumed) (track : Track maxOrder) :
    Prop where
  /-- The kernel of each column is the isolated one. -/
  kernel_eq : ∀ i,
    Kernel.isolated maxOrder (Consumed.cells i history) = .ok (track.kernel? i)
  /-- The flags are those of the history, apart from blanks at the end. -/
  flags_eq : ∃ text, track.flags.reference = some text ∧ Text.isAscii text ∧
    ∀ i, text.getD i ' ' = (Consumed.flags history).getD i ' '
  /-- The last record is written from the isolated kernels and the flags of the history. -/
  output_eq : ∀ c ∈ history.getLast?, ∃ values, Prints maxOrder history c values ∧
    c.output = Tracking.render revision c.id
      (withFlags (Consumed.flags history) values) ++ ['\n']

/-- A satellite that is seen for the first time has no history. -/
theorem follows_fresh (revision : Revision) (count : ℕ) :
    Follows revision [] (fresh count : Track maxOrder) := by
  refine ⟨fun i => rfl, ⟨_, rfl, ?_, fun i => ?_⟩, by simp⟩
  · exact Overlay.isAscii_padRight rfl
  · rw [Overlay.getD_padRight]
    rfl

/-- Flags are written column by column. -/
theorem withFlags_congr {flags flags' : Text} (h : ∀ i, flags.getD i ' ' = flags'.getD i ' ')
    (values : List Text) : withFlags flags values = withFlags flags' values := by
  simp only [withFlags, flagsAt, h]

/-- Flags that are admitted are ASCII. -/
theorem isAscii_of_admitsFlags {count : ℕ} {flags : Text}
    (h : DataLine.admitsFlags count flags = true) : Text.isAscii flags := by
  simp only [DataLine.admitsFlags, Bool.and_eq_true, List.all_eq_true] at h
  refine Text.isAscii_iff.2 fun c hc => ?_
  have hedit := h.1 c hc
  simp only [DataLine.isFlagEdit, Bool.or_eq_true, beq_iff_eq] at hedit
  rcases hedit with (hdigit | rfl) | rfl
  · have h9 := (Char.isDigit_iff_toNat.1 hdigit).2
    exact lt_of_le_of_lt h9 (by decide)
  · decide
  · decide

/-- What a line that can be taken apart consists of. -/
theorem parse_eq_ok {count : ℕ} {text : Text} {line : DataLine}
    (h : DataLine.parse count text = .ok line) :
    line.fields.length = count ∧ Text.isAscii line.flags := by
  unfold DataLine.parse at h
  obtain ⟨⟨fields, flags⟩, hp, hrest⟩ := bind_eq_ok_iff.1 h
  simp only at hrest
  split at hrest
  · next hflags =>
    cases hrest
    exact ⟨DataLine.length_of_parseFields hp, isAscii_of_admitsFlags hflags⟩
  · cases hrest

/-- What taking in a line does to a track with ASCII flags. -/
theorem advance_of_isAscii {track : Track maxOrder} {text : Text}
    (href : track.flags.reference = some text) (htext : Text.isAscii text) (columns : List Column)
    {line : DataLine} (hflags : Text.isAscii line.flags) :
    track.advance columns line =
      ⟨⟨{ track.flags with
          reference := some (Overlay.merge (Text.padRight track.flags.width text) line.flags) },
        (advanceCells columns line.fields track.kernels).state⟩,
        (advanceCells columns line.fields track.kernels).result.map
          (withFlags (Overlay.merge (Text.padRight track.flags.width text) line.flags))⟩ := by
  have hrecover := Overlay.recover_of_isAscii href htext hflags
  simp only [advance, Overlay.edit, hrecover, Except.map, Outcome.commit, Outcome.ok]

/-- One more line moves the isolated kernel of each of its columns, which then holds what is written
there. -/
theorem Follows.isolated_advanceCells {revision : Revision} {history : List Consumed}
    {track : Track maxOrder} (hf : Follows revision history track) {c : Consumed}
    (hlen : c.line.fields.length = c.columns.length) {values : List Text}
    (h : (advanceCells c.columns c.line.fields track.kernels).result = .ok values) (i : ℕ) :
    Kernel.isolated maxOrder (Consumed.cells i (history ++ [c])) =
      .ok ((advanceCells c.columns c.line.fields track.kernels).state[i]?).join ∧
    ∀ column, c.columns[i]? = some column → ∃ field text, c.line.fields[i]? = some field ∧
      values[i]? = some text ∧
      Writes ((advanceCells c.columns c.line.fields track.kernels).state[i]?).join column field
        text := by
  obtain ⟨-, hcells, hbeyond⟩ := advanceCells_of_ok hlen h
  refine ⟨?_, (writes_of_advanceCells hlen h).2 i⟩
  rw [Consumed.cells_append]
  cases hcolumn : c.columns[i]? with
  | none =>
    -- The satellite has no such column, so neither the kernel nor its fields have changed.
    have hi : c.columns.length ≤ i := List.getElem?_eq_none_iff.1 hcolumn
    simp only [Consumed.cell?, hcolumn, Option.toList_none, List.append_nil, hbeyond i hi]
    exact hf.kernel_eq i
  | some column =>
    have hi : i < c.line.fields.length := hlen ▸ (List.getElem?_eq_some_iff.1 hcolumn).1
    have hfield : c.line.fields[i]? = some c.line.fields[i] := List.getElem?_eq_getElem hi
    obtain ⟨text, htext, hcell⟩ := hcells i column _ hcolumn hfield
    have hone := isolated_advanceCell (hf.kernel_eq i) (congrArg Outcome.result hcell)
    rw [kernel?, hcell] at hone
    simp only [Consumed.cell?, hcolumn, hfield]
    exact hone

/-- The texts that the fields of a line are written as are the values that it prints. -/
theorem prints_of_writes {history : List Consumed} {c : Consumed} {values : List Text}
    {kernels : List (Option (Kernel maxOrder))} (hlen : values.length = c.columns.length)
    (h : ∀ i, Kernel.isolated maxOrder (Consumed.cells i history) = .ok (kernels[i]?).join ∧
      ∀ column, c.columns[i]? = some column → ∃ field text, c.line.fields[i]? = some field ∧
        values[i]? = some text ∧ Writes (kernels[i]?).join column field text) :
    Prints maxOrder history c values := by
  refine ⟨hlen, fun i column hcolumn hmissing => ?_, fun i hcell => ?_⟩
  · obtain ⟨field, text, hfield, htext, hblank, -⟩ := (h i).2 column hcolumn
    simp only [hmissing, Option.some.injEq] at hfield
    rw [htext, hblank hfield.symm]
  · cases hcolumn : c.columns[i]? with
    | none => simp [Consumed.cell?, hcolumn] at hcell
    | some column =>
      obtain ⟨field, text, hfield, htext, -, hvalue⟩ := (h i).2 column hcolumn
      -- A field that counts as a step of the cell is not blank.
      have hne : field ≠ .missing := by
        rintro rfl
        simp [Consumed.cell?, hcolumn, hfield] at hcell
      obtain ⟨k, value, hslot, hk, hrender⟩ := hvalue hne
      exact ⟨k, value, text, by rw [(h i).1, hslot], hk, hrender, htext⟩

/-- One more line moves the isolated kernels of its fields and edits the flags. -/
theorem Follows.advance {revision : Revision} {history : List Consumed} {track : Track maxOrder}
    (hf : Follows revision history track) {columns : List Column} {line : DataLine}
    (hlen : line.fields.length = columns.length) (hflags : Text.isAscii line.flags)
    {cells : List Text} (h : (track.advance columns line).result = .ok cells) (id : Text) :
    Follows revision
      (history ++ [⟨id, columns, line, Tracking.render revision id cells ++ ['\n']⟩])
      (track.advance columns line).state := by
  obtain ⟨text, href, htext, hcolumns⟩ := hf.flags_eq
  rw [advance_of_isAscii href htext columns hflags] at h ⊢
  obtain ⟨values, hvalues, rfl⟩ := map_eq_ok_iff.1 h
  generalize hrecord : Tracking.render revision id _ ++ ['\n'] = output
  have hkernel := @Follows.isolated_advanceCells _ _ _ _ hf ⟨id, columns, line, output⟩ hlen _
    hvalues
  have hmerged : ∀ i, (Overlay.merge (Text.padRight track.flags.width text) line.flags).getD i ' ' =
      (Consumed.flags (history ++ [⟨id, columns, line, output⟩])).getD i ' ' := by
    intro i
    rw [Consumed.flags_append, Overlay.getD_merge, Overlay.getD_merge, Overlay.getD_padRight,
      hcolumns]
  refine ⟨fun i => (hkernel i).1, ⟨_, rfl, ?_, hmerged⟩, ?_⟩
  · exact Overlay.isAscii_merge (Overlay.isAscii_padRight htext) hflags
  · -- The last line is the new one, and its record was written from the new state.
    intro c hc
    rw [List.getLast?_append, List.getLast?_singleton, Option.some_or, Option.mem_some] at hc
    subst hc
    refine ⟨values, prints_of_writes (advanceCells_of_ok hlen hvalues).1 hkernel, ?_⟩
    show output = _
    rw [← withFlags_congr hmerged]
    exact hrecord.symm

end Track

end CompactRinex
