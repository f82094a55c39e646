import CompactRinex.Proofs.Body.History
import CompactRinex.Proofs.Body.Updates
import CompactRinex.Proofs.Column.Reading
import CompactRinex.Proofs.Difference.Lines

/-!
# The forms of columns

A record is written column by column: a missing value as the layout in force says, any other value
as the kernel of its column says, which keeps the form of the column that it was made for. Both say
the same as long as the column keeps its form. An event that declares a column anew does not touch
the kernels, so that a satellite in view goes on with the old width and the old number of decimals
(`form_after_update`). `Settled` says that this has not happened to a column of a satellite since it
last had no kernel; its values are then written as the layout says (`values_shown`). A header
declares columns of one form only, so this holds of every body that is recovered with the layout of
its header (`settled_of_header`).
-/

namespace CompactRinex

namespace Column

/-- The number of characters after the point of a text. Without a point there are none. -/
def decimalsOf (t : Text) : ℕ := (Text.splitFirst? '.' t).elim 0 fun parts => parts.2.length

/-- The text stands for a value in the form of the column. -/
structure Shows (column : Column) (t : Text) (value : Int64) : Prop where
  /-- The text is as wide as the column. -/
  length_eq : t.length = column.width
  /-- The text has the decimals of the column. -/
  decimalsOf_eq : decimalsOf t = column.decimals
  /-- The text is read as the value. -/
  read_eq : read column.decimals t = some value.toInt

/-- What stands in front of the point of a number. -/
def leading (z : ℤ) (decimals : ℕ) : Text :=
  (if z < 0 then ['-'] else []) ++ Numeral.digits (z.natAbs / scale decimals)

/-- There is no point in front of the fraction. -/
theorem point_not_mem_leading (width : ℕ) (z : ℤ) (decimals : ℕ) :
    '.' ∉ Text.blanks width ++ leading z decimals := by
  have hblanks : '.' ∉ Text.blanks width := fun h => absurd (List.eq_of_mem_replicate h) (by decide)
  have hsign : '.' ∉ (if z < 0 then ['-'] else [] : Text) := by
    split <;> decide
  have hdigits : '.' ∉ Numeral.digits (z.natAbs / scale decimals) := fun h =>
    absurd (Numeral.isDigit_of_mem_digits h) (by decide)
  simp only [leading, List.mem_append, not_or]
  exact ⟨hblanks, hsign, hdigits⟩

/-- A value is written with exactly the decimals of its column. -/
theorem decimalsOf_render {column : Column} {value : Int64} {t : Text}
    (h : column.render value = .ok t) : decimalsOf t = column.decimals := by
  obtain ⟨-, -, rfl⟩ := render_eq_ok_iff.1 h
  have hpoint := point_not_mem_leading
    (column.width - (fixedPoint value.toInt column.decimals).length) value.toInt column.decimals
  have hfixed : fixedPoint value.toInt column.decimals = leading value.toInt column.decimals ++
      (if column.decimals = 0 then [] else
        '.' :: fractionDigits value.toInt.natAbs column.decimals) :=
    fixedPoint_eq _ _
  unfold decimalsOf Text.padLeft
  generalize column.width - (fixedPoint value.toInt column.decimals).length = width at hpoint ⊢
  -- The only point is the one in front of the fraction.
  rw [hfixed, ← List.append_assoc]
  by_cases hzero : column.decimals = 0
  · rw [if_pos hzero, List.append_nil, Text.splitFirst?_eq_none hpoint, hzero]
    rfl
  · rw [if_neg hzero, splitFirst?_append _ hpoint]
    exact length_fractionDigits _ hzero

/-- A rendered value fills its column, and has its decimals. -/
theorem shows_of_render {column : Column} {value : Int64} {t : Text}
    (h : column.render value = .ok t) : column.Shows t value :=
  ⟨length_of_render h, decimalsOf_render h, read_render h⟩

/-- The order of a column does not show. -/
theorem Shows.congr {column column' : Column} {t : Text} {value : Int64}
    (h : column.Shows t value) (hwidth : column'.width = column.width)
    (hdecimals : column'.decimals = column.decimals) : column'.Shows t value := by
  obtain ⟨hlength, hpoint, hread⟩ := h
  rw [← hdecimals] at hpoint hread
  exact ⟨hlength.trans hwidth.symm, hpoint, hread⟩

end Column

variable {maxOrder : ℕ}

/-! ## The columns of kernels -/

namespace Track

/-- The kernel after a cell, written or not, has the column of the kernel before it, or it has been
made for the column of the cell. -/
theorem column_advanceCell {kernel : Option (Kernel maxOrder)} {column : Column} {field : Field}
    {k : Kernel maxOrder} (h : (advanceCell kernel column field).state = some k) :
    (∃ k₀, kernel = some k₀ ∧ k.column = k₀.column) ∨ k.column = column := by
  have hmade : ∀ {k₀}, kernel.elim (Kernel.ofColumn maxOrder column) .ok = .ok k₀ →
      (∃ k₁, kernel = some k₁ ∧ k₀.column = k₁.column) ∨ k₀.column = column := by
    intro k₀ hk₀
    cases kernel with
    | none => exact Or.inr (Kernel.of_ofColumn hk₀).1
    | some k₁ => cases hk₀; exact Or.inl ⟨_, rfl, rfl⟩
  unfold advanceCell at h
  split at h
  · -- A blank field touches no kernel.
    exact Or.inl ⟨k, h, rfl⟩
  · split at h
    · exact Or.inl ⟨k, h, rfl⟩
    · next k₀ hk₀ =>
      split at h
      · cases h; exact hmade hk₀
      · next hstep =>
        cases h
        rw [Kernel.column_of_step hstep]
        exact hmade hk₀
      · next hstep =>
        cases h
        rw [Kernel.column_of_step hstep]
        exact hmade hk₀

/-- The kernel of each column after a line, written or not, has the column of the kernel before it,
or it has been made for the column of the line. -/
theorem column_advanceCells {columns : List Column} {fields : List Field}
    {kernels : List (Option (Kernel maxOrder))} {i : ℕ} {k : Kernel maxOrder}
    (h : ((advanceCells columns fields kernels).state[i]?).join = some k) :
    (∃ k₀, (kernels[i]?).join = some k₀ ∧ k.column = k₀.column) ∨ columns[i]? = some k.column := by
  induction columns generalizing fields kernels i with
  | nil => exact Or.inl ⟨k, h, rfl⟩
  | cons column columns ih =>
    cases fields with
    | nil => exact Or.inl ⟨k, h, rfl⟩
    | cons field fields =>
      have hhead := (join_head? kernels).symm
      have htail := join_tail kernels
      simp only [advanceCells] at h
      split at h
      · -- The line ends at this column, and the later ones have not moved.
        cases i with
        | zero =>
          rcases column_advanceCell (Option.some.inj (congrArg some h)) with hold | hnew
          · exact Or.inl (hhead ▸ hold)
          · exact Or.inr (congrArg some hnew.symm)
        | succ i =>
          refine Or.inl ⟨k, ?_, rfl⟩
          rw [← htail]
          exact h
      · cases i with
        | zero =>
          rcases column_advanceCell (Option.some.inj (congrArg some h)) with hold | hnew
          · exact Or.inl (hhead ▸ hold)
          · exact Or.inr (congrArg some hnew.symm)
        | succ i =>
          rcases ih h with hold | hnew
          · exact Or.inl (htail i ▸ hold)
          · exact Or.inr hnew

/-- The kernel of a cell keeps its column, or has just got that of the layout. -/
theorem column_advance {t : Track maxOrder} {columns : List Column} {line : DataLine} {i : ℕ}
    {k : Kernel maxOrder} (h : (t.advance columns line).state.kernel? i = some k) :
    (∃ k₀, t.kernel? i = some k₀ ∧ k.column = k₀.column) ∨ columns[i]? = some k.column := by
  simp only [advance] at h
  split at h
  · exact Or.inl ⟨k, h, rfl⟩
  · exact column_advanceCells h

/-- A line that is written has a value for each column, written from the kernel of the column. -/
theorem writes_of_advance {t : Track maxOrder} {columns : List Column} {line : DataLine}
    {cells : List Text} (hlen : line.fields.length = columns.length)
    (h : (t.advance columns line).result = .ok cells) :
    ∃ flags values, cells = withFlags flags values ∧ values.length = columns.length ∧
      ∀ (i : ℕ) column, columns[i]? = some column → ∃ field text, line.fields[i]? = some field ∧
        values[i]? = some text ∧
        Writes ((t.advance columns line).state.kernel? i) column field text := by
  simp only [advance] at h ⊢
  split at h
  · cases h
  · next flags hflags =>
    obtain ⟨values, hvalues, rfl⟩ := map_eq_ok_iff.1 h
    obtain ⟨hlength, hwrites⟩ := writes_of_advanceCells hlen hvalues
    exact ⟨flags, values, rfl, hlength, hwrites⟩

end Track

namespace Tracking

/-- The kernel of a satellite in a column, if there is one. -/
def kernel? (t : Tracking maxOrder) (s : Satellite) (column : ℕ) : Option (Kernel maxOrder) :=
  (t.tracks.get? s).bind fun track => track.kernel? column

/-- The latest value is that of the kernel. -/
theorem value?_eq (t : Tracking maxOrder) (s : Satellite) (column : ℕ) :
    t.value? s column = (t.kernel? s column).bind Kernel.value? := by
  simp only [value?, kernel?, Track.value?, Option.bind_assoc]

/-- The kernel after a data line, written or not, has the column of the kernel before it, or it has
been made for the column that the layout declares. -/
theorem column_decode {t : Tracking maxOrder} {layout : Layout} {s s' : Satellite} {id line : Text}
    {i : ℕ} {k : Kernel maxOrder} (h : (t.decode layout s id line).state.kernel? s' i = some k) :
    (∃ k₀, t.kernel? s' i = some k₀ ∧ k.column = k₀.column) ∨
      ∃ columns, layout.columnsOf s' = some columns ∧ columns[i]? = some k.column := by
  unfold decode at h
  split at h
  · exact Or.inl ⟨k, h, rfl⟩
  · next columns hcolumns =>
    split at h
    · split at h
      · exact Or.inl ⟨k, h, rfl⟩
      · simp only [kernel?, Table.get?_insert] at h
        -- The line moves the kernels of its own satellite only.
        by_cases hs : s' = s
        · subst hs
          simp only [if_true, Option.bind_some] at h
          rcases Track.column_advance h with ⟨k₀, hk₀, hcolumn⟩ | hnew
          · refine Or.inl ⟨k₀, ?_, hcolumn⟩
            unfold kernel?
            cases htrack : t.tracks.get? s' with
            | none => rw [htrack] at hk₀; cases hk₀
            | some track => rw [htrack] at hk₀; exact hk₀
          · exact Or.inr ⟨columns, hcolumns, hnew⟩
        · simp only [hs, if_false] at h
          exact Or.inl ⟨k, h, rfl⟩
    · exact Or.inl ⟨k, h, rfl⟩

/-- The kernels of a satellite are those of its track, which has none at first. -/
theorem kernel?_getD_fresh (t : Tracking maxOrder) (s : Satellite) (count i : ℕ) :
    (((t.tracks.get? s).getD (.fresh count)).kernels[i]?).join = t.kernel? s i := by
  unfold kernel?
  cases t.tracks.get? s with
  | none => rfl
  | some track => rfl

/-- The kernels of a satellite are those of the track that has been put in. -/
theorem kernel?_insert (t : Tracking maxOrder) (s : Satellite) (track : Track maxOrder) (i : ℕ) :
    (⟨t.tracks.insert s track⟩ : Tracking maxOrder).kernel? s i = (track.kernels[i]?).join := by
  simp only [kernel?, Table.get?_insert, if_true, Option.bind_some, Track.kernel?]

/-- A satellite that is kept keeps its kernels, and any other has none. -/
theorem kernel?_retain (t : Tracking maxOrder) (satellites : List Satellite) (s : Satellite)
    (i : ℕ) :
    (t.retain satellites).kernel? s i = if s ∈ satellites then t.kernel? s i else none := by
  simp only [kernel?, retain, Table.get?_restrict, List.contains_iff_mem]
  split <;> rfl

end Tracking

/-! ## Columns that keep their form -/

/-- If a layout declares the column of a satellite, then with this width and these decimals. -/
def Layout.Forms (l : Layout) (s : Satellite) (i width decimals : ℕ) : Prop :=
  ∀ columns column, l.columnsOf s = some columns → columns[i]? = some column →
    column.width = width ∧ column.decimals = decimals

/-- The width and the decimals of a column are its form. -/
theorem Layout.forms_of_columnsOf {l : Layout} {s : Satellite} {columns : List Column} {i : ℕ}
    {column : Column} (hcolumns : l.columnsOf s = some columns) (hi : columns[i]? = some column) :
    l.Forms s i column.width column.decimals := by
  intro columns' column' hcolumns' hi'
  obtain rfl : columns = columns' := Option.some.inj (hcolumns.symm.trans hcolumns')
  obtain rfl : column = column' := Option.some.inj (hi.symm.trans hi')
  exact ⟨rfl, rfl⟩

/-- Every column that is declared has the usual form. -/
def Layout.Usual (l : Layout) : Prop :=
  ∀ c columns, l.columns.get? c = some columns → ∀ column ∈ columns,
    column.width = 14 ∧ column.decimals = 3

/-- In a usual layout all cells have the same form. -/
theorem Layout.Usual.forms {l : Layout} (h : l.Usual) (s : Satellite) (i : ℕ) :
    l.Forms s i 14 3 := by
  intro columns column hcolumns hi
  have hmem := List.mem_of_getElem? hi
  simp only [columnsOf] at hcolumns
  split at hcolumns
  · next columns' hmixed =>
    cases hcolumns
    exact h _ _ hmixed _ hmem
  · exact h _ _ hcolumns _ hmem

/-- Definitions of observables declare columns of the usual form. -/
theorem Layout.Usual.overwrites {l l' : Layout} (h : l.Usual)
    {definition : Constellation → Option Definition} (hl : l.Overwrites definition l') :
    l'.Usual := by
  intro c columns hcolumns column hmem
  cases hdefinition : definition c with
  | none => exact h c columns (hl.columns_eq_of_none c hdefinition ▸ hcolumns) column hmem
  | some d =>
    rw [hl.columns_eq c d hdefinition] at hcolumns
    cases hcolumns
    rw [List.eq_of_mem_replicate hmem]
    exact ⟨rfl, rfl⟩

/-- A header declares columns of the usual form. -/
theorem Layout.usual_of_header {header : Header} {walk : Walk (Constellation × Definition)}
    {layout : Layout} (h : header.layoutAlong walk = .ok layout) : layout.Usual := by
  unfold Header.layoutAlong at h
  split at h
  · cases h
  · next compression hcompression =>
    obtain ⟨revision, -, h⟩ := bind_eq_ok_iff.1 h
    split at h
    · cases h
    · next hdefined =>
      have hupdate : Body.updatedLayout walk { Layout.ofRevision revision with
          defaultConstellation := header.defaultConstellation } (some header) = .ok layout :=
        (if_neg hdefined).trans h
      -- All columns come from the definitions, which give usual ones only.
      have hnone : Layout.Usual { Layout.ofRevision revision with
          defaultConstellation := header.defaultConstellation } :=
        fun _ _ hcolumns => nomatch hcolumns
      exact hnone.overwrites (Layout.overwrites_updatedLayout hupdate)

namespace Body

variable {b : Body maxOrder}

/-- The column of a satellite has been declared in one form only since it last had no kernel. -/
inductive Settled (s : Satellite) (i width decimals : ℕ) : Body maxOrder → Prop where
  /-- There is no kernel. -/
  | start {b : Body maxOrder} (h : Reachable b) (hkernel : b.tracking.kernel? s i = none)
      (hform : b.layout.Forms s i width decimals) : Settled s i width decimals b
  /-- After the input, accepted or not and with the tables in any orders, the column has the form
  that it had before. -/
  | along {b : Body maxOrder} (h : Settled s i width decimals b) (walks : Walks) (input : Input)
      (hform : (b.takeAlong walks input).body.layout.Forms s i width decimals) :
      Settled s i width decimals (b.takeAlong walks input).body

/-- An input after which the layout has the same form keeps a settled cell. -/
theorem Settled.take {s : Satellite} {i width decimals : ℕ} (h : Settled s i width decimals b)
    (input : Input) (hform : (b.take input).body.layout.Forms s i width decimals) :
    Settled s i width decimals (b.take input).body := by
  rw [← takeAlong_inserted] at hform ⊢
  exact h.along .inserted input hform

/-- The kernels after an epoch line gave its description were there before. -/
theorem kernel?_described (b : Body maxOrder) (epoch : EpochDescription) {kind : EpochKind}
    {s : Satellite} {i : ℕ} {k : Kernel maxOrder}
    (h : (b.described epoch kind).tracking.kernel? s i = some k) :
    b.tracking.kernel? s i = some k := by
  cases kind with
  | literal => cases h
  | differential => exact h

/-- A step, accepted or not, keeps the columns of the kernels, or makes kernels for the columns that
the layout declares. -/
theorem Exit.column_eq {walks : Walks} {line : Text} {p : Progress maxOrder}
    (hexit : Exit b walks line p) {s : Satellite}
    {i : ℕ} {k : Kernel maxOrder} (h : p.body.tracking.kernel? s i = some k) :
    (∃ k₀, b.tracking.kernel? s i = some k₀ ∧ k.column = k₀.column) ∨
      ∃ columns, b.layout.columnsOf s = some columns ∧ columns[i]? = some k.column := by
  cases hexit with
  | @epochUnusable epoch _ _ => exact Or.inl ⟨k, kernel?_described b epoch h, rfl⟩
  | @event epoch _ _ _ _ => exact Or.inl ⟨k, kernel?_described b epoch h, rfl⟩
  | @observations epoch _ _ _ _ =>
    -- The kernels that are left have been there before.
    simp only [Tracking.kernel?_retain] at h
    split at h
    · exact Or.inl ⟨k, kernel?_described b epoch h, rfl⟩
    · cases h
  | dataFault | data => exact Tracking.column_decode h
  | _ => exact Or.inl ⟨k, h, rfl⟩

/-- The kernel of a settled column has the form of the column. -/
theorem Settled.kernel_form {s : Satellite} {i width decimals : ℕ}
    (h : Settled s i width decimals b) : b.layout.Forms s i width decimals ∧
      ∀ k, b.tracking.kernel? s i = some k →
        k.column.width = width ∧ k.column.decimals = decimals := by
  induction h with
  | start _ hkernel hform =>
    refine ⟨hform, fun k hk => ?_⟩
    rw [hkernel] at hk
    cases hk
  | @along b _ walks input hform ih =>
    refine ⟨hform, fun k hk => ?_⟩
    cases input with
    | restart => cases hk
    | line text =>
      rcases (exit_stepAlong b walks text).column_eq hk with
        ⟨k₀, hk₀, hcolumn⟩ | ⟨columns, hcolumns, hi⟩
      · rw [hcolumn]
        exact ih.2 k₀ hk₀
      · -- A kernel is made for the layout before the line, which has the form as well.
        exact ih.1 columns _ hcolumns hi

/-! ## Layouts of headers -/

/-- An input leaves the layout as it is, or overwrites it by some definitions. -/
theorem layout_takeAlong (b : Body maxOrder) (walks : Walks) (input : Input) :
    (b.takeAlong walks input).body.layout = b.layout ∨
      ∃ definition, b.layout.Overwrites definition (b.takeAlong walks input).body.layout := by
  cases input with
  | restart => exact Or.inl rfl
  | line text =>
    have hexit := exit_stepAlong b walks text
    simp only [takeAlong]
    generalize b.stepAlong walks text = p at hexit
    -- Only the last record of an event touches the layout, also when the new one is refused.
    cases hexit with
    | @layoutFault _ _ header layout _ _ _ _ hdefined hlayout =>
      have hupdate : updatedLayout walks.definitions b.layout (some header) = .ok layout := by
        simpa [updatedLayout, hdefined] using hlayout
      exact Or.inr ⟨_, Layout.overwrites_updatedLayout hupdate⟩
    | @lastRecord _ _ update _ _ _ _ hlayout =>
      cases update with
      | none => exact Or.inl (Except.ok.inj hlayout).symm
      | some header => exact Or.inr ⟨_, Layout.overwrites_updatedLayout hlayout⟩
    | _ => exact Or.inl rfl

/-- A body that started with the layout of a header writes every value in the usual form, whatever
lines it has been given since, and in whatever orders the tables have been met. -/
theorem settled_of_header {header : Header} {walk : Walk (Constellation × Definition)}
    {layout : Layout} (hlayout : header.layoutAlong walk = .ok layout)
    {start : Body maxOrder} (hstart : ofLayout maxOrder layout = .ok start) (s : Satellite) (i : ℕ)
    (inputs : List (Walks × Input)) :
    Settled s i 14 3 (inputs.foldl (fun b p => (b.takeAlong p.1 p.2).body) start) := by
  have husual : start.layout.Usual ∧ Settled s i 14 3 start := by
    obtain ⟨-, clock, -, rfl⟩ := ofLayout_eq_ok hstart
    have h := Layout.usual_of_header hlayout
    exact ⟨h, .start (.start hstart) rfl (h.forms s i)⟩
  clear hstart
  induction inputs generalizing start with
  | nil => exact husual.2
  | cons first inputs ih =>
    obtain ⟨walks, input⟩ := first
    -- The layout stays, or definitions overwrite columns with usual ones.
    have hnext : (start.takeAlong walks input).body.layout.Usual := by
      rcases start.layout_takeAlong walks input with hsame | ⟨definition, hoverwrites⟩
      · rw [hsame]
        exact husual.1
      · exact husual.1.overwrites hoverwrites
    exact ih ⟨hnext, husual.2.along walks input (hnext.forms s i)⟩

/-! ## Records -/

/-- A cell of a record shows the field of its column: blanks as wide as the layout says for a blank
field, and otherwise the value of the satellite in the form of its kernel. As long as the column has
kept its form this is the form that the layout gives it. -/
def ShowsField (b : Body maxOrder) (t : Tracking maxOrder) (s : Satellite) (i : ℕ) (column : Column)
    (field : Field) (text : Text) : Prop :=
  (field = .missing → text = Text.blanks column.width) ∧
  (field ≠ .missing → ∃ k value, t.kernel? s i = some k ∧ t.value? s i = some value ∧
    k.column.Shows text value ∧
    (Settled s i column.width column.decimals b → column.Shows text value))

/-- A data line that is accepted has a value for each column of the layout, each followed by its two
flags. A blank value is as wide as the layout says. Any other value is the latest one of its column,
with the width and the number of decimals of the layout as long as the column has kept its form. -/
theorem values_shown {listed : List Listed} {position : ℕ} {entry : Listed}
    (hphase : b.phase = .observation listed position) (hentry : listed[position]? = some entry)
    {line : Text} (hfault : (b.step line).fault = none) :
    ∃ columns dataLine flags values, b.layout.columnsOf entry.satellite = some columns ∧
      DataLine.parse columns.length line = .ok dataLine ∧
      (b.step line).output =
        Tracking.render b.layout.revision entry.id (Track.withFlags flags values) ++ ['\n'] ∧
      values.length = columns.length ∧
      ∀ (i : ℕ) column, columns[i]? = some column → ∃ field text,
        dataLine.fields[i]? = some field ∧ values[i]? = some text ∧
          b.ShowsField (b.step line).body.tracking entry.satellite i column field text := by
  -- A line that is accepted has been decoded, and the record is the answer.
  obtain ⟨record, hresult, hstep⟩ : ∃ record,
      (b.tracking.decode b.layout entry.satellite entry.id line).result = .ok record ∧
      (b.step line).output = record ++ ['\n'] ∧
      (b.step line).body.tracking =
        (b.tracking.decode b.layout entry.satellite entry.id line).state := by
    simp only [step, stepAlong, hphase, readObservation, hentry] at hfault ⊢
    cases hresult : (b.tracking.decode b.layout entry.satellite entry.id line).result with
    | error fault => rw [hresult] at hfault; cases hfault
    | ok record => exact ⟨record, rfl, rfl, rfl⟩
  obtain ⟨houtput, htracking⟩ := hstep
  obtain ⟨columns, dataLine, cells, hcolumns, hline, hcells, rfl, hstate⟩ :=
    Tracking.decode_eq_ok hresult
  have hkernel : ∀ i, (b.step line).body.tracking.kernel? entry.satellite i =
      (((b.tracking.tracks.get? entry.satellite).getD (.fresh columns.length)).advance columns
        dataLine).state.kernel? i := by
    intro i
    simp only [htracking, hstate, Tracking.kernel?, Table.get?_insert, if_true, Option.bind_some]
  obtain ⟨flags, values, rfl, hlength, hwrites⟩ :=
    Track.writes_of_advance (Track.parse_eq_ok hline).1 hcells
  refine ⟨columns, dataLine, flags, values, hcolumns, hline, houtput, hlength, ?_⟩
  intro i column hcolumn
  obtain ⟨field, text, hfield, htext, hblank, hvalue⟩ := hwrites i column hcolumn
  refine ⟨field, text, hfield, htext, hblank, fun hpresent => ?_⟩
  obtain ⟨k, value, hk, hkvalue, hrender⟩ := hvalue hpresent
  rw [← hkernel] at hk
  have hshown := Column.shows_of_render hrender
  refine ⟨k, value, hk, ?_, hshown, fun hsettled => ?_⟩
  · rw [Tracking.value?_eq, hk]
    exact hkvalue
  · obtain ⟨hform, hold⟩ := hsettled.kernel_form
    -- The kernel has been made before, or for this line.
    rcases (exit_step b line).column_eq hk with ⟨k₀, hk₀, hsame⟩ | ⟨columns', hcolumns', hmade⟩
    · obtain ⟨hwidth, hdecimals⟩ := hold k₀ hk₀
      exact hshown.congr (hsame ▸ hwidth.symm) (hsame ▸ hdecimals.symm)
    · obtain ⟨hwidth, hdecimals⟩ := hform _ _ hcolumns' hmade
      exact hshown.congr hwidth.symm hdecimals.symm

/-- A column of ten characters and two decimals keeps its form while the observables of another
system are declared, so that the next value is written in ten characters with two decimals. -/
theorem values_shown_other_system :
    ∃ b : Body 5, ∃ listed entry, Settled ⟨.gps, 1⟩ 0 10 2 b ∧
      b.phase = .observation listed 0 ∧ listed[0]? = some entry ∧ entry.satellite = ⟨.gps, 1⟩ ∧
      (b.step "10".toList).fault = none ∧ ∃ flags text,
        (b.step "10".toList).output =
          Tracking.render b.layout.revision entry.id (Track.withFlags flags [text]) ++ ['\n'] ∧
        (⟨10, 2, 3⟩ : Column).Shows text 1010 := by
  obtain ⟨b, hb⟩ : ∃ b : Body 5,
    ofLayout 5 ((Layout.ofRevision .v3).withColumns .gps [⟨10, 2, 3⟩]) = .ok b := ⟨_, rfl⟩
  have hstart : Reachable b := .start hb
  cases hb
  have form : ∀ l : Layout, l.columnsOf ⟨.gps, 1⟩ = some [⟨10, 2, 3⟩] →
      l.Forms ⟨.gps, 1⟩ 0 10 2 := fun l h => @Layout.forms_of_columnsOf l _ _ 0 ⟨10, 2, 3⟩ h rfl
  have hepoch := (hstart.take (.line "> 2021 01 01 00 00 00.0000000  0  1      G01".toList)).take
    (.line [])
  have hsettled := (Settled.start hepoch rfl (form _ rfl)).take (.line "3&1000".toList) (form _ rfl)
  have hevent := (hsettled.take (.line "                               4".toList) (form _ rfl)).take
    (.line "R    1 C1C                                                  SYS / # / OBS TYPES".toList)
    (form _ rfl)
  have hlast := (hevent.take (.line "                               0".toList) (form _ rfl)).take
    (.line []) (form _ rfl)
  -- The event has defined columns of another constellation.
  generalize hb : Progress.body _ = b at hlast
  have hphase : b.phase = .observation [⟨⟨.gps, 1⟩, "G01".toList⟩] 0 := by rw [← hb]; rfl
  have hfault : (b.step "10".toList).fault = none := by rw [← hb]; rfl
  obtain ⟨columns, dataLine, flags, values, hcolumns, hline, houtput, hlength, hvalues⟩ :=
    values_shown hphase rfl hfault
  obtain rfl : [⟨10, 2, 3⟩] = columns := Option.some.inj (by rw [← hcolumns, ← hb]; rfl)
  obtain rfl : ⟨[.delta 10], []⟩ = dataLine := Except.ok.inj hline
  obtain ⟨text, rfl⟩ := List.length_eq_one_iff.1 hlength
  obtain ⟨field, text', hfield, htext, -, hvalue⟩ := hvalues 0 _ rfl
  cases hfield
  cases htext
  obtain ⟨k, value, -, hlatest, -, hshows⟩ := hvalue nofun
  obtain rfl : 1010 = value := Option.some.inj (by rw [← hlatest, ← hb]; rfl)
  exact ⟨b, _, _, hlast, hphase, rfl, rfl, hfault, flags, text, houtput, hshows hlast⟩

/-- The same column is declared anew, with fourteen characters and three decimals. The satellite is
still in view, and the next value is written in ten characters with two decimals. -/
theorem form_after_update :
    ∃ start b : Body 5, ∃ inputs output listed entry,
      ofLayout 5 ((Layout.ofRevision .v3).withColumns .gps [⟨10, 2, 3⟩]) = .ok start ∧
      inputs = [.line "> 2021 01 01 00 00 00.0000000  0  1      G01".toList, .line [],
        .line "3&1000".toList, .line "                               4".toList,
        .line "G    1 C1C                                                  SYS / # / OBS TYPES".toList,
        .line "                               0".toList, .line []] ∧
      start.run inputs = .ok (b, output) ∧
      b.phase = .observation listed 0 ∧ listed[0]? = some entry ∧
      b.layout.columnsOf entry.satellite = some [⟨14, 3, 3⟩] ∧
      (b.step "10".toList).fault = none ∧
      (b.step "10".toList).body.tracking.value? entry.satellite 0 = some 1010 ∧
      (b.step "10".toList).output = "G01     10.10\n".toList ∧
      (⟨14, 3, 3⟩ : Column).render 1010 = .ok "         1.010".toList := by
  exact ⟨_, _, _, _, _, _, rfl, rfl, rfl, rfl, rfl, rfl, rfl, rfl, rfl, rfl⟩

end Body

end CompactRinex
