import CompactRinex.Proofs.Body.Forms
import CompactRinex.Proofs.Body.History
import CompactRinex.Proofs.Tracking.Operations

/-!
# Rejected data lines

A data line is taken apart before anything changes, and then its flags and its fields are taken in
one after the other. So a line that cannot be taken apart leaves the tracks alone, and any other
line that is rejected stops at a column: the flags and the columns before it have moved on, the
columns after it have not. `Tracking.StoppedAt` says what such a line leaves behind, and
`Reachable.rejected` that a rejected line leaves this behind or nothing.
-/

namespace CompactRinex

variable {maxOrder : ℕ}

/-! ## Cells -/

/-- The value of a column after a field, from its kernel before it: a blank field keeps the value, a
literal is the value, and a difference is taken from the history, or is the value without one. -/
def Kernel.valueAfter (kernel : Option (Kernel maxOrder)) : Field → Option Int64
  | .missing => kernel.bind Kernel.value?
  | .literal _ value => some value
  | .delta difference => some (kernel.elim difference fun k => k.recovered difference)

/-- The value of a field is the latest one of the kernel that has taken it in, and the one that the
field gives to its column. -/
theorem Kernel.value?_of_step_eq_some {kernel : Option (Kernel maxOrder)} {column : Column}
    {field : Field} {k k' : Kernel maxOrder} {value : Int64}
    (hk : kernel.elim (ofColumn maxOrder column) .ok = .ok k)
    (hstep : k.step field = .ok (k', some value)) :
    k'.value? = some value ∧ valueAfter kernel field = some value := by
  cases field with
  | missing => cases hstep
  | literal order literal =>
    obtain ⟨restarted, hrestart, hpair⟩ := map_eq_ok_iff.1 hstep
    cases hpair
    exact ⟨value?_of_restart hrestart, rfl⟩
  | delta difference =>
    cases hstep
    refine ⟨rfl, ?_⟩
    cases kernel with
    | none =>
      -- A kernel that has just been made has no history.
      obtain ⟨n, -, rfl⟩ := map_eq_ok_iff.1 hk
      rfl
    | some k₀ =>
      cases hk
      rfl

/-- A kernel that has been made for a column has no value yet. -/
theorem Kernel.value?_of_elim {kernel : Option (Kernel maxOrder)} {column : Column}
    {k : Kernel maxOrder} (hk : kernel.elim (ofColumn maxOrder column) .ok = .ok k) :
    k.value? = kernel.bind Kernel.value? := by
  cases kernel with
  | none => exact (of_ofColumn hk).2
  | some k₀ =>
    cases hk
    rfl

namespace Track

/-- A cell that is written has the value that its field gives. -/
theorem value?_advanceCell_of_ok {kernel : Option (Kernel maxOrder)} {column : Column}
    {field : Field} {text : Text} (h : (advanceCell kernel column field).result = .ok text) :
    (advanceCell kernel column field).state.bind Kernel.value? =
      Kernel.valueAfter kernel field := by
  rcases advanceCell_cases h with ⟨rfl, hsame, -⟩ | ⟨-, k, k', value, hk, hstep, hmoved, hvalue, -⟩
  · rw [hsame]
    rfl
  · rw [hmoved, Option.bind_some, hvalue, (Kernel.value?_of_step_eq_some hk hstep).2]

/-- A cell that is not written has an order that is not supported, and then its value stays, or its
value does not fit, and has been taken in all the same. -/
theorem value?_advanceCell_of_error {kernel : Option (Kernel maxOrder)} {column : Column}
    {field : Field} {fault : Fault} (h : (advanceCell kernel column field).result = .error fault) :
    fault.OfOrder maxOrder ∧
        (advanceCell kernel column field).state.bind Kernel.value? = kernel.bind Kernel.value? ∨
      ∃ value width, fault = .formatOverflow value width ∧
        Kernel.valueAfter kernel field = some value ∧
        (advanceCell kernel column field).state.bind Kernel.value? = some value := by
  generalize hcell : advanceCell kernel column field = cell at h ⊢
  unfold advanceCell at hcell
  split at hcell
  · subst hcell
    cases h
  · split at hcell
    · -- The kernel cannot be made.
      next hmade =>
      subst hcell
      cases h
      cases kernel with
      | none => exact Or.inl ⟨Kernel.ofOrder_ofColumn column _ hmade, rfl⟩
      | some k => cases hmade
    · next k hk =>
      split at hcell
      · -- The field has an order of its own.
        next hstep =>
        subst hcell
        cases h
        exact Or.inl ⟨k.ofOrder_step _ _ hstep, Kernel.value?_of_elim hk⟩
      · subst hcell
        cases h
      · -- The value has been taken in, and is then written.
        next k' value hstep =>
        subst hcell
        obtain ⟨hvalue, hafter⟩ := Kernel.value?_of_step_eq_some hk hstep
        exact Or.inr ⟨value, _, Column.eq_of_render_error h, hafter, hvalue⟩

/-- A line that is not written stops at a column: the columns before it have been written, the
column itself has failed, and those after it have been left alone. -/
theorem advanceCells_of_error {columns : List Column} {fields : List Field}
    {kernels : List (Option (Kernel maxOrder))} {fault : Fault}
    (h : (advanceCells columns fields kernels).result = .error fault) :
    ∃ i : ℕ, (∀ j < i, ∃ column field text, columns[j]? = some column ∧ fields[j]? = some field ∧
        advanceCell (kernels[j]?).join column field =
          ⟨((advanceCells columns fields kernels).state[j]?).join, .ok text⟩) ∧
      (∃ column field, columns[i]? = some column ∧ fields[i]? = some field ∧
        advanceCell (kernels[i]?).join column field =
          ⟨((advanceCells columns fields kernels).state[i]?).join, .error fault⟩) ∧
      ∀ j > i, ((advanceCells columns fields kernels).state[j]?).join = (kernels[j]?).join := by
  induction columns generalizing fields kernels with
  | nil => cases h
  | cons column columns ih =>
    cases fields with
    | nil => cases h
    | cons field fields =>
      have hhead := join_head? kernels
      have htail := join_tail kernels
      simp only [advanceCells] at h ⊢
      cases hcell : (advanceCell kernels.head?.join column field).result with
      | error e =>
        -- The first column fails.
        simp only [hcell] at h ⊢
        cases h
        refine ⟨0, by omega, ⟨column, field, rfl, rfl, ?_⟩, fun j hj => ?_⟩
        · rw [hhead, ← hcell]
          rfl
        · obtain ⟨j, rfl⟩ := Nat.exists_eq_add_of_lt hj
          rw [Nat.zero_add, ← htail]
          rfl
      | ok text =>
        -- The first column is written, and the line stops later.
        simp only [hcell] at h ⊢
        obtain ⟨i, hearlier, hstopped, hlater⟩ := ih (map_eq_error_iff.1 h)
        refine ⟨i + 1, fun j hj => ?_, ?_, fun j hj => ?_⟩
        · cases j with
          | zero =>
            refine ⟨column, field, text, rfl, rfl, ?_⟩
            rw [hhead, ← hcell]
            rfl
          | succ j =>
            simp only [List.getElem?_cons_succ, ← htail]
            exact hearlier j (by omega)
        · simp only [List.getElem?_cons_succ, ← htail]
          exact hstopped
        · obtain ⟨j, rfl⟩ := Nat.exists_eq_add_of_lt hj
          simp only [List.getElem?_cons_succ, ← htail]
          exact hlater _ (by omega)

/-! ## Flags -/

/-- The flags of the track are an ASCII text, so every edit of them can be applied. -/
def Legible (t : Track maxOrder) : Prop :=
  ∃ text, t.flags.reference = some text ∧ Text.isAscii text

/-- A new track is legible. -/
theorem legible_fresh (count : ℕ) : (fresh count : Track maxOrder).Legible :=
  ⟨_, rfl, Overlay.isAscii_padRight rfl⟩

/-- A line whose flags are ASCII keeps a track legible. -/
theorem Legible.advance {t : Track maxOrder} (h : t.Legible) (columns : List Column)
    {line : DataLine} (hflags : Text.isAscii line.flags) :
    (t.advance columns line).state.Legible := by
  obtain ⟨text, href, htext⟩ := h
  rw [advance_of_isAscii href htext columns hflags]
  exact ⟨_, rfl, Overlay.isAscii_merge (Overlay.isAscii_padRight htext) hflags⟩

end Track

namespace Tracking

/-! ## Lines -/

/-- The flags of all satellites are ASCII texts. -/
def Legible (t : Tracking maxOrder) : Prop :=
  ∀ s track, t.tracks.get? s = some track → track.Legible

/-- So are those of a satellite that is seen for the first time. -/
theorem Legible.getD {t : Tracking maxOrder} (h : t.Legible) (s : Satellite) (count : ℕ) :
    ((t.tracks.get? s).getD (.fresh count)).Legible := by
  cases htrack : t.tracks.get? s with
  | none => exact Track.legible_fresh count
  | some track => exact h s track htrack

/-- So does every operation keep the tracks legible. -/
theorem Legible.perform {t : Tracking maxOrder} (h : t.Legible) (operation : Operation) :
    (t.perform operation).Legible := by
  cases operation with
  | decode layout satellite id line =>
    simp only [Tracking.perform]
    rcases t.decode_cases layout satellite id line with ⟨fault, -, hrefused⟩ |
      ⟨columns, dataLine, advanced, -, hline, hadvanced, htaken⟩
    · rw [hrefused]
      exact h
    · rw [htaken]
      intro s track htrack
      -- Only the track of this satellite has moved.
      rw [Table.get?_insert] at htrack
      split at htrack
      · cases htrack
        rw [← hadvanced]
        exact (h.getD satellite _).advance columns (Track.parse_eq_ok hline).2
      · exact h s track htrack
  | retain satellites =>
    intro s track htrack
    simp only [Tracking.perform, retain, Table.get?_restrict] at htrack
    split at htrack
    · exact h s track htrack
    · cases htrack
  | reset =>
    intro s track htrack
    exact absurd htrack.symm (Option.some_ne_none track)

/-- Reachable tracks are legible. -/
theorem Reachable.legible {t : Tracking maxOrder} (h : t.Reachable) : t.Legible := by
  induction h with
  | empty =>
    intro s track htrack
    exact absurd htrack.symm (Option.some_ne_none track)
  | perform _ operation ih => exact ih.perform operation

/-! ## What a rejected line leaves behind -/

/-- The data line of a satellite has stopped at column `i` with a fault, and has led from the tracks
`t` to `t'`. -/
structure StoppedAt (t t' : Tracking maxOrder) (s : Satellite) (columns : List Column)
    (line : DataLine) (fault : Fault) (i : ℕ) : Prop where
  /-- All other satellites are as before. -/
  others : ∀ s', s' ≠ s → t'.tracks.get? s' = t.tracks.get? s'
  /-- The flags have taken those of the line, column by column. -/
  flags : ∀ c, (t'.flags s).getD c ' ' =
    Overlay.put ' ' '&' ((t.flags s).getD c ' ') (line.flags.getD c ' ')
  /-- The columns before `i` have been written, and have the values that their fields give. -/
  earlier : ∀ j < i, ∃ column field text, columns[j]? = some column ∧ line.fields[j]? = some field ∧
    (Track.advanceCell (t.kernel? s j) column field).result = .ok text ∧
    t'.value? s j = Kernel.valueAfter (t.kernel? s j) field
  /-- Column `i` has failed. Its value is the one before, or the one that does not fit. -/
  stopped : ∃ column field, columns[i]? = some column ∧ line.fields[i]? = some field ∧
    (Track.advanceCell (t.kernel? s i) column field).result = .error fault ∧
    (fault.OfOrder maxOrder ∧ t'.value? s i = t.value? s i ∨
      ∃ value width, fault = .formatOverflow value width ∧
        Kernel.valueAfter (t.kernel? s i) field = some value ∧ t'.value? s i = some value)
  /-- The columns after `i` have the values they had. -/
  later : ∀ j > i, t'.value? s j = t.value? s j

/-- The flags of a satellite are those of its track, which are blank at first. -/
theorem getD_flags (t : Tracking maxOrder) (s : Satellite) (count : ℕ) {text : Text}
    (h : ((t.tracks.get? s).getD (.fresh count)).flags.reference = some text) (c : ℕ) :
    (t.flags s).getD c ' ' = text.getD c ' ' := by
  unfold flags
  cases htrack : t.tracks.get? s with
  | none =>
    rw [htrack] at h
    cases h
    rw [Overlay.getD_padRight]
    rfl
  | some track =>
    rw [htrack] at h
    exact congrArg (fun reference : Option Text => (reference.getD []).getD c ' ') h

/-- A line that can be taken apart and is rejected has stopped at a column. -/
theorem exists_stoppedAt {t : Tracking maxOrder} {s : Satellite} {columns : List Column}
    {line : DataLine} {fault : Fault} {advanced : Outcome (Track maxOrder) Fault (List Text)}
    (hlegible : t.Legible) (hflags : Text.isAscii line.flags)
    (hadvanced : ((t.tracks.get? s).getD (.fresh columns.length)).advance columns line = advanced)
    (h : advanced.result = .error fault) :
    ∃ i, StoppedAt t ⟨t.tracks.insert s advanced.state⟩ s columns line fault i := by
  obtain ⟨text, href, htext⟩ := hlegible.getD s columns.length
  -- The flags can always be edited, so it is a field that fails.
  rw [Track.advance_of_isAscii href htext columns hflags] at hadvanced
  subst hadvanced
  obtain ⟨i, hearlier, ⟨column, field, hcolumn, hfield, hcell⟩, hlater⟩ :=
    Track.advanceCells_of_error (map_eq_error_iff.1 h)
  simp only [kernel?_getD_fresh] at hearlier hcell hlater
  refine ⟨i, ?others, ?flags, ?earlier, ?stopped, ?later⟩
  case others =>
    intro s' hne
    rw [Table.get?_insert, if_neg hne]
  case flags =>
    intro c
    rw [getD_flags t s columns.length href]
    simp only [flags, Table.get?_insert, if_true, Option.bind_some, Option.getD_some,
      Overlay.getD_merge, Overlay.getD_padRight]
  case earlier =>
    intro j hj
    obtain ⟨column, field, text, hcolumn, hfield, hcell⟩ := hearlier j hj
    have hresult := congrArg Outcome.result hcell
    refine ⟨column, field, text, hcolumn, hfield, hresult, ?_⟩
    rw [value?_eq, kernel?_insert, ← Track.value?_advanceCell_of_ok hresult, hcell]
  case stopped =>
    have hresult := congrArg Outcome.result hcell
    refine ⟨column, field, hcolumn, hfield, hresult, ?_⟩
    rw [value?_eq, value?_eq, kernel?_insert]
    have hvalue := Track.value?_advanceCell_of_error hresult
    rw [hcell] at hvalue
    exact hvalue
  case later =>
    intro j hj
    rw [value?_eq, value?_eq, kernel?_insert, hlater j hj]

/-- A line that is rejected with legible flags has changed nothing, or it has stopped at a column.
-/
theorem Legible.decode_of_error {t : Tracking maxOrder} (ht : t.Legible) {layout : Layout}
    {s : Satellite} {id line : Text} {fault : Fault}
    (h : (t.decode layout s id line).result = .error fault) :
    fault.OfShape ∧ (t.decode layout s id line).state = t ∨
      ∃ columns dataLine i, layout.columnsOf s = some columns ∧
        DataLine.parse columns.length line = .ok dataLine ∧
        StoppedAt t (t.decode layout s id line).state s columns dataLine fault i := by
  rcases t.decode_cases layout s id line with ⟨refusal, hshape, hrefused⟩ |
    ⟨columns, dataLine, advanced, hcolumns, hline, hadvanced, htaken⟩
  · rw [hrefused] at h ⊢
    cases h
    exact Or.inl ⟨hshape, rfl⟩
  · rw [htaken] at h ⊢
    -- The line has been split, so the error comes from one of its cells.
    obtain ⟨i, hstopped⟩ := exists_stoppedAt ht (Track.parse_eq_ok hline).2 hadvanced
      (map_eq_error_iff.1 h)
    exact Or.inr ⟨columns, dataLine, i, hcolumns, hline, hstopped⟩

/-- What a rejected data line leaves behind. A line for which there are no observables, or that is
not ASCII or cannot be taken apart, leaves everything as it was. Any other line has stopped at its
first column that fails, because of an order that is not supported or a value that does not fit. -/
theorem Reachable.rejected {t : Tracking maxOrder} (ht : t.Reachable) {layout : Layout}
    {s : Satellite} {id line : Text} {fault : Fault}
    (h : (t.decode layout s id line).result = .error fault) :
    fault.OfShape ∧ (t.decode layout s id line).state = t ∨
      ∃ columns dataLine i, layout.columnsOf s = some columns ∧
        DataLine.parse columns.length line = .ok dataLine ∧
        StoppedAt t (t.decode layout s id line).state s columns dataLine fault i :=
  ht.legible.decode_of_error h

/-- The second of three columns overflows. -/
theorem rejected_overflow :
    ∃ (t : Tracking 5) (layout : Layout) (line : Text),
      layout = (Layout.ofRevision .v3).withObservables .gps 3 ∧
      t = performAll ∅ [.decode layout ⟨.gps, 1⟩ "G01".toList "3&1000 3&7 5&9 1 2".toList] ∧
      line = "5 3&1000000000000000 4 &4".toList ∧
      (t.decode layout ⟨.gps, 1⟩ "G01".toList line).result =
        .error (.formatOverflow 1000000000000000 14) ∧
      (t.decode layout ⟨.gps, 1⟩ "G01".toList line).state.value? ⟨.gps, 1⟩ 0 = some 1005 ∧
      (t.decode layout ⟨.gps, 1⟩ "G01".toList line).state.value? ⟨.gps, 1⟩ 1 =
        some 1000000000000000 ∧
      (t.decode layout ⟨.gps, 1⟩ "G01".toList line).state.value? ⟨.gps, 1⟩ 2 = some 9 ∧
      (t.decode layout ⟨.gps, 1⟩ "G01".toList line).state.flags ⟨.gps, 1⟩ = " 42   ".toList ∧
      ∃ columns dataLine i, layout.columnsOf ⟨.gps, 1⟩ = some columns ∧
        DataLine.parse columns.length line = .ok dataLine ∧
        StoppedAt t (t.decode layout ⟨.gps, 1⟩ "G01".toList line).state ⟨.gps, 1⟩ columns dataLine
          (.formatOverflow 1000000000000000 14) i := by
  refine ⟨_, _, _, rfl, rfl, rfl, ?result, ?before, ?offending, ?after, ?flags,
    (Reachable.rejected (Reachable.empty.performAll _) ?result).resolve_left fun h => h.1⟩
  case result => rfl
  case before => rfl
  case offending => rfl
  case after => rfl
  case flags => rfl

end Tracking

end CompactRinex
