import CompactRinex.Proofs.Body.Exit
import CompactRinex.Proofs.Epoch.Line

/-!
# Runs of a body

A body takes in lines, and its caller may reinitialize it between two of them. `Body.Reachable`
holds of every body that this leads to, whether the lines are accepted or not, and in whatever
orders the tables are met. A reachable body is coherent (`Reachable.coherent`): its description has
the revision of the layout and no least width, and every column of the layout has an order that is
admitted, or the order of an observation. The latter is what a layout keeps whose update was
refused. All columns that are refused have the same order, so it does not matter which of them is
reported (`Layout.checkOrders_of_known`).
-/

namespace CompactRinex

/-- What a caller does with a body. -/
inductive Input where
  /-- Gives it a line. -/
  | line (text : Text)
  /-- Ends the history of every satellite. -/
  | restart
  deriving DecidableEq

/-- An order is admitted, or it is the one of an observation. -/
def KnownOrder (maxOrder : ℕ) (column : Column) : Prop :=
  (0 < column.order ∧ column.order ≤ maxOrder) ∨ column.order = Column.observation.order

namespace Body

variable {maxOrder : ℕ}

/-- What an input leads to, when the tables are met in these orders. -/
def takeAlong (b : Body maxOrder) (walks : Walks) : Input → Progress maxOrder
  | .line text => b.stepAlong walks text
  | .restart => { body := b.reinitialize, output := [], fault := none }

/-- What an input leads to. -/
def take (b : Body maxOrder) : Input → Progress maxOrder
  | .line text => b.step text
  | .restart => { body := b.reinitialize, output := [], fault := none }

/-- In the order of insertion. -/
theorem takeAlong_inserted (b : Body maxOrder) (input : Input) :
    b.takeAlong .inserted input = b.take input := by
  cases input <;> rfl

/-- Takes in inputs as long as there is no fault, and answers with the body after them and the text
that they add to the recovered file. -/
def run (b : Body maxOrder) : List Input → Except Fault (Body maxOrder × Text)
  | [] => .ok (b, [])
  | input :: inputs =>
    match (b.take input).fault with
    | some fault => .error fault
    | none => ((b.take input).body.run inputs).map fun p => (p.1, (b.take input).output ++ p.2)

/-- A run without a fault takes in its first input, and then the others. -/
theorem run_cons_eq_ok_iff {b : Body maxOrder} {input : Input} {inputs : List Input}
    {p : Body maxOrder × Text} :
    b.run (input :: inputs) = .ok p ↔ (b.take input).fault = none ∧
      ∃ q, (b.take input).body.run inputs = .ok q ∧ (q.1, (b.take input).output ++ q.2) = p := by
  rw [run]
  cases hfault : (b.take input).fault with
  | some fault =>
    constructor
    · rintro ⟨⟩
    · rintro ⟨⟨⟩, -⟩
  | none =>
    rw [map_eq_ok_iff]
    exact (and_iff_right rfl).symm

/-- A run goes on after an input that is accepted. -/
theorem run_cons {b b' b'' : Body maxOrder} {input : Input} {inputs : List Input}
    {output output' : Text} (h : b.take input = ⟨b', output, none⟩)
    (hrun : b'.run inputs = .ok (b'', output')) :
    b.run (input :: inputs) = .ok (b'', output ++ output') := by
  rw [run_cons_eq_ok_iff, h]
  exact ⟨rfl, _, hrun, rfl⟩

/-- A run of one accepted input. -/
theorem run_singleton {b b' : Body maxOrder} {input : Input} {output : Text}
    (h : b.take input = ⟨b', output, none⟩) : b.run [input] = .ok (b', output) := by
  rw [run_cons h rfl, List.append_nil]

/-- Two runs, one after the other. -/
theorem run_append {b b' b'' : Body maxOrder} {inputs inputs' : List Input}
    {output output' : Text} (h : b.run inputs = .ok (b', output))
    (h' : b'.run inputs' = .ok (b'', output')) :
    b.run (inputs ++ inputs') = .ok (b'', output ++ output') := by
  induction inputs generalizing b output with
  | nil => cases h; exact h'
  | cons input inputs ih =>
    obtain ⟨hfault, q, hq, hp⟩ := run_cons_eq_ok_iff.1 h
    cases hp
    refine run_cons_eq_ok_iff.2 ⟨hfault, _, ih hq, ?_⟩
    rw [List.append_assoc]

/-- A run without a fault has come through its first part. -/
theorem run_append_eq_ok {b b'' : Body maxOrder} {inputs inputs' : List Input} {output : Text}
    (h : b.run (inputs ++ inputs') = .ok (b'', output)) :
    ∃ b' first last, b.run inputs = .ok (b', first) ∧ b'.run inputs' = .ok (b'', last) ∧
      output = first ++ last := by
  induction inputs generalizing b output with
  | nil => exact ⟨b, [], output, rfl, h, rfl⟩
  | cons input inputs ih =>
    obtain ⟨hfault, ⟨_, output'⟩, hrest, hp⟩ := run_cons_eq_ok_iff.1 h
    cases hp
    obtain ⟨b', first, last, hfirst, hlast, rfl⟩ := ih hrest
    exact ⟨b', _, last, run_cons_eq_ok_iff.2 ⟨hfault, _, hfirst, rfl⟩, hlast,
      (List.append_assoc _ _ _).symm⟩

/-- A body that inputs lead to, from the state before the first line of some layout. -/
inductive Reachable : Body maxOrder → Prop where
  /-- The state before the first line. -/
  | start {layout : Layout} {b : Body maxOrder} (h : ofLayout maxOrder layout = .ok b) : Reachable b
  /-- The state after an input, accepted or not, with the tables in any orders. -/
  | along {b : Body maxOrder} (h : Reachable b) (walks : Walks) (input : Input) :
    Reachable (b.takeAlong walks input).body

/-- An input in the order of insertion. -/
theorem Reachable.take {b : Body maxOrder} (h : Reachable b) (input : Input) :
    Reachable (b.take input).body :=
  b.takeAlong_inserted input ▸ h.along .inserted input

/-! ## Coherence -/

/-- The parts of a body go together. -/
structure Coherent (b : Body maxOrder) : Prop where
  /-- The description has the revision of the layout. -/
  revision_eq : b.epoch.revision = b.layout.revision
  /-- The description has no least width. -/
  width_eq : b.epoch.overlay.width = 0
  /-- The orders of the columns are known. -/
  order_known : ∀ column ∈ b.layout.allColumns, KnownOrder maxOrder column

end Body

namespace Layout

/-- The columns of a layout are the one of the clock and those that are declared. -/
theorem mem_allColumns {l : Layout} {column : Column} :
    column ∈ l.allColumns ↔
      column = l.clock ∨ ∃ c columns, l.columns.get? c = some columns ∧ column ∈ columns := by
  simp only [allColumns, List.mem_cons, List.mem_flatten, Table.values, List.mem_map, Prod.exists]
  constructor
  · rintro (h | ⟨columns, ⟨c, columns', hmem, rfl⟩, hcolumn⟩)
    · exact Or.inl h
    · exact Or.inr ⟨c, columns', (Table.mem_entries_iff _ _ _).1 hmem, hcolumn⟩
  · rintro (h | ⟨c, columns, hget, hcolumn⟩)
    · exact Or.inl h
    · exact Or.inr ⟨columns, ⟨c, columns, (Table.mem_entries_iff _ _ _).2 hget, rfl⟩, hcolumn⟩

/-- The columns of a satellite are columns of the layout. -/
theorem mem_allColumns_of_columnsOf {l : Layout} {s : Satellite} {columns : List Column}
    (h : l.columnsOf s = some columns) {column : Column} (hc : column ∈ columns) :
    column ∈ l.allColumns := by
  refine mem_allColumns.2 (Or.inr ?_)
  simp only [columnsOf] at h
  split at h
  · next columns' hmixed =>
    cases h
    exact ⟨.mixed, columns, hmixed, hc⟩
  · exact ⟨_, columns, h, hc⟩

/-- Columns with known orders fail their check in one way only. -/
theorem checkOrders_of_known {maxOrder : ℕ} {columns : List Column}
    (h : ∀ column ∈ columns, KnownOrder maxOrder column) :
    checkOrders maxOrder columns = .ok () ∨ checkOrders maxOrder columns =
      .error (.orderTooBig Column.observation.order maxOrder) := by
  induction columns with
  | nil => exact Or.inl rfl
  | cons column rest ih =>
    have hrest := ih fun c hc => h c (List.mem_cons_of_mem _ hc)
    by_cases horder : 0 < column.order ∧ column.order ≤ maxOrder
    · rw [checkOrders, admitOrder_of_le horder.1 horder.2]
      exact hrest
    · -- Of the known orders only that of a definition can be too high.
      have hobservation : column.order = Column.observation.order :=
        (h column (List.mem_cons_self ..)).resolve_left horder
      rw [checkOrders, admitOrder_of_not horder, hobservation]
      exact Or.inr rfl

/-- A declaration of observables adds columns of the usual form only. -/
theorem mem_allColumns_withObservables {l : Layout} {c : Constellation} {count : ℕ}
    {column : Column} (h : column ∈ (l.withObservables c count).allColumns) :
    column ∈ l.allColumns ∨ column = Column.observation := by
  rcases mem_allColumns.1 h with h | ⟨c', columns, hget, hcolumn⟩
  · exact Or.inl (mem_allColumns.2 (Or.inl h))
  · simp only [withObservables, columns_withColumns, Table.get?_insert] at hget
    split at hget
    · cases hget
      exact Or.inr (List.eq_of_mem_replicate hcolumn)
    · exact Or.inl (mem_allColumns.2 (Or.inr ⟨c', columns, hget, hcolumn⟩))

end Layout

namespace Header

/-- Definitions that are applied add columns of the usual form only, and leave the rest of the
layout. -/
theorem of_applyDefinitions {definitions : List (Constellation × Definition)}
    {layout layout' : Layout} (h : applyDefinitions layout definitions = .ok layout') :
    layout'.revision = layout.revision ∧ layout'.clock = layout.clock ∧
      ∀ column ∈ layout'.allColumns, column ∈ layout.allColumns ∨ column = Column.observation := by
  induction definitions generalizing layout with
  | nil => cases h; exact ⟨rfl, rfl, fun _ hc => Or.inl hc⟩
  | cons p rest ih =>
    obtain ⟨c, definition⟩ := p
    simp only [applyDefinitions] at h
    split at h
    · obtain ⟨hrev, hclock, hcolumns⟩ := ih h
      refine ⟨hrev, hclock, fun column hc => ?_⟩
      -- The columns of a definition are all the same.
      rcases hcolumns column hc with hc | hc
      · exact Layout.mem_allColumns_withObservables hc
      · exact Or.inr hc
    · cases h

end Header

namespace Body

variable {maxOrder : ℕ}

/-- Special records add columns of the usual form only, and leave the rest of the layout. -/
theorem of_updatedLayout {walk : Walk (Constellation × Definition)} {layout layout' : Layout}
    {update : Option Header} (h : updatedLayout walk layout update = .ok layout') :
    layout'.revision = layout.revision ∧ layout'.clock = layout.clock ∧
      ∀ column ∈ layout'.allColumns, column ∈ layout.allColumns ∨ column = Column.observation := by
  cases update with
  | none => cases h; exact ⟨rfl, rfl, fun _ hc => Or.inl hc⟩
  | some header =>
    simp only [updatedLayout] at h
    split at h
    · cases h; exact ⟨rfl, rfl, fun _ hc => Or.inl hc⟩
    · exact Header.of_applyDefinitions h

/-- The layout that records ask for has the revision of the one before and known orders. -/
theorem Coherent.of_updatedLayout {b : Body maxOrder} (h : Coherent b)
    {walk : Walk (Constellation × Definition)} {update : Option Header} {layout : Layout}
    (hlayout : updatedLayout walk b.layout update = .ok layout) :
    layout.revision = b.layout.revision ∧
      ∀ column ∈ layout.allColumns, KnownOrder maxOrder column := by
  obtain ⟨hrev, -, hcolumns⟩ := Body.of_updatedLayout hlayout
  refine ⟨hrev, fun column hc => ?_⟩
  rcases hcolumns column hc with hc | rfl
  · exact h.order_known column hc
  · exact Or.inr rfl

/-- Each exit of a step keeps the parts together. -/
theorem Coherent.exit {b : Body maxOrder} (h : Coherent b) {walks : Walks} {line : Text}
    {p : Progress maxOrder} (hexit : Exit b walks line p) : Coherent p.body := by
  -- A new description keeps its revision and has no least width.
  have hdescribed : ∀ {epoch kind}, b.epoch.next line = .ok (epoch, kind) →
      epoch.revision = b.layout.revision ∧ epoch.overlay.width = 0 := by
    intro epoch kind hnext
    obtain ⟨hrev, hwidth⟩ := EpochDescription.eq_of_next hnext
    exact ⟨hrev.trans h.revision_eq, hwidth.trans h.width_eq⟩
  cases hexit with
  | epochUnusable _ hnext _ => exact ⟨(hdescribed hnext).1, (hdescribed hnext).2, h.order_known⟩
  | event _ hnext _ _ _ _ => exact ⟨(hdescribed hnext).1, (hdescribed hnext).2, h.order_known⟩
  | observations _ hnext _ _ _ _ =>
    exact ⟨(hdescribed hnext).1, (hdescribed hnext).2, h.order_known⟩
  | @layoutFault _ _ header layout _ _ _ _ hdefinitions hlayout _ =>
    -- The new layout is in force although it is refused.
    have hupdate : updatedLayout walks.definitions b.layout (some header) = .ok layout := by
      simpa [updatedLayout, hdefinitions] using hlayout
    obtain ⟨hrev, horder⟩ := h.of_updatedLayout hupdate
    exact ⟨h.revision_eq.trans hrev.symm, h.width_eq, horder⟩
  | lastRecord _ _ _ hlayout _ =>
    obtain ⟨hrev, horder⟩ := h.of_updatedLayout hlayout
    exact ⟨h.revision_eq.trans hrev.symm, h.width_eq, horder⟩
  | _ => exact ⟨h.revision_eq, h.width_eq, h.order_known⟩

/-- Every input keeps a body coherent. -/
theorem Coherent.along {b : Body maxOrder} (h : Coherent b) (walks : Walks) (input : Input) :
    Coherent (b.takeAlong walks input).body := by
  cases input with
  | line text => exact h.exit (exit_stepAlong b walks text)
  | restart => exact ⟨h.revision_eq, h.width_eq, h.order_known⟩

/-- An input in the order of insertion. -/
theorem Coherent.take {b : Body maxOrder} (h : Coherent b) (input : Input) :
    Coherent (b.take input).body :=
  b.takeAlong_inserted input ▸ h.along .inserted input

/-- What the state before the first line is made of. -/
theorem ofLayout_eq_ok {layout : Layout} {b : Body maxOrder}
    (h : ofLayout maxOrder layout = .ok b) :
    layout.check maxOrder = .ok () ∧ ∃ clock, Clock.ofColumn maxOrder layout.clock = .ok clock ∧
      b = ⟨layout, .epoch, .unset layout.revision, clock, ∅⟩ := by
  unfold ofLayout at h
  obtain ⟨_, hcheck, hrest⟩ := bind_eq_ok_iff.1 h
  obtain ⟨clock, hclock, hb⟩ := bind_eq_ok_iff.1 hrest
  cases hb
  exact ⟨hcheck, clock, hclock, rfl⟩

/-- A body is coherent before the first line. -/
theorem coherent_ofLayout {layout : Layout} {b : Body maxOrder}
    (h : ofLayout maxOrder layout = .ok b) : Coherent b := by
  obtain ⟨hcheck, clock, -, rfl⟩ := ofLayout_eq_ok h
  exact ⟨rfl, rfl, fun column hc => Or.inl ((Layout.checkOrders_eq_ok_iff _ _).1 hcheck column hc)⟩

/-- The parts of a reachable body go together. -/
theorem Reachable.coherent {b : Body maxOrder} (h : Reachable b) : Coherent b := by
  induction h with
  | start h => exact coherent_ofLayout h
  | along _ walks input ih => exact ih.along walks input

end Body

end CompactRinex
