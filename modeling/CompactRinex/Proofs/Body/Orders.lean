import CompactRinex.Proofs.Body.Reports

/-!
# Orders that are supported

A body is only started with a layout whose orders are supported, but an event may put columns of the
usual form into the layout later, and their order is checked after they are in force. It is refused
if differences of order 3 are not supported, so that with `3 ≤ maxOrder` every reachable layout is
supported, as is, with a smaller `maxOrder`, every layout before the first such refusal
(`Reachable.layout_supported`). The kernel of a column can then always be made. Every other refusal
leaves the layout as it is.
-/

namespace CompactRinex

/-- Differences of orders up to `maxOrder` are enough to recover every column. -/
def Layout.Supported (maxOrder : ℕ) (l : Layout) : Prop :=
  ∀ column ∈ l.allColumns, 0 < column.order ∧ column.order ≤ maxOrder

/-- The check says whether all orders are supported. -/
theorem Layout.supported_iff {maxOrder : ℕ} {l : Layout} :
    l.Supported maxOrder ↔ l.check maxOrder = .ok () :=
  (checkOrders_eq_ok_iff maxOrder l.allColumns).symm

/-- The kernel of each column of a satellite can be made. -/
theorem Layout.Supported.exists_kernel {maxOrder : ℕ} {l : Layout} (h : l.Supported maxOrder)
    {s : Satellite} {columns : List Column} (hcolumns : l.columnsOf s = some columns)
    {column : Column} (hcolumn : column ∈ columns) :
    ∃ kernel, Kernel.ofColumn maxOrder column = .ok kernel := by
  obtain ⟨hpos, hle⟩ := h column (mem_allColumns_of_columnsOf hcolumns hcolumn)
  rw [Kernel.ofColumn, admitOrder_of_le hpos hle]
  exact ⟨_, rfl⟩

/-- Where the order of an observation is supported, so is every known order. -/
theorem KnownOrder.of_le {maxOrder : ℕ} (hM : 3 ≤ maxOrder) {column : Column}
    (h : KnownOrder maxOrder column) : 0 < column.order ∧ column.order ≤ maxOrder := by
  rcases h with h | h
  · exact h
  · have horder : column.order = 3 := h
    omega

namespace Body

variable {maxOrder : ℕ} {b : Body maxOrder}

/-- The input is a special record, and it is refused because of an order that is too big. -/
def Oversteps (b : Body maxOrder) (walks : Walks) (input : Input) : Prop :=
  b.phase.state = .records ∧
    ∃ order, (b.takeAlong walks input).fault = some (.orderTooBig order maxOrder)

/-- A body that inputs lead to, none of which has overstepped the supported orders. -/
inductive Served : Body maxOrder → Prop where
  /-- The state before the first line. -/
  | start {layout : Layout} {b : Body maxOrder} (h : ofLayout maxOrder layout = .ok b) : Served b
  /-- The state after an input, accepted or not, with the tables in any orders. -/
  | along {b : Body maxOrder} (h : Served b) {walks : Walks} {input : Input}
      (hinput : ¬b.Oversteps walks input) : Served (b.takeAlong walks input).body

/-- Such a body is reachable. -/
theorem Served.reachable (h : Served b) : Reachable b := by
  induction h with
  | start h => exact .start h
  | along _ _ ih => exact ih.along _ _

/-- The layout that an event asks for is refused because of the order of an observation. -/
theorem Coherent.of_check_eq_error (h : Coherent b) {walks : Walks} {header : Header}
    {layout : Layout} {fault : Fault} (hdefinitions : header.definitions.isEmpty = false)
    (hlayout : header.updateLayout walks.definitions b.layout = .ok layout)
    (hcheck : layout.checkAlong maxOrder walks.columns = .error fault) :
    maxOrder < 3 ∧ fault = .orderTooBig 3 maxOrder := by
  have hupdate : updatedLayout walks.definitions b.layout (some header) = .ok layout := by
    simpa [updatedLayout, hdefinitions] using hlayout
  have hknown := (h.of_updatedLayout hupdate).2
  constructor
  · by_contra hM
    -- With room for order 3 all known orders would be supported.
    have hsupported : layout.Supported maxOrder := fun column hcolumn =>
      (hknown column hcolumn).of_le (Nat.le_of_not_lt hM)
    have hok := (Layout.checkAlong_eq_ok_iff maxOrder layout walks.columns).2
      (Layout.supported_iff.1 hsupported)
    cases hok.symm.trans hcheck
  · have hmet : ∀ column ∈ layout.columnsAlong walks.columns, KnownOrder maxOrder column :=
      fun column hcolumn => hknown column (Layout.mem_columnsAlong.1 hcolumn)
    -- The first column that is refused has order 3, whichever it is.
    rcases Layout.checkOrders_of_known hmet with hok | herror
    · cases hok.symm.trans hcheck
    · exact Except.error.inj (hcheck.symm.trans herror)

/-- A line that is refused leaves the layout, unless it ends an event that asks for differences of
order 3, and these are not supported. -/
theorem Coherent.layout_of_fault (h : Coherent b) {walks : Walks} {line : Text} {fault : Fault}
    (hfault : (b.stepAlong walks line).fault = some fault) :
    (b.stepAlong walks line).body.layout = b.layout ∨
      (maxOrder < 3 ∧ b.phase.state = .records ∧ fault = .orderTooBig 3 maxOrder) := by
  have hexit := exit_stepAlong b walks line
  generalize b.stepAlong walks line = p at hexit hfault ⊢
  cases hexit with
  | layoutFault hphase _ _ hdefinitions hlayout hcheck =>
    cases hfault
    -- The new layout is refused for one of its columns, which have order three.
    obtain ⟨hM, hfault⟩ := h.of_check_eq_error hdefinitions hlayout hcheck
    exact Or.inr ⟨hM, by rw [hphase]; rfl, hfault⟩
  | lastRecord => cases hfault
  | _ => exact Or.inl rfl

/-- The layout stays supported as long as no input oversteps the supported orders. -/
theorem Coherent.supported_takeAlong (h : Coherent b) (hsupported : b.layout.Supported maxOrder)
    {walks : Walks} {input : Input} (hinput : ¬b.Oversteps walks input) :
    (b.takeAlong walks input).body.layout.Supported maxOrder := by
  cases input with
  | restart => exact hsupported
  | line text =>
    have hexit := exit_stepAlong b walks text
    simp only [Oversteps, takeAlong] at hinput ⊢
    generalize b.stepAlong walks text = p at hexit hinput ⊢
    cases hexit with
    | layoutFault hphase _ _ hdefinitions hlayout hcheck =>
      -- The order of an observation is too big.
      obtain ⟨-, rfl⟩ := h.of_check_eq_error hdefinitions hlayout hcheck
      exact absurd ⟨by rw [hphase]; rfl, _, rfl⟩ hinput
    | lastRecord _ _ _ _ hcheck =>
      rcases hcheck with rfl | hok
      · exact hsupported
      · exact Layout.supported_iff.2 hok
    | _ => exact hsupported

/-- So it is supported after all of them. -/
theorem Served.supported (h : Served b) : b.layout.Supported maxOrder := by
  induction h with
  | start h =>
    obtain ⟨hcheck, _, _, rfl⟩ := ofLayout_eq_ok h
    exact Layout.supported_iff.2 hcheck
  | along h hinput ih => exact h.reachable.coherent.supported_takeAlong ih hinput

/-- Where the order of an observation is supported, no input oversteps. -/
theorem Reachable.served (h : Reachable b) (hM : 3 ≤ maxOrder) : Served b := by
  induction h with
  | start h => exact .start h
  | @along b h walks input ih =>
    refine ih.along fun ⟨hstate, order, hfault⟩ => ?_
    cases input with
    | restart => cases hfault
    | line text =>
      have hexit := exit_stepAlong b walks text
      simp only [takeAlong] at hfault
      generalize b.stepAlong walks text = p at hexit hfault
      cases hexit with
      | layoutFault _ _ _ hdefinitions hlayout hcheck =>
        -- Only a layout of too high an order could be refused after it is in force.
        have hlt := (h.coherent.of_check_eq_error hdefinitions hlayout hcheck).1
        omega
      | recordFault | updateFault | record | lastRecord => cases hfault
      | _ => simp_all [Phase.state]

/-- The layout of a reachable body is supported if differences of order 3 are, or else if no event
has asked for them, and the kernel of every column can be made then. A line that is refused leaves
the layout, unless it ends an event that asks for differences of order 3, and these are not
supported. All of this is so in whatever orders the tables are met. -/
theorem Reachable.layout_supported (h : Reachable b) :
    (3 ≤ maxOrder ∨ Served b → b.layout.Supported maxOrder ∧
      ∀ s columns, b.layout.columnsOf s = some columns → ∀ column ∈ columns,
        ∃ kernel, Kernel.ofColumn maxOrder column = .ok kernel) ∧
      ∀ walks line fault, (b.stepAlong walks line).fault = some fault →
        (b.stepAlong walks line).body.layout = b.layout ∨
          (maxOrder < 3 ∧ b.phase.state = .records ∧ fault = .orderTooBig 3 maxOrder) := by
  refine ⟨fun hserved => ?_, fun walks line fault => h.coherent.layout_of_fault⟩
  have hsupported : b.layout.Supported maxOrder := by
    rcases hserved with hM | hserved
    · exact (h.served hM).supported
    · exact hserved.supported
  exact ⟨hsupported, fun s columns hcolumns column => hsupported.exists_kernel hcolumns⟩

/-- A layout of first differences. An event asks for a column of the usual form when differences of
order 2 are supported: it is refused, and its column is in force. -/
theorem layout_after_refusal :
    ∃ (b : Body 2) (line : Text), Reachable b ∧ b.phase.state = .records ∧
      line = "G    1 C1C                                                  SYS / # / OBS TYPES".toList ∧
      (b.step line).fault = some (.orderTooBig 3 2) ∧
      b.layout.columnsOf ⟨.gps, 1⟩ = some [⟨14, 3, 1⟩] ∧
      (b.step line).body.layout.columnsOf ⟨.gps, 1⟩ = some [⟨14, 3, 3⟩] ∧
      (∃ fault, Kernel.ofColumn 2 ⟨14, 3, 3⟩ = .error fault) ∧
      ¬(b.step line).body.layout.Supported 2 := by
  obtain ⟨b, hb⟩ : ∃ b : Body 2, ofLayout 2 { (Layout.ofRevision .v3).withColumns .gps [⟨14, 3, 1⟩]
    with clock := ⟨15, 12, 1⟩ } = .ok b := ⟨_, rfl⟩
  have h₀ : Reachable b := .start hb
  cases hb
  have h := h₀.take (.line "> 2021 01 01 00 00 00.0000000  4  1".toList)
  refine ⟨_, _, h, rfl, rfl, rfl, rfl, rfl, ⟨_, rfl⟩, fun hsupported => ?_⟩
  -- The columns of the event have order 3.
  have hcolumn := hsupported ⟨14, 3, 3⟩ (by decide +kernel)
  exact absurd hcolumn.2 (by decide)

/-- The same layout, when the definition that the event makes lacks a code. -/
theorem layout_supported_incomplete :
    ∃ (b : Body 2) (line : Text), Reachable b ∧ Served b ∧ b.phase.state = .records ∧
      line = "G    2 C1C                                                  SYS / # / OBS TYPES".toList ∧
      (b.step line).fault = some (.headerUpdate (.badObservables .gps)) ∧
      b.layout.Supported 2 ∧ (b.step line).body.layout = b.layout := by
  obtain ⟨b, hb⟩ : ∃ b : Body 2, ofLayout 2 { (Layout.ofRevision .v3).withColumns .gps [⟨14, 3, 1⟩]
    with clock := ⟨15, 12, 1⟩ } = .ok b := ⟨_, rfl⟩
  have h₀ : Served b := .start hb
  cases hb
  have h := @Served.along _ _ h₀ .inserted
    (.line "> 2021 01 01 00 00 00.0000000  4  1".toList) nofun
  -- The definition announces two codes and gives one.
  have hlayout := h.reachable.layout_supported
  refine ⟨_, _, h.reachable, h, rfl, rfl, ?fault, (hlayout.1 (Or.inr h)).1, ?_⟩
  case fault => rfl
  exact (hlayout.2 .inserted _ (.headerUpdate (.badObservables .gps)) rfl).resolve_right
    fun ⟨_, _, hfault⟩ => nomatch hfault

end Body

end CompactRinex
