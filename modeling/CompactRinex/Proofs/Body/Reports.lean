import CompactRinex.Proofs.Body.Run

/-!
# What a caller is shown

A `Report` is all that a caller is shown of an input: the number of bytes that were added or the
fault, the text that was added, and what the body tells about itself afterwards. The order of the
table of a layout is not shown, so a report holds the `view` of the layout.

There is one thing in a report that is not settled by the inputs. When several definitions of an
event are inconsistent, the fault names the first one that is met, and in which order the
definitions are met is up to the table that holds them. `Report.unnamed` leaves the name out.
-/

namespace CompactRinex

/-! ## Kinds of lines -/

/-- What a caller is told that the next line is. -/
inductive State where
  /-- An epoch line. -/
  | epoch
  /-- A clock line. -/
  | clock
  /-- A data line. -/
  | observation
  /-- A special record. -/
  | records
  deriving DecidableEq, Repr

/-- The kind of the next line. -/
def Phase.state : Phase → State
  | epoch => .epoch
  | clock _ => .clock
  | observation _ _ => .observation
  | records _ _ => .records

/-! ## Layouts -/

/-- What a layout says, apart from the order of its table. -/
@[ext] structure LayoutView where
  /-- The structure of the lines. -/
  revision : Revision
  /-- The constellation of a satellite with a blank system letter. -/
  defaultConstellation : Constellation
  /-- The column of the receiver clock. -/
  clock : Column
  /-- The columns of each constellation. -/
  columns : Constellation → Option (List Column)

namespace Layout

/-- What the layout says. -/
def view (l : Layout) : LayoutView :=
  ⟨l.revision, l.defaultConstellation, l.clock, l.columns.get?⟩

variable {l₁ l₂ : Layout}

/-- The columns of a constellation are part of the view. -/
theorem get?_congr (h : l₁.view = l₂.view) : l₁.columns.get? = l₂.columns.get? :=
  congrArg LayoutView.columns h

/-- The columns of a satellite do not depend on the order of the table. -/
theorem columnsOf_congr (h : l₁.view = l₂.view) : l₁.columnsOf = l₂.columnsOf := by
  funext s
  simp only [columnsOf, get?_congr h]

/-- The satellite of an identifier does not depend on the columns. -/
theorem parseSatellite_congr (h : l₁.view = l₂.view) : l₁.parseSatellite = l₂.parseSatellite := by
  have hdefault : l₁.defaultConstellation = l₂.defaultConstellation :=
    congrArg LayoutView.defaultConstellation h
  funext id
  simp only [parseSatellite, hdefault]

/-- Layouts with the same view have the same columns. -/
theorem mem_allColumns_congr (h : l₁.view = l₂.view) (column : Column) :
    column ∈ l₁.allColumns ↔ column ∈ l₂.allColumns := by
  have hclock : l₁.clock = l₂.clock := congrArg LayoutView.clock h
  simp only [mem_allColumns, hclock, get?_congr h]

/-- The check of a layout with known orders depends neither on the order of its table nor on the
walk. -/
theorem checkAlong_congr {maxOrder : ℕ} (h : l₁.view = l₂.view)
    (h₁ : ∀ column ∈ l₁.allColumns, KnownOrder maxOrder column)
    (h₂ : ∀ column ∈ l₂.allColumns, KnownOrder maxOrder column)
    (walk₁ walk₂ : Walk (Constellation × List Column)) :
    l₁.checkAlong maxOrder walk₁ = l₂.checkAlong maxOrder walk₂ := by
  -- Both walks meet the same columns, so both checks accept or neither does.
  have hiff : l₁.checkAlong maxOrder walk₁ = .ok () ↔ l₂.checkAlong maxOrder walk₂ = .ok () := by
    simp only [checkAlong, checkOrders_eq_ok_iff, mem_columnsAlong, mem_allColumns_congr h]
  rcases checkOrders_of_known fun c hc => h₁ c (mem_columnsAlong.1 hc) with hok | herror
  · exact hok.trans (hiff.1 hok).symm
  · rcases checkOrders_of_known fun c hc => h₂ c (mem_columnsAlong.1 hc) with hok | herror'
    · exact (hiff.2 hok).trans hok.symm
    · exact herror.trans herror'.symm

end Layout

/-! ## Reports -/

/-- The fault without the constellation of a definition that cannot be used. -/
def Fault.unnamed : Fault → Fault
  | .headerUpdate (.badObservables _) => .headerUpdate (.badObservables .mixed)
  | fault => fault

/-- What a caller is shown after an input: the number of bytes that were added or the fault, the
text that was added, and what the body tells about itself. -/
@[ext] structure Report where
  /-- The number of bytes that were added, or the fault. -/
  result : Except Fault ℕ
  /-- The text that was added. -/
  output : Text
  /-- The kind of the next line. -/
  state : State
  /-- The layout in force. -/
  layout : LayoutView
  /-- Whether the content may end here. -/
  finish : Except Fault Unit

/-- The report without the constellation of a definition that cannot be used. -/
def Report.unnamed (r : Report) : Report := { r with result := r.result.mapError Fault.unnamed }

/-- What a caller is shown of a step. -/
def Progress.report {maxOrder : ℕ} (p : Progress maxOrder) : Report where
  result := p.fault.elim (.ok (Text.byteLength p.output)) .error
  output := p.output
  state := p.body.phase.state
  layout := p.body.layout.view
  finish := p.body.finish

/-- The reports of a body on the inputs that it is given, with the orders in which the tables are
met each time. -/
def Body.reports {maxOrder : ℕ} (b : Body maxOrder) : List (Walks × Input) → List Report
  | [] => []
  | (walks, input) :: inputs =>
    (b.takeAlong walks input).report :: (b.takeAlong walks input).body.reports inputs

end CompactRinex
