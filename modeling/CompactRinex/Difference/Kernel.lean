import CompactRinex.Column
import CompactRinex.Difference.Field
import CompactRinex.Difference.Row
import CompactRinex.Difference.Saturating
import CompactRinex.Outcome

/-!
# Difference kernels

A kernel recovers the values of one column from its fields. It holds the order of the differences
and the row of the latest value, which is empty as long as no value is known. The order is at least
one and at most `maxOrder`, and the row is not longer than the order; these facts are part of the
type.
-/

namespace CompactRinex

/-- An order that a kernel with maximal order `maxOrder` accepts. -/
def admitOrder (maxOrder order : Nat) : Except Fault { n : Nat // 0 < n ∧ n ≤ maxOrder } :=
  if hpos : 0 < order then
    if hle : order ≤ maxOrder then .ok ⟨order, hpos, hle⟩
    else .error (.orderTooBig order maxOrder)
  else .error (.invalidOrder order)

/-- A positive order up to the greatest one is admitted. -/
theorem admitOrder_of_le {maxOrder order : Nat} (hpos : 0 < order) (hle : order ≤ maxOrder) :
    admitOrder maxOrder order = .ok ⟨order, hpos, hle⟩ := by
  simp [admitOrder, hpos, hle]

/-- The only faults of an order are that it is zero and that it is too big. -/
theorem admitOrder_of_not {maxOrder order : Nat} (h : ¬ (0 < order ∧ order ≤ maxOrder)) :
    admitOrder maxOrder order =
      .error (if order = 0 then .invalidOrder order else .orderTooBig order maxOrder) := by
  by_cases hpos : 0 < order
  · have hle : ¬ order ≤ maxOrder := fun hle => h ⟨hpos, hle⟩
    simp [admitOrder, hpos, hle, Nat.ne_of_gt hpos]
  · simp [admitOrder, Nat.eq_zero_of_not_pos hpos]

/-- The state of a column: what it takes to recover its next value. -/
structure Kernel (maxOrder : Nat) where
  /-- The column, which says how values are written. -/
  column : Column
  /-- The order of the differences. -/
  order : Nat
  /-- The latest value and its differences. -/
  row : List Int64
  /-- The order is at least one. -/
  order_pos : 0 < order
  /-- The order is supported. -/
  order_le : order ≤ maxOrder
  /-- The differences stop below the order. -/
  length_row_le : row.length ≤ order
  deriving DecidableEq, Repr

namespace Kernel

variable {maxOrder : Nat}

/-- The kernel of a column of which no value is known. -/
def ofColumn (maxOrder : Nat) (column : Column) : Except Fault (Kernel maxOrder) :=
  (admitOrder maxOrder column.order).map fun n =>
    ⟨column, n.1, [], n.2.1, n.2.2, Nat.zero_le _⟩

/-- The latest value, if there is one. -/
def value? (k : Kernel maxOrder) : Option Int64 := k.row.head?

/-- The kernel without its history. The order stays. -/
def reset (k : Kernel maxOrder) : Kernel maxOrder :=
  { k with row := [], length_row_le := Nat.zero_le _ }

/-- Starts a new history with a literal value. -/
def restart (k : Kernel maxOrder) (value : Int64) (order : Nat) : Except Fault (Kernel maxOrder) :=
  (admitOrder maxOrder order).map fun n =>
    ⟨k.column, n.1, [value], n.2.1, n.2.2, n.2.1⟩

/-- The kernel after a difference, which is the value itself when there is no history. -/
def advance (k : Kernel maxOrder) (delta : Int64) : Kernel maxOrder :=
  { k with
    row := Row.next Saturating.add k.order k.row delta
    length_row_le := by
      have hpos := k.order_pos
      rw [Row.length_next]
      omega }

/-- The value recovered from a difference. -/
def recovered (k : Kernel maxOrder) (delta : Int64) : Int64 :=
  (Row.refresh Saturating.add delta k.row).1

/-- The text of a value in the column of the kernel. -/
def render (k : Kernel maxOrder) (value : Int64) : Except Fault Text := k.column.render value

/-- The kernel after a field, and the value of the field if it has one. -/
def step (k : Kernel maxOrder) : Field → Except Fault (Kernel maxOrder × Option Int64)
  | .missing => .ok (k, none)
  | .literal order value => (k.restart value order).map fun k' => (k', some value)
  | .delta difference => .ok (k.advance difference, some (k.recovered difference))

/-- Takes in a field. A refused field leaves the kernel alone. -/
def apply (k : Kernel maxOrder) (field : Field) :
    Outcome (Kernel maxOrder) Fault (Option Int64) :=
  .commit k (k.step field)

/-- Takes in a difference and writes the value recovered from it. The kernel moves on even when the
value does not fit its column. -/
def accept (k : Kernel maxOrder) (delta : Int64) : Outcome (Kernel maxOrder) Fault Text :=
  ⟨k.advance delta, k.render (k.recovered delta)⟩

/-- After a reset there is no value. -/
@[simp] theorem value?_reset (k : Kernel maxOrder) : k.reset.value? = none := rfl

/-- The recovered value is the latest one. -/
@[simp] theorem value?_advance (k : Kernel maxOrder) (delta : Int64) :
    (k.advance delta).value? = some (k.recovered delta) := rfl

/-- A difference does not change the column. -/
@[simp] theorem column_advance (k : Kernel maxOrder) (delta : Int64) :
    (k.advance delta).column = k.column := rfl

/-- A difference does not change the order. -/
@[simp] theorem order_advance (k : Kernel maxOrder) (delta : Int64) :
    (k.advance delta).order = k.order := rfl

/-- A literal value is the latest one. -/
theorem value?_of_restart {k k' : Kernel maxOrder} {value : Int64} {order : Nat}
    (h : k.restart value order = .ok k') : k'.value? = some value := by
  unfold restart at h
  cases hn : admitOrder maxOrder order with
  | error e => rw [hn] at h; cases h
  | ok n => rw [hn] at h; cases h; rfl

end Kernel

end CompactRinex
