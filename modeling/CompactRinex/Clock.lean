import CompactRinex.Difference.Kernel

/-!
# The receiver clock

The offset of the receiver clock follows every epoch line. It has a kernel of its own, which
outlives literal epoch lines. A blank line repeats the latest offset.
-/

namespace CompactRinex

/-- The offset of the receiver clock. -/
structure Clock (maxOrder : Nat) where
  /-- The kernel of the offset. -/
  kernel : Kernel maxOrder
  deriving DecidableEq, Repr

namespace Clock

variable {maxOrder : Nat}

/-- The clock of a column, of which no offset is known. -/
def ofColumn (maxOrder : Nat) (column : Column) : Except Fault (Clock maxOrder) :=
  (Kernel.ofColumn maxOrder column).map Clock.mk

/-- The latest offset, if there is one. -/
def value? (c : Clock maxOrder) : Option Int64 := c.kernel.value?

/-- The clock without its history. -/
def reset (c : Clock maxOrder) : Clock maxOrder := ⟨c.kernel.reset⟩

/-- The clock after a line, and its offset then. -/
def next (c : Clock maxOrder) (line : Text) : Except Fault (Clock maxOrder × Option Int64) := do
  let field ← Field.parse line
  match field with
  | .missing => .ok (c, c.value?)
  | field => (c.kernel.step field).map fun p => (⟨p.1⟩, p.2)

/-- Takes in a line. A refused line leaves the clock alone. -/
def decode (c : Clock maxOrder) (line : Text) : Outcome (Clock maxOrder) Fault (Option Int64) :=
  .commit c (c.next line)

/-- The text of the latest offset, if there is one. -/
def render (c : Clock maxOrder) : Except Fault (Option Text) :=
  match c.value? with
  | some value => (c.kernel.render value).map some
  | none => .ok none

end Clock

end CompactRinex
