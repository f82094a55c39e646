/-!
# Rows of differences

A row is a value followed by its first, second, … difference. The next row is made from the next
difference of the highest known order: it stands in for the difference above the row, and every
entry below takes the entry above it as its increment. The row grows by one entry at each step
until it has as many entries as the order says, so the first value is taken literally, the second
comes as a first difference, and so on.

The addition is a parameter: kernels use the saturating one, and the addition of integers gives the
exact values to compare it with.
-/

namespace CompactRinex

namespace Row

variable {α : Type}

/-- The value and the differences after `row`, when `delta` is the difference above it. -/
def refresh (add : α → α → α) (delta : α) : List α → α × List α
  | [] => (delta, [])
  | x :: xs =>
    let above := refresh add delta xs
    (add x above.1, above.1 :: above.2)

/-- The row after `row`, cut to `order` entries. -/
def next (add : α → α → α) (order : Nat) (row : List α) (delta : α) : List α :=
  let refreshed := refresh add delta row
  refreshed.1 :: refreshed.2.take (order - 1)

/-- There are as many differences as there were entries. -/
theorem length_refresh (add : α → α → α) (delta : α) (row : List α) :
    (refresh add delta row).2.length = row.length := by
  induction row with
  | nil => rfl
  | cons x xs ih => simp [refresh, ih]

/-- The row grows by one entry up to the order. -/
theorem length_next (add : α → α → α) (order : Nat) (row : List α) (delta : α) :
    (next add order row delta).length = min (row.length + 1) (order - 1 + 1) := by
  simp only [next, List.length_cons, List.length_take, length_refresh]
  omega

/-- From nothing, the first difference is the value itself. -/
@[simp] theorem next_nil (add : α → α → α) (order : Nat) (delta : α) :
    next add order [] delta = [delta] := by
  simp [next, refresh]

end Row

end CompactRinex
