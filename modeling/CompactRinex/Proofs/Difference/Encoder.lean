import CompactRinex.Proofs.Difference.Exact
import CompactRinex.Proofs.Difference.Reading

/-!
# Encoding values as differences

A `NumberEncoder` writes the values of a column as fields: the first one literally, each later one
as its difference of the highest order that the values before it allow. It keeps the same row as a
kernel does, and a kernel with that row recovers the value (`Mirrors.step`): the difference is what
`Row.refresh` expects above the row (`Row.refresh_differences`).

Differences are computed in 64 bits and there is no field when one leaves that range. For values of
at most 16 characters and orders up to 8 none does (`encode_of_fits`).
-/

namespace CompactRinex

/-- The difference of two values, if it is a 64-bit integer. -/
def checkedSub (a b : Int64) : Option Int64 :=
  if Int64.minValue.toInt ≤ a.toInt - b.toInt ∧ a.toInt - b.toInt ≤ Int64.maxValue.toInt then
    some (Int64.ofInt (a.toInt - b.toInt))
  else none

/-- A difference that is given is exact. -/
theorem toInt_of_checkedSub {a b d : Int64} (h : checkedSub a b = some d) :
    d.toInt = a.toInt - b.toInt := by
  unfold checkedSub at h
  split at h
  · next hrange =>
    cases h
    exact Int64.toInt_ofInt_of_le hrange.1 (lt_of_le_of_lt hrange.2 (by decide))
  · cases h

/-- The difference is what has to be added. -/
theorem saturating_add_of_checkedSub {a b d : Int64} (h : checkedSub a b = some d) :
    Saturating.add b d = a := by
  have hd := toInt_of_checkedSub h
  have hmin := a.minValue_le_toInt
  have hmax := a.toInt_le
  apply Int64.toInt_inj.1
  rw [Saturating.toInt_add, hd]
  omega

namespace Row

/-- The differences between a value and a row: to the value of the row first, and then between each
difference and the one of the same order before it. -/
def differences (value : Int64) : List Int64 → Option (List Int64)
  | [] => some []
  | x :: xs => do
    let d ← checkedSub value x
    let ds ← differences d xs
    some (d :: ds)

/-- The last difference leads the row back to the value and to all differences. -/
theorem refresh_differences {value : Int64} {row ds : List Int64}
    (h : differences value row = some ds) :
    refresh Saturating.add (ds.getLastD value) row = (value, ds) := by
  induction row generalizing value ds with
  | nil => cases h; rfl
  | cons x xs ih =>
    simp only [differences, Option.bind_eq_bind, Option.bind_eq_some_iff, Option.some.injEq] at h
    obtain ⟨d, hd, ds', hds, rfl⟩ := h
    rw [List.getLastD_cons, refresh, ih hds, saturating_add_of_checkedSub hd]

/-- Entries that are small enough have differences of 64 bits, which are small as well. -/
theorem differences_of_within {bound : ℤ} {value : Int64} {row : List Int64}
    (hb : 2^row.length * bound ≤ 2^63 - 1) (hv : |value.toInt| ≤ bound)
    (h : Within bound (row.map Int64.toInt)) :
    ∃ ds, differences value row = some ds ∧ ds.length = row.length ∧
      Within bound ((value :: ds).map Int64.toInt) := by
  induction row generalizing bound value with
  | nil => exact ⟨[], rfl, rfl, hv, trivial⟩
  | cons x xs ih =>
    obtain ⟨hx, hxs⟩ := h
    have hx' : |x.toInt| ≤ bound := hx
    have hbound : 2^xs.length * (2 * bound) ≤ 2^63 - 1 := by
      rw [List.length_cons, pow_succ, mul_assoc] at hb
      exact hb
    -- The rest of the row is bounded by `2 * bound`, and so is the difference of the two entries.
    have hpos : 2 * bound ≤ 2^xs.length * (2 * bound) :=
      le_mul_of_one_le_left (by linarith [abs_nonneg value.toInt]) (one_le_pow₀ (by decide))
    have hdiff : |value.toInt - x.toInt| ≤ 2 * bound :=
      le_trans (abs_sub _ _) (by linarith)
    have hrange : Int64.minValue.toInt ≤ value.toInt - x.toInt ∧
        value.toInt - x.toInt ≤ Int64.maxValue.toInt := by
      have habs := abs_le.1 (le_trans hdiff (le_trans hpos hbound))
      simp only [Int64.toInt_minValue, Int64.toInt_maxValue]
      omega
    have hd : checkedSub value x = some (Int64.ofInt (value.toInt - x.toInt)) := if_pos hrange
    have hd' := toInt_of_checkedSub hd
    obtain ⟨ds, hds, hlen, hwithin⟩ := ih hbound (by rwa [hd']) hxs
    refine ⟨_ :: ds, ?_, by simp [hlen], hv, hwithin⟩
    simp only [differences, hd, hds, Option.bind_eq_bind, Option.bind_some]

end Row

/-- The state of the encoder of a column. -/
structure NumberEncoder where
  /-- The order of the differences. -/
  order : ℕ
  /-- The latest value and its differences. -/
  row : List Int64

namespace NumberEncoder

variable {maxOrder : ℕ}

/-- The encoder of a column of which nothing has been written. -/
def ofOrder (order : ℕ) : NumberEncoder := ⟨order, []⟩

/-- Writes a value as a field. -/
def encode (e : NumberEncoder) (value : Int64) : Option (NumberEncoder × Field) :=
  match e.row with
  | [] => some (⟨e.order, [value]⟩, .literal e.order value)
  | row => do
    let ds ← Row.differences value row
    some (⟨e.order, (value :: ds).take e.order⟩, .delta (ds.getLastD value))

/-- Writing a value starts the row with it and gives a field that is not blank. -/
theorem of_encode {e e' : NumberEncoder} {value : Int64} {field : Field}
    (h : e.encode value = some (e', field)) (hpos : 0 < e.order) :
    e'.order = e.order ∧ e'.row.head? = some value ∧ field ≠ .missing ∧
      (e.order < UInt64.size → field.Bounded) := by
  obtain ⟨order, row⟩ := e
  obtain ⟨n, rfl⟩ := Nat.exists_eq_add_of_lt hpos
  cases row with
  | nil =>
    cases h
    exact ⟨rfl, rfl, nofun, id⟩
  | cons x xs =>
    -- A later value is written as a difference, which has no order to be bounded.
    simp only [encode, Option.bind_eq_bind, Option.bind_eq_some_iff, Option.some.injEq,
      Prod.mk.injEq] at h
    obtain ⟨ds, -, rfl, rfl⟩ := h
    exact ⟨rfl, rfl, nofun, fun _ => trivial⟩

/-- The order is at most 8, and the row is the one of values of at most 16 characters. -/
structure Small (e : NumberEncoder) : Prop where
  /-- The order is at least one. -/
  order_pos : 0 < e.order
  /-- The order is at most 8. -/
  order_le : e.order ≤ 8
  /-- The row is not longer than the order. -/
  length_le : e.row.length ≤ e.order
  /-- The differences are as small as such values make them. -/
  within : Row.Within (10^16) (e.row.map Int64.toInt)

/-- A new encoder is small. -/
theorem small_ofOrder {order : ℕ} (h : 0 < order ∧ order ≤ 8) : Small (ofOrder order) :=
  ⟨h.1, h.2, Nat.zero_le _, trivial⟩

/-- A value that fits a column of at most 16 characters can be written. -/
theorem encode_of_fits {e : NumberEncoder} (h : e.Small) {column : Column}
    (hw : column.width ≤ 16) {value : Int64} (hfit : column.Fits value.toInt) :
    ∃ e' field, e.encode value = some (e', field) ∧ e'.Small := by
  obtain ⟨order, row⟩ := e
  have hvalue : |value.toInt| ≤ 10^16 :=
    le_of_lt (lt_of_lt_of_le hfit.abs_lt (pow_le_pow_right₀ (by decide) hw))
  cases row with
  | nil => exact ⟨_, _, rfl, h.order_pos, h.order_le, h.order_pos, hvalue, trivial⟩
  | cons x xs =>
    have hlen : (x :: xs).length ≤ 8 := le_trans h.length_le h.order_le
    have hpow : (2 : ℤ)^(x :: xs).length ≤ 2^8 := pow_le_pow_right₀ (by decide) hlen
    obtain ⟨ds, hds, hds', hwithin⟩ :=
      Row.differences_of_within (by linarith) hvalue h.within
    -- The row is cut to the order, and what is left of it is as small as before.
    refine ⟨⟨order, (value :: ds).take order⟩, _, by simp only [encode, hds]; rfl, h.order_pos,
      h.order_le, List.length_take_le _ _, ?_⟩
    rw [List.map_take]
    exact hwithin.take order

end NumberEncoder

namespace Kernel

variable {maxOrder : ℕ}

/-- The kernel of a column has the row of the encoder, and its order once there is a row. -/
structure Mirrors (column : Column) (e : NumberEncoder) (k : Kernel maxOrder) : Prop where
  /-- The kernel writes into the column. -/
  column_eq : k.column = column
  /-- The rows are the same. -/
  row_eq : k.row = e.row
  /-- The orders are the same as soon as a value has been written. -/
  order_eq : e.row ≠ [] → k.order = e.order

/-- The kernel recovers the value from its field, and the rows are the same again. -/
theorem Mirrors.step {column : Column} {e e' : NumberEncoder} {k : Kernel maxOrder}
    (h : Mirrors column e k) (hpos : 0 < e.order) (hle : e.order ≤ maxOrder) {value : Int64}
    {field : Field} (hencode : e.encode value = some (e', field)) :
    ∃ k', k.step field = .ok (k', some value) ∧ Mirrors column e' k' := by
  obtain ⟨order, row⟩ := e
  cases row with
  | nil =>
    -- The first value is literal, and the kernel starts with it.
    cases hencode
    refine ⟨⟨k.column, order, [value], hpos, hle, hpos⟩, ?_, h.column_eq, rfl, fun _ => rfl⟩
    simp only [Kernel.step, restart, admitOrder_of_le hpos hle, Except.map]
  | cons x xs =>
    simp only [NumberEncoder.encode, Option.bind_eq_bind, Option.bind_eq_some_iff,
      Option.some.injEq, Prod.mk.injEq] at hencode
    obtain ⟨ds, hds, rfl, rfl⟩ := hencode
    -- The field is the last difference, from which the kernel gets all others.
    have hrefresh := Row.refresh_differences hds
    have horder : k.order = order := h.order_eq (List.cons_ne_nil _ _)
    refine ⟨k.advance (ds.getLastD value), ?_, h.column_eq, ?_, fun _ => horder⟩
    · simp only [Kernel.step, recovered, h.row_eq, hrefresh]
    · show Row.next Saturating.add k.order k.row (ds.getLastD value) = (value :: ds).take order
      obtain ⟨n, rfl⟩ := Nat.exists_eq_add_of_lt hpos
      rw [Row.next, h.row_eq, hrefresh, horder]
      simp

/-- The kernel of a column mirrors an encoder that has not written anything. -/
theorem mirrors_ofColumn {column : Column} {k : Kernel maxOrder}
    (h : ofColumn maxOrder column = .ok k) (order : ℕ) : Mirrors column (.ofOrder order) k := by
  have hadmitted := agrees_ofColumn h
  refine ⟨hadmitted.column_eq, ?_, fun hne => absurd rfl hne⟩
  exact List.map_eq_nil_iff.1 hadmitted.row_eq

end Kernel

end CompactRinex
