import CompactRinex.Difference.Kernel
import CompactRinex.Proofs.Column.Reading
import CompactRinex.Proofs.Outcome
import Mathlib.Data.List.Induction

/-!
# Kernels in slots

A kernel may keep its differences in an array of `maxOrder` slots, and update them in place: the
highest difference is put where it belongs, and every slot below is increased by the one above it.
All of these accesses are by position. Here they are partial, and give nothing outside the array; so
is the division by the scale of a column. `Slots.toKernel` reads the row of a kernel off its slots,
whatever the unused ones hold, and `Slots.perform?_eq` says that every operation is defined on the
slots and does what it does to the kernel.
-/

namespace CompactRinex

/-- The array with another element at a position, if there is this position. -/
def write? {α : Type} {n : ℕ} (v : Vector α n) (i : ℕ) (a : α) : Option (Vector α n) :=
  if h : i < n then some (v.set i a h) else none

/-- The difference of two numbers, if it is not negative. -/
def sub? (a b : ℕ) : Option ℕ := if b ≤ a then some (a - b) else none

/-- The kernel of a column in memory. -/
structure Slots (maxOrder : ℕ) where
  /-- The column. -/
  column : Column
  /-- The order of the differences. -/
  order : ℕ
  /-- The number of values recovered, which stops at the order. -/
  len : ℕ
  /-- The latest value. -/
  value : Int64
  /-- The differences of the latest value, the first one in front. -/
  diffs : Vector Int64 maxOrder
  /-- The order is at least one. -/
  order_pos : 0 < order
  /-- The order is supported. -/
  order_le : order ≤ maxOrder
  /-- The number of values stops at the order. -/
  len_le : len ≤ order

namespace Slots

variable {maxOrder : ℕ}

/-- The row of the latest value and its differences, as far as they are known. -/
def row (s : Slots maxOrder) : List Int64 :=
  if s.len = 0 then [] else s.value :: s.diffs.toList.take (s.len - 1)

/-- The row is no longer than the slots in use. -/
theorem length_row_le (s : Slots maxOrder) : s.row.length ≤ s.len := by
  unfold row
  split
  · exact Nat.zero_le _
  · rw [List.length_cons, List.length_take]
    omega

/-- The kernel in memory. What is beyond its row does not count. -/
def toKernel (s : Slots maxOrder) : Kernel maxOrder :=
  ⟨s.column, s.order, s.row, s.order_pos, s.order_le, Nat.le_trans s.length_row_le s.len_le⟩

/-- The slots of a column of which no value is known. -/
def ofColumn (maxOrder : ℕ) (column : Column) : Except Fault (Slots maxOrder) :=
  (admitOrder maxOrder column.order).map fun ⟨n, hpos, hle⟩ =>
    ⟨column, n, 0, 0, Vector.replicate maxOrder 0, hpos, hle, Nat.zero_le n⟩

/-- The latest value, if there is one. -/
def value? (s : Slots maxOrder) : Option Int64 := if 0 < s.len then some s.value else none

/-- The slots without history. -/
def reset (s : Slots maxOrder) : Slots maxOrder :=
  { s with len := 0, value := 0, diffs := Vector.replicate maxOrder 0, len_le := Nat.zero_le _ }

/-- Starts a new history with a literal value. -/
def restart (s : Slots maxOrder) (value : Int64) (order : ℕ) : Except Fault (Slots maxOrder) :=
  (admitOrder maxOrder order).map fun ⟨n, hpos, hle⟩ =>
    ⟨s.column, n, 1, value, s.reset.diffs, hpos, hle, hpos⟩

/-- Increases every slot below a position by the one above it, from the top down. -/
def accumulate? (v : Vector Int64 maxOrder) : ℕ → Option (Vector Int64 maxOrder)
  | 0 => some v
  | j + 1 => do
    let low ← v[j]?
    let high ← v[j + 1]?
    let v ← write? v j (Saturating.add low high)
    accumulate? v j

/-- Takes in a difference, and answers with the value recovered from it. -/
def advance? (s : Slots maxOrder) (delta : Int64) : Option (Slots maxOrder × Int64) :=
  if s.len = 0 then some ({ s with value := delta, len := 1, len_le := s.order_pos }, delta)
  else do
    let top ← sub? (min s.len s.order) 1
    let diffs ← write? s.diffs top delta
    let diffs ← accumulate? diffs top
    let first ← diffs[0]?
    let value := Saturating.add s.value first
    let len := min (s.len + 1) s.order
    some ({ s with diffs, value, len, len_le := Nat.min_le_right _ _ }, value)

/-- The slots after a field, and the value of the field if it has one. -/
def step? (s : Slots maxOrder) : Field → Option (Except Fault (Slots maxOrder × Option Int64))
  | .missing => some (.ok (s, none))
  | .literal order value => some ((s.restart value order).map fun s' => (s', some value))
  | .delta difference => (s.advance? difference).map fun p => .ok (p.1, some p.2)

/-! ## Slots and rows -/

/-- In front of the highest entry of a row the next row has the one of a higher difference. -/
theorem refresh_concat (add : Int64 → Int64 → Int64) (x d : Int64) (ds : List Int64) :
    Row.refresh add x (ds ++ [d]) =
      ((Row.refresh add (add d x) ds).1, (Row.refresh add (add d x) ds).2 ++ [x]) := by
  induction ds with
  | nil => rfl
  | cons d' ds ih => simp only [List.cons_append, Row.refresh, ih]

/-- A slot that exists can be written. -/
theorem write?_of_lt {v : Vector Int64 maxOrder} {i : ℕ} (h : i < maxOrder) (a : Int64) :
    ∃ w, write? v i a = some w ∧ w.toList = v.toList.set i a :=
  ⟨v.set i a h, dif_pos h, Vector.toList_set h⟩

/-- The slots below a position are refreshed by the one at the position, and the others stay. -/
theorem accumulate?_eq {v : Vector Int64 maxOrder} {ds rest : List Int64} {x : Int64}
    (h : v.toList = ds ++ x :: rest) : ∃ w, accumulate? v ds.length = some w ∧
      w.toList = (Row.refresh Saturating.add x ds).1 ::
        ((Row.refresh Saturating.add x ds).2 ++ rest) := by
  induction ds using List.reverseRecOn generalizing v x rest with
  | nil => exact ⟨v, rfl, h⟩
  | append_singleton ds d ih =>
    -- The slot above is the one that has been written last.
    have hlength : ds.length < maxOrder := by
      have hv := v.length_toList
      rw [h, List.length_append, List.length_append, List.length_singleton] at hv
      omega
    have hlow : v[ds.length]? = some d := by
      rw [← Vector.getElem?_toList, h, List.append_assoc]
      simp
    have hhigh : v[ds.length + 1]? = some x := by
      rw [← Vector.getElem?_toList, h, List.append_assoc]
      simp
    obtain ⟨w, hw, hlist⟩ := write?_of_lt (v := v) hlength (Saturating.add d x)
    have hnext : w.toList = ds ++ Saturating.add d x :: (x :: rest) := by
      rw [hlist, h]
      simp
    obtain ⟨w', hw', hlist'⟩ := ih hnext
    refine ⟨w', ?_, ?_⟩
    · rw [List.length_append, List.length_singleton]
      simp only [accumulate?, hlow, hhigh, hw, Option.bind_eq_bind, Option.bind_some]
      exact hw'
    · rw [refresh_concat, hlist']
      simp

/-- The kernel has the row of the slots in use. -/
@[simp] theorem row_toKernel (s : Slots maxOrder) : s.toKernel.row = s.row := rfl

/-- The latest value is the head of the row. -/
@[simp] theorem value?_toKernel (s : Slots maxOrder) : s.toKernel.value? = s.value? := by
  show s.row.head? = s.value?
  unfold value? row
  by_cases h : s.len = 0
  · rw [if_pos h, if_neg (by omega)]
    rfl
  · rw [if_neg h, if_pos (by omega)]
    rfl

/-- The kernel of a column can be made whenever its slots can. -/
theorem map_toKernel_ofColumn (maxOrder : ℕ) (column : Column) :
    (ofColumn maxOrder column).map toKernel = Kernel.ofColumn maxOrder column := by
  unfold ofColumn Kernel.ofColumn
  rcases admitOrder maxOrder column.order with e | ⟨n, hpos, hle⟩
  · rfl
  · rfl

/-- Restarting the slots restarts the kernel. -/
theorem map_toKernel_restart (s : Slots maxOrder) (value : Int64) (order : ℕ) :
    (s.restart value order).map toKernel = s.toKernel.restart value order := by
  unfold restart Kernel.restart
  rcases admitOrder maxOrder order with e | ⟨n, hpos, hle⟩
  · rfl
  · rfl

/-- In the slots a difference is taken in as in the kernel, and all accesses are within the array.
-/
theorem advance?_eq (s : Slots maxOrder) (delta : Int64) :
    ∃ s', s.advance? delta = some (s', s.toKernel.recovered delta) ∧
      s'.toKernel = s.toKernel.advance delta := by
  have hpos := s.order_pos
  have hle := s.order_le
  have hlen := s.len_le
  cases hn : s.len with
  | zero =>
    -- The difference is the value itself.
    have hempty : s.row = [] := by rw [row, if_pos hn]
    refine ⟨{ s with value := delta, len := 1, len_le := hpos }, ?_, ?_⟩
    · rw [advance?, if_pos hn, Kernel.recovered, row_toKernel, hempty]
      rfl
    · simp only [toKernel, Kernel.advance, hempty, Row.next_nil]
      rfl
  | succ n =>
    have hknown : s.row = s.value :: s.diffs.toList.take n := by
      rw [row, if_neg (by omega), hn]
      rfl
    have htop : sub? (min s.len s.order) 1 = some n := by
      rw [hn, Nat.min_eq_left (by omega), sub?, if_pos (by omega), Nat.add_sub_cancel]
    -- Fewer differences than the order are known, and no order exceeds the array.
    have hslot : n < maxOrder := by omega
    generalize hds : s.diffs.toList.take n = ds at hknown
    have hdslen : ds.length = n := by
      rw [← hds, List.length_take, Vector.length_toList]
      omega
    obtain ⟨v, hv, hvlist⟩ := write?_of_lt (v := s.diffs) hslot delta
    have hvsplit : v.toList = ds ++ delta :: s.diffs.toList.drop (n + 1) := by
      rw [hvlist, List.set_eq_take_append_cons_drop, if_pos (by simpa using hslot), hds]
    obtain ⟨w, hw, hwlist⟩ := accumulate?_eq hvsplit
    rw [hdslen] at hw
    have hfirst : w[0]? = some (Row.refresh Saturating.add delta ds).1 := by
      rw [← Vector.getElem?_toList, hwlist]
      rfl
    refine ⟨{ s with
      diffs := w
      value := Saturating.add s.value (Row.refresh Saturating.add delta ds).1
      len := min (s.len + 1) s.order
      len_le := Nat.min_le_right _ _ }, ?_, ?_⟩
    · rw [advance?, if_neg (by omega)]
      simp only [htop, hv, hw, hfirst, Option.bind_eq_bind, Option.bind_some, Kernel.recovered,
        row_toKernel, hknown, Row.refresh]
    · -- The row stops at the order, although the slots go on.
      have hrefreshed := Row.length_refresh Saturating.add delta ds
      simp only [toKernel, Kernel.advance, hknown, Row.next, Row.refresh, Kernel.mk.injEq, true_and]
      rw [row, if_neg (by simp only; omega)]
      simp only [hwlist, hn]
      generalize Row.refresh Saturating.add delta ds = p at hrefreshed
      have hlength : (p.1 :: p.2).length = n + 1 := by
        rw [List.length_cons, hrefreshed, hdslen]
      congr 1
      rw [← List.cons_append, List.take_append_of_le_length (by omega), List.take_eq_take_iff,
        hlength]
      omega

/-- The kernel in the slots that an operation leaves. -/
def read {α : Type} (next : Except Fault (Slots maxOrder × α)) :
    Except Fault (Kernel maxOrder × α) :=
  next.map fun p => (p.1.toKernel, p.2)

/-- In the slots a field is taken in as in the kernel. -/
theorem step?_eq (s : Slots maxOrder) (field : Field) :
    ∃ next, s.step? field = some next ∧ read next = s.toKernel.step field := by
  cases field with
  | missing => exact ⟨_, rfl, rfl⟩
  | literal order value =>
    refine ⟨_, rfl, ?_⟩
    rw [Kernel.step, ← map_toKernel_restart]
    cases s.restart value order <;> rfl
  | delta difference =>
    obtain ⟨s', hs', hk'⟩ := s.advance?_eq difference
    -- A difference is accepted by slots without a value too.
    refine ⟨.ok (s', some (s.toKernel.recovered difference)), ?_, ?_⟩
    · rw [step?, hs', Option.map_some]
    · rw [read, Except.map, hk', Kernel.step]

end Slots

/-! ## Values as text -/

namespace Column

/-- The scale as a number of 64 bits, if it is one. -/
def checkedScale? (decimals : ℕ) : Option UInt64 :=
  if scale decimals < UInt64.size then some (UInt64.ofNat (scale decimals)) else none

/-- Quotient and remainder, if there are any. -/
def divide? (a b : UInt64) : Option (UInt64 × UInt64) := if b = 0 then none else some (a / b, a % b)

/-- The text of a value, with a division by the scale of the column. -/
def render? (column : Column) (value : Int64) : Option (Except Fault Text) :=
  match checkedScale? column.decimals with
  | none => some (.error (.formatOverflow value column.width))
  | some s => do
    let (whole, fraction) ← divide? (UInt64.ofNat value.toInt.natAbs) s
    let fraction := Numeral.digits fraction.toNat
    let text := (if value.toInt < 0 then ['-'] else []) ++ Numeral.digits whole.toNat ++
      (if column.decimals = 0 then [] else
        '.' :: (List.replicate (column.decimals - fraction.length) '0' ++ fraction))
    some (if text.length ≤ column.width then .ok (Text.padLeft column.width text)
      else .error (.formatOverflow value column.width))

/-- A checked scale is the scale, and it is not zero. -/
theorem of_checkedScale? {decimals : ℕ} {s : UInt64} (h : checkedScale? decimals = some s) :
    s.toNat = scale decimals ∧ s ≠ 0 := by
  unfold checkedScale? at h
  split at h
  · next hsize =>
    cases h
    have hscale : (UInt64.ofNat (scale decimals)).toNat = scale decimals := by
      rw [UInt64.toNat_ofNat', Nat.mod_eq_of_lt hsize]
    -- A power of ten is positive, and this one has not wrapped.
    have hpos : 0 < scale decimals := Nat.pow_pos (by decide)
    refine ⟨hscale, fun hzero => ?_⟩
    rw [hzero] at hscale
    exact absurd hscale (Nat.ne_of_lt hpos)
  · cases h

/-- Every value can be written, or it is reported that it does not fit: no scale is zero. -/
theorem render?_eq (column : Column) (value : Int64) :
    column.render? value = some (column.render value) := by
  unfold render? render
  by_cases h : column.decimals ≤ maxDecimals
  · have hsome : checkedScale? column.decimals = some (UInt64.ofNat (scale column.decimals)) :=
      if_pos (scale_lt_size_iff.2 h)
    obtain ⟨hscale, hne⟩ := of_checkedScale? hsome
    -- The magnitude of any value fits the unsigned type.
    have habs : (UInt64.ofNat value.toInt.natAbs).toNat = value.toInt.natAbs := by
      rw [UInt64.toNat_ofNat', Nat.mod_eq_of_lt]
      have hlow := value.le_toInt
      have hhigh := value.toInt_lt
      omega
    simp only [hsome, if_pos h, divide?, if_neg hne, Option.bind_eq_bind, Option.bind_some,
      UInt64.toNat_div, UInt64.toNat_mod, hscale, habs, fixedPoint]
    rfl
  · have hnone : checkedScale? column.decimals = none :=
      if_neg fun hsize => h (scale_lt_size_iff.1 hsize)
    simp only [hnone, if_neg h]

end Column

/-! ## Operations -/

namespace Kernel

/-- What a caller does with a kernel. -/
inductive Operation where
  /-- Drops the history. -/
  | reset
  /-- Starts a new history with a literal value. -/
  | restart (value : Int64) (order : ℕ)
  /-- Takes in a difference. -/
  | advance (delta : Int64)
  /-- Takes in a difference and writes the value recovered from it. -/
  | accept (delta : Int64)
  /-- Writes a value. -/
  | render (value : Int64)
  /-- Takes in a field. -/
  | apply (field : Field)

/-- What an operation answers. -/
inductive Answer where
  /-- Nothing. -/
  | done
  /-- A value, if there is one. -/
  | value (v : Option Int64)
  /-- The text of a value. -/
  | text (t : Text)

variable {maxOrder : ℕ}

/-- Carries out an operation. -/
def perform (k : Kernel maxOrder) : Operation → Outcome (Kernel maxOrder) Fault Answer
  | .reset => .ok k.reset .done
  | .restart value order => .commit k ((k.restart value order).map fun k' => (k', .done))
  | .advance delta => .ok (k.advance delta) (.value (some (k.recovered delta)))
  | .accept delta => ⟨(k.accept delta).state, (k.accept delta).result.map .text⟩
  | .render value => ⟨k, (k.render value).map .text⟩
  | .apply field => ⟨(k.apply field).state, (k.apply field).result.map .value⟩

/-- Carries out operations one after the other, whether they succeed or not. -/
def performAll (k : Kernel maxOrder) : List Operation → Kernel maxOrder × List (Except Fault Answer)
  | [] => (k, [])
  | op :: ops =>
    let o := k.perform op
    let rest := o.state.performAll ops
    (rest.1, o.result :: rest.2)

end Kernel

namespace Slots

variable {maxOrder : ℕ}

/-- Carries out an operation in the slots. -/
def perform? (s : Slots maxOrder) :
    Kernel.Operation → Option (Outcome (Slots maxOrder) Fault Kernel.Answer)
  | .reset => some (.ok s.reset .done)
  | .restart value order => some (.commit s ((s.restart value order).map fun s' => (s', .done)))
  | .advance delta => do
    let (s', value) ← s.advance? delta
    some (.ok s' (.value (some value)))
  | .accept delta => do
    let (s', value) ← s.advance? delta
    let text ← s'.column.render? value
    some ⟨s', text.map .text⟩
  | .render value => do
    let text ← s.column.render? value
    some ⟨s, text.map .text⟩
  | .apply field => do
    let next ← s.step? field
    some (.commit s (next.map fun p => (p.1, .value p.2)))

/-- Carries out operations in the slots, one after the other. -/
def performAll? (s : Slots maxOrder) :
    List Kernel.Operation → Option (Slots maxOrder × List (Except Fault Kernel.Answer))
  | [] => some (s, [])
  | op :: ops => do
    let o ← s.perform? op
    let rest ← o.state.performAll? ops
    some (rest.1, o.result :: rest.2)

/-- What is committed in the slots is committed in the kernel. -/
theorem lift_commit {α : Type} (s : Slots maxOrder) (next : Except Fault (Slots maxOrder × α)) :
    (Outcome.commit s next).lift toKernel = .commit s.toKernel (read next) := by
  cases next <;> rfl

/-- In the slots every operation is defined, and does what it does to the kernel. -/
theorem perform?_eq (s : Slots maxOrder) (op : Kernel.Operation) :
    ∃ o, s.perform? op = some o ∧ o.lift toKernel = s.toKernel.perform op := by
  cases op with
  | reset => exact ⟨_, rfl, rfl⟩
  | restart value order =>
    refine ⟨_, rfl, ?_⟩
    rw [lift_commit, Kernel.perform, ← map_toKernel_restart]
    cases s.restart value order <;> rfl
  | advance delta =>
    obtain ⟨s', hs', hk'⟩ := s.advance?_eq delta
    refine ⟨.ok s' (.value (some (s.toKernel.recovered delta))), ?_, ?_⟩
    · simp only [perform?, hs', Option.bind_eq_bind, Option.bind_some]
    · rw [Kernel.perform, ← hk']
      rfl
  | accept delta =>
    obtain ⟨s', hs', hk'⟩ := s.advance?_eq delta
    -- The column stays what it is when a value is taken.
    have hcolumn : s'.column = s.column := congrArg Kernel.column hk'
    refine ⟨⟨s', (s.column.render (s.toKernel.recovered delta)).map .text⟩, ?_, ?_⟩
    · simp only [perform?, hs', hcolumn, Column.render?_eq, Option.bind_eq_bind, Option.bind_some]
    · rw [Kernel.perform, Kernel.accept, ← hk']
      rfl
  | render value =>
    refine ⟨⟨s, (s.column.render value).map .text⟩, ?_, rfl⟩
    simp only [perform?, Column.render?_eq, Option.bind_eq_bind, Option.bind_some]
  | apply field =>
    obtain ⟨next, hnext, hread⟩ := s.step?_eq field
    refine ⟨.commit s (next.map fun p => (p.1, .value p.2)), ?_, ?_⟩
    · simp only [perform?, hnext, Option.bind_eq_bind, Option.bind_some]
    · rw [Kernel.perform, Kernel.apply, ← hread, lift_commit]
      cases next <;> rfl

/-- In the slots all operations of a sequence are defined. -/
theorem performAll?_eq (s : Slots maxOrder) (ops : List Kernel.Operation) :
    ∃ s', s.performAll? ops = some (s', (s.toKernel.performAll ops).2) ∧
      s'.toKernel = (s.toKernel.performAll ops).1 := by
  induction ops generalizing s with
  | nil => exact ⟨s, rfl, rfl⟩
  | cons op ops ih =>
    obtain ⟨o, ho, hlift⟩ := s.perform?_eq op
    obtain ⟨s', hs', hk'⟩ := ih o.state
    have hstate : o.state.toKernel = (s.toKernel.perform op).state := congrArg Outcome.state hlift
    have hresult : o.result = (s.toKernel.perform op).result := congrArg Outcome.result hlift
    rw [hstate] at hs' hk'
    refine ⟨s', ?_, hk'⟩
    simp only [performAll?, ho, hs', hresult, Option.bind_eq_bind, Option.bind_some]
    rfl

end Slots

end CompactRinex
