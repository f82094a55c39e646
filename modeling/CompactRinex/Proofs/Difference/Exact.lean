import CompactRinex.Difference.Kernel
import CompactRinex.Proofs.Column.Reading
import Mathlib.Tactic.Linarith
import Mathlib.Algebra.Order.Ring.Abs

/-!
# Exact differences

An exact kernel follows the difference scheme over unbounded integers. A kernel saturates instead,
and `write_agrees_exact` shows that in a column of at most 16 characters, with orders up to 8, this
never shows: a value is written exactly when the exact one fits the column, and then it is the exact
one.

As long as every value has been written, the values stay below `10^16` in magnitude, so the `j`-th
differences of the row stay below `2^j * 10^16` (`Row.Within`). A sum that leaves the 64-bit range
from such a row is so far from zero that the entries below cannot bring it back
(`Row.refresh_cases`): both the saturated and the exact value are too wide for the column.
-/

namespace CompactRinex

namespace Row

/-! ## Bounded rows -/

/-- The value is at most `bound` in magnitude, and each difference at most twice the bound of the
entry before it. -/
def Within (bound : ℤ) : List ℤ → Prop
  | [] => True
  | x :: xs => |x| ≤ bound ∧ Within (2 * bound) xs

/-- Fewer entries stay within the bound. -/
theorem Within.take {bound : ℤ} {row : List ℤ} (h : Within bound row) (n : ℕ) :
    Within bound (row.take n) := by
  induction row generalizing bound n with
  | nil => simpa using h
  | cons x xs ih =>
    cases n with
    | zero => trivial
    | succ n => exact ⟨h.1, ih h.2 n⟩

/-- A bounded value after a bounded row makes a bounded row, since each of its differences is the
difference of two bounded entries. -/
theorem within_refresh {bound : ℤ} {row : List ℤ} (delta : ℤ) (h : Within bound row)
    (hv : |(refresh (· + ·) delta row).1| ≤ bound) :
    Within bound ((refresh (· + ·) delta row).1 :: (refresh (· + ·) delta row).2) := by
  induction row generalizing bound with
  | nil => exact ⟨hv, trivial⟩
  | cons x xs ih =>
    obtain ⟨hx, hxs⟩ := h
    refine ⟨hv, ih hxs ?_⟩
    -- The sum is within the bound, so the one below it is within twice the bound.
    simp only [refresh] at hv
    rw [abs_le] at hv hx ⊢
    constructor <;> linarith [hv.1, hv.2, hx.1, hx.2]

/-- The next row is within the bound if the value is. -/
theorem within_next {bound : ℤ} {row : List ℤ} (order : ℕ) (delta : ℤ) (h : Within bound row)
    (hv : |(refresh (· + ·) delta row).1| ≤ bound) :
    Within bound (next (· + ·) order row delta) := by
  have hw := (within_refresh delta h hv).take (order - 1 + 1)
  rwa [List.take_succ_cons] at hw

/-! ## Saturated rows -/

/-- The least magnitude of a value that a saturated sum above a row can lead to. -/
def reach (bound : ℤ) (row : List Int64) : ℤ := 2^63 - 1 - (2^row.length - 1) * bound

/-- Both integers are at least `c`, or both are at most `-c`. -/
def Beyond (c s z : ℤ) : Prop := (c ≤ s ∧ c ≤ z) ∨ (s ≤ -c ∧ z ≤ -c)

/-- One entry brings two integers beyond `c + |x|` no nearer than `c`, also when the sums are
clamped to the 64-bit range. -/
theorem Beyond.add {c x s z : ℤ} (h : Beyond (c + |x|) s z) (hc : c ≤ 2^63 - 1) :
    Beyond c (max (-2^63) (min (x + s) (2^63 - 1))) (x + z) := by
  have hx := abs_le.1 (le_refl |x|)
  rcases h with ⟨hs, hz⟩ | ⟨hs, hz⟩
  · left; omega
  · right; omega

/-- The saturating sum in 64 bits. -/
theorem toInt_saturating_add (a b : Int64) :
    (Saturating.add a b).toInt = max (-2^63) (min (a.toInt + b.toInt) (2^63 - 1)) :=
  Saturating.toInt_add a b

/-- From a bounded row, the saturated entries are the exact ones, or both values are far away. -/
theorem refresh_cases {bound : ℤ} (hb : 0 ≤ bound) (delta : Int64) {row : List Int64}
    (h : Within bound (row.map Int64.toInt)) :
    ((refresh Saturating.add delta row).1.toInt =
        (refresh (· + ·) delta.toInt (row.map Int64.toInt)).1 ∧
      (refresh Saturating.add delta row).2.map Int64.toInt =
        (refresh (· + ·) delta.toInt (row.map Int64.toInt)).2) ∨
    Beyond (reach bound row) (refresh Saturating.add delta row).1.toInt
      (refresh (· + ·) delta.toInt (row.map Int64.toInt)).1 := by
  induction row generalizing bound with
  | nil => exact Or.inl ⟨rfl, rfl⟩
  | cons x xs ih =>
    obtain ⟨hx, hxs⟩ := h
    have hreach : reach bound (x :: xs) + bound = reach (2 * bound) xs := by
      simp only [reach, List.length_cons, pow_succ]; ring
    have hpow : 0 ≤ (2^(x :: xs).length - 1 : ℤ) * bound :=
      mul_nonneg (by linarith [one_le_pow₀ (n := (x :: xs).length) (show (1 : ℤ) ≤ 2 by decide)]) hb
    have hmax : reach bound (x :: xs) ≤ 2^63 - 1 := by simp only [reach]; linarith
    simp only [refresh, List.map_cons, toInt_saturating_add]
    rcases ih (by linarith) hxs with ⟨hv, hd⟩ | hfar
    · -- The entries above are exact, so this one is exact as well, unless its sum is clamped.
      rw [hv, hd]
      generalize (refresh (· + ·) delta.toInt (xs.map Int64.toInt)).1 = a
      by_cases hin : -2^63 ≤ x.toInt + a ∧ x.toInt + a ≤ 2^63 - 1
      · left
        exact ⟨by omega, rfl⟩
      · -- A clamped sum is at the end of the range, and the exact one lies beyond it.
        right
        rcases not_and_or.1 hin with hlow | hhigh
        · right; omega
        · left; omega
    · -- The entry above is far away, and adding a bounded one does not bring it back.
      right
      refine Beyond.add ?_ hmax
      rcases hfar with ⟨hs, hz⟩ | ⟨hs, hz⟩
      · left; constructor <;> linarith
      · right; constructor <;> linarith

end Row

/-! ## Exact kernels -/

/-- The state of a column over unbounded integers. -/
structure ExactKernel where
  /-- The order of the differences. -/
  order : ℕ
  /-- The latest value and its differences. -/
  row : List ℤ

namespace ExactKernel

/-- The value of a field and all differences that are computed for it. -/
def entries (k : ExactKernel) : Field → List ℤ
  | .missing => []
  | .literal _ value => [value.toInt]
  | .delta difference =>
    let refreshed := Row.refresh (· + ·) difference.toInt k.row
    refreshed.1 :: refreshed.2

/-- The value of a field, if it has one. -/
def value? (k : ExactKernel) (field : Field) : Option ℤ := (k.entries field).head?

/-- The exact kernel after a field. -/
def next (k : ExactKernel) : Field → ExactKernel
  | .missing => k
  | .literal order value => ⟨order, [value.toInt]⟩
  | .delta difference => { k with row := Row.next (· + ·) k.order k.row difference.toInt }

/-- The exact kernel of a column after some fields. -/
def after (column : Column) (fields : List Field) : ExactKernel :=
  fields.foldl next ⟨column.order, []⟩

end ExactKernel

/-- A kernel with this maximal order admits the order of the field, if the field states one. -/
def Field.Admitted (maxOrder : ℕ) : Field → Prop
  | .literal order _ => 0 < order ∧ order ≤ maxOrder
  | _ => True

namespace Kernel

variable {maxOrder : ℕ}

/-- Takes in a field and writes its value, if it has one. -/
def write (k : Kernel maxOrder) (field : Field) : Except Fault (Kernel maxOrder × Option Text) :=
  match k.step field with
  | .error fault => .error fault
  | .ok (k', none) => .ok (k', none)
  | .ok (k', some value) => (k'.render value).map fun text => (k', some text)

/-- Takes in fields one after the other and writes their values. -/
def writeAll (k : Kernel maxOrder) : List Field → Except Fault (Kernel maxOrder)
  | [] => .ok k
  | field :: fields => do
    let (k', _) ← k.write field
    k'.writeAll fields

/-- The kernel of a column has the exact row, which is as small as printed values make it. -/
structure Agrees (column : Column) (k : Kernel maxOrder) (e : ExactKernel) : Prop where
  /-- The kernel writes into the column. -/
  column_eq : k.column = column
  /-- The orders are the same. -/
  order_eq : k.order = e.order
  /-- The row of the kernel has not been clamped. -/
  row_eq : k.row.map Int64.toInt = e.row
  /-- The row is the one of values of at most 16 characters. -/
  within : Row.Within (10^16) e.row

/-- A value far away does not fit a column of at most 16 characters. -/
theorem not_fits_of_le_abs {column : Column} (hw : column.width ≤ 16) {z : ℤ}
    (h : 10^16 ≤ |z|) : ¬ column.Fits z := by
  intro hf
  have hpow : (10 : ℤ)^column.width ≤ 10^16 := pow_le_pow_right₀ (by decide) hw
  exact absurd hf.abs_lt (by omega)

/-- With orders up to 8, what a saturated sum leads to stays far away. -/
theorem le_reach (hM : maxOrder ≤ 8) (k : Kernel maxOrder) : 10^16 ≤ Row.reach (10^16) k.row := by
  have hlen : k.row.length ≤ 8 := le_trans k.length_row_le (le_trans k.order_le hM)
  have hpow : (2 : ℤ)^k.row.length ≤ 2^8 := pow_le_pow_right₀ (by decide) hlen
  simp only [Row.reach]
  linarith

/-- A difference is recovered exactly, or both the value that is recovered and the exact one are too
wide for the column. -/
theorem Agrees.recovered_cases {column : Column} {k : Kernel maxOrder} {e : ExactKernel}
    (h : Agrees column k e) (hM : maxOrder ≤ 8) (hw : column.width ≤ 16) (delta : Int64) :
    ((k.recovered delta).toInt = (Row.refresh (· + ·) delta.toInt e.row).1 ∧
      (Row.refresh Saturating.add delta k.row).2.map Int64.toInt =
        (Row.refresh (· + ·) delta.toInt e.row).2) ∨
    (¬ column.Fits (k.recovered delta).toInt ∧
      ¬ column.Fits (Row.refresh (· + ·) delta.toInt e.row).1) := by
  have hwithin := h.within
  rw [← h.row_eq] at hwithin ⊢
  -- Where a sum is clamped, both values are too big for the column, on the same side.
  rcases Row.refresh_cases (by decide) delta hwithin with heq | hfar
  · exact Or.inl heq
  · have hle := le_reach hM k
    rcases hfar with ⟨hs, hz⟩ | ⟨hs, hz⟩
    · exact Or.inr ⟨not_fits_of_le_abs hw (le_abs'.2 (Or.inr (le_trans hle hs))),
        not_fits_of_le_abs hw (le_abs'.2 (Or.inr (le_trans hle hz)))⟩
    · exact Or.inr ⟨not_fits_of_le_abs hw (le_abs'.2 (Or.inl (le_trans hs (neg_le_neg hle)))),
        not_fits_of_le_abs hw (le_abs'.2 (Or.inl (le_trans hz (neg_le_neg hle))))⟩

/-- What a kernel does with a difference, in terms of the exact row: the exact value is written when
it fits, and reported otherwise. -/
theorem Agrees.write_delta {column : Column} {k : Kernel maxOrder} {e : ExactKernel}
    (h : Agrees column k e) (hM : maxOrder ≤ 8) (hw : column.width ≤ 16) (delta : Int64) :
    (column.Fits (Row.refresh (· + ·) delta.toInt e.row).1 ∧
      k.write (.delta delta) = .ok (k.advance delta,
        some (column.text (Row.refresh (· + ·) delta.toInt e.row).1)) ∧
      Agrees column (k.advance delta) (e.next (.delta delta)) ∧
      (k.recovered delta).toInt = (Row.refresh (· + ·) delta.toInt e.row).1 ∧
      (Row.refresh Saturating.add delta k.row).2.map Int64.toInt =
        (Row.refresh (· + ·) delta.toInt e.row).2) ∨
    (¬ column.Fits (Row.refresh (· + ·) delta.toInt e.row).1 ∧
      k.write (.delta delta) = .error (.formatOverflow (k.recovered delta) column.width)) := by
  have hwrite : k.write (.delta delta) = (column.render (k.recovered delta)).map
      fun text => (k.advance delta, some text) := by
    rw [← h.column_eq]; rfl
  rw [hwrite]
  rcases h.recovered_cases hM hw delta with ⟨hv, hd⟩ | ⟨hs, hz⟩
  · -- The value is the exact one, so the column decides.
    by_cases hfit : column.Fits (Row.refresh (· + ·) delta.toInt e.row).1
    · left
      rw [← hv] at hfit ⊢
      rw [Column.render_of_fits hfit]
      refine ⟨hfit, rfl, ⟨h.column_eq, h.order_eq, ?_, ?_⟩, rfl, hd⟩
      · show ((Row.refresh Saturating.add delta k.row).1 ::
          (Row.refresh Saturating.add delta k.row).2.take (k.order - 1)).map Int64.toInt = _
        rw [List.map_cons, List.map_take, hd, h.order_eq]
        exact congrArg (· :: _) hv
      · apply Row.within_next _ _ h.within
        rw [← hv]
        exact le_of_lt (lt_of_lt_of_le hfit.abs_lt (pow_le_pow_right₀ (by decide) hw))
    · right
      rw [Column.render_of_not_fits (by rwa [hv])]
      exact ⟨hfit, rfl⟩
  · -- Neither the value nor the exact one fits.
    right
    rw [Column.render_of_not_fits hs]
    exact ⟨hz, rfl⟩

/-- What a kernel does with a literal value. -/
theorem Agrees.write_literal {column : Column} {k : Kernel maxOrder} {e : ExactKernel}
    (h : Agrees column k e) (hw : column.width ≤ 16) {order : ℕ} (value : Int64)
    (hpos : 0 < order) (hle : order ≤ maxOrder) :
    (column.Fits value.toInt ∧
      ∃ k', k.write (.literal order value) = .ok (k', some (column.text value.toInt)) ∧
        Agrees column k' (e.next (.literal order value))) ∨
    (¬ column.Fits value.toInt ∧
      k.write (.literal order value) = .error (.formatOverflow value column.width)) := by
  -- A literal only has to fit, it starts a row of its own.
  have hwrite : k.write (.literal order value) = (column.render value).map
      fun text => (⟨k.column, order, [value], hpos, hle, hpos⟩, some text) := by
    simp only [write, step, restart, admitOrder_of_le hpos hle, Except.map, ← h.column_eq]
    rfl
  rw [hwrite]
  by_cases hfit : column.Fits value.toInt
  · left
    rw [Column.render_of_fits hfit]
    have habs := le_of_lt (lt_of_lt_of_le hfit.abs_lt (pow_le_pow_right₀ (by decide) hw))
    exact ⟨hfit, _, rfl, ⟨h.column_eq, rfl, rfl, habs, trivial⟩⟩
  · right
    rw [Column.render_of_not_fits hfit]
    exact ⟨hfit, rfl⟩

/-- A literal with an order that is not admitted is refused. -/
theorem write_literal_of_not (k : Kernel maxOrder) {order : ℕ} (value : Int64)
    (h : ¬ (0 < order ∧ order ≤ maxOrder)) :
    k.write (.literal order value) =
      .error (if order = 0 then .invalidOrder order else .orderTooBig order maxOrder) := by
  simp only [write, step, restart, admitOrder_of_not h, Except.map]

/-- What a kernel does with any field: it writes the exact value when it fits, and no difference has
left the 64-bit range then; it reports an exact value that does not fit; it refuses an order that is
not admitted. -/
theorem Agrees.write_cases {column : Column} {k : Kernel maxOrder} {e : ExactKernel}
    (h : Agrees column k e) (hM : maxOrder ≤ 8) (hw : column.width ≤ 16) (field : Field) :
    (field.Admitted maxOrder ∧ (∀ z ∈ e.value? field, column.Fits z) ∧
      (∀ z ∈ e.entries field, ∃ v : Int64, v.toInt = z) ∧
      ∃ k', k.write field = .ok (k', (e.value? field).map column.text) ∧
        Agrees column k' (e.next field)) ∨
    (field.Admitted maxOrder ∧ (∃ z ∈ e.value? field, ¬ column.Fits z) ∧
      ∃ value, k.write field = .error (.formatOverflow value column.width)) ∨
    (¬ field.Admitted maxOrder ∧ ∃ fault, k.write field = .error fault) := by
  cases field with
  | missing =>
    left
    -- A blank field changes neither of the two.
    exact ⟨trivial, by simp [ExactKernel.value?, ExactKernel.entries],
      by simp [ExactKernel.entries], k, rfl, h⟩
  | literal order value =>
    by_cases horder : 0 < order ∧ order ≤ maxOrder
    · rcases h.write_literal hw value horder.1 horder.2 with ⟨hfit, hk⟩ | ⟨hfit, hk⟩
      · left
        exact ⟨horder, by simpa [ExactKernel.value?, ExactKernel.entries] using hfit,
          by simp [ExactKernel.entries], hk⟩
      · right; left
        exact ⟨horder, ⟨_, rfl, hfit⟩, value, hk⟩
    · right; right
      -- The order is refused before anything else.
      exact ⟨horder, _, write_literal_of_not k value horder⟩
  | delta difference =>
    rcases h.write_delta hM hw difference with ⟨hfit, hk, ha, hv, hd⟩ | ⟨hfit, hk⟩
    · left
      refine ⟨trivial, by simpa [ExactKernel.value?, ExactKernel.entries] using hfit, ?_, _, hk, ha⟩
      simp only [ExactKernel.entries, ← hv, ← hd, List.mem_cons, List.mem_map]
      rintro z (rfl | ⟨v, -, rfl⟩)
      · exact ⟨_, rfl⟩
      · exact ⟨v, rfl⟩
    · right; left
      exact ⟨trivial, ⟨_, rfl, hfit⟩, _, hk⟩

/-- Fields that are all written keep the agreement. -/
theorem Agrees.of_writeAll {column : Column} {k k' : Kernel maxOrder} {e : ExactKernel}
    (h : Agrees column k e) (hM : maxOrder ≤ 8) (hw : column.width ≤ 16) {fields : List Field}
    (hwrite : k.writeAll fields = .ok k') : Agrees column k' (fields.foldl ExactKernel.next e) := by
  induction fields generalizing k e with
  | nil => cases hwrite; exact h
  | cons field fields ih =>
    simp only [writeAll, bind, Except.bind] at hwrite
    rcases h.write_cases hM hw field with
      ⟨-, -, -, k'', hk, ha⟩ | ⟨-, -, value, hk⟩ | ⟨-, fault, hk⟩
    · rw [hk] at hwrite
      exact ih ha hwrite
    · rw [hk] at hwrite; cases hwrite
    · rw [hk] at hwrite; cases hwrite

/-- A new kernel agrees with the exact kernel of its column. -/
theorem agrees_ofColumn {column : Column} {k : Kernel maxOrder}
    (h : Kernel.ofColumn maxOrder column = .ok k) : Agrees column k ⟨column.order, []⟩ := by
  by_cases horder : 0 < column.order ∧ column.order ≤ maxOrder
  · rw [ofColumn, admitOrder_of_le horder.1 horder.2] at h
    cases h
    exact ⟨rfl, rfl, rfl, trivial⟩
  · rw [ofColumn, admitOrder_of_not horder] at h
    cases h

/-- In a column of at most 16 characters and with orders up to 8, after any fields that were all
written, a field is written exactly when its order is admitted and the exact value fits the column,
and its text then denotes the exact value. An exact value that does not fit is reported at its own
field, and so is every value for which a difference leaves the 64-bit range. -/
theorem write_agrees_exact (hM : maxOrder ≤ 8) {column : Column} (hw : column.width ≤ 16)
    {start k : Kernel maxOrder} (hstart : Kernel.ofColumn maxOrder column = .ok start)
    {fields : List Field} (hfields : start.writeAll fields = .ok k) (field : Field) :
    ((∃ p, k.write field = .ok p) ↔ field.Admitted maxOrder ∧
      ∀ z ∈ (ExactKernel.after column fields).value? field, column.Fits z) ∧
    (∀ k' text, k.write field = .ok (k', text) →
      text = ((ExactKernel.after column fields).value? field).map column.text ∧
      text.bind (Column.read column.decimals) = (ExactKernel.after column fields).value? field) ∧
    (field.Admitted maxOrder →
      (∃ z ∈ (ExactKernel.after column fields).value? field, ¬ column.Fits z) →
        ∃ value, k.write field = .error (.formatOverflow value column.width)) ∧
    (field.Admitted maxOrder →
      (∃ z ∈ (ExactKernel.after column fields).entries field, z < -2^63 ∨ 2^63 ≤ z) →
        ∃ value, k.write field = .error (.formatOverflow value column.width)) := by
  have h := (agrees_ofColumn hstart).of_writeAll hM hw hfields
  change Agrees column k (ExactKernel.after column fields) at h
  generalize ExactKernel.after column fields = e at h ⊢
  rcases h.write_cases hM hw field with ⟨hadm, hfit, hrange, k', hk, -⟩ |
    ⟨hadm, ⟨z, hz, hfit⟩, value, hk⟩ | ⟨hadm, fault, hk⟩
  · -- The exact value fits and is written.
    refine ⟨⟨fun _ => ⟨hadm, hfit⟩, fun _ => ⟨_, hk⟩⟩, ?_, ?_, ?_⟩
    · rintro k'' text htext
      rw [hk] at htext
      cases htext
      refine ⟨rfl, ?_⟩
      cases e.value? field with
      | none => rfl
      | some z => exact Column.read_text column z
    · rintro - ⟨z, hz, hnot⟩
      exact absurd (hfit z hz) hnot
    · rintro - ⟨z, hz, hout⟩
      obtain ⟨v, rfl⟩ := hrange z hz
      have hmin := v.minValue_le_toInt
      have hmax := v.toInt_le
      simp only [Int64.toInt_minValue, Int64.toInt_maxValue] at hmin hmax
      omega
  · -- The exact value does not fit and is reported.
    refine ⟨⟨?_, fun hall => absurd (hall.2 z hz) hfit⟩, ?_, fun _ _ => ⟨value, hk⟩,
      fun _ _ => ⟨value, hk⟩⟩
    · rintro ⟨p, hp⟩
      rw [hk] at hp; cases hp
    · intro k' text htext
      rw [hk] at htext; cases htext
  · -- The order of the field is refused.
    refine ⟨⟨?_, fun hall => absurd hall.1 hadm⟩, ?_, fun h => absurd h hadm,
      fun h => absurd h hadm⟩
    · rintro ⟨p, hp⟩
      rw [hk] at hp; cases hp
    · intro k' text htext
      rw [hk] at htext; cases htext

/-- A third difference near the end of the 64-bit range after two values of an observation. -/
theorem write_agrees_exact_observation :
    ∃ start k : Kernel 5, Kernel.ofColumn 5 Column.observation = .ok start ∧
      start.writeAll [.literal 3 1000, .delta 10] = .ok k ∧
      ∃ value, k.write (.delta Int64.maxValue) = .error (.formatOverflow value 14) := by
  refine ⟨_, _, rfl, rfl, ?_⟩
  have h := @write_agrees_exact 5 (by decide) Column.observation (by decide) _ _ rfl
    [.literal 3 1000, .delta 10] rfl (.delta Int64.maxValue)
  exact h.2.2.2 trivial ⟨Int64.maxValue.toInt + 10, by decide, by decide⟩

end Kernel

end CompactRinex
