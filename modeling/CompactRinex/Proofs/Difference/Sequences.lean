import CompactRinex.Difference.Kernel
import CompactRinex.Proofs.Outcome
import Mathlib.Algebra.Group.ForwardDiff
import Mathlib.Data.List.Range

/-!
# Sequences and their differences

The fields of a column after a literal value are differences of its values, of the first order, then
of the second, and so on up to the order of the column. `Difference.Integrates` says of a sequence
of integers that it starts with the literal value and has the fields as its differences; there is
exactly one such sequence (`Difference.existsUnique_integrates`).

The row of an exact kernel holds the differences of this sequence that end at its latest value
(`Row.exactAt_eq_entries`), because each difference is the sum of the one before it and the next
higher one. As long as these differences are 64-bit integers no sum is clamped, and the row of a
kernel is the exact one (`Row.refresh_of_representable`). The kernel then recovers the sequence from
its differences, and the differences are those of what it recovers (`Kernel.restart_decodes`).
-/

namespace CompactRinex

namespace Difference

/-! ## Backward differences -/

/-- The difference of order `k` of a sequence that ends at `t`. -/
def backward (w : ℕ → ℤ) (k t : ℕ) : ℤ := (fwdDiff 1)^[k] w (t - k)

/-- The difference of order zero is the sequence. -/
@[simp] theorem backward_zero (w : ℕ → ℤ) (t : ℕ) : backward w 0 t = w t := rfl

/-- A difference is the change of the difference below it. -/
theorem backward_succ (w : ℕ → ℤ) {k t : ℕ} (h : k ≤ t) :
    backward w (k + 1) (t + 1) = backward w k (t + 1) - backward w k t := by
  have hend : t + 1 - k = t - k + 1 := by omega
  have hstart : t + 1 - (k + 1) = t - k := by omega
  simp only [backward, hend, hstart, Function.iterate_succ_apply', fwdDiff]

/-- A difference depends on the values up to its end only. -/
theorem backward_congr {w w' : ℕ → ℤ} {k t : ℕ} (hk : k ≤ t) (h : ∀ s ≤ t, w s = w' s) :
    backward w k t = backward w' k t := by
  simp only [backward, fwdDiff_iter_eq_sum_shift]
  refine Finset.sum_congr rfl fun i hi => ?_
  have hi' : t - k + i • 1 ≤ t := by
    have := Finset.mem_range.1 hi
    rw [smul_eq_mul]
    omega
  rw [h _ hi']

/-- A 64-bit integer. -/
def Representable (z : ℤ) : Prop := -2^63 ≤ z ∧ z < 2^63

/-- The differences of a sequence up to the order `n`, as far as there are any, are 64-bit integers
up to `t`. -/
def InRange (n : ℕ) (w : ℕ → ℤ) (t : ℕ) : Prop :=
  ∀ s ≤ t, ∀ j ≤ min s n, Representable (backward w j s)

/-- Up to `t` a sequence starts with `v` and has the differences `d`, each of the highest order up
to `n` that there is. -/
structure Integrates (n : ℕ) (v : ℤ) (d w : ℕ → ℤ) (t : ℕ) : Prop where
  /-- The sequence starts with the literal value. -/
  start : w 0 = v
  /-- Each later difference is the given one. -/
  difference_eq : ∀ s, 1 ≤ s → s ≤ t → backward w (min s n) s = d s

/-- The earlier differences are in range as well. -/
theorem InRange.of_le {n t t' : ℕ} {w : ℕ → ℤ} (h : InRange n w t) (ht : t' ≤ t) :
    InRange n w t' := fun s hs => h s (le_trans hs ht)

/-- The earlier values are integrals as well. -/
theorem Integrates.of_le {n t t' : ℕ} {v : ℤ} {d w : ℕ → ℤ} (h : Integrates n v d w t)
    (ht : t' ≤ t) : Integrates n v d w t' :=
  ⟨h.start, fun s hpos hs => h.difference_eq s hpos (le_trans hs ht)⟩

/-- The differences at `t` of the orders from `k` up to, and without, `k + m`. -/
def entries (w : ℕ → ℤ) (k m t : ℕ) : List ℤ := (List.range' k m).map fun j => backward w j t

/-- No differences. -/
@[simp] theorem entries_zero (w : ℕ → ℤ) (k t : ℕ) : entries w k 0 t = [] := rfl

/-- One more difference. -/
theorem entries_succ (w : ℕ → ℤ) (k m t : ℕ) :
    entries w k (m + 1) t = backward w k t :: entries w (k + 1) m t := by
  rw [entries, List.range'_succ, List.map_cons, entries]

/-- The entries are differences. -/
theorem mem_entries {w : ℕ → ℤ} {k m t : ℕ} {z : ℤ} (h : z ∈ entries w k m t) :
    ∃ j < k + m, z = backward w j t := by
  obtain ⟨j, hj, rfl⟩ := List.mem_map.1 h
  exact ⟨j, (List.mem_range'_1.1 hj).2, rfl⟩

/-- The first entries are the differences of the first orders. -/
theorem take_entries (w : ℕ → ℤ) (k m t i : ℕ) :
    (entries w k m t).take i = entries w k (min i m) t := by
  induction i generalizing k m with
  | zero => rw [Nat.zero_min, List.take_zero, entries_zero]
  | succ i ih =>
    cases m with
    | zero => rw [Nat.min_zero, entries_zero, List.take_nil]
    | succ m => rw [entries_succ, List.take_succ_cons, ih, Nat.succ_min_succ, entries_succ]

end Difference

open Difference

namespace Row

/-! ## Exact rows -/

/-- The value that a row leads to is the sum of the row and the difference above it. -/
theorem refresh_fst (delta : ℤ) (row : List ℤ) :
    (refresh (· + ·) delta row).1 = row.sum + delta := by
  induction row with
  | nil => simp [refresh]
  | cons x xs ih => simp only [refresh, ih, List.sum_cons, add_assoc]

/-- The differences that end at one place and the next higher one that ends at the next place lead
to all differences that end there. -/
theorem refresh_entries (w : ℕ → ℤ) {k m t : ℕ} (h : k + m ≤ t + 1) :
    refresh (· + ·) (backward w (k + m) (t + 1)) (entries w k m t) =
      (backward w k (t + 1), entries w (k + 1) m (t + 1)) := by
  induction m generalizing k with
  | zero => rfl
  | succ m ih =>
    have habove := ih (k := k + 1) (by omega)
    have horder : k + 1 + m = k + (m + 1) := by omega
    -- The sum with the difference of one order more leads to the next place.
    have hsum : backward w k t + backward w (k + 1) (t + 1) = backward w k (t + 1) := by
      rw [backward_succ w (by omega)]
      omega
    rw [horder] at habove
    rw [entries_succ, refresh, habove, hsum, entries_succ]

/-- The rows of an exact kernel of order `n` that starts with `v` and takes in the differences `d`.
-/
def exactAt (n : ℕ) (v : ℤ) (d : ℕ → ℤ) : ℕ → List ℤ
  | 0 => [v]
  | t + 1 => next (· + ·) n (exactAt n v d t) (d (t + 1))

/-- A step from differences that end at one place leads to those that end at the next. -/
theorem next_entries {n : ℕ} (hn : 0 < n) (w : ℕ → ℤ) (t : ℕ) :
    next (· + ·) n (entries w 0 (min (t + 1) n) t) (backward w (min (t + 1) n) (t + 1)) =
      entries w 0 (min (t + 2) n) (t + 1) := by
  have hrefresh := refresh_entries w (k := 0) (m := min (t + 1) n) (t := t) (by omega)
  have hlength : min (t + 2) n = min (n - 1) (min (t + 1) n) + 1 := by omega
  rw [Nat.zero_add] at hrefresh
  rw [next, hrefresh, take_entries, hlength, entries_succ]

/-- The exact row holds the differences that end at its value. -/
theorem exactAt_eq_entries {n : ℕ} (hn : 0 < n) {v : ℤ} {d w : ℕ → ℤ} {t : ℕ}
    (h : Integrates n v d w t) : exactAt n v d t = entries w 0 (min (t + 1) n) t := by
  induction t with
  | zero =>
    have hone : min (0 + 1) n = 0 + 1 := by omega
    rw [hone, entries_succ, backward_zero, h.start, entries_zero, exactAt]
  | succ t ih =>
    have hdelta := h.difference_eq (t + 1) (by omega) le_rfl
    rw [exactAt, ih (h.of_le (Nat.le_succ t)), ← hdelta, next_entries hn]

/-! ## Rows of 64-bit integers -/

/-- A sum that is in range is exact. -/
theorem toInt_add_of_representable {a b : Int64} (h : Representable (a.toInt + b.toInt)) :
    (Saturating.add a b).toInt = a.toInt + b.toInt := by
  obtain ⟨hmin, hmax⟩ := h
  rw [Saturating.toInt_add, Int64.toInt_minValue, Int64.toInt_maxValue]
  omega

/-- Where all exact entries are 64-bit integers nothing is clamped. -/
theorem refresh_of_representable {delta : Int64} {row : List Int64}
    (h : ∀ z ∈ (refresh (· + ·) delta.toInt (row.map Int64.toInt)).1 ::
      (refresh (· + ·) delta.toInt (row.map Int64.toInt)).2, Representable z) :
    (refresh Saturating.add delta row).1.toInt =
        (refresh (· + ·) delta.toInt (row.map Int64.toInt)).1 ∧
      (refresh Saturating.add delta row).2.map Int64.toInt =
        (refresh (· + ·) delta.toInt (row.map Int64.toInt)).2 := by
  induction row with
  | nil => exact ⟨rfl, rfl⟩
  | cons x xs ih =>
    simp only [List.map_cons, refresh] at h ⊢
    obtain ⟨hvalue, habove⟩ := List.forall_mem_cons.1 h
    obtain ⟨hv, hd⟩ := ih habove
    -- The sum is exact where the sum below it is, since its own value is representable.
    rw [← hv] at hvalue
    refine ⟨?_, ?_⟩
    · rw [toInt_add_of_representable hvalue, hv]
    · rw [hv, hd]

end Row

namespace Difference

/-! ## The sequence with given differences -/

/-- The sequence of the values of an exact kernel. -/
def integral (n : ℕ) (v : ℤ) (d : ℕ → ℤ) (t : ℕ) : ℤ := (Row.exactAt n v d t).headD 0

/-- The integral gives the value back. -/
theorem integral_of_integrates {n : ℕ} (hn : 0 < n) {v : ℤ} {d w : ℕ → ℤ} {t : ℕ}
    (h : Integrates n v d w t) : integral n v d t = w t := by
  obtain ⟨m, hm⟩ : ∃ m, min (t + 1) n = m + 1 := ⟨min (t + 1) n - 1, by omega⟩
  rw [integral, Row.exactAt_eq_entries hn h, hm, entries_succ, List.headD_cons, backward_zero]

/-- The values of an exact kernel have the differences that it takes in. -/
theorem integrates_integral {n : ℕ} (hn : 0 < n) (v : ℤ) (d : ℕ → ℤ) (t : ℕ) :
    Integrates n v d (integral n v d) t := by
  induction t with
  | zero => exact ⟨rfl, fun s hpos hs => by omega⟩
  | succ t ih =>
    refine ⟨ih.start, fun s hpos hs => ?_⟩
    rcases Nat.lt_or_eq_of_le hs with hlt | rfl
    · exact ih.difference_eq s hpos (Nat.le_of_lt_succ hlt)
    -- The value is the sum of the row and its difference, for the given difference and for the one
    -- that the sequence has.
    have hvalue : integral n v d (t + 1) =
        (Row.refresh (· + ·) (d (t + 1))
          (entries (integral n v d) 0 (min (t + 1) n) t)).1 := by
      rw [← Row.exactAt_eq_entries hn ih]
      rfl
    have hrefresh := Row.refresh_entries (integral n v d) (k := 0) (m := min (t + 1) n) (t := t)
      (by omega)
    have hsum := congrArg Prod.fst hrefresh
    rw [Nat.zero_add, backward_zero, hvalue, Row.refresh_fst, Row.refresh_fst] at hsum
    exact add_left_cancel hsum

/-- There is exactly one sequence with the given start and the given differences. -/
theorem existsUnique_integrates {n : ℕ} (hn : 0 < n) (v : ℤ) (d : ℕ → ℤ) :
    ∃! w : ℕ → ℤ, ∀ t, Integrates n v d w t := by
  refine ⟨integral n v d, integrates_integral hn v d, fun w hw => ?_⟩
  funext t
  exact (integral_of_integrates hn (hw t)).symm

/-- The differences of a sequence of 64-bit integers, each of the highest order up to `n` that there
is. -/
def ramped (n : ℕ) (x : ℕ → Int64) (t : ℕ) : Int64 :=
  Int64.ofInt (backward (fun s => (x s).toInt) (min t n) t)

/-- A number in range is represented exactly. -/
theorem toInt_ofInt_of_representable {z : ℤ} (h : Representable z) :
    (Int64.ofInt z).toInt = z :=
  Int64.toInt_ofInt_of_le h.1 h.2

/-- A sequence integrates its differences as far as these are 64-bit integers. -/
theorem integrates_ramped {n t : ℕ} {x : ℕ → Int64} (h : InRange n (fun s => (x s).toInt) t) :
    Integrates n (x 0).toInt (fun s => (ramped n x s).toInt) (fun s => (x s).toInt) t := by
  refine ⟨rfl, fun s _ hs => ?_⟩
  exact (toInt_ofInt_of_representable (h s hs _ le_rfl)).symm

end Difference

namespace Kernel

variable {maxOrder : ℕ}

/-! ## Kernels -/

/-- The kernel after so many differences. -/
def feed (k : Kernel maxOrder) (d : ℕ → Int64) : ℕ → Kernel maxOrder
  | 0 => k
  | t + 1 => (k.feed d t).advance (d (t + 1))

/-- The literal value that a kernel has been restarted with, and what it recovers from the
differences after it. -/
def decoded (k : Kernel maxOrder) (v : Int64) (d : ℕ → Int64) : ℕ → Int64
  | 0 => v
  | t + 1 => (k.feed d t).recovered (d (t + 1))

/-- The order stays. -/
theorem order_feed (k : Kernel maxOrder) (d : ℕ → Int64) (t : ℕ) :
    (k.feed d t).order = k.order := by
  induction t with
  | zero => rfl
  | succ t ih => exact ih

/-- A kernel that has been restarted holds the exact row, and recovers the sequence, as long as its
differences are 64-bit integers. -/
theorem row_feed {k : Kernel maxOrder} {v : Int64} (hrow : k.row = [v]) {d : ℕ → Int64}
    {w : ℕ → ℤ} {t : ℕ} (hw : Integrates k.order v.toInt (fun s => (d s).toInt) w t)
    (hrange : InRange k.order w t) :
    (k.feed d t).row.map Int64.toInt = Row.exactAt k.order v.toInt (fun s => (d s).toInt) t ∧
      (k.decoded v d t).toInt = w t := by
  induction t with
  | zero =>
    refine ⟨?_, hw.start.symm⟩
    rw [feed, hrow]
    rfl
  | succ t ih =>
    have hw' := hw.of_le (Nat.le_succ t)
    obtain ⟨hexact, -⟩ := ih hw' (hrange.of_le (Nat.le_succ t))
    have hdelta := hw.difference_eq (t + 1) (Nat.succ_pos t) le_rfl
    -- The entries of the next row are the differences that end at its value.
    have hrefresh : Row.refresh (· + ·) (d (t + 1)).toInt ((k.feed d t).row.map Int64.toInt) =
        (w (t + 1), entries w 1 (min (t + 1) k.order) (t + 1)) := by
      have hentries := Row.refresh_entries w (k := 0) (m := min (t + 1) k.order) (t := t) (by omega)
      rw [Nat.zero_add, hdelta, backward_zero] at hentries
      rw [hexact, Row.exactAt_eq_entries k.order_pos hw', hentries]
    have hrepresentable : ∀ z ∈ w (t + 1) :: entries w 1 (min (t + 1) k.order) (t + 1),
        Representable z := by
      refine List.forall_mem_cons.2 ⟨hrange (t + 1) le_rfl 0 (Nat.zero_le _), fun z hz => ?_⟩
      obtain ⟨j, hj, rfl⟩ := mem_entries hz
      exact hrange (t + 1) le_rfl j (by omega)
    have hnext := @Row.refresh_of_representable (d (t + 1)) (k.feed d t).row
    rw [hrefresh] at hnext
    obtain ⟨hvalue, habove⟩ := hnext hrepresentable
    refine ⟨?_, hvalue⟩
    have hadvance : (k.feed d (t + 1)).row =
        Row.next Saturating.add k.order (k.feed d t).row (d (t + 1)) := by
      rw [← order_feed k d t]
      rfl
    rw [hadvance, Row.next, List.map_cons, List.map_take, hvalue, habove, Row.exactAt, ← hexact,
      Row.next, hrefresh]

/-- A kernel that has been restarted recovers the sequence. -/
theorem toInt_decoded {k : Kernel maxOrder} {v : Int64} (hrow : k.row = [v]) {d : ℕ → Int64}
    {w : ℕ → ℤ} {t : ℕ} (hw : Integrates k.order v.toInt (fun s => (d s).toInt) w t)
    (hrange : InRange k.order w t) : (k.decoded v d t).toInt = w t :=
  (row_feed hrow hw hrange).2

/-- The differences of what a restarted kernel recovers are those that it has taken in. -/
theorem ramped_decoded {k : Kernel maxOrder} {v : Int64} (hrow : k.row = [v]) {d : ℕ → Int64}
    {w : ℕ → ℤ} {t : ℕ} (hw : Integrates k.order v.toInt (fun s => (d s).toInt) w t)
    (hrange : InRange k.order w t) (hpos : 1 ≤ t) :
    ramped k.order (k.decoded v d) t = d t := by
  have hvalues : ∀ s ≤ t, (k.decoded v d s).toInt = w s := fun s hs =>
    toInt_decoded hrow (hw.of_le hs) (hrange.of_le hs)
  have hbackward : backward (fun s => (k.decoded v d s).toInt) (min t k.order) t = (d t).toInt := by
    rw [backward_congr (Nat.min_le_left t k.order) hvalues, hw.difference_eq t hpos le_rfl]
  rw [ramped, hbackward, Int64.ofInt_toInt]

/-- A kernel that is restarted with an order that is admitted has the literal value for its row. -/
theorem restart_of_le {n : ℕ} (hpos : 0 < n) (hle : n ≤ maxOrder) (k : Kernel maxOrder)
    (v : Int64) : k.restart v n = .ok ⟨k.column, n, [v], hpos, hle, hpos⟩ := by
  rw [restart, admitOrder_of_le hpos hle]
  rfl

/-- On a kernel without history, whose order it is, a first difference is a restart. -/
theorem restart_eq_advance {k : Kernel maxOrder} (hvalue : k.value? = none) (v : Int64) :
    k.restart v k.order = .ok (k.advance v) := by
  have hrow : k.row = [] := List.head?_eq_none_iff.1 hvalue
  have hnext : [v] = Row.next Saturating.add k.order k.row v := by rw [hrow, Row.next_nil]
  rw [restart_of_le k.order_pos k.order_le]
  simp only [advance, hnext]

/-- A kernel that is restarted with a literal value, at any order that is supported, recovers from
the differences after it the one sequence of integers that they are the differences of, as long as
all differences of this sequence up to the order are 64-bit integers. So every sequence of values is
recovered from its differences, and any differences are those of what is recovered from them. What
the kernel held before does not matter, and on a kernel of this order that has no history a first
difference does what the literal value does. -/
theorem restart_decodes {n : ℕ} (hpos : 0 < n) (hle : n ≤ maxOrder) (k : Kernel maxOrder)
    (v : Int64) :
    ∃ k', k.restart v n = .ok k' ∧
      (∀ d : ℕ → Int64,
        (∃! w : ℕ → ℤ, ∀ t, Integrates n v.toInt (fun s => (d s).toInt) w t) ∧
        ∀ w t, Integrates n v.toInt (fun s => (d s).toInt) w t → InRange n w t →
          (k'.decoded v d t).toInt = w t ∧
            (1 ≤ t → ramped n (k'.decoded v d) t = d t)) ∧
      (∀ x : ℕ → Int64, x 0 = v → ∀ t, InRange n (fun s => (x s).toInt) t →
        k'.decoded v (ramped n x) t = x t) ∧
      (∀ other : Kernel maxOrder, other.column = k.column → other.restart v n = .ok k') ∧
      ∀ blank : Kernel maxOrder, blank.value? = none → blank.order = n →
        blank.restart v n = .ok (blank.advance v) ∧ blank.recovered v = v := by
  have hrestart := restart_of_le hpos hle k v
  refine ⟨_, hrestart, fun d => ⟨existsUnique_integrates hpos _ _, fun w t hw hrange => ?decoded⟩,
    fun x hx t hrange => ?value, fun other hcolumn => ?other, fun blank hvalue horder => ?blank⟩
  case decoded => exact ⟨toInt_decoded rfl hw hrange, ramped_decoded rfl hw hrange⟩
  case value =>
    have hw := integrates_ramped hrange
    rw [hx] at hw
    exact Int64.toInt_inj.1 (@toInt_decoded _ ⟨_, _, [v], _, _, _⟩ v rfl _ _ t hw hrange)
  case other => rw [restart_of_le hpos hle, hcolumn]
  case blank =>
    -- A kernel without a value takes the first difference for a value.
    have hrow : blank.row = [] := List.head?_eq_none_iff.1 hvalue
    refine ⟨?_, ?_⟩
    · rw [← horder]
      exact restart_eq_advance hvalue v
    · rw [recovered, hrow, Row.refresh]

/-- Values of an observation that reach the end of the 64-bit range and turn back. -/
theorem restart_decodes_maximal :
    ∃ (k k' : Kernel 5) (x : ℕ → Int64), ofColumn 5 Column.observation = .ok k ∧
      (x 0, x 1, x 2, x 3) =
        (Int64.maxValue - 15, Int64.maxValue - 5, Int64.maxValue, Int64.maxValue - 7) ∧
      InRange 3 (fun s => (x s).toInt) 3 ∧
      (ramped 3 x 1, ramped 3 x 2, ramped 3 x 3) = (10, -5, -7) ∧
      k.restart (x 0) 3 = .ok k' ∧ k.restart (x 0) 3 = .ok (k.advance (x 0)) ∧
      k'.decoded (x 0) (ramped 3 x) 3 = Int64.maxValue - 7 := by
  obtain ⟨k, hk⟩ : ∃ k : Kernel 5, ofColumn 5 Column.observation = .ok k := ⟨_, rfl⟩
  obtain ⟨x, hx⟩ : ∃ x : ℕ → Int64, x = fun t =>
    [Int64.maxValue - 15, Int64.maxValue - 5, Int64.maxValue, Int64.maxValue - 7].getD t 0 :=
    ⟨_, rfl⟩
  -- The values grow up to the largest one, but no difference of them leaves the range.
  have hrange : InRange 3 (fun s => (x s).toInt) 3 := by
    rw [hx]
    unfold InRange Representable
    decide +kernel
  obtain ⟨k', hrestart, -, hvalues, -, hblank⟩ :=
    @restart_decodes 5 3 (by decide) (by decide) k (x 0)
  have hdecoded := hvalues x rfl 3 hrange
  cases hk
  refine ⟨_, k', x, rfl, by rw [hx]; rfl, hrange, by rw [hx]; decide +kernel, hrestart,
    (hblank _ rfl rfl).1, ?_⟩
  rw [hdecoded, hx]
  rfl

end Kernel

end CompactRinex
