import CompactRinex.Proofs.Difference.Blanks
import CompactRinex.Proofs.Tracking.Isolated
import Mathlib.Data.List.Induction
import Mathlib.Data.List.TakeWhile

/-!
# Kernels and lines

A kernel keeps the column that it was made for, whatever fields it takes in. `Kernel.ofLines` is the
kernel of a column that takes in one line after the other, where blank lines do not count; it has a
value as soon as there was a line that is not blank (`Kernel.of_ofLines`).
-/

namespace CompactRinex

namespace Field

/-- A blank text is a blank field, and no other text is. -/
theorem parse_eq_missing_iff {t : Text} : parse t = .ok .missing ↔ Text.isAllBlank t = true := by
  -- Nothing is left after trimming exactly if all characters are blanks.
  have htrim : Text.trim t = [] ↔ Text.isAllBlank t = true := by
    rw [Text.isAllBlank, List.all_eq_true]
    constructor
    · intro h c hc
      exact (Text.isBlank_or_mem_trim hc).resolve_right (by simp [h])
    · intro h
      have hstart : Text.trimStart t = [] := List.dropWhile_eq_nil_iff.2 h
      rw [Text.trim, hstart, Text.trimEnd_nil]
  rw [parse_eq_ok_iff, ← htrim]
  constructor
  · rintro (⟨h, -⟩ | ⟨before, after, -, hliteral⟩ | ⟨-, value, -, hvalue⟩)
    · exact h
    · obtain ⟨order, value, -, -, hmissing⟩ := parseLiteral?_eq_some_iff.1 hliteral
      cases hmissing
    · cases hvalue
  · exact fun h => Or.inl ⟨h, rfl⟩

end Field

namespace Kernel

variable {maxOrder : ℕ}

/-- A field does not change the column of its kernel. -/
theorem column_of_step {k k' : Kernel maxOrder} {field : Field} {value : Option Int64}
    (h : k.step field = .ok (k', value)) : k'.column = k.column := by
  cases field with
  | missing => cases h; rfl
  | literal order literal =>
    obtain ⟨restarted, hrestart, hk⟩ := map_eq_ok_iff.1 h
    cases hk
    obtain ⟨n, -, rfl⟩ := map_eq_ok_iff.1 hrestart
    rfl
  | delta difference => cases h; rfl

/-- A new kernel has the column that it was made for, and no value. -/
theorem of_ofColumn {column : Column} {k : Kernel maxOrder} (h : ofColumn maxOrder column = .ok k) :
    k.column = column ∧ k.value? = none := by
  obtain ⟨n, -, rfl⟩ := map_eq_ok_iff.1 h
  exact ⟨rfl, rfl⟩

/-- After a field that is not blank the kernel has a value. -/
theorem value?_of_step {k k' : Kernel maxOrder} {field : Field} {value : Option Int64}
    (h : k.step field = .ok (k', value)) (hfield : field ≠ .missing) :
    k'.value? ≠ none := by
  cases field with
  | missing => exact absurd rfl hfield
  | literal order literal =>
    obtain ⟨restarted, hrestart, hk⟩ := map_eq_ok_iff.1 h
    cases hk
    rw [value?_of_restart hrestart]
    exact Option.some_ne_none _
  | delta difference =>
    cases h
    rw [value?_advance]
    exact Option.some_ne_none _

/-! ## Lines -/

/-- The kernel after a line. -/
def takeLine (k : Kernel maxOrder) (line : Text) : Except Fault (Kernel maxOrder) := do
  let field ← Field.parse line
  (k.step field).map Prod.fst

/-- The kernel of a column that takes in these lines. Blank lines do not count. -/
def ofLines (maxOrder : ℕ) (column : Column) (lines : List Text) :
    Except Fault (Kernel maxOrder) := do
  let k ← ofColumn maxOrder column
  (lines.filter fun line => !Text.isAllBlank line).foldlM takeLine k

/-- A line is taken in as the field that it is read as. -/
theorem takeLine_eq_ok_iff {k k' : Kernel maxOrder} {line : Text} : k.takeLine line = .ok k' ↔
    ∃ field value, Field.parse line = .ok field ∧ k.step field = .ok (k', value) := by
  unfold takeLine
  rw [bind_eq_ok_iff]
  constructor
  · rintro ⟨field, hfield, h⟩
    obtain ⟨⟨_, value⟩, hstep, rfl⟩ := map_eq_ok_iff.1 h
    exact ⟨field, value, hfield, hstep⟩
  · rintro ⟨field, value, hfield, hstep⟩
    exact ⟨field, hfield, map_eq_ok_iff.2 ⟨_, hstep, rfl⟩⟩

/-- Before the first line. -/
theorem ofLines_nil (column : Column) : ofLines maxOrder column [] = ofColumn maxOrder column := by
  simp [ofLines]

/-- A blank line more makes no difference. -/
theorem ofLines_concat_blank (column : Column) (lines : List Text) {line : Text}
    (hblank : Text.isAllBlank line = true) :
    ofLines maxOrder column (lines ++ [line]) = ofLines maxOrder column lines := by
  simp [ofLines, List.filter_append, hblank]

/-- Any other line more is a field more. -/
theorem ofLines_concat (column : Column) (lines : List Text) {line : Text}
    (hblank : Text.isAllBlank line = false) :
    ofLines maxOrder column (lines ++ [line]) =
      ofLines maxOrder column lines >>= fun k => k.takeLine line := by
  simp [ofLines, List.filter_append, hblank]

/-- The kernel has the column that it was made for, and a value as soon as a line was not blank. -/
theorem of_ofLines {column : Column} {lines : List Text} {k : Kernel maxOrder}
    (h : ofLines maxOrder column lines = .ok k) : k.column = column ∧
      (k.value? = none ↔ ∀ line ∈ lines, Text.isAllBlank line = true) := by
  -- From the last line on, which is the one that the kernel has taken in last.
  induction lines using List.reverseRecOn generalizing k with
  | nil =>
    rw [ofLines_nil] at h
    obtain ⟨hcolumn, hvalue⟩ := of_ofColumn h
    exact ⟨hcolumn, iff_of_true hvalue (List.forall_mem_nil _)⟩
  | append_singleton lines line ih =>
    rw [List.forall_mem_append, List.forall_mem_singleton]
    cases hblank : Text.isAllBlank line with
    | true =>
      rw [ofLines_concat_blank column lines hblank] at h
      obtain ⟨hcolumn, hvalue⟩ := ih h
      exact ⟨hcolumn, hvalue.trans (and_iff_left rfl).symm⟩
    | false =>
      rw [ofLines_concat column lines hblank] at h
      obtain ⟨k₀, hk₀, hline⟩ := bind_eq_ok_iff.1 h
      obtain ⟨field, value, hfield, hstep⟩ := takeLine_eq_ok_iff.1 hline
      have hpresent : field ≠ .missing := by
        rintro rfl
        rw [Field.parse_eq_missing_iff.1 hfield] at hblank
        cases hblank
      refine ⟨(column_of_step hstep).trans (ih hk₀).1, ?_⟩
      exact iff_of_false (value?_of_step hstep hpresent) fun h => Bool.false_ne_true h.2

end Kernel

end CompactRinex
