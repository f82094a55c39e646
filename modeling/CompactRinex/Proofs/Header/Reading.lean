import CompactRinex.Proofs.Body.Run

/-!
# Reading a header

The lines of a header are read one after the other. A line of the recovered file leaves the count of
lines alone, and completes the header only if it is accepted; so a header that is refused is not
complete (`Header.complete_parseLine_of_error`). The layout of a complete header has columns of the
usual form only, and a body can be started with it if their order is admitted.
-/

namespace CompactRinex

namespace Header

/-! ## Lines of the recovered file -/

/-- The number of lines and the end of the header are not touched. -/
def Keeps (h h' : Header) : Prop := h'.lineCount = h.lineCount ∧ h'.complete = h.complete

/-- Only what the lines of the recovered file say is touched. -/
def Rewrites (h h' : Header) : Prop :=
  ∃ version constellation definitions pending,
    h' = { h with version, constellation, definitions, pending }

/-- A line may change nothing. -/
theorem Rewrites.refl (h : Header) : h.Rewrites h := ⟨_, _, _, _, rfl⟩

/-- Two changes after each other are one. -/
theorem Rewrites.trans {h₁ h₂ h₃ : Header} (h : h₁.Rewrites h₂) (h' : h₂.Rewrites h₃) :
    h₁.Rewrites h₃ := by
  obtain ⟨_, _, _, _, rfl⟩ := h
  obtain ⟨_, _, _, _, rfl⟩ := h'
  exact ⟨_, _, _, _, rfl⟩

/-- The count of lines and the end are not rewritten. -/
theorem Rewrites.keeps {h h' : Header} (hrewrites : h.Rewrites h') : h.Keeps h' := by
  obtain ⟨_, _, _, _, rfl⟩ := hrewrites
  exact ⟨rfl, rfl⟩

/-- The compression is not rewritten. -/
theorem Rewrites.compression_eq {h h' : Header} (hrewrites : h.Rewrites h') :
    h'.compression = h.compression := by
  obtain ⟨_, _, _, _, rfl⟩ := hrewrites
  rfl

/-- The start of a definition touches nothing else. -/
theorem rewrites_declare (h : Header) (c : Constellation) (count : Text) :
    h.Rewrites (h.declare c count).state := by
  unfold declare
  split
  · exact ⟨_, _, _, _, rfl⟩
  · exact .refl h

/-- Nor do more codes. -/
theorem rewrites_collect (h : Header) (codes : Text) : h.Rewrites (h.collect codes) := by
  unfold collect
  split
  · exact .refl h
  · split
    · exact .refl h
    · exact ⟨_, _, _, _, rfl⟩

/-- Nor does a line that defines. -/
theorem rewrites_define (h : Header) (c : Constellation) (count codes : Text) :
    h.Rewrites (h.define c count codes).state := by
  unfold define
  have hdeclare := h.rewrites_declare c count
  dsimp only
  split
  · exact hdeclare
  · exact hdeclare.trans (rewrites_collect _ codes)

/-- Nor does the line of the revision. -/
theorem rewrites_readRevision (h : Header) (content : Text) :
    h.Rewrites (h.readRevision content).state := by
  unfold readRevision
  split
  · exact .refl h
  · dsimp only
    split
    · exact ⟨_, _, _, _, rfl⟩
    · split
      · exact ⟨_, _, _, _, rfl⟩
      · split
        · exact ⟨_, _, _, _, rfl⟩
        · exact ⟨_, _, _, _, rfl⟩

/-- Nor does a definition for all systems. -/
theorem rewrites_readSharedTypes (h : Header) (content : Text) :
    h.Rewrites (h.readSharedTypes content).state := by
  unfold readSharedTypes
  dsimp only
  split
  · exact h.rewrites_collect _
  · exact h.rewrites_define _ _ _

/-- Nor does the definition of one system. -/
theorem rewrites_readSystemTypes (h : Header) (content : Text) :
    h.Rewrites (h.readSystemTypes content).state := by
  unfold readSystemTypes
  dsimp only
  split
  · exact h.rewrites_collect _
  · split
    · exact h.rewrites_define _ _ _
    · exact .refl h

/-- A line adds to what the header says, or it is the last line. -/
theorem readLine_cases (h : Header) (line : Text) :
    h.Rewrites (h.readLine line).state ∨
      h.readLine line = .ok { h with complete := true, pending := none } () := by
  unfold readLine
  split
  · exact Or.inl (.refl h)
  · dsimp only
    split
    · exact Or.inl (h.rewrites_readRevision _)
    · split
      · exact Or.inl (h.rewrites_readSharedTypes _)
      · split
        · exact Or.inl (h.rewrites_readSystemTypes _)
        · split
          · exact Or.inr rfl
          · exact Or.inl (.refl h)

/-! ## Lines of the compressed file -/

/-- What a line of a header that is not complete does: it is counted, it belongs to the recovered
file if it is not one of the first two, and only such a line completes the header. -/
structure ParsesLine (h : Header) (o : Outcome Header HeaderError Bool) : Prop where
  /-- The line is counted. -/
  lineCount_eq : o.state.lineCount = h.lineCount + 1
  /-- The first two lines are consumed. -/
  forwarded_eq : ∀ forwarded, o.result = .ok forwarded → forwarded = decide (2 ≤ h.lineCount)
  /-- The last line is an accepted one of the recovered file. -/
  of_complete : o.state.complete = true → o.result = .ok true ∧ 2 ≤ h.lineCount

/-- One of the first two lines is counted, and consumed if a compression is read off it. -/
theorem parsesLine_keepCompression {h h' : Header} (hcount : h'.lineCount = h.lineCount + 1)
    (hcomplete : h'.complete = false) (hfirst : h.lineCount < 2)
    (c : Except HeaderError Compression) : h.ParsesLine (h'.keepCompression c) := by
  cases c with
  | error e => exact ⟨hcount, nofun, fun h => absurd (hcomplete.symm.trans h) Bool.false_ne_true⟩
  | ok c =>
    refine ⟨hcount, ?_, fun h => absurd (hcomplete.symm.trans h) Bool.false_ne_true⟩
    rintro _ ⟨⟩
    exact (decide_eq_false (Nat.not_le_of_lt hfirst)).symm

/-- A later line is counted, and then read as a line of the recovered file. -/
theorem parseLine_of_two_le {h : Header} (hcount : 2 ≤ h.lineCount) (line : Text) :
    h.parseLine line =
      ⟨({ h with lineCount := h.lineCount + 1 }.readLine line).state,
        ({ h with lineCount := h.lineCount + 1 }.readLine line).result.map fun _ => true⟩ := by
  unfold parseLine
  split
  · omega
  · omega
  · rfl

/-- This is what every line does before the end of the header. -/
theorem parsesLine_parseLine {h : Header} (hcomplete : h.complete = false) (line : Text) :
    h.ParsesLine (h.parseLine line) := by
  rcases Nat.lt_or_ge h.lineCount 2 with hcount | hcount
  · have hkept : ∀ c, h.ParsesLine ({ h with lineCount := h.lineCount + 1 }.keepCompression c) :=
      parsesLine_keepCompression rfl hcomplete hcount
    unfold parseLine
    split
    · exact hkept _
    · exact hkept _
    · next hzero hone =>
      -- There is no third line among the first two.
      rcases Nat.lt_succ_iff_lt_or_eq.1 hcount with hlt | heq
      · exact absurd (Nat.lt_one_iff.1 hlt) hzero
      · exact absurd heq hone
  · rw [parseLine_of_two_le hcount]
    rcases readLine_cases { h with lineCount := h.lineCount + 1 } line with hrewrites | hlast
    · have hkeeps := hrewrites.keeps
      refine ⟨hkeeps.1, ?_, fun h' => ?_⟩
      · intro forwarded hresult
        obtain ⟨_, -, rfl⟩ := map_eq_ok_iff.1 hresult
        exact (decide_eq_true hcount).symm
      · exact absurd (hcomplete.symm.trans (hkeeps.2.symm.trans h')) Bool.false_ne_true
    · rw [hlast]
      refine ⟨rfl, ?_, fun _ => ⟨rfl, hcount⟩⟩
      rintro _ ⟨⟩
      exact (decide_eq_true hcount).symm

/-- A refused line does not complete the header. -/
theorem complete_parseLine_of_error {h : Header} (hcomplete : h.complete = false) {line : Text}
    {e : HeaderError} (herror : (h.parseLine line).result = .error e) :
    (h.parseLine line).state.complete = false := by
  refine Bool.eq_false_iff.2 fun h' => ?_
  have hresult := ((parsesLine_parseLine hcomplete line).of_complete h').1
  rw [herror] at hresult
  cases hresult

/-! ## The lines before the last one -/

/-- These lines are accepted and leave this header, which is not complete. -/
inductive Reads : List Text → Header → Prop where
  /-- Nothing has been read. -/
  | start : Reads [] ∅
  /-- One more line is accepted, and it is not the last one. -/
  | line {head : List Text} {h : Header} {line : Text} {forwarded : Bool} (hread : Reads head h)
      (hresult : (h.parseLine line).result = .ok forwarded)
      (hcomplete : (h.parseLine line).state.complete = false) :
      Reads (head ++ [line]) (h.parseLine line).state

/-- Before the end the header is not complete. -/
theorem Reads.complete_eq {head : List Text} {h : Header} (hread : Reads head h) :
    h.complete = false := by
  cases hread with
  | start => rfl
  | line _ _ hcomplete => exact hcomplete

/-- All lines have been counted. -/
theorem Reads.lineCount_eq {head : List Text} {h : Header} (hread : Reads head h) :
    h.lineCount = head.length := by
  induction hread with
  | start => rfl
  | line hread _ _ ih =>
    rw [(parsesLine_parseLine hread.complete_eq _).lineCount_eq, ih, List.length_append,
      List.length_singleton]

/-! ## The body of a header -/

/-- The body of every layout that a header gives can be recovered with differences of order 3. -/
theorem exists_body_of_layout {maxOrder : ℕ} (hM : 3 ≤ maxOrder) {h : Header} {layout : Layout}
    (hlayout : h.layout = .ok layout) : ∃ b, Body.ofLayout maxOrder layout = .ok b := by
  unfold Header.layout layoutAlong at hlayout
  split at hlayout
  · cases hlayout
  · next compression hcompression =>
    obtain ⟨revision, -, hlayout⟩ := bind_eq_ok_iff.1 hlayout
    split at hlayout
    · cases hlayout
    · obtain ⟨-, hclock, hcolumns⟩ := of_applyDefinitions hlayout
      -- All columns that a header defines start at order three.
      have hcolumn : ∀ column : Column, column.order = 3 →
          0 < column.order ∧ column.order ≤ maxOrder := fun column horder => by omega
      have hclock' := hcolumn revision.clock (by cases revision <;> rfl)
      have hadmitted : ∀ column ∈ layout.allColumns,
          0 < column.order ∧ column.order ≤ maxOrder := by
        intro column hmem
        rcases hcolumns column hmem with hmem | rfl
        · rcases Layout.mem_allColumns.1 hmem with rfl | ⟨_, _, hget, -⟩
          · exact hclock'
          · cases hget
        · exact hcolumn _ rfl
      have hkernel : ∃ clock, Clock.ofColumn maxOrder layout.clock = .ok clock := by
        rw [show layout.clock = revision.clock from hclock]
        unfold Clock.ofColumn Kernel.ofColumn
        rw [admitOrder_of_le hclock'.1 hclock'.2]
        exact ⟨_, rfl⟩
      obtain ⟨clock, hclock⟩ := hkernel
      exact ⟨_, bind_eq_ok_iff.2 ⟨(), (Layout.checkOrders_eq_ok_iff _ _).2 hadmitted,
        bind_eq_ok_iff.2 ⟨clock, hclock, rfl⟩⟩⟩

end Header

end CompactRinex
