import CompactRinex.Proofs.Body.Forms
import CompactRinex.Proofs.Tracking.Operations

/-!
# Tracks in two tables

The kernels of all satellites in one table, by satellite and column, and their flags in another, by
satellite: a data line touches the flags first and then the kernels one after the other, and each
table is pruned on its own. `Ledger.Carries` says that the two hold the same as the tracks. Every
operation keeps it (`Carries.perform`), so every sequence of operations gets the same answers and
leads to the same values, and satellites do not disturb each other in the tables either
(`Tracking.satellites_independent`).
-/

namespace CompactRinex

/-- The tracks of the satellites in two tables. -/
structure Ledger (maxOrder : ℕ) where
  /-- The kernels, by satellite and column. -/
  kernels : Table (Satellite × ℕ) (Kernel maxOrder)
  /-- The flags, by satellite. -/
  flags : Table Satellite Overlay

namespace Ledger

variable {maxOrder : ℕ}

/-- No satellite has a track. -/
def empty : Ledger maxOrder := ⟨∅, ∅⟩

/-- Keeps the tracks of these satellites only. -/
def retain (l : Ledger maxOrder) (satellites : List Satellite) : Ledger maxOrder :=
  ⟨l.kernels.restrict fun key => satellites.contains key.1, l.flags.restrict satellites.contains⟩

/-- The satellite has a track. -/
def contains (l : Ledger maxOrder) (s : Satellite) : Bool := l.flags.contains s

/-- The latest value of a satellite in a column, if there is one. -/
def value? (l : Ledger maxOrder) (s : Satellite) (column : ℕ) : Option Int64 :=
  (l.kernels.get? (s, column)).bind Kernel.value?

/-- Takes the fields of a line, from column `i` on, into the kernels of the satellite, and writes
the values. The first column that fails ends the line. -/
def advanceCells (s : Satellite) : ℕ → List Column → List Field →
    Table (Satellite × ℕ) (Kernel maxOrder) →
      Outcome (Table (Satellite × ℕ) (Kernel maxOrder)) Fault (List Text)
  | i, column :: columns, field :: fields, kernels =>
    let cell := Track.advanceCell (kernels.get? (s, i)) column field
    -- A cell that is still missing leaves its key without a value.
    let kernels := cell.state.elim kernels (kernels.insert (s, i))
    match cell.result with
    | .error e => .fail kernels e
    | .ok text =>
      let rest := advanceCells s (i + 1) columns fields kernels
      ⟨rest.state, rest.result.map (text :: ·)⟩
  | _, _, _, kernels => .ok kernels []

/-- Takes in the data line of a satellite and answers with the record. -/
def decode (l : Ledger maxOrder) (layout : Layout) (s : Satellite) (id line : Text) :
    Outcome (Ledger maxOrder) Fault Text :=
  match layout.columnsOf s with
  | none => .fail l (.unknownObservables s.constellation)
  | some columns =>
    if Text.isAscii line then
      match DataLine.parse columns.length line with
      | .error e => .fail l e
      | .ok dataLine =>
        let overlay := (l.flags.get? s).getD (.withReference (2 * columns.length) [])
        let edited := overlay.edit dataLine.flags
        let flags := l.flags.insert s edited.state
        match edited.result with
        | .error e => .fail ⟨l.kernels, flags⟩ e
        | .ok text =>
          let cells := advanceCells s 0 columns dataLine.fields l.kernels
          ⟨⟨cells.state, flags⟩,
            cells.result.map fun values =>
              Tracking.render layout.revision id (Track.withFlags text values)⟩
    else .fail l .nonAscii

/-- The tables after an operation, accepted or rejected. -/
def perform (l : Ledger maxOrder) : Tracking.Operation → Ledger maxOrder
  | .decode layout satellite id line => (l.decode layout satellite id line).state
  | .retain satellites => l.retain satellites
  | .reset => empty

/-- The tables after a sequence of operations. -/
def performAll (l : Ledger maxOrder) (operations : List Tracking.Operation) : Ledger maxOrder :=
  operations.foldl perform l

/-- The answer to an operation, if it is a data line of the satellite. -/
def answer? (s : Satellite) (l : Ledger maxOrder) :
    Tracking.Operation → Option (Except Fault Text)
  | .decode layout satellite id line =>
    if satellite = s then some (l.decode layout satellite id line).result else none
  | .retain _ | .reset => none

/-- The answers to the data lines of the satellite, in order. -/
def answers (s : Satellite) (l : Ledger maxOrder) :
    List Tracking.Operation → List (Except Fault Text)
  | [] => []
  | operation :: rest => (l.answer? s operation).toList ++ answers s (l.perform operation) rest

/-! ## The same tracks -/

/-- The tables hold the same as the tracks. -/
structure Carries (l : Ledger maxOrder) (t : Tracking maxOrder) : Prop where
  /-- The satellites that have flags are those that have a track. -/
  flags_eq : ∀ s, l.flags.get? s = (t.tracks.get? s).map Track.flags
  /-- The kernels are those of the tracks. -/
  kernel_eq : ∀ s i, l.kernels.get? (s, i) = t.kernel? s i

/-- The satellites with flags are those that have a track. -/
theorem Carries.contains_eq {l : Ledger maxOrder} {t : Tracking maxOrder} (h : l.Carries t)
    (s : Satellite) : l.contains s = t.contains s := by
  show (l.flags.get? s).isSome = (t.tracks.get? s).isSome
  rw [h.flags_eq, Option.isSome_map]

/-- The latest values are those of the tracks. -/
theorem Carries.value?_eq {l : Ledger maxOrder} {t : Tracking maxOrder} (h : l.Carries t)
    (s : Satellite) (i : ℕ) : l.value? s i = t.value? s i := by
  show (l.kernels.get? (s, i)).bind Kernel.value? = t.value? s i
  rw [h.kernel_eq, Tracking.value?_eq]

/-- The kernel of a cell stays, once it exists. -/
theorem eq_none_of_advanceCell {kernel : Option (Kernel maxOrder)} {column : Column} {field : Field}
    (h : (Track.advanceCell kernel column field).state = none) : kernel = none := by
  unfold Track.advanceCell at h
  split at h
  · exact h
  · split at h
    · exact h
    · split at h
      · cases h
      · cases h
      · cases h

/-- A cell leads to the same kernel in its column, and touches no other. -/
theorem get?_advanceCell (s : Satellite) {i : ℕ} {table : Table (Satellite × ℕ) (Kernel maxOrder)}
    {kernels : List (Option (Kernel maxOrder))}
    (h : ∀ j, table.get? (s, i + j) = (kernels[j]?).join) {column : Column} {field : Field}
    {cell : Outcome (Option (Kernel maxOrder)) Fault Text}
    (hcell : Track.advanceCell (table.get? (s, i)) column field = cell)
    {moved : Table (Satellite × ℕ) (Kernel maxOrder)}
    (hmoved : cell.state.elim table (table.insert (s, i)) = moved) :
    moved.get? (s, i) = cell.state ∧
      (∀ j, moved.get? (s, i + 1 + j) = (kernels.tail[j]?).join) ∧
      ∀ s' j, s' ≠ s ∨ j < i → moved.get? (s', j) = table.get? (s', j) := by
  have hget : ∀ key, moved.get? key = if key = (s, i) then cell.state else table.get? key := by
    intro key
    rw [← hmoved]
    cases hstate : cell.state with
    | some k => exact Table.get?_insert table (s, i) key k
    | none =>
      -- There was no kernel before either.
      rw [← hcell] at hstate
      have hnone := eq_none_of_advanceCell hstate
      split
      · next hkey => rw [hkey]; exact hnone
      · rfl
  refine ⟨by rw [hget, if_pos rfl], fun j => ?_, fun s' j hother => ?_⟩
  · have hne : (s, i + 1 + j) ≠ (s, i) := by
      intro heq
      have := (Prod.mk.inj heq).2
      omega
    rw [hget, if_neg hne, Track.join_tail, ← h (j + 1), Nat.add_assoc, Nat.add_comm 1 j]
  · have hne : (s', j) ≠ (s, i) := by
      intro heq
      obtain ⟨hs, hj⟩ := Prod.mk.inj heq
      rcases hother with hs' | hj'
      · exact hs' hs
      · omega
    rw [hget, if_neg hne]

/-- The fields of a line lead to the same kernels, and touch no others. -/
theorem advanceCells_eq (s : Satellite) {i : ℕ} {columns : List Column} {fields : List Field}
    {table : Table (Satellite × ℕ) (Kernel maxOrder)} {kernels : List (Option (Kernel maxOrder))}
    (h : ∀ j, table.get? (s, i + j) = (kernels[j]?).join) :
    (advanceCells s i columns fields table).result =
        (Track.advanceCells columns fields kernels).result ∧
      (∀ j, (advanceCells s i columns fields table).state.get? (s, i + j) =
        ((Track.advanceCells columns fields kernels).state[j]?).join) ∧
      ∀ s' j, s' ≠ s ∨ j < i →
        (advanceCells s i columns fields table).state.get? (s', j) = table.get? (s', j) := by
  induction columns generalizing i fields table kernels with
  | nil => exact ⟨rfl, h, fun _ _ _ => rfl⟩
  | cons column columns ih =>
    cases fields with
    | nil => exact ⟨rfl, h, fun _ _ _ => rfl⟩
    | cons field fields =>
      have hhead : kernels.head?.join = table.get? (s, i) := by
        rw [← Track.join_head?, ← h 0, Nat.add_zero]
      simp only [advanceCells, Track.advanceCells, hhead]
      generalize hcell : Track.advanceCell (table.get? (s, i)) column field = cell
      generalize hmoved : cell.state.elim table (table.insert (s, i)) = moved
      obtain ⟨hself, hlater, hothers⟩ := get?_advanceCell s h hcell hmoved
      cases cell.result with
      | error e =>
        -- The line ends at this column.
        refine ⟨rfl, fun j => ?_, hothers⟩
        cases j with
        | zero => exact hself
        | succ j =>
          have hj : i + (j + 1) = i + 1 + j := by omega
          rw [hj]
          exact hlater j
      | ok text =>
        obtain ⟨hresult, hcells, hkept⟩ := @ih (i + 1) fields moved kernels.tail hlater
        refine ⟨congrArg (Except.map (text :: ·)) hresult, fun j => ?_, fun s' j hother => ?_⟩
        · cases j with
          | zero => exact (hkept s i (Or.inr (Nat.lt_succ_self i))).trans hself
          | succ j =>
            have hj : i + (j + 1) = i + 1 + j := by omega
            rw [hj]
            exact hcells j
        · have hother' : s' ≠ s ∨ j < i + 1 := hother.imp_right Nat.lt_succ_of_lt
          exact (hkept s' j hother').trans (hothers s' j hother)

variable {l : Ledger maxOrder} {t : Tracking maxOrder}

/-- Empty tables hold no track. -/
theorem carries_empty : Carries (empty : Ledger maxOrder) ∅ := ⟨fun _ => rfl, fun _ _ => rfl⟩

/-- Both tables are pruned as the tracks are. -/
theorem Carries.retain (h : Carries l t) (satellites : List Satellite) :
    Carries (l.retain satellites) (t.retain satellites) := by
  constructor
  · intro s
    simp only [Ledger.retain, Tracking.retain, Table.get?_restrict, h.flags_eq]
    split <;> rfl
  · intro s i
    simp only [Ledger.retain, Table.get?_restrict, h.kernel_eq, Tracking.kernel?_retain,
      List.contains_iff_mem]

/-- A track that is put in is put into both tables. -/
theorem Carries.insert (h : Carries l t) (s : Satellite) {flags : Overlay}
    {table : Table (Satellite × ℕ) (Kernel maxOrder)} {kernels : List (Option (Kernel maxOrder))}
    (hself : ∀ j, table.get? (s, j) = (kernels[j]?).join)
    (hothers : ∀ s' j, s' ≠ s → table.get? (s', j) = l.kernels.get? (s', j)) :
    Carries ⟨table, l.flags.insert s flags⟩ ⟨t.tracks.insert s ⟨flags, kernels⟩⟩ := by
  constructor
  · intro s'
    simp only [Table.get?_insert]
    split
    · rfl
    · exact h.flags_eq s'
  · intro s' j
    by_cases hs : s' = s
    · rw [hs, Tracking.kernel?_insert]
      exact hself j
    · simp only [Tracking.kernel?, Table.get?_insert, hs, if_false]
      exact (hothers s' j hs).trans (h.kernel_eq s' j)

/-- A data line gets the same answer, and leads to the same tracks. -/
theorem Carries.decode (h : Carries l t) (layout : Layout) (s : Satellite) (id line : Text) :
    (l.decode layout s id line).result = (t.decode layout s id line).result ∧
      Carries (l.decode layout s id line).state (t.decode layout s id line).state := by
  unfold Ledger.decode Tracking.decode
  cases layout.columnsOf s with
  | none => exact ⟨rfl, h⟩
  | some columns =>
    dsimp only
    split
    · cases DataLine.parse columns.length line with
      | error e => exact ⟨rfl, h⟩
      | ok dataLine =>
        dsimp only
        -- Both sides start with empty flags of the same width.
        have hflags : (l.flags.get? s).getD (.withReference (2 * columns.length) []) =
            ((t.tracks.get? s).getD (.fresh columns.length)).flags := by
          rw [h.flags_eq]
          cases t.tracks.get? s <;> rfl
        have hkernels : ∀ j, l.kernels.get? (s, 0 + j) =
            (((t.tracks.get? s).getD (.fresh columns.length)).kernels[j]?).join := by
          intro j
          rw [Nat.zero_add, h.kernel_eq, Tracking.kernel?_getD_fresh]
        rw [hflags]
        generalize (t.tracks.get? s).getD (.fresh columns.length) = track at hkernels ⊢
        simp only [Track.advance]
        cases (track.flags.edit dataLine.flags).result with
        | error e =>
          -- The flags are stored even if they cannot be recovered, and no cell has been read yet.
          refine ⟨rfl, h.insert s (fun j => ?_) fun _ _ _ => rfl⟩
          rw [← hkernels, Nat.zero_add]
        | ok text =>
          obtain ⟨hresult, hcells, hothers⟩ :=
            @advanceCells_eq _ s 0 columns dataLine.fields l.kernels track.kernels hkernels
          dsimp only
          refine ⟨?_, h.insert s (fun j => ?_) fun s' j hs => hothers s' j (Or.inl hs)⟩
          · rw [hresult]
            cases (Track.advanceCells columns dataLine.fields track.kernels).result <;> rfl
          · rw [← hcells, Nat.zero_add]
    · exact ⟨rfl, h⟩

/-- An operation gets the same answer, and leads to the same tracks. -/
theorem Carries.perform (h : Carries l t) (operation : Tracking.Operation) :
    (∀ s, l.answer? s operation = t.answer? s operation) ∧
      Carries (l.perform operation) (t.perform operation) := by
  cases operation with
  | decode layout satellite id line =>
    obtain ⟨hresult, hafter⟩ := h.decode layout satellite id line
    exact ⟨fun s => by simp only [answer?, Tracking.answer?, hresult], hafter⟩
  | retain satellites => exact ⟨fun _ => rfl, h.retain satellites⟩
  | reset => exact ⟨fun _ => rfl, carries_empty⟩

/-- A sequence of operations gets the same answers, and leads to the same tracks. -/
theorem Carries.performAll (h : Carries l t) (operations : List Tracking.Operation) :
    (∀ s, answers s l operations = Tracking.answers s t operations) ∧
      Carries (l.performAll operations) (t.performAll operations) := by
  induction operations generalizing l t with
  | nil => exact ⟨fun _ => rfl, h⟩
  | cons operation rest ih =>
    obtain ⟨hanswer, hafter⟩ := h.perform operation
    obtain ⟨hanswers, hend⟩ := ih hafter
    exact ⟨fun s => by simp only [answers, Tracking.answers, hanswer, hanswers], hend⟩

end Ledger

namespace Tracking

variable {maxOrder : ℕ}

/-- Satellites do not disturb each other, however their lines are interleaved. In every sequence of
operations, with accepted and rejected lines, the answers to the data lines of a satellite, whether
it has a track at the end and all its values then are the same as without the data lines of the
other satellites. So two lines of different satellites can be exchanged, which changes no answer and
the track of no satellite. All of this is so in two tables as well, which are pruned separately:
they get the same answers, and hold the same satellites and values. -/
theorem satellites_independent (t : Tracking maxOrder) :
    (∀ (operations : List Operation) (s : Satellite),
      answers s t operations = answers s t (operations.filter (Operation.concerns s)) ∧
      (t.performAll operations).contains s =
        (t.performAll (operations.filter (Operation.concerns s))).contains s ∧
      ∀ i, (t.performAll operations).value? s i =
        (t.performAll (operations.filter (Operation.concerns s))).value? s i) ∧
    (∀ (earlier later : List Operation) (one two : Operation) (s₁ s₂ : Satellite),
      one.satellite? = some s₁ → two.satellite? = some s₂ → s₁ ≠ s₂ → ∀ s,
        answers s t (earlier ++ one :: two :: later) =
          answers s t (earlier ++ two :: one :: later) ∧
        (t.performAll (earlier ++ one :: two :: later)).tracks.get? s =
          (t.performAll (earlier ++ two :: one :: later)).tracks.get? s) ∧
    ∀ l : Ledger maxOrder, l.Carries t → ∀ (operations : List Operation) (s : Satellite),
      l.answers s operations = answers s t operations ∧
      (l.performAll operations).contains s = (t.performAll operations).contains s ∧
      ∀ i, (l.performAll operations).value? s i = (t.performAll operations).value? s i := by
  refine ⟨fun operations s => ?filter, fun earlier later one two s₁ s₂ hone htwo hne s => ?exchange,
    fun l hl operations s => ?tables⟩
  case filter =>
    have hself : Agree s t t := rfl
    obtain ⟨hanswers, hend⟩ := agree_performAll hself operations
    exact ⟨hanswers, hend.contains_eq, hend.value?_eq⟩
  case exchange =>
    exact agree_of_filter_eq (filter_concerns_exchange hone htwo hne s earlier later) t
  case tables =>
    obtain ⟨hanswers, hend⟩ := hl.performAll operations
    exact ⟨hanswers s, hend.contains_eq s, hend.value?_eq s⟩

/-- A line that is rejected in its second column changes places with a line of another satellite, in
the tracks and in the tables. -/
theorem satellites_independent_rejected :
    ∃ (layout : Layout) (accepted rejected : Operation),
      layout = (Layout.ofRevision .v3).withObservables .gps 2 ∧
      accepted = .decode layout ⟨.gps, 1⟩ "G01".toList "3&1000 3&7".toList ∧
      rejected = .decode layout ⟨.gps, 2⟩ "G02".toList "3&500 9&7".toList ∧
      answers ⟨.gps, 2⟩ (∅ : Tracking 5) [accepted, rejected] = [.error (.orderTooBig 9 5)] ∧
      (performAll (∅ : Tracking 5) [accepted, rejected]).value? ⟨.gps, 2⟩ 0 = some 500 ∧
      (⟨.gps, 1⟩ : Satellite) ≠ ⟨.gps, 2⟩ ∧
      (∀ s, answers s (∅ : Tracking 5) [accepted, rejected] =
          answers s (∅ : Tracking 5) [rejected, accepted] ∧
        (performAll (∅ : Tracking 5) [accepted, rejected]).tracks.get? s =
          (performAll (∅ : Tracking 5) [rejected, accepted]).tracks.get? s) ∧
      ∀ s, (Ledger.empty : Ledger 5).answers s [accepted, rejected] =
        answers s (∅ : Tracking 5) [accepted, rejected] := by
  refine ⟨_, _, _, rfl, rfl, rfl, ?answer, ?value, ?ne, ?exchange, ?tables⟩
  case answer => rfl
  case value => rfl
  case ne => decide
  case exchange =>
    exact (satellites_independent ∅).2.1 [] [] _ _ ⟨.gps, 1⟩ ⟨.gps, 2⟩ rfl rfl (by decide)
  case tables =>
    exact fun s => ((satellites_independent ∅).2.2 .empty Ledger.carries_empty _ s).1

end Tracking

end CompactRinex
