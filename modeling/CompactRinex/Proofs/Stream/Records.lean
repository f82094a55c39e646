import CompactRinex.Proofs.Stream.Items

/-!
# What each line leads to

A stream takes in one line after the other, each when nothing is queued, and its items are what the
lines have led to, in order (`Stream.yields_intakes`). A line of the header is given as it is. A
special record is written by the body and cut into lines again, which drops a carriage return at its
end: it leads to one item, the record without that return (`Stream.Opens.record_items`).
-/

namespace CompactRinex

variable {maxOrder : ℕ}

namespace Reader

/-- The queued lines stay when the body is opened. -/
theorem pending_openBody (r : Reader maxOrder) : r.openBody.state.pending = r.pending := by
  unfold openBody
  split
  · rfl
  · split <;> rfl

/-- A line of the header is queued as it is, or not at all. -/
theorem pending_takeHeader {r : Reader maxOrder} (hqueue : r.pending = []) (line : Text) :
    (r.takeHeader line).state.pending = [] ∨ (r.takeHeader line).state.pending = [line] := by
  unfold takeHeader
  dsimp only
  split
  · exact Or.inl hqueue
  · next forwarded _ =>
    -- The queue has been empty, so at most this line is in it.
    have hqueued : (if forwarded then r.pending ++ [line] else r.pending) = [] ∨
        (if forwarded then r.pending ++ [line] else r.pending) = [line] := by
      rw [hqueue]
      cases forwarded
      · exact Or.inl rfl
      · exact Or.inr rfl
    split
    · rw [pending_openBody]
      exact hqueued
    · exact hqueued

end Reader

/-- A line that a stream takes in. -/
structure Intake (maxOrder : ℕ) where
  /-- What has been learned from the lines before it. -/
  reader : Reader maxOrder
  /-- The line. -/
  line : Text
  /-- Nothing is queued. -/
  pending_eq : reader.pending = []

namespace Intake

/-- The items that the line leads to, if it is accepted. -/
def items (i : Intake maxOrder) : List Text :=
  match (i.reader.take i.line).result with
  | .ok () => (i.reader.take i.line).state.pending
  | .error _ => []

/-- The line is a special record, and is accepted. -/
def IsRecord (i : Intake maxOrder) : Prop :=
  ∃ b left update, i.reader.body = some b ∧ b.phase = .records left update ∧
    (b.step i.line).fault = none

/-- A line of the header is given as it is, or it does not belong to the recovered file. -/
theorem items_of_header {i : Intake maxOrder} (hheader : i.reader.body = none) :
    i.items = [] ∨ i.items = [i.line] := by
  -- A line of the header is queued as it is, or not at all.
  have hpending : (i.reader.take i.line).state.pending = [] ∨
      (i.reader.take i.line).state.pending = [i.line] := by
    unfold Reader.take
    dsimp only
    split
    · refine Reader.pending_takeHeader ?_ i.line
      exact i.pending_eq
    · next b hbody => cases hheader.symm.trans hbody
  unfold items
  split
  · exact hpending
  · exact Or.inl rfl

/-- A record that is accepted leads to one item, which lacks a carriage return at its end. -/
theorem items_of_isRecord {i : Intake maxOrder} (h : i.IsRecord) (hline : '\n' ∉ i.line) :
    i.items = [Text.dropReturn '\r' i.line] := by
  obtain ⟨b, left, update, hbody, hphase, hfault⟩ := h
  -- The record is written before it is looked at.
  have houtput : (b.step i.line).output = i.line ++ ['\n'] := by
    simp only [Body.step, Body.stepAlong, hphase, Body.readRecord]
    cases update with
    | none => rfl
    | some header =>
      dsimp only
      cases (header.readLine i.line).result <;> rfl
  simp only [items, Reader.take, hbody, Reader.takeBody, hfault, Outcome.ok, i.pending_eq,
    houtput, List.nil_append, Text.lines_concat_newline hline]

end Intake

namespace Stream

/-- The lines that are taken in, from these, up to the first that is refused. -/
def intakesFrom : List SourceLine → Reader maxOrder → List (Intake maxOrder)
  | [], _ | .error _ :: _, _ => []
  | .ok line :: rest, r =>
    let r := { r with pending := [] }
    if r.done then []
    else
      ⟨r, line, rfl⟩ :: match (r.take line).result with
        | .ok () => intakesFrom rest (r.take line).state
        | .error _ => []

/-- The lines that a stream takes in. -/
def intakes (s : Stream maxOrder) : List (Intake maxOrder) := intakesFrom s.source s.reader

/-- The items of a drain are the queued lines, and then what each line leads to. -/
theorem lines_drainFrom (source : List SourceLine) (r : Reader maxOrder) :
    (drainFrom source r).lines = r.pending ++ (intakesFrom source r).flatMap Intake.items := by
  induction source generalizing r with
  | nil =>
    rw [intakesFrom, List.flatMap_nil, List.append_nil, drainFrom]
    dsimp only
    split
    · rfl
    · split <;> rfl
  | cons l source ih =>
    rw [drainFrom.eq_def]
    cases l with
    | error fault =>
      rw [intakesFrom, List.flatMap_nil, List.append_nil]
      dsimp only
      split <;> rfl
    | ok line =>
      rw [intakesFrom]
      dsimp only
      split
      · rw [List.flatMap_nil, List.append_nil]
      · rw [List.flatMap_cons]
        simp only [Intake.items]
        split
        · next hresult => simp [hresult]
        · next hresult => rw [hresult, ih]

/-- The lines are taken in as they come. -/
theorem intakesFrom_in_order (source : List SourceLine) (r : Reader maxOrder) :
    (intakesFrom source r).map (fun i => .ok i.line) <+: source := by
  induction source generalizing r with
  | nil => exact List.nil_prefix
  | cons l source ih =>
    cases l with
    | error fault => exact List.nil_prefix
    | ok line =>
      rw [intakesFrom]
      dsimp only
      split
      · exact List.nil_prefix
      · rw [List.map_cons, List.cons_prefix_cons]
        refine ⟨rfl, ?_⟩
        split
        · exact ih _
        · exact List.nil_prefix

/-- The items of a stream are what is queued, and then what each line leads to. -/
theorem yields_intakes (s : Stream maxOrder) :
    ∃ e, Yields s (s.reader.pending ++ s.intakes.flatMap Intake.items) e := by
  refine ⟨s.drain.error, ?_⟩
  have hyields := s.yields_drain
  have hlines : s.drain.lines = _ := lines_drainFrom s.source s.reader
  rw [hlines] at hyields
  exact hyields

/-- A stream of a file with these lines, or of a body alone with them, of which no item has been
asked for. -/
inductive Opens (source : List SourceLine) : Stream maxOrder → Prop where
  /-- The stream of a whole file. -/
  | file : Opens source (ofFile maxOrder source)
  /-- The stream of a body alone. -/
  | body {layout : Layout} {s : Stream maxOrder} (h : ofBody maxOrder source layout = .ok s) :
      Opens source s

/-- The source and the queue of an opened stream. -/
theorem Opens.eq {source : List SourceLine} {s : Stream maxOrder} (h : Opens source s) :
    s.source = source ∧ s.reader.pending = [] := by
  cases h with
  | file => exact ⟨rfl, rfl⟩
  | body h =>
    unfold ofBody at h
    split at h
    · cases h
    · cases h
      exact ⟨rfl, rfl⟩

/-- The items of a stream are what its lines lead to, one line after the other. A line of the header
is given as it is or not at all. A special record that is accepted leads to exactly one item: the
record, without the carriage return if it ends with one, so that a record is given as it is exactly
when it does not end with a carriage return. -/
theorem Opens.record_items {gzip : Bool} {content : List UInt8} {s : Stream maxOrder}
    (h : Opens (SourceLine.ofFile gzip (.ok content)) s) :
    (∃ e, Yields s (s.intakes.flatMap Intake.items) e) ∧
      (s.intakes.map fun i => .ok i.line) <+: SourceLine.ofFile gzip (.ok content) ∧
      ∀ i ∈ s.intakes,
        (i.reader.body = none → i.items = [] ∨ i.items = [i.line]) ∧
        (i.IsRecord → i.items = [Text.dropReturn '\r' i.line] ∧
          (i.items = [i.line] ↔ i.line.getLast? ≠ some '\r')) := by
  obtain ⟨hsource, hqueue⟩ := h.eq
  have horder : (s.intakes.map fun i => .ok i.line) <+: SourceLine.ofFile gzip (.ok content) := by
    rw [← hsource]
    exact intakesFrom_in_order s.source s.reader
  refine ⟨?items, horder, fun i hi => ?_⟩
  case items =>
    have hyields := s.yields_intakes
    rw [hqueue] at hyields
    exact hyields
  refine ⟨Intake.items_of_header, fun hrecord => ?_⟩
  -- A line that comes from the content has no line feed in it.
  have hline : '\n' ∉ i.line :=
    SourceLine.newline_not_mem (horder.subset (List.mem_map.2 ⟨i, hi, rfl⟩))
  have hitems := Intake.items_of_isRecord hrecord hline
  refine ⟨hitems, ?_⟩
  rw [hitems, List.cons_eq_cons, ← Text.dropReturn_eq_self_iff]
  exact and_iff_left rfl

/-- Records that are empty, start with a tab and end with a carriage return. -/
theorem record_items_control :
    ∃ (content : List UInt8) (s : Stream 5),
      content = Text.encode "> 2021 01 01 00 00 00.0000000  5  3\n\tA\n\nB\r\r\n".toList ∧
      Opens (SourceLine.ofFile false (.ok content)) s ∧
      s.intakes.flatMap Intake.items =
        ["> 2021 01 01 00 00 00.0000000  5  3".toList, "\tA".toList, [], ['B']] ∧
      (∃ e, Yields s (s.intakes.flatMap Intake.items) e) ∧
      ∀ i ∈ s.intakes, i.IsRecord → i.items = [Text.dropReturn '\r' i.line] := by
  have hsource : SourceLine.ofFile false
      (.ok (Text.encode "> 2021 01 01 00 00 00.0000000  5  3\n\tA\n\nB\r\r\n".toList)) =
      [.ok "> 2021 01 01 00 00 00.0000000  5  3".toList, .ok "\tA".toList, .ok [],
        .ok "B\r".toList] := by
    show SourceLine.ofBytes _ = _
    rw [SourceLine.ofBytes_encode]
    rfl
  have hopen : ofBody 5 [.ok "> 2021 01 01 00 00 00.0000000  5  3".toList, .ok "\tA".toList, .ok [],
      .ok "B\r".toList] ((Layout.ofRevision .v3).withObservables .gps 1) = .ok _ := rfl
  rw [← hsource] at hopen
  have hitems := Opens.record_items (.body hopen)
  refine ⟨_, _, rfl, .body hopen, ?_, hitems.1, fun i hi h => ((hitems.2.2 i hi).2 h).1⟩
  rfl

/-- A record that ends with a carriage return is not given as it is. -/
theorem record_without_return :
    ∃ (s : Stream 5) (event record : Intake 5),
      Opens (SourceLine.ofFile false
        (.ok (Text.encode "> 2021 01 01 00 00 00.0000000  5  1\nAN EVENT\r\r\n".toList))) s ∧
      s.intakes = [event, record] ∧ record.IsRecord ∧ record.line = "AN EVENT\r".toList ∧
      record.items = ["AN EVENT".toList] ∧ record.items ≠ [record.line] := by
  -- The bytes are cut at the line feeds, and one return goes with each.
  have hsource : SourceLine.ofFile false
      (.ok (Text.encode "> 2021 01 01 00 00 00.0000000  5  1\nAN EVENT\r\r\n".toList)) =
      [.ok "> 2021 01 01 00 00 00.0000000  5  1".toList, .ok "AN EVENT\r".toList] := by
    show SourceLine.ofBytes _ = _
    rw [SourceLine.ofBytes_encode]
    rfl
  have hopen : ofBody 5 [.ok "> 2021 01 01 00 00 00.0000000  5  1".toList, .ok "AN EVENT\r".toList]
      ((Layout.ofRevision .v3).withObservables .gps 1) = .ok _ := rfl
  rw [hsource]
  refine ⟨_, _, _, .body hopen, rfl, ⟨_, _, _, rfl, rfl, rfl⟩, rfl, rfl, ?_⟩
  show ["AN EVENT".toList] ≠ ["AN EVENT\r".toList]
  decide

end Stream

end CompactRinex
