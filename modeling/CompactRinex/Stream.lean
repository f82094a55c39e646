import CompactRinex.Body
import CompactRinex.Source

/-!
# Streams

A stream turns the lines of a compressed file into the lines of the recovered one, one item at a
time. The header is read first and gives the layout of the body; a stream of a body alone is given
its layout. Recovered lines wait in a queue until they are asked for. `Stream.next` gives the next
item, and `Stream.drain` everything up to the first error or the end, item by item
(`drain_eq_ofNext`).
-/

namespace CompactRinex

/-- Why a stream ends before its content does. -/
inductive StreamError where
  /-- A line cannot be had. -/
  | io (fault : IoFault)
  /-- The header is refused. -/
  | header (error : HeaderError)
  /-- A line of the body is refused: its number, from 1, and its content. -/
  | body (line : Nat) (content : Text) (fault : Fault)
  deriving DecidableEq, Repr

namespace StreamError

/-- The wording of the error. -/
def message : StreamError → String
  | io fault => s!"i/o error: {fault.message}"
  | header error => s!"header parsing error: {error.message}"
  | body line content fault => s!"line #{line}: {fault.message} (\"{String.ofList content}\")"

end StreamError

/-- What a stream has learned from the lines so far. -/
structure Reader (maxOrder : Nat) where
  /-- The number of lines taken in. -/
  lineCount : Nat
  /-- The header. -/
  header : Header
  /-- The body, once the header is complete. -/
  body : Option (Body maxOrder)
  /-- The recovered lines that have not been asked for. -/
  pending : List Text
  /-- The latest line of the body. -/
  last : Text
  /-- No further line is taken in. -/
  done : Bool
  deriving Repr

namespace Reader

variable {maxOrder : Nat}

/-- Nothing has been taken in. -/
def start : Reader maxOrder := ⟨0, ∅, none, [], [], false⟩

/-- Starts the body of a header that is complete. -/
def openBody (r : Reader maxOrder) : Outcome (Reader maxOrder) StreamError Unit :=
  match r.header.layout with
  | .error e => .fail r (.header e)
  | .ok layout =>
    match Body.ofLayout maxOrder layout with
    | .error fault => .fail r (.body r.lineCount [] fault)
    | .ok b => .ok { r with body := some b } ()

/-- Takes in a line of the header. A line of the recovered file is queued. -/
def takeHeader (r : Reader maxOrder) (line : Text) : Outcome (Reader maxOrder) StreamError Unit :=
  let read := r.header.parseLine line
  match read.result with
  | .error e => .fail { r with header := read.state } (.header e)
  | .ok forwarded =>
    let r := { r with
      header := read.state
      pending := if forwarded then r.pending ++ [line] else r.pending }
    if r.header.complete then r.openBody else .ok r ()

/-- Takes in a line of the body. The recovered text is queued line by line. -/
def takeBody (r : Reader maxOrder) (b : Body maxOrder) (line : Text) :
    Outcome (Reader maxOrder) StreamError Unit :=
  let progress := b.step line
  match progress.fault with
  | some fault => .fail { r with body := some progress.body } (.body r.lineCount line fault)
  | none =>
    .ok { r with
      body := some progress.body
      pending := r.pending ++ Text.lines progress.output
      last := line } ()

/-- Takes in a line. -/
def take (r : Reader maxOrder) (line : Text) : Outcome (Reader maxOrder) StreamError Unit :=
  let counted := { r with lineCount := r.lineCount + 1 }
  match r.body with
  | none => counted.takeHeader line
  | some b => counted.takeBody b line

/-- Whether the content may end here. -/
def finish (r : Reader maxOrder) : Except StreamError Unit :=
  match r.body with
  | none => .error (.header .missingDelimiter)
  | some b =>
    match b.finish with
    | .error fault => .error (.body r.lineCount r.last fault)
    | .ok () => .ok ()

/-- The reader takes in no further line. -/
def close (r : Reader maxOrder) : Reader maxOrder := { r with done := true }

end Reader

/-- A stream of recovered lines. -/
structure Stream (maxOrder : Nat) where
  /-- The lines that have not been taken in. -/
  source : List SourceLine
  /-- What has been learned from the others. -/
  reader : Reader maxOrder
  deriving Repr

namespace Stream

variable {maxOrder : Nat}

/-- The stream of a whole file. -/
def ofFile (maxOrder : Nat) (source : List SourceLine) : Stream maxOrder := ⟨source, .start⟩

/-- The stream of a body alone. -/
def ofBody (maxOrder : Nat) (source : List SourceLine) (layout : Layout) :
    Except StreamError (Stream maxOrder) :=
  match Body.ofLayout maxOrder layout with
  | .error fault => .error (.body 0 [] fault)
  | .ok b =>
    let header : Header := { (∅ : Header) with complete := true }
    .ok ⟨source, { (Reader.start : Reader maxOrder) with header, body := some b }⟩

/-- The next item from these lines: a queued line if there is one, otherwise what the lines to come
lead to. There is none after the end and after an error, unless a line is still queued. -/
def pull (source : List SourceLine) (r : Reader maxOrder) :
    Option (Except StreamError Text) × Stream maxOrder :=
  match r.pending with
  | line :: rest => (some (.ok line), ⟨source, { r with pending := rest }⟩)
  | [] =>
    if r.done then (none, ⟨source, r⟩)
    else match source with
      | [] =>
        match r.finish with
        | .ok () => (none, ⟨[], r.close⟩)
        | .error e => (some (.error e), ⟨[], r.close⟩)
      | .error fault :: rest => (some (.error (.io fault)), ⟨rest, r.close⟩)
      | .ok line :: rest =>
        let taken := r.take line
        match taken.result with
        | .ok () => pull rest taken.state
        | .error e => (some (.error e), ⟨rest, taken.state.close⟩)

/-- The next item, and the stream after it. -/
def next (s : Stream maxOrder) : Option (Except StreamError Text) × Stream maxOrder :=
  pull s.source s.reader

/-- The items up to the first error or the end, and the stream after them. -/
structure Drained (maxOrder : Nat) where
  /-- The recovered lines. -/
  lines : List Text
  /-- The error after them, if there is one. -/
  error : Option StreamError
  /-- The stream after these items. -/
  rest : Stream maxOrder
  deriving Repr

/-- Everything that these lines lead to, up to the first error or the end. -/
def drainFrom (source : List SourceLine) (r : Reader maxOrder) : Drained maxOrder :=
  let queued := r.pending
  let r := { r with pending := [] }
  if r.done then ⟨queued, none, ⟨source, r⟩⟩
  else match source with
    | [] =>
      match r.finish with
      | .ok () => ⟨queued, none, ⟨[], r.close⟩⟩
      | .error e => ⟨queued, some e, ⟨[], r.close⟩⟩
    | .error fault :: rest => ⟨queued, some (.io fault), ⟨rest, r.close⟩⟩
    | .ok line :: rest =>
      let taken := r.take line
      match taken.result with
      | .error e => ⟨queued, some e, ⟨rest, taken.state.close⟩⟩
      | .ok () =>
        let more := drainFrom rest taken.state
        { more with lines := queued ++ more.lines }

/-- Everything up to the first error or the end. -/
def drain (s : Stream maxOrder) : Drained maxOrder := drainFrom s.source s.reader

/-- The drain of a stream whose next item and remainder are given. -/
def Drained.ofNext : Option (Except StreamError Text) × Stream maxOrder → Drained maxOrder
  | (some (.ok line), s) => { s.drain with lines := line :: s.drain.lines }
  | (some (.error e), s) => ⟨[], some e, s⟩
  | (none, s) => ⟨[], none, s⟩

/-- A queued line comes first. -/
theorem drainFrom_queued (source : List SourceLine) (r : Reader maxOrder) {line : Text}
    {rest : List Text} (h : r.pending = line :: rest) :
    drainFrom source r =
      let more := drainFrom source { r with pending := rest }
      { more with lines := line :: more.lines } := by
  obtain ⟨count, header, body, pending, last, done⟩ := r
  subst h
  unfold drainFrom
  dsimp only
  split
  · rfl
  · cases source with
    | nil => dsimp only; split <;> rfl
    | cons l source =>
      cases l with
      | error fault => rfl
      | ok line => dsimp only; split <;> rfl

/-- A drain takes one item after the other, up to the first that is no line. -/
theorem drain_eq_ofNext (s : Stream maxOrder) : s.drain = Drained.ofNext s.next := by
  obtain ⟨source, r⟩ := s
  show drainFrom source r = Drained.ofNext (pull source r)
  induction source generalizing r with
  | nil =>
    cases hp : r.pending with
    | cons line rest =>
      rw [drainFrom_queued [] r hp, pull, hp]
      rfl
    | nil =>
      have hr : { r with pending := [] } = r := by rw [← hp]
      rw [drainFrom, pull, hp, hr]
      dsimp only
      split
      · rfl
      · split <;> simp_all [Drained.ofNext]
  | cons l source ih =>
    cases hp : r.pending with
    | cons line rest =>
      rw [drainFrom_queued _ r hp, pull.eq_def, hp]
      rfl
    | nil =>
      have hr : { r with pending := [] } = r := by rw [← hp]
      rw [drainFrom.eq_def, pull.eq_def, hp, hr]
      dsimp only
      split
      · rfl
      · cases l with
        | error fault => rfl
        | ok line =>
          dsimp only
          cases (r.take line).result with
          | error e => rfl
          | ok u => rw [← ih]; rfl

end Stream

end CompactRinex
