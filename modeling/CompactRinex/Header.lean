import CompactRinex.Header.Compression
import CompactRinex.Outcome

/-!
# Headers

The header section is read line by line. The two lines of the compression are consumed, every later
one belongs to the recovered file. Of those, the revision line and the definitions of observables
matter for the body: a definition gives a number of observables and then their codes, on as many
lines as it takes, until the next definition starts. `Header.layout` is what a header says about the
body.
-/

namespace CompactRinex

/-- The observables of a constellation, as they are defined so far. -/
structure Definition where
  /-- The number of observables that the definition states. -/
  declared : Nat
  /-- The codes of the observables. -/
  codes : List Text
  deriving DecidableEq, Repr

/-- The header section, as far as it has been read. -/
structure Header where
  /-- How the file was compressed. -/
  compression : Option Compression
  /-- The revision of the recovered file. -/
  version : Option Version
  /-- The constellation of the file. -/
  constellation : Option Constellation
  /-- The definitions of observables. One list for all constellations is a definition of `mixed`. -/
  definitions : Table Constellation Definition
  /-- The definition that further codes belong to. -/
  pending : Option Constellation
  /-- The last line has been read. -/
  complete : Bool
  /-- The number of lines read. -/
  lineCount : Nat
  deriving Repr

namespace Header

/-- Nothing has been read. -/
def empty : Header := ⟨none, none, none, ∅, none, false, 0⟩

instance : EmptyCollection Header := ⟨empty⟩

/-! ## Lines of the recovered file -/

/-- The constellation of a system letter. -/
def systemOf (letter : Text) : Except HeaderError Constellation :=
  match letter with
  | [c] =>
    match Constellation.ofLetter? c with
    | some constellation => .ok constellation
    | none => .error (.unknownSystem letter)
  | _ => .error (.unknownSystem letter)

/-- Starts a definition, in place of an earlier one. -/
def declare (h : Header) (c : Constellation) (count : Text) : Outcome Header HeaderError Unit :=
  match Numeral.readCount (Text.trim count) with
  | some n => .ok { h with definitions := h.definitions.insert c ⟨n, []⟩, pending := some c } ()
  | none => .fail h (.badObservables c)

/-- Adds codes to the definition that is being read, if there is one. -/
def collect (h : Header) (codes : Text) : Header :=
  match h.pending with
  | none => h
  | some c =>
    match h.definitions.get? c with
    | none => h
    | some definition =>
      { h with
        definitions := h.definitions.insert c
          { definition with codes := definition.codes ++ Text.words codes } }

/-- Starts a definition and adds the codes of its first line. -/
def define (h : Header) (c : Constellation) (count codes : Text) :
    Outcome Header HeaderError Unit :=
  let declared := h.declare c count
  match declared.result with
  | .error e => .fail declared.state e
  | .ok () => .ok (declared.state.collect codes) ()

/-- Takes in the revision line. -/
def readRevision (h : Header) (content : Text) : Outcome Header HeaderError Unit :=
  match Version.parse (content.take 9) with
  | .error e => .fail h (.version e)
  | .ok version =>
    -- The version is kept even if the rest of the line is refused.
    let h := { h with version := some version }
    if (content.drop 20).take 1 ≠ ['O'] then .fail h .notObservation
    else
      let system := Text.trim ((content.drop 40).take 1)
      if system.isEmpty then .ok h ()
      else match systemOf system with
        | .ok c => .ok { h with constellation := some c } ()
        | .error e => .fail h e

/-- Takes in a line of one definition for all constellations. -/
def readSharedTypes (h : Header) (content : Text) : Outcome Header HeaderError Unit :=
  let count := Text.trim (content.take 6)
  if count.isEmpty then .ok (h.collect (content.drop 6)) ()
  else h.define .mixed count (content.drop 6)

/-- Takes in a line of the definition of one constellation. -/
def readSystemTypes (h : Header) (content : Text) : Outcome Header HeaderError Unit :=
  let system := Text.trim (content.take 1)
  if system.isEmpty then .ok (h.collect (content.drop 7)) ()
  else match systemOf system with
    | .ok c => h.define c ((content.drop 3).take 3) (content.drop 7)
    | .error e => .fail h e

/-- Takes in a line of the recovered file. Lines that are not ASCII, that end before their label or
that have another label say nothing. -/
def readLine (h : Header) (line : Text) : Outcome Header HeaderError Unit :=
  if !Text.isAscii line || line.length < 60 then .ok h ()
  else
    -- Sixty columns of content, and the label behind them.
    let content := line.take 60
    let label := Text.trim (line.drop 60)
    if label = "RINEX VERSION / TYPE".toList then h.readRevision content
    else if label = "# / TYPES OF OBSERV".toList then h.readSharedTypes content
    else if label = "SYS / # / OBS TYPES".toList then h.readSystemTypes content
    else if label = "END OF HEADER".toList then
      .ok { h with complete := true, pending := none } ()
    else .ok h ()

/-! ## Lines of the compressed file -/

/-- The label of a line: what follows its first 60 bytes. -/
def labelOf (line : Text) : Text := Text.trim ((Text.dropBytes? 60 line).getD [])

/-- The compression after its second line. -/
def readProgram (h : Header) (line : Text) : Except HeaderError Compression :=
  match h.compression with
  | none => .error .notCompactRinex
  | some c =>
    if labelOf line = Compression.programLabel then c.withProgramLine line
    else .error .notCompactRinex

/-- Keeps a compression that could be read. -/
def keepCompression (h : Header) (c : Except HeaderError Compression) :
    Outcome Header HeaderError Bool :=
  .commit h (c.map fun c => ({ h with compression := some c }, false))

/-- Takes in the next line and answers whether it belongs to the recovered file. -/
def parseLine (h : Header) (line : Text) : Outcome Header HeaderError Bool :=
  let counted := { h with lineCount := h.lineCount + 1 }
  match h.lineCount with
  | 0 => counted.keepCompression (Compression.standard.withVersionLine line)
  | 1 => counted.keepCompression (counted.readProgram line)
  | _ =>
    let read := counted.readLine line
    ⟨read.state, read.result.map fun _ => true⟩

/-- Reads lines up to the end of the header. -/
def parseLines (h : Header) : List Text → Except HeaderError Header
  | [] => .error .missingDelimiter
  | line :: rest =>
    let read := h.parseLine line
    match read.result with
    | .error e => .error e
    | .ok _ => if read.state.complete then .ok read.state else parseLines read.state rest

/-- Reads the header at the start of a text. -/
def parse (t : Text) : Except HeaderError Header := parseLines ∅ (Text.lines t)

/-! ## What a header says about the body -/

/-- Declares the columns of some definitions. A definition with another number of codes than it
states is refused. -/
def applyDefinitions (layout : Layout) :
    List (Constellation × Definition) → Except HeaderError Layout
  | [] => .ok layout
  | (c, definition) :: rest =>
    if definition.declared = definition.codes.length then
      applyDefinitions (layout.withObservables c definition.codes.length) rest
    else .error (.badObservables c)

/-- A layout with the columns of the header in place of its own. Of several definitions with another
number of codes than they state, the first on the walk is reported. -/
def updateLayout (h : Header) (walk : Walk (Constellation × Definition)) (layout : Layout) :
    Except HeaderError Layout :=
  applyDefinitions layout (h.definitions.along walk)

/-- The constellation of satellites that do not name theirs. -/
def defaultConstellation (h : Header) : Constellation :=
  match h.constellation with
  | none | some .mixed => .gps
  | some c => c

/-- The layout of the body, when the definitions are met on this walk. -/
def layoutAlong (h : Header) (walk : Walk (Constellation × Definition)) :
    Except HeaderError Layout :=
  match h.compression with
  | none => .error .notCompactRinex
  | some compression => do
    let revision ← compression.revision
    if h.definitions.isEmpty then .error .missingObservables
    else
      h.updateLayout walk
        { Layout.ofRevision revision with defaultConstellation := h.defaultConstellation }

/-- The layout of the body. -/
def layout (h : Header) : Except HeaderError Layout := h.layoutAlong .inserted

end Header

end CompactRinex
