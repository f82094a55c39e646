import CompactRinex.Header.Date
import CompactRinex.Layout
import CompactRinex.Text.Lines

/-!
# The lines of the compression

The first two lines of a file say how it was compressed: its revision, and the program and the date
of the compression. A field is in columns 1 to 60 of its line and the label of the line follows.
-/

namespace CompactRinex

/-- How a file was compressed. -/
structure Compression where
  /-- The revision of the compression. -/
  version : Version
  /-- The name of the program. -/
  program : Text
  /-- The date of the compression, if one was given. -/
  date : Option Date
  deriving DecidableEq, Repr

namespace Compression

/-- The label of the first line. -/
def versionLabel : Text := "CRINEX VERS   / TYPE".toList

/-- The label of the second line. -/
def programLabel : Text := "CRINEX PROG / DATE".toList

/-- A compression by this library, at an unknown date. -/
def standard : Compression := ⟨⟨3, 0⟩, "crinex-0.1.0".toList, none⟩

/-- The structure of the lines that the compression produces. -/
def revision (c : Compression) : Except HeaderError Revision :=
  match Revision.ofVersion? c.version with
  | some r => .ok r
  | none => .error (.unsupportedRevision c.version.toText)

/-- Reads a revision field. Digits and points that make no revision number are a revision that does
not exist, anything else is an error of the number. -/
def parseVersion (field : Text) : Except HeaderError Version :=
  match Version.parse field with
  | .ok v => .ok v
  | .error e =>
    if !field.isEmpty && field.all fun c => c.isDigit || c == '.' then
      .error (.unsupportedRevision field)
    else .error (.version e)

/-- Takes in the first line. -/
def withVersionLine (c : Compression) (line : Text) : Except HeaderError Compression :=
  if Text.byteLength line < 60 then .error .lineTooShort
  else if Text.isAscii line && Text.trim (line.drop 60) == versionLabel then do
    let version ← parseVersion (Text.trim (line.take 20))
    let c' := { c with version }
    let _ ← c'.revision
    .ok c'
  else .error .notCompactRinex

/-- Takes in the second line, whose label is not looked at. -/
def withProgramLine (c : Compression) (line : Text) : Except HeaderError Compression :=
  if Text.byteLength line < 60 || !Text.isAscii line then .error .lineTooShort
  else do
    let date ← Date.parse ((line.drop 40).take 20)
    .ok { c with program := Text.trim (line.take 20), date := some date }

/-- Reads the two lines at the start of a text. -/
def parse (t : Text) : Except HeaderError Compression :=
  match Text.lines t with
  | [] => .error .notCompactRinex
  | first :: rest => do
    let c ← standard.withVersionLine first
    match rest with
    | [] => .error .notCompactRinex
    | second :: _ =>
      if Text.byteLength second < 60 then .error .lineTooShort
      else if Text.isAscii second && Text.trim (second.drop 60) == programLabel then
        c.withProgramLine second
      else .error .notCompactRinex

end Compression

end CompactRinex
