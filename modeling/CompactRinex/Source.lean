import CompactRinex.Gzip
import CompactRinex.Text.Lines

/-!
# Sources of lines

The lines of a file, read from its bytes as they are or expanded from gzip. A line that cannot be
had is a fault in its place, and what is recovered of a damaged gzip file ends with a whole line.
-/

namespace CompactRinex

/-- Why a line cannot be had from a file. -/
inductive IoFault where
  /-- The line is not UTF-8. -/
  | invalidUtf8
  /-- The file cannot be expanded. -/
  | gzip (error : Gzip.GzipError)
  /-- There is no such file. -/
  | notFound
  /-- The name is that of a directory. -/
  | isDirectory
  /-- A name before the last one is that of a file. -/
  | notDirectory
  /-- A name or the whole path is too long. -/
  | nameTooLong
  /-- There is a zero byte in the path. -/
  | zeroByte
  /-- Another fault of the system, by its wording. -/
  | other (wording : String)
  deriving DecidableEq, Repr

namespace IoFault

/-- The wording of the fault. -/
def message : IoFault → String
  | invalidUtf8 => "stream did not contain valid UTF-8"
  | gzip .badHeader => "invalid gzip header"
  | gzip .longField => "gzip header field too long"
  | gzip .unexpectedEnd => "unexpected end of file"
  | gzip .incompleteData => "incomplete deflate stream"
  | gzip .corruptData => "corrupt deflate stream"
  | gzip .badChecksum => "corrupt gzip stream does not have a matching checksum"
  | notFound => "No such file or directory (os error 2)"
  | isDirectory => "Is a directory (os error 21)"
  | notDirectory => "Not a directory (os error 20)"
  | nameTooLong => "File name too long (os error 36)"
  | zeroByte => "file name contained an unexpected NUL byte"
  | other wording => wording

end IoFault

/-- A line of a file, if it can be had. -/
abbrev SourceLine := Except IoFault Text

namespace SourceLine

/-- The lines of a text. -/
def ofText (t : Text) : List SourceLine := (Text.lines t).map .ok

/-- The lines of a file given by its bytes. -/
def ofBytes (bytes : List UInt8) : List SourceLine :=
  (Text.byteLines bytes).map fun
    | some line => .ok line
    | none => .error .invalidUtf8

/-- The lines of a file that is read through a buffer. A buffer without room never gives one. -/
def ofBuffered (room : Nat) (bytes : List UInt8) : List SourceLine :=
  if room = 0 then [] else ofBytes bytes

/-- The bytes up to the last newline. -/
def wholeLines (bytes : List UInt8) : List UInt8 := (bytes.reverse.dropWhile (· != 10)).reverse

/-- The lines of a gzip file given by its bytes. -/
def ofGzip (file : List UInt8) : List SourceLine :=
  let unpacked := Gzip.unpack file
  let bytes := unpacked.state.data.toList
  match unpacked.result with
  | .ok () => ofBytes bytes
  | .error e => ofBytes (wholeLines bytes) ++ [.error (.gzip e)]

/-- The lines of a file that has been read, expanded if it is a gzip file, or the fault in place of
them. -/
def ofFile (gzip : Bool) : Except IoFault (List UInt8) → List SourceLine
  | .error fault => [.error fault]
  | .ok file => if gzip then ofGzip file else ofBytes file

end SourceLine

end CompactRinex
