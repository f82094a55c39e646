import CompactRinex.FilePath
import CompactRinex.Stream

/-!
# Converting a file

The recovered file is written beside the compressed one, under a name that follows from its name
unless another one is chosen. Lines recovered before an error are written.
-/

namespace CompactRinex

/-- Why a conversion fails. -/
inductive ConversionError where
  /-- The recovered file cannot be written. -/
  | io (fault : IoFault)
  /-- The compressed file cannot be read to its end. -/
  | stream (error : StreamError)
  /-- The path names no file. -/
  | fileName
  deriving DecidableEq, Repr

namespace ConversionError

/-- The kind of the error, in one word. -/
def word : ConversionError → String
  | io _ => "Io"
  | stream _ => "Crinex"
  | fileName => "FileName"

/-- The wording of the error. -/
def message : ConversionError → String
  | io fault => s!"i/o error: {fault.message}"
  | stream error => error.message
  | fileName => "failed to determine input file name"

end ConversionError

namespace Conversion

/-- The maximal order of the differences that a conversion supports. -/
def maxOrder : Nat := 5

/-- The name without the ending of a gzip file, which is in upper or in lower case. -/
def withoutGzip (name : Text) : Text :=
  ((Text.dropSuffix? ".gz".toList name).or (Text.dropSuffix? ".GZ".toList name)).getD name

/-- The name that ends in two digits of a year and `o` instead of `d`, in the same case. -/
def observationName? (name : Text) : Option Text :=
  match name.reverse with
  | kind :: unit :: ten :: '.' :: stem =>
    if unit.isDigit && ten.isDigit then
      match kind with
      | 'd' => some ('o' :: unit :: ten :: '.' :: stem).reverse
      | 'D' => some ('O' :: unit :: ten :: '.' :: stem).reverse
      | _ => none
    else none
  | _ => none

/-- The name of the recovered file. -/
def outputName (name : Text) : Text :=
  let name := withoutGzip name
  match Text.dropSuffix? ".crx".toList name with
  | some stem => stem ++ ".rnx".toList
  | none =>
    match Text.dropSuffix? ".CRX".toList name with
    | some stem => stem ++ ".RNX".toList
    | none => (observationName? name).getD (name ++ ".rnx".toList)

/-- The path of the recovered file, in the directory of the compressed one. -/
def outputPath (input : FilePath) : Except ConversionError FilePath :=
  match input.fileName? with
  | some name => .ok (input.withFileName (outputName name))
  | none => .error .fileName

/-- How many bytes of a file are read when it is opened. Of a gzip file it is as much as its header
may need; any other file is read later. -/
def readAhead (input : FilePath) : Nat := if input.isGzip then Gzip.partSize else 0

/-- The text to write, and the error that ends it. -/
def convert (source : List SourceLine) : Text × Option StreamError :=
  let drained := (Stream.ofFile maxOrder source).drain
  (Text.unlines drained.lines, drained.error)

end Conversion

end CompactRinex
