import CompactRinex.Conversion
import CompactRinex.Directory
import CompactRinex.Text.Utf8

/-!
# The command line

The command takes the name of a compressed file (`-f` or `--fp`) and, if the deduced name will not
do, one for the recovered file (`-o` or `--output`). A value follows its option as the next argument
or is attached to it. An option is given at most once, and there are no other arguments.

`Command.run` is what a command does to a directory. The compressed file is opened before the
recovered one is made, and the lines before an error are written.
-/

namespace CompactRinex

/-- An option of the command line. -/
inductive Switch where
  /-- The name of the compressed file. -/
  | input
  /-- The name of the recovered file. -/
  | output
  deriving DecidableEq, Repr

/-- What the command line asks for. -/
structure Command where
  /-- The name of the compressed file. -/
  input : Text
  /-- The name of the recovered file, if it is not deduced. -/
  output : Option Text
  deriving DecidableEq, Repr

namespace Switch

/-- The option of a letter. -/
def ofLetter? : Char → Option Switch
  | 'f' => some input
  | 'o' => some output
  | _ => none

/-- The option of a name. -/
def ofName? (name : Text) : Option Switch :=
  if name = "fp".toList then some input
  else if name = "output".toList then some output
  else none

/-- The option that an argument gives, and the value attached to it: `--name=value`, `-n=value` or
`-nvalue`. -/
def ofArgument? : Text → Option (Switch × Option Text)
  | '-' :: '-' :: long =>
    match Text.splitFirst? '=' long with
    | some (name, value) => (ofName? name).map fun switch => (switch, some value)
    | none => (ofName? long).map fun switch => (switch, none)
  | '-' :: letter :: attached =>
    -- A letter may be followed by its value at once.
    (ofLetter? letter).map fun switch =>
      (switch, match attached with
        | [] => none
        | '=' :: value => some value
        | value => some value)
  | _ => none

end Switch

namespace Command

/-- How the command is used. -/
def usage : String := "usage: -f <compressed file> [-o <recovered file>]"

/-- An argument that can be a value: it does not look like an option. -/
def isValue (argument : Text) : Bool := argument.head? != some '-' || argument == ['-']

/-- The options and their values. The first argument belongs to the option that waits for a value,
if there is one. -/
def pairs? : Option Switch → List Text → Option (List (Switch × Text))
  | none, [] => some []
  | some _, [] => none
  | some switch, value :: rest =>
    if isValue value then (pairs? none rest).map ((switch, value) :: ·) else none
  | none, argument :: rest =>
    match Switch.ofArgument? argument with
    | none => none
    | some (switch, none) => pairs? (some switch) rest
    | some (switch, some value) => (pairs? none rest).map ((switch, value) :: ·)

/-- Reads a command line. -/
def parse? (arguments : List Text) : Option Command := do
  let pairs ← pairs? none arguments
  match pairs.filter (·.1 = .input), pairs.filter (·.1 = .output) with
  | [(_, input)], [] => some ⟨input, none⟩
  | [(_, input)], [(_, output)] => some ⟨input, some output⟩
  | _, _ => none

/-- The name of the recovered file. -/
def outputName (command : Command) : Except ConversionError Text :=
  match command.output with
  | some name => .ok name
  | none => (Conversion.outputPath (FilePath.parse command.input)).map FilePath.toText

/-- What is read of a file whose first `ahead` bytes are read before a change of the directory and
the others after it. -/
def readAround (ahead : Nat) (before after : Except IoFault (List UInt8)) :
    Except IoFault (List UInt8) := do
  let first ← before
  let rest ← after
  .ok (first.take ahead ++ rest.drop ahead)

/-- Carries out a command. -/
def run (command : Command) (d : Directory) : Outcome Directory ConversionError Unit :=
  let input := FilePath.parse command.input
  match command.outputName with
  | .error e => .fail d e
  | .ok output =>
    match d.openFile command.input with
    | .error fault => .fail d (.stream (.io fault))
    | .ok place =>
      match d.create output with
      | .error fault => .fail d (.io fault)
      | .ok (target, made) =>
        -- What has not been read ahead is read after the output has been created.
        let file := readAround (Conversion.readAhead input) (d.content place) (made.content place)
        let (text, error) := Conversion.convert (SourceLine.ofFile input.isGzip file)
        let written := made.write target (Text.encode text)
        match error with
        | none => .ok written ()
        | some e => .fail written (.stream e)

end Command

end CompactRinex
