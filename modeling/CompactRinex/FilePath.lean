import CompactRinex.Text

/-!
# File paths

A path is a sequence of names between slashes. Empty names and single points do not count, and two
points are no file name. The ending of a name is what follows its last point, unless the point
starts the name.
-/

namespace CompactRinex

/-- A path. -/
structure FilePath where
  /-- The path starts at the root. -/
  rooted : Bool
  /-- The names, without empty ones and single points. -/
  names : List Text
  deriving DecidableEq, Repr

namespace FilePath

/-- Reads a path. -/
def parse (t : Text) : FilePath where
  rooted := t.head? == some '/'
  names := (Text.segments (· == '/') t).filter fun name => name != [] && name != ['.']

/-- The text of a path. -/
def toText (p : FilePath) : Text :=
  (if p.rooted then ['/'] else []) ++ List.intercalate ['/'] p.names

/-- The last name, if it names a file. -/
def fileName? (p : FilePath) : Option Text := p.names.getLast?.filter (· != ['.', '.'])

/-- The path with another last name. -/
def withFileName (p : FilePath) (name : Text) : FilePath :=
  { p with names := p.names.dropLast ++ [name] }

/-- What follows the last point of a name, if something stands before that point. -/
def ending? (name : Text) : Option Text :=
  match Text.splitFirst? '.' name.reverse with
  | some (ending, _ :: _) => some ending.reverse
  | _ => none

/-- The name of the file ends in `.gz`, in upper or lower case. -/
def isGzip (p : FilePath) : Bool :=
  match p.fileName?.bind ending? with
  | some ending => ending.map Char.toLower == ['g', 'z']
  | none => false

end FilePath

end CompactRinex
