import CompactRinex.Difference.Field

/-!
# Compressed data lines

A data line holds one field for each observable, each field ended by a space, and then the edit of
the flags: two columns for each observable. A line may stop early; the fields it lacks are blank.
-/

namespace CompactRinex

/-- A data line, taken apart. -/
structure DataLine where
  /-- The fields, one for each observable. -/
  fields : List Field
  /-- The edit of the flags. -/
  flags : Text
  deriving DecidableEq, Repr

namespace DataLine

/-- The text up to the first space, and the text after that space. -/
def splitSpace (line : Text) : Text × Text :=
  (line.takeWhile (· != ' '), (line.dropWhile (· != ' ')).drop 1)

/-- The first `count` fields of a line, and what follows them. -/
def parseFields : Nat → Text → Except Fault (List Field × Text)
  | 0, line => .ok ([], line)
  | count + 1, line => do
    let (token, rest) := splitSpace line
    let field ← Field.parse token
    let (fields, rest) ← parseFields count rest
    .ok (field :: fields, rest)

/-- A character that the edit of the flags may hold. -/
def isFlagEdit (c : Char) : Bool := c.isDigit || c == ' ' || c == '&'

/-- The edit of the flags of `count` observables fits two columns each and is made of digits,
spaces and `&`. -/
def admitsFlags (count : Nat) (flags : Text) : Bool :=
  flags.all isFlagEdit && flags.length ≤ 2 * count

/-- Takes a line for `count` observables apart. What cannot be flags counts as further fields. -/
def parse (count : Nat) (line : Text) : Except Fault DataLine := do
  let (fields, flags) ← parseFields count line
  if admitsFlags count flags then .ok ⟨fields, flags⟩
  else .error (.columnCount count (count + max 1 (Text.words flags).length))

/-- On an empty rest of the line all fields are missing. -/
@[simp] theorem parseFields_nil (count : Nat) :
    parseFields count [] = .ok (List.replicate count .missing, []) := by
  induction count with
  | zero => rfl
  | succ count ih =>
    simp [parseFields, splitSpace, ih, bind, Except.bind, List.replicate_succ]

/-- There is a field for each observable. -/
theorem length_of_parseFields {count : Nat} {line rest : Text} {fields : List Field}
    (h : parseFields count line = .ok (fields, rest)) : fields.length = count := by
  induction count generalizing line fields with
  | zero => cases h; rfl
  | succ count ih =>
    simp only [parseFields, bind, Except.bind] at h
    split at h
    · cases h
    · split at h
      · cases h
      · next p hp =>
        cases h
        simp [ih hp]

end DataLine

end CompactRinex
