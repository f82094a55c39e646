import CompactRinex.Numeral
import CompactRinex.Text.Blank

/-!
# Revision numbers

A revision is written `major.minor`, each part a number of 8 bits; a missing or blank minor part
is zero, so `3.05` and `3.5` are the same revision.
-/

namespace CompactRinex

/-- A revision number of a file format. Revisions are ordered by their major part first. -/
structure Version where
  /-- The part before the point. -/
  major : UInt8
  /-- The part after the point. -/
  minor : UInt8
  deriving DecidableEq, Repr, Ord

/-- Why a text is no revision number. -/
inductive VersionError where
  /-- The text is blank. -/
  | empty
  /-- A part is not a number of 8 bits. -/
  | notANumber
  deriving DecidableEq, Repr

namespace VersionError

/-- The wording of the error. -/
def message : VersionError → String
  | empty => "empty version"
  | notANumber => "failed to parse version"

end VersionError

namespace Version

/-- The text of a revision. -/
def toText (v : Version) : Text :=
  Numeral.digits v.major.toNat ++ '.' :: Numeral.digits v.minor.toNat

/-- A part of a revision. -/
def parsePart (t : Text) : Except VersionError UInt8 :=
  match Numeral.readUInt8 (Text.trim t) with
  | some n => .ok n
  | none => .error .notANumber

/-- Reads a revision. The first point separates the parts. -/
def parse (t : Text) : Except VersionError Version :=
  let trimmed := Text.trim t
  if trimmed.isEmpty then .error .empty
  else match Text.splitFirst? '.' trimmed with
    | none => (parsePart trimmed).map fun major => ⟨major, 0⟩
    | some (major, minor) => do
      let major ← parsePart major
      let minor ← if (Text.trim minor).isEmpty then .ok 0 else parsePart minor
      .ok ⟨major, minor⟩

end Version

end CompactRinex
