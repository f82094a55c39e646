import CompactRinex.Satellite
import CompactRinex.Version

/-!
# Errors of the header section
-/

namespace CompactRinex

/-- Why a header is refused. -/
inductive HeaderError where
  /-- The first or the second line lacks its label. -/
  | notCompactRinex
  /-- The compression has a revision that does not exist; its text. -/
  | unsupportedRevision (revision : Text)
  /-- A line of the compression ends before its label. -/
  | lineTooShort
  /-- A part of the compression date is out of range or not a number. -/
  | dateValue
  /-- The compression date has another form, or an unknown month. -/
  | dateFormat
  /-- A revision number cannot be read. -/
  | version (error : VersionError)
  /-- The file does not hold observations. -/
  | notObservation
  /-- A system letter is unknown; its text. -/
  | unknownSystem (system : Text)
  /-- No observables are defined. -/
  | missingObservables
  /-- The number of observables is unreadable or is not the number of codes. -/
  | badObservables (constellation : Constellation)
  /-- The content ends before the end of its header. -/
  | missingDelimiter
  deriving DecidableEq, Repr

namespace HeaderError

/-- The wording of the error. -/
def message : HeaderError → String
  | notCompactRinex => "not a CRINEX file"
  | unsupportedRevision revision => s!"non supported CRINEX revision {String.ofList revision}"
  | lineTooShort => "header line too short"
  | dateValue => "failed to parse compression date"
  | dateFormat => "bad compression date format"
  | version _ => "version parsing error"
  | notObservation => "not an observation RINEX"
  | unknownSystem system => s!"unknown constellation \"{String.ofList system}\""
  | missingObservables => "no observables defined in header"
  | badObservables constellation => s!"bad {constellation.label} observables definition"
  | missingDelimiter => "header delimiter not found"

end HeaderError

end CompactRinex
