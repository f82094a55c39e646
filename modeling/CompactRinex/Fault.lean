import CompactRinex.Header.Error

/-!
# Faults of the body

What can be wrong with a line of the compressed body. A fault says what is wrong, not where: the
stream adds the number and the content of the line.
-/

namespace CompactRinex

/-- Why a line of the body is refused. -/
inductive Fault where
  /-- A recovered value does not fit its column. -/
  | formatOverflow (value : Int64) (width : Nat)
  /-- A text is to be repeated and there is none. -/
  | missingReference
  /-- The content ends inside an epoch. -/
  | truncated
  /-- A data line has more fields than there are observables. -/
  | columnCount (expected found : Nat)
  /-- A compression order below one. -/
  | invalidOrder (order : Nat)
  /-- A compression order above the supported one. -/
  | orderTooBig (order maxOrder : Nat)
  /-- A field is no number. -/
  | malformedField (field : Text)
  /-- The epoch line ends too early. -/
  | epochTooShort
  /-- The epoch flag is unknown. -/
  | epochFlag
  /-- The number of satellites cannot be read. -/
  | satelliteCount
  /-- A satellite identifier cannot be read. -/
  | badSatellite (id : Text)
  /-- No observables are declared for a constellation. -/
  | unknownObservables (constellation : Constellation)
  /-- An epoch line of the third revision where the first is in use. -/
  | foreignEpochV1
  /-- An epoch line of the first revision where the third is in use. -/
  | foreignEpochV3
  /-- A line that must be ASCII is not. -/
  | nonAscii
  /-- Header lines after an event are refused. -/
  | headerUpdate (error : HeaderError)
  deriving DecidableEq, Repr

namespace Fault

/-- The wording of the fault. -/
def message : Fault → String
  | formatOverflow value width => s!"value {value} does not fit in {width} characters"
  | missingReference => "missing reference line"
  | truncated => "truncated stream"
  | columnCount expected found => s!"column count mismatch: expecting {expected}, got {found}"
  | invalidOrder order => s!"invalid compression order {order}"
  | orderTooBig order maxOrder => s!"compression order {order} exceeds maximal order {maxOrder}"
  | malformedField field => s!"malformed numerical field \"{String.ofList field}\""
  | epochTooShort => "epoch description is too short"
  | epochFlag => "invalid epoch flag"
  | satelliteCount => "failed to parse number of satellites"
  | badSatellite id => s!"failed to parse satellite \"{String.ofList id}\""
  | unknownObservables constellation => s!"no observables specified for {constellation.label}"
  | foreignEpochV1 => "bad CRINEX1 epoch description"
  | foreignEpochV3 => "bad CRINEX3 epoch description"
  | nonAscii => "non ascii content"
  | headerUpdate error => s!"header update: {error.message}"

end Fault

end CompactRinex
