import CompactRinex.Fault

/-!
# Epoch flags

An epoch is a set of observations, or an event that special records describe.
-/

namespace CompactRinex

/-- The nature of an epoch. -/
inductive EpochFlag where
  /-- Observations. -/
  | ok
  /-- Observations after a power failure. -/
  | powerFailure
  /-- An event: the antenna starts to move. -/
  | antennaBeingMoved
  /-- An event: the antenna is at a new site. -/
  | newSiteOccupation
  /-- An event: header lines follow. -/
  | headerInformationFollows
  /-- An event from outside. -/
  | externalEvent
  /-- Observations with a cycle slip. -/
  | cycleSlip
  deriving DecidableEq, Repr

namespace EpochFlag

/-- The special records of an event follow the epoch line, in place of observations. -/
def isEvent : EpochFlag → Bool
  | antennaBeingMoved | newSiteOccupation | headerInformationFollows | externalEvent => true
  | _ => false

/-- The digit of a flag. -/
def digit : EpochFlag → Char
  | ok => '0'
  | powerFailure => '1'
  | antennaBeingMoved => '2'
  | newSiteOccupation => '3'
  | headerInformationFollows => '4'
  | externalEvent => '5'
  | cycleSlip => '6'

/-- The flag of a digit. -/
def ofDigit? : Char → Option EpochFlag
  | '0' => some ok
  | '1' => some powerFailure
  | '2' => some antennaBeingMoved
  | '3' => some newSiteOccupation
  | '4' => some headerInformationFollows
  | '5' => some externalEvent
  | '6' => some cycleSlip
  | _ => none

/-- Reads a flag, which may have blanks around it. -/
def parse (t : Text) : Except Fault EpochFlag :=
  let read := match Text.trim t with
    | [c] => ofDigit? c
    | _ => none
  match read with
  | some flag => .ok flag
  | none => .error .epochFlag

/-- Each flag is read back from its digit. -/
theorem ofDigit?_digit (flag : EpochFlag) : ofDigit? flag.digit = some flag := by
  cases flag <;> rfl

end EpochFlag

end CompactRinex
