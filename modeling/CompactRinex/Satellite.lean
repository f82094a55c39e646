import CompactRinex.Numeral
import CompactRinex.Text.Blank

/-!
# Satellites

Constellations, their one-letter identifiers and the texts that name them, and satellites: a
number within a constellation. Augmentation systems are told apart by name and share the
observables declared for SBAS.
-/

namespace CompactRinex

/-- A satellite constellation, or `mixed` for all of them together. -/
inductive Constellation where
  | gps | glonass | beidou | qzss | galileo | irnss
  | waas | egnos | msas | gagan | bdsbas | kass | sdcm | asbas | span | sbas
  | ausnz | gbas | nsas | asal
  | mixed
  deriving DecidableEq, Repr

namespace Constellation

/-- Every constellation. -/
def all : List Constellation :=
  [gps, glonass, beidou, qzss, galileo, irnss, waas, egnos, msas, gagan, bdsbas, kass, sdcm, asbas,
    span, sbas, ausnz, gbas, nsas, asal, mixed]

/-- No constellation is missing from the list. -/
theorem mem_all (c : Constellation) : c ∈ all := by cases c <;> decide

/-- The name a reader is shown. -/
def label : Constellation → String
  | gps => "GPS (US)"
  | glonass => "Glonass (RU)"
  | beidou => "BeiDou (CH)"
  | qzss => "QZSS (JP)"
  | galileo => "Galileo (EU)"
  | irnss => "IRNSS (IN)"
  | waas => "WAAS (US)"
  | egnos => "EGNOS (EU)"
  | msas => "MSAS (JP)"
  | gagan => "GAGAN (IN)"
  | bdsbas => "BDSBAS (CH)"
  | kass => "KASS (KR)"
  | sdcm => "SDCM (RU)"
  | asbas => "ASBAS (SA)"
  | span => "SPAN (AUS)"
  | sbas => "SBAS"
  | ausnz => "AUS/NZ (AUS)"
  | gbas => "GBAS (UK)"
  | nsas => "NSAS (NI)"
  | asal => "ASAL (AL)"
  | mixed => "MIXED"

/-- An augmentation system. -/
def isAugmentation : Constellation → Bool
  | gps | glonass | beidou | qzss | galileo | irnss | mixed => false
  | _ => true

/-- The constellation of a system letter, in either case. -/
def ofLetter? (letter : Char) : Option Constellation :=
  match letter.toUpper with
  | 'G' => some gps
  | 'C' => some beidou
  | 'E' => some galileo
  | 'R' => some glonass
  | 'J' => some qzss
  | 'I' => some irnss
  | 'S' => some sbas
  | 'M' => some mixed
  | _ => none

end Constellation

/-- A satellite. -/
structure Satellite where
  /-- The constellation it belongs to. -/
  constellation : Constellation
  /-- Its number in the constellation. -/
  number : UInt8
  deriving DecidableEq, Repr

namespace Satellite

/-- Reads a system letter and a number, which may be padded with blanks. -/
def parse? : Text → Option Satellite
  | [] => none
  | letter :: number => do
    let constellation ← Constellation.ofLetter? letter
    let number ← Numeral.readUInt8 (Text.trim number)
    some ⟨constellation, number⟩

end Satellite

end CompactRinex
