import CompactRinex.Header.Error

/-!
# Compression dates

The date of a compression is written `28-Dec-21 00:17`: two words, the parts of the first between
dashes and of the second between colons. Parts after the third, or the second of the time, are
passed over, and a missing part counts as zero; only the day and the month have to be there for a
date to result. Years below 80 are in this century and years from 80 to 99 in the last one. The hour
may be 24, which is the first of the next day.

Dates reach 32768 Julian centuries from the start of 1900 in both directions. A date that is later
than the last of them is taken for the last. A year that starts before the first of them is taken to
start there.
-/

namespace CompactRinex

/-- A date of the Gregorian calendar, with a time to the minute. -/
structure Date where
  year : Int
  month : Nat
  day : Nat
  hour : Nat
  minute : Nat
  deriving DecidableEq, Ord, Repr

namespace Date

/-- A year with 29 days in February. -/
def isLeapYear (year : Int) : Bool := year % 4 == 0 && (year % 100 != 0 || year % 400 == 0)

/-- The number of days of a month, from 1 for January; none of any other month. -/
def daysInMonth (year : Int) (month : Nat) : Nat :=
  if month = 2 then (if isLeapYear year then 29 else 28)
  else if month ∈ [4, 6, 9, 11] then 30
  else if month ∈ [1, 3, 5, 7, 8, 10, 12] then 31
  else 0

/-- The number of days of a year before a day of it. -/
def daysBefore (year : Int) (month day : Nat) : Nat :=
  (List.range (month - 1)).foldl (fun days m => days + daysInMonth year (m + 1)) (day - 1)

/-- The same time on the day after. -/
def nextDay (d : Date) : Date :=
  if d.day < daysInMonth d.year d.month then { d with day := d.day + 1 }
  else if d.month < 12 then { d with month := d.month + 1, day := 1 }
  else { d with year := d.year + 1, month := 1, day := 1 }

/-- The first date, 32768 Julian centuries before 1900. -/
def earliest : Date := ⟨-3274968, 9, 18, 0, 0⟩

/-- The last date, 32768 Julian centuries after the start of 1900. -/
def latest : Date := ⟨3278767, 4, 16, 0, 0⟩

/-- The day that these parts name. A year that starts before the first date is taken to start
there. -/
def ofDay (year : Int) (month day : Nat) : Date :=
  if year ≤ earliest.year then Nat.repeat nextDay (daysBefore year month day) earliest
  else ⟨year, month, day, 0, 0⟩

/-- A time of a day, not after the last date. Hour 24 is taken as the start of the next day. -/
def atTime (d : Date) (hour minute : Nat) : Date :=
  let date :=
    if hour = 24 then { nextDay d with hour := 0, minute } else { d with hour, minute }
  if (compare date latest).isGT then latest else date

/-- The date with these parts. The days since 1900 without leap days have to fit 32 bits. -/
def ofParts? (year : Int) (month day hour minute : Nat) : Option Date :=
  let days := (year - 1900) * 365
  if 1 ≤ day ∧ day ≤ daysInMonth year month ∧ hour ≤ 24 ∧ minute ≤ 59 ∧
      Int32.minValue.toInt ≤ days ∧ days ≤ Int32.maxValue.toInt then
    some ((ofDay year month day).atTime hour minute)
  else none

/-- The number of a month by its English abbreviation. -/
def monthNumber? (t : Text) : Option Nat :=
  (["Jan", "Feb", "Mar", "Apr", "May", "Jun", "Jul", "Aug", "Sep", "Oct", "Nov", "Dec"].findIdx?
    fun name => name.toList == t).map (· + 1)

/-- The year that a number of up to two digits stands for. -/
def fullYear (year : Int) : Int :=
  if year < 80 then year + 2000 else if year < 100 then year + 1900 else year

/-- The parts of a word between separators, without the blanks around them. -/
def parts (sep : Char) (word : Text) : List Text := (Text.segments (· == sep) word).map Text.trim

/-- A part that has to be a number of 8 bits; zero if it is missing. -/
def readByte : Option Text → Except HeaderError Nat
  | none => .ok 0
  | some part =>
    match Numeral.readUInt8 part with
    | some n => .ok n.toNat
    | none => .error .dateValue

/-- A part that has to be a month; zero if it is missing. -/
def readMonth : Option Text → Except HeaderError Nat
  | none => .ok 0
  | some part =>
    match monthNumber? part with
    | some n => .ok n
    | none => .error .dateFormat

/-- A part that has to be a number of 32 bits; zero if it is missing. -/
def readYear : Option Text → Except HeaderError Int
  | none => .ok 0
  | some part =>
    match Numeral.readBetween Int32.minValue.toInt Int32.maxValue.toInt part with
    | some n => .ok n
    | none => .error .dateValue

/-- Day, month and year of the first word. -/
def parseDay (word : Text) : Except HeaderError (Nat × Nat × Int) := do
  let ps := parts '-' word
  let day ← readByte ps[0]?
  let month ← readMonth ps[1]?
  let year ← readYear ps[2]?
  .ok (day, month, year)

/-- Hour and minute of the second word. -/
def parseTime (word : Text) : Except HeaderError (Nat × Nat) := do
  let ps := parts ':' word
  let hour ← readByte ps[0]?
  let minute ← readByte ps[1]?
  .ok (hour, minute)

/-- Reads a date. Bad parts are reported before a wrong number of words. -/
def parse (t : Text) : Except HeaderError Date := do
  let ws := Text.asciiWords (Text.trim t)
  let (day, month, year) ← (ws[0]?.map parseDay).getD (.ok (0, 0, 0))
  let (hour, minute) ← (ws[1]?.map parseTime).getD (.ok (0, 0))
  if ws.length ≠ 2 ∨ month = 0 then .error .dateFormat
  else match ofParts? (fullYear year) month day hour minute with
    | some date => .ok date
    | none => .error .dateValue

end Date

end CompactRinex
