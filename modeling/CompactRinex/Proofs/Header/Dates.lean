import CompactRinex.Header.Compression
import CompactRinex.Proofs.Outcome
import CompactRinex.Proofs.Text.Pieces

/-!
# Accepted dates

A compression is completed by the lines whose date field has two words (`Date.Written`) with the
parts of a date (`Date.Denotes`): `Compression.withProgramLine_eq_ok_iff`. Which numbers make a date
is up to the calendar (`Date.ofParts?`). The words are counted, but of the parts only the day, the
month and the hour have to be there. A missing year or minute counts as zero, and a part more is
passed over, so that not every accepted date has three parts and two (`other_numbers_of_parts`).
-/

namespace CompactRinex

namespace Numeral

/-- A number of 8 bits is a natural number that is small enough. -/
theorem readUInt8_eq_some_iff {t : Text} {n : ℕ} :
    (∃ byte, readUInt8 t = some byte ∧ byte.toNat = n) ↔
      readNat t = some n ∧ n < UInt8.size := by
  unfold readUInt8 readBelow
  constructor
  · rintro ⟨byte, hbyte, rfl⟩
    obtain ⟨n, hn, rfl⟩ := Option.map_eq_some_iff.1 hbyte
    obtain ⟨hread, hlt⟩ := Option.filter_eq_some_iff.1 hn
    have hlt : n < UInt8.size := of_decide_eq_true hlt
    -- The filter has seen to it that the number fits the byte.
    rw [UInt8.toNat_ofNat_of_lt' hlt]
    exact ⟨hread, hlt⟩
  · rintro ⟨hread, hlt⟩
    have hfilter : (readNat t).filter (· < UInt8.size) = some n :=
      Option.filter_eq_some_iff.2 ⟨hread, decide_eq_true hlt⟩
    rw [hfilter]
    exact ⟨UInt8.ofNat n, rfl, UInt8.toNat_ofNat_of_lt' hlt⟩

/-- Without a minus sign an integer is read as a natural number. -/
theorem readInt_eq_some_iff {t : Text} (h : '-' ∉ t) {z : ℤ} :
    readInt t = some z ↔ ∃ n : ℕ, readNat t = some n ∧ (n : ℤ) = z := by
  unfold readInt
  split
  · exact absurd List.mem_cons_self h
  · cases readNat t with
    | none => exact iff_of_false nofun nofun
    | some n => simp

end Numeral

namespace Date

/-! ## The form of a date -/

/-- The word consists of the parts, with `sep` between them. -/
structure Joins (sep : Char) (word : Text) (parts : List Text) : Prop where
  ne_nil : parts ≠ []
  separated : ∀ part ∈ parts, sep ∉ part
  joined : word = List.intercalate [sep] parts

/-- The parts of a word are what it is cut into. -/
theorem joins_iff {sep : Char} {word : Text} {parts : List Text} :
    Joins sep word parts ↔ Text.segments (· == sep) word = parts := by
  rw [Text.segments_eq_iff]
  exact ⟨fun h => ⟨h.ne_nil, h.separated, h.joined⟩, fun h => ⟨h.1, h.2.1, h.2.2⟩⟩

/-- A character sequence that stands between blanks. -/
structure IsWord (word : Text) : Prop where
  ne_nil : word ≠ []
  visible : ∀ c ∈ word, Text.isAsciiBlank c = false

/-- A date field with its parts: those of a day between dashes, and those of a time between colons.
The words stand between blanks. A vertical tab does not separate them, but it belongs to the blanks
at the two ends. -/
inductive Written : Text → List Text → List Text → Prop where
  | words {before first gap second after : Text} {days times : List Text}
      (hbefore : Text.isAllBlank before = true) (hafter : Text.isAllBlank after = true)
      (hgap : gap ≠ [] ∧ ∀ c ∈ gap, Text.isAsciiBlank c = true)
      (hfirst : IsWord first) (hsecond : IsWord second)
      (hstart : ∀ c ∈ first.head?, Text.isBlank c = false)
      (hend : ∀ c ∈ second.getLast?, Text.isBlank c = false)
      (hdays : Joins '-' first days) (htimes : Joins ':' second times) :
      Written (before ++ (first ++ (gap ++ second) ++ after)) days times

/-- Two words, when there is nothing blank at the two ends. -/
theorem asciiWords_eq_pair_iff {t first second : Text} (ht : Text.Bordered t) :
    Text.asciiWords t = [first, second] ↔ ∃ gap, t = first ++ (gap ++ second) ∧
      (gap ≠ [] ∧ ∀ c ∈ gap, Text.isAsciiBlank c = true) ∧ IsWord first ∧ IsWord second := by
  change Text.stretches Text.isAsciiBlank t = [first, second] ↔ _
  constructor
  · intro h
    obtain ⟨start, rest, rfl, hfirst, hrest⟩ := Text.stretches_eq_cons_iff.1 h
    obtain ⟨gap, stop, rfl, hsecond, hstop⟩ := Text.stretches_eq_cons_iff.1 hrest
    have hblank : ∀ s : Text, (∀ c ∈ s, Text.isAsciiBlank c = true) →
        ∀ c ∈ s, Text.isBlank c = true := fun s hs c hc => Text.isBlank_of_isAsciiBlank (hs c hc)
    -- The text has no blanks before the first word, nor after the second.
    obtain rfl : start = [] := ht.eq_nil_of_append_left (hblank start hfirst.gap)
    obtain rfl : stop = [] := by
      simp only [← List.append_assoc] at ht
      exact ht.eq_nil_of_append_right (hblank stop (Text.stretches_eq_nil_iff.1 hstop))
    refine ⟨gap, by rw [List.append_nil, List.nil_append], ⟨?_, hsecond.gap⟩,
      ⟨hfirst.ne_nil, hfirst.word⟩, ⟨hsecond.ne_nil, hsecond.word⟩⟩
    rintro rfl
    -- Without a gap the second word would start with the blank that ends the first one.
    obtain ⟨c, s, rfl⟩ := List.exists_cons_of_ne_nil hsecond.ne_nil
    have hsep := hfirst.rest c rfl
    rw [hsecond.word c List.mem_cons_self] at hsep
    cases hsep
  · rintro ⟨gap, rfl, ⟨hne, hgap⟩, hfirst, hsecond⟩
    have hstart : ∀ c ∈ (gap ++ second).head?, Text.isAsciiBlank c = true := by
      intro c hc
      rw [List.head?_append_of_ne_nil gap hne] at hc
      exact hgap c (List.mem_of_mem_head? hc)
    have hrest : Text.stretches Text.isAsciiBlank (gap ++ second) = [second] := by
      rw [Text.stretches_gap_append hgap, Text.stretches_of_forall hsecond.ne_nil hsecond.visible]
    rw [Text.stretches_word_append hfirst.ne_nil hfirst.visible hstart, hrest]

/-- The field is what is cut at blanks, dashes and colons. -/
theorem written_iff {field : Text} {days times : List Text} :
    Written field days times ↔ ∃ first second,
      Text.asciiWords (Text.trim field) = [first, second] ∧
        Text.segments (· == '-') first = days ∧ Text.segments (· == ':') second = times := by
  simp only [← joins_iff]
  constructor
  · rintro ⟨hbefore, hafter, hgap, hfirst, hsecond, hstart, hend, hdays, htimes⟩
    rename_i before first gap second after
    have hborder : Text.Bordered (first ++ (gap ++ second)) := by
      constructor
      · rw [List.head?_append_of_ne_nil first hfirst.ne_nil]
        exact hstart
      · rw [← List.append_assoc, List.getLast?_append_of_ne_nil _ hsecond.ne_nil]
        exact hend
    -- The words reach to both ends of what is left when the field is trimmed.
    have htrim := Text.trim_eq_iff.2 ⟨before, after, rfl, hbefore, hafter, hborder⟩
    refine ⟨first, second, ?_, hdays, htimes⟩
    rw [htrim]
    exact (asciiWords_eq_pair_iff hborder).2 ⟨gap, rfl, hgap, hfirst, hsecond⟩
  · rintro ⟨first, second, hwords, hdays, htimes⟩
    obtain ⟨before, after, hfield, hbefore, hafter, hborder⟩ := Text.trim_eq_iff.1 rfl
    obtain ⟨gap, htrim, hgap, hfirst, hsecond⟩ := (asciiWords_eq_pair_iff hborder).1 hwords
    rw [htrim] at hfield hborder
    rw [hfield]
    refine .words hbefore hafter hgap hfirst hsecond ?_ ?_ hdays htimes
    · rw [← List.head?_append_of_ne_nil first hfirst.ne_nil]
      exact hborder.head
    · have hlast := hborder.last
      rw [← List.append_assoc, List.getLast?_append_of_ne_nil _ hsecond.ne_nil] at hlast
      exact hlast

/-! ## The parts -/

/-- The part is the numeral of the number. A part that is missing stands for zero. -/
def Gives : Option Text → ℕ → Prop
  | none, n => n = 0
  | some part, n => Numeral.readNat (Text.trim part) = some n

/-- A number that fits 8 bits is read, and zero where the part is missing. -/
theorem readByte_eq_ok_iff {part? : Option Text} {n : ℕ} :
    readByte (part?.map Text.trim) = .ok n ↔ Gives part? n ∧ n < UInt8.size := by
  cases part? with
  | none =>
    constructor
    · -- A part that is not there is read as zero.
      rintro ⟨⟩
      exact ⟨rfl, by decide⟩
    · rintro ⟨rfl, -⟩
      rfl
  | some part =>
    rw [Gives, ← Numeral.readUInt8_eq_some_iff, Option.map_some, readByte]
    cases hread : Numeral.readUInt8 (Text.trim part) with
    | none =>
      constructor
      · rintro ⟨⟩
      · rintro ⟨byte, ⟨⟩, -⟩
    | some byte =>
      constructor
      · rintro ⟨⟩
        exact ⟨byte, rfl, rfl⟩
      · rintro ⟨_, ⟨⟩, rfl⟩
        rfl

/-- A date has a month only if there is a part for it. -/
theorem readMonth_eq_ok_iff {part? : Option Text} {n : ℕ} :
    readMonth (part?.map Text.trim) = .ok n ∧ n ≠ 0 ↔
      ∃ part, part? = some part ∧ monthNumber? (Text.trim part) = some n := by
  cases part? with
  | none =>
    constructor
    · rintro ⟨⟨⟩, hne⟩
      exact absurd rfl hne
    · rintro ⟨part, ⟨⟩, -⟩
  | some part =>
    rw [Option.map_some, readMonth]
    cases hmonth : monthNumber? (Text.trim part) with
    | none =>
      constructor
      · rintro ⟨⟨⟩, -⟩
      · rintro ⟨_, ⟨⟩, hsome⟩
        rw [hmonth] at hsome
        cases hsome
    | some month =>
      obtain ⟨index, -, hindex⟩ := Option.map_eq_some_iff.1 hmonth
      constructor
      · rintro ⟨⟨⟩, -⟩
        exact ⟨part, rfl, hmonth⟩
      · rintro ⟨_, ⟨⟩, hsome⟩
        rw [hmonth] at hsome
        cases hsome
        exact ⟨rfl, hindex ▸ Nat.succ_ne_zero index⟩

/-- So is a year that fits 32 bits. -/
theorem readYear_eq_ok_iff {part? : Option Text} (hpart : ∀ part ∈ part?, '-' ∉ part) {z : ℤ} :
    readYear (part?.map Text.trim) = .ok z ↔
      ∃ n : ℕ, Gives part? n ∧ (n : ℤ) ≤ Int32.maxValue.toInt ∧ z = n := by
  cases part? with
  | none =>
    constructor
    · rintro ⟨⟩
      exact ⟨0, rfl, by decide, rfl⟩
    · rintro ⟨n, hn, -, rfl⟩
      rw [show n = 0 from hn]
      rfl
  | some part =>
    -- Dashes separate the parts, so there is no minus sign in one.
    have htrim : '-' ∉ Text.trim part := by
      obtain ⟨before, after, heq, -⟩ := Text.trim_eq_iff.1 (rfl : Text.trim part = _)
      intro hmem
      refine hpart part rfl ?_
      rw [heq]
      exact List.mem_append_right _ (List.mem_append_left _ hmem)
    have hread : Numeral.readBetween Int32.minValue.toInt Int32.maxValue.toInt (Text.trim part) =
        some z ↔ ∃ n : ℕ, Gives (some part) n ∧ (n : ℤ) ≤ Int32.maxValue.toInt ∧ z = n := by
      rw [Numeral.readBetween, Option.filter_eq_some_iff, Numeral.readInt_eq_some_iff htrim,
        decide_eq_true_eq]
      constructor
      · rintro ⟨⟨n, hn, rfl⟩, -, hle⟩
        exact ⟨n, hn, hle, rfl⟩
      · rintro ⟨n, hn, hle, rfl⟩
        have hlow : Int32.minValue.toInt ≤ 0 := by decide
        exact ⟨⟨n, hn, rfl⟩, Int.le_trans hlow (Int.natCast_nonneg n), hle⟩
    rw [← hread, Option.map_some, readYear]
    cases Numeral.readBetween Int32.minValue.toInt Int32.maxValue.toInt (Text.trim part) with
    | none => exact iff_of_false nofun nofun
    | some year =>
      constructor
      · rintro ⟨⟩
        rfl
      · rintro ⟨⟩
        rfl

/-! ## The date -/

/-- The date that the parts of a day and of a time stand for, if there is one with these numbers.
Parts after the third, or the second of the time, do not count. -/
inductive Denotes (days times : List Text) (date : Date) : Prop where
  | numbers {name : Text} {day month year hour minute : ℕ}
      (hday : Gives days[0]? day) (hname : days[1]? = some name)
      (hmonth : monthNumber? (Text.trim name) = some month) (hyear : Gives days[2]? year)
      (hhour : Gives times[0]? hour) (hminute : Gives times[1]? minute)
      (hdate : ofParts? (fullYear year) month day hour minute = some date)

/-- A part without the blanks around it. -/
theorem parts_getElem? (sep : Char) (word : Text) (i : ℕ) :
    (parts sep word)[i]? = (Text.segments (· == sep) word)[i]?.map Text.trim :=
  List.getElem?_map

/-- A year is never before the number that stands for it. -/
theorem le_fullYear (year : ℤ) : year ≤ fullYear year := by
  unfold fullYear
  split
  · omega
  · split <;> omega

/-- No month has more than 31 days. -/
theorem daysInMonth_le (year : ℤ) (month : ℕ) : daysInMonth year month ≤ 31 := by
  unfold daysInMonth
  repeat' split
  all_goals omega

/-- The numbers of a date are small, except for the year. -/
theorem bounds_of_ofParts? {year : ℤ} {month day hour minute : ℕ} {date : Date}
    (h : ofParts? year month day hour minute = some date) :
    day ≤ 31 ∧ hour ≤ 24 ∧ minute ≤ 59 ∧ (year - 1900) * 365 ≤ Int32.maxValue.toInt := by
  unfold ofParts? at h
  dsimp only at h
  split at h
  · next hparts =>
    obtain ⟨-, hday, hhour, hminute, -, hyear⟩ := hparts
    exact ⟨hday.trans (daysInMonth_le year month), hhour, hminute, hyear⟩
  · cases h

/-- The first word is read part by part. -/
theorem parseDay_eq_ok_iff {word : Text} {day month : ℕ} {year : ℤ} :
    parseDay word = .ok (day, month, year) ↔ readByte (parts '-' word)[0]? = .ok day ∧
      readMonth (parts '-' word)[1]? = .ok month ∧ readYear (parts '-' word)[2]? = .ok year := by
  simp only [parseDay, bind_eq_ok_iff]
  constructor
  · rintro ⟨_, hday, _, hmonth, _, hyear, ⟨⟩⟩
    exact ⟨hday, hmonth, hyear⟩
  · rintro ⟨hday, hmonth, hyear⟩
    exact ⟨day, hday, month, hmonth, year, hyear, rfl⟩

/-- So is the second one. -/
theorem parseTime_eq_ok_iff {word : Text} {hour minute : ℕ} :
    parseTime word = .ok (hour, minute) ↔ readByte (parts ':' word)[0]? = .ok hour ∧
      readByte (parts ':' word)[1]? = .ok minute := by
  simp only [parseTime, bind_eq_ok_iff]
  constructor
  · rintro ⟨_, hhour, _, hminute, ⟨⟩⟩
    exact ⟨hhour, hminute⟩
  · rintro ⟨hhour, hminute⟩
    exact ⟨hour, hhour, minute, hminute, rfl⟩

/-- Two words are read as a date if their parts give one. -/
theorem denotes_iff {first second : Text} {date : Date} :
    Denotes (Text.segments (· == '-') first) (Text.segments (· == ':') second) date ↔
      ∃ day month year hour minute, parseDay first = .ok (day, month, year) ∧
        parseTime second = .ok (hour, minute) ∧ month ≠ 0 ∧
        ofParts? (fullYear year) month day hour minute = some date := by
  have hdash : ∀ part ∈ (Text.segments (· == '-') first)[2]?, '-' ∉ part := by
    intro part hpart
    have hmem := List.mem_of_getElem? hpart
    exact (Text.segments_eq_iff.1 rfl).2.1 part hmem
  simp only [parseDay_eq_ok_iff, parseTime_eq_ok_iff, parts_getElem?]
  constructor
  · rintro ⟨hday, hname, hmonth, hyear, hhour, hminute, hdate⟩
    rename_i name day month year hour minute
    obtain ⟨hmonth, hne⟩ := readMonth_eq_ok_iff.2 ⟨name, hname, hmonth⟩
    -- The calendar and the clock keep the numbers within their types.
    obtain ⟨hdayLe, hhourLe, hminuteLe, hrange⟩ := bounds_of_ofParts? hdate
    have hdayByte : day < UInt8.size := Nat.lt_of_le_of_lt hdayLe (by decide)
    have hhourByte : hour < UInt8.size := Nat.lt_of_le_of_lt hhourLe (by decide)
    have hminuteByte : minute < UInt8.size := Nat.lt_of_le_of_lt hminuteLe (by decide)
    have hyearWord : (year : ℤ) ≤ Int32.maxValue.toInt := by
      have hfull := le_fullYear year
      have hmax : Int32.maxValue.toInt = 2147483647 := rfl
      omega
    exact ⟨day, month, year, hour, minute,
      ⟨readByte_eq_ok_iff.2 ⟨hday, hdayByte⟩, hmonth,
        (readYear_eq_ok_iff hdash).2 ⟨year, hyear, hyearWord, rfl⟩⟩,
      ⟨readByte_eq_ok_iff.2 ⟨hhour, hhourByte⟩, readByte_eq_ok_iff.2 ⟨hminute, hminuteByte⟩⟩, hne,
      hdate⟩
  · rintro ⟨day, month, year, hour, minute, ⟨hday, hmonth, hread⟩, ⟨hhour, hminute⟩, hne, hdate⟩
    obtain ⟨name, hname, hmonth⟩ := readMonth_eq_ok_iff.1 ⟨hmonth, hne⟩
    obtain ⟨year, hyear, -, rfl⟩ := (readYear_eq_ok_iff hdash).1 hread
    exact .numbers (readByte_eq_ok_iff.1 hday).1 hname hmonth hyear (readByte_eq_ok_iff.1 hhour).1
      (readByte_eq_ok_iff.1 hminute).1 hdate

/-- There have to be two words; all else depends on what they are. -/
theorem parse_eq_ok_iff_words {field : Text} {date : Date} :
    parse field = .ok date ↔ ∃ first second,
      Text.asciiWords (Text.trim field) = [first, second] ∧
        ∃ day month year hour minute, parseDay first = .ok (day, month, year) ∧
          parseTime second = .ok (hour, minute) ∧ month ≠ 0 ∧
          ofParts? (fullYear year) month day hour minute = some date := by
  unfold parse
  generalize Text.asciiWords (Text.trim field) = ws
  simp only [bind_eq_ok_iff, Prod.exists]
  constructor
  · rintro ⟨day, month, year, hday, hour, minute, htime, h⟩
    -- The words are counted after they have been read.
    split at h
    · cases h
    · next hform =>
      obtain ⟨hlength, hne⟩ := not_or.1 hform
      obtain ⟨first, second, rfl⟩ := List.length_eq_two.1 (not_not.1 hlength)
      split at h
      · next hparts =>
        cases h
        exact ⟨first, second, rfl, day, month, year, hour, minute, hday, htime, hne, hparts⟩
      · cases h
  · rintro ⟨first, second, rfl, day, month, year, hour, minute, hday, htime, hne, hparts⟩
    refine ⟨day, month, year, hday, hour, minute, htime, ?_⟩
    rw [if_neg (by simp [hne]), hparts]

/-- A field is accepted if it has the form of a date and its parts stand for one. -/
theorem parse_eq_ok_iff {field : Text} {date : Date} :
    parse field = .ok date ↔ ∃ days times, Written field days times ∧ Denotes days times date := by
  simp only [parse_eq_ok_iff_words, written_iff, ← denotes_iff]
  constructor
  · rintro ⟨first, second, hfield, hdate⟩
    exact ⟨_, _, ⟨first, second, hfield, rfl, rfl⟩, hdate⟩
  · rintro ⟨_, _, ⟨first, second, hfield, rfl, rfl⟩, hdate⟩
    exact ⟨first, second, hfield, hdate⟩

end Date

/-- A second line is accepted if it is ASCII, has all its columns, and its date field has two words
with the parts of a date. Any other line is refused. -/
theorem Compression.withProgramLine_eq_ok_iff {c c' : Compression} {line : Text} :
    c.withProgramLine line = .ok c' ↔
      60 ≤ line.length ∧ Text.isAscii line = true ∧ ∃ days times date,
        Date.Written ((line.drop 40).take 20) days times ∧ Date.Denotes days times date ∧
        c' = { c with program := Text.trim (line.take 20), date := some date } := by
  -- Of an ASCII line the bytes are the columns.
  have hcolumns : (Text.byteLength line < 60 || !Text.isAscii line) = true ↔
      ¬(60 ≤ line.length ∧ Text.isAscii line = true) := by
    cases hascii : Text.isAscii line with
    | false => simp
    | true => simp [Text.byteLength_of_isAscii hascii]
  unfold withProgramLine
  split
  · next hrefused =>
    refine iff_of_false nofun ?_
    rintro ⟨hlength, hascii, -⟩
    exact hcolumns.1 hrefused ⟨hlength, hascii⟩
  · next haccepted =>
    obtain ⟨hlength, hascii⟩ := of_not_not (mt hcolumns.2 haccepted)
    rw [bind_eq_ok_iff]
    simp only [Date.parse_eq_ok_iff]
    constructor
    · rintro ⟨date, ⟨days, times, hfield, hdate⟩, ⟨⟩⟩
      exact ⟨hlength, hascii, days, times, date, hfield, hdate, rfl⟩
    · rintro ⟨-, -, days, times, date, hfield, hdate, rfl⟩
      exact ⟨date, ⟨days, times, hfield, hdate⟩, rfl⟩

/-- A second line with this date field. -/
def Compression.dated (field : Text) : Text :=
  Text.padRight 40 "RNX2CRX ver.4.0.7".toList ++ Text.padRight 20 field ++ programLabel

/-- A part more in both words does not keep a line from being accepted, and neither does a missing
year or a missing minute. -/
theorem Compression.other_numbers_of_parts :
    (∃ c, standard.withProgramLine (dated "02-Jan-21-7 00:01:59".toList) = .ok c ∧
      c.date = some ⟨2021, 1, 2, 0, 1⟩) ∧
    (∃ c, standard.withProgramLine (dated "02-Jan 11".toList) = .ok c ∧
      c.date = some ⟨2000, 1, 2, 11, 0⟩) ∧
    ∀ field ∈ ["02-Jan-21-7 00:01:59".toList, "02-Jan 11".toList],
      ¬∃ days times, Date.Written (((dated field).drop 40).take 20) days times ∧
        days.length = 3 ∧ times.length = 2 := by
  refine ⟨⟨_, rfl, rfl⟩, ⟨_, rfl, rfl⟩, fun field hfield => ?_⟩
  rintro ⟨days, times, hdate, hthree, htwo⟩
  obtain ⟨first, second, hwords, rfl, rfl⟩ := Date.written_iff.1 hdate
  simp only [List.mem_cons, List.not_mem_nil, or_false] at hfield
  rcases hfield with rfl | rfl
  · cases hwords.symm.trans (rfl : _ = ["02-Jan-21-7".toList, "00:01:59".toList])
    exact absurd hthree (by decide)
  · cases hwords.symm.trans (rfl : _ = ["02-Jan".toList, "11".toList])
    exact absurd hthree (by decide)

end CompactRinex
