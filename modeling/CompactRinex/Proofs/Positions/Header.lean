import CompactRinex.Header
import CompactRinex.Proofs.Positions.Cuts

/-!
# Header lines by position

The fields of a header line are in fixed columns, which are cut at byte offsets. A line that is not
ASCII or that ends before its label is passed over or refused before any of its fields is cut, so
that every cut is within the line and between two characters: `Header.parseLine?_eq` and
`Compression.parse?_eq` say so of every line and every text.
-/

namespace CompactRinex

/-! ## The lines of the compression -/

namespace Compression

/-- Reads a line that has to have this label, which is cut off. -/
def readLabelled? (label line : Text) (read : Option (Except HeaderError Compression)) :
    Option (Except HeaderError Compression) :=
  if Text.byteLength line < 60 then some (.error .lineTooShort)
  else if !Text.isAscii line then some (.error .notCompactRinex)
  else do
    let found ← Text.dropBytes? 60 line
    if Text.trim found = label then read else some (.error .notCompactRinex)

/-- Takes in the first line, whose fields are cut. -/
def withVersionLine? (c : Compression) (line : Text) : Option (Except HeaderError Compression) :=
  readLabelled? versionLabel line do
    let (field, _) ← Text.splitAt? 20 line
    some (do
      let version ← parseVersion (Text.trim field)
      let c' := { c with version }
      let _ ← c'.revision
      .ok c')

/-- Takes in the second line, whose fields are cut one after the other. -/
def withProgramLine? (c : Compression) (line : Text) : Option (Except HeaderError Compression) :=
  if Text.byteLength line < 60 || !Text.isAscii line then some (.error .lineTooShort)
  else do
    let (program, rest) ← Text.splitAt? 20 line
    let (_, rest) ← Text.splitAt? 20 rest
    let (date, _) ← Text.splitAt? 20 rest
    some (do
      let date ← Date.parse date
      .ok { c with program := Text.trim program, date := some date })

/-- Reads the two lines at the start of a text. -/
def parse? (t : Text) : Option (Except HeaderError Compression) :=
  match Text.lines t with
  | [] => some (.error .notCompactRinex)
  | first :: rest => do
    match ← standard.withVersionLine? first with
    | .error e => some (.error e)
    | .ok c =>
      match rest with
      | [] => some (.error .notCompactRinex)
      | second :: _ => readLabelled? programLabel second (c.withProgramLine? second)

/-- The label is cut off where it can be, and what is read of an ASCII line with all its columns is
read then. -/
theorem readLabelled?_eq {label line : Text} {read : Option (Except HeaderError Compression)}
    {result : Except HeaderError Compression}
    (h : Text.isAscii line → 60 ≤ line.length → read = some result) :
    readLabelled? label line read = some (if Text.byteLength line < 60 then .error .lineTooShort
      else if Text.isAscii line && Text.trim (line.drop 60) == label then result
      else .error .notCompactRinex) := by
  unfold readLabelled?
  by_cases hshort : Text.byteLength line < 60
  · rw [if_pos hshort, if_pos hshort]
  · rw [if_neg hshort, if_neg hshort]
    cases hascii : Text.isAscii line with
    | false => rfl
    | true =>
      -- Past both checks every cut is at a character.
      have hlength := Text.le_length_of_isAscii hascii hshort
      simp only [Text.dropBytes?_of_isAscii hascii hlength, h hascii hlength, Bool.not_true,
        Bool.false_eq_true, if_false, Bool.true_and, Option.bind_eq_bind, Option.bind_some,
        beq_iff_eq]
      split <;> rfl

/-- The first line is cut where it can be. -/
theorem withVersionLine?_eq (c : Compression) (line : Text) :
    c.withVersionLine? line = some (c.withVersionLine line) := by
  refine readLabelled?_eq fun hascii hlength => ?_
  rw [Text.splitAt?_of_isAscii hascii (Nat.le_trans (by decide) hlength)]
  rfl

/-- The second line is cut where it can be, three times. -/
theorem withProgramLine?_eq (c : Compression) (line : Text) :
    c.withProgramLine? line = some (c.withProgramLine line) := by
  unfold withProgramLine? withProgramLine
  by_cases hrefused : (decide (Text.byteLength line < 60) || !Text.isAscii line) = true
  · rw [if_pos hrefused, if_pos hrefused]
  · rw [if_neg hrefused, if_neg hrefused]
    obtain ⟨hshort, hascii⟩ : ¬Text.byteLength line < 60 ∧ Text.isAscii line = true := by
      simpa using hrefused
    -- The line has sixty columns at least, and all three cuts fall inside.
    have hlength := Text.le_length_of_isAscii hascii hshort
    have hprogram := Text.splitAt?_of_isAscii hascii (n := 20) (by omega)
    have hgap := Text.splitAt?_of_isAscii (Text.isAscii_drop hascii 20) (n := 20)
      (by rw [List.length_drop]; omega)
    have hdate := Text.splitAt?_of_isAscii (Text.isAscii_drop hascii 40) (n := 20)
      (by rw [List.length_drop]; omega)
    rw [List.drop_drop] at hgap
    simp only [hprogram, hgap, hdate, Option.bind_eq_bind, Option.bind_some]

/-- In every text the two lines are cut where they can be. -/
theorem parse?_eq (t : Text) : parse? t = some (parse t) := by
  unfold parse? parse
  cases Text.lines t with
  | nil => rfl
  | cons first rest =>
    simp only [withVersionLine?_eq, Option.bind_eq_bind, Option.bind_some]
    cases standard.withVersionLine first with
    | error e => rfl
    | ok c =>
      cases rest with
      | nil => rfl
      | cons second rest =>
        exact readLabelled?_eq fun _ _ => c.withProgramLine?_eq second

end Compression

/-! ## The lines of the recovered file -/

namespace Header

/-- Takes in the revision line, whose fields are cut. -/
def readRevision? (h : Header) (content : Text) : Option (Outcome Header HeaderError Unit) := do
  let version ← Text.takeBytes? 9 content
  match Version.parse version with
  | .error e => some (.fail h (.version e))
  | .ok version => do
    let h := { h with version := some version }
    let type ← Text.slice? content 20 21
    if type ≠ ['O'] then some (.fail h .notObservation)
    else do
      let system ← Text.slice? content 40 41
      let system := Text.trim system
      if system.isEmpty then some (.ok h ())
      else match systemOf system with
        | .ok c => some (.ok { h with constellation := some c } ())
        | .error e => some (.fail h e)

/-- Takes in a line of one definition for all constellations, whose fields are cut. -/
def readSharedTypes? (h : Header) (content : Text) : Option (Outcome Header HeaderError Unit) := do
  let count ← Text.takeBytes? 6 content
  let codes ← Text.dropBytes? 6 content
  let count := Text.trim count
  some (if count.isEmpty then .ok (h.collect codes) () else h.define .mixed count codes)

/-- Takes in a line of the definition of one constellation, whose fields are cut. -/
def readSystemTypes? (h : Header) (content : Text) : Option (Outcome Header HeaderError Unit) := do
  let system ← Text.takeBytes? 1 content
  let count ← Text.slice? content 3 6
  let codes ← Text.dropBytes? 7 content
  let system := Text.trim system
  if system.isEmpty then some (.ok (h.collect codes) ())
  else match systemOf system with
    | .ok c => some (h.define c count codes)
    | .error e => some (.fail h e)

/-- Takes in a line of the recovered file. Its label is looked at if there is one. -/
def readLine? (h : Header) (line : Text) : Option (Outcome Header HeaderError Unit) :=
  if !Text.isAscii line then some (.ok h ())
  -- A line that is shorter has no label.
  else match Text.takeBytes? 60 line, Text.dropBytes? 60 line with
    | some content, some label =>
      let label := Text.trim label
      if label = "RINEX VERSION / TYPE".toList then h.readRevision? content
      else if label = "# / TYPES OF OBSERV".toList then h.readSharedTypes? content
      else if label = "SYS / # / OBS TYPES".toList then h.readSystemTypes? content
      else if label = "END OF HEADER".toList then
        some (.ok { h with complete := true, pending := none } ())
      else some (.ok h ())
    | _, _ => some (.ok h ())

/-- The compression after its second line. -/
def readProgram? (h : Header) (line : Text) : Option (Except HeaderError Compression) :=
  match h.compression with
  | none => some (.error .notCompactRinex)
  | some c =>
    if labelOf line = Compression.programLabel then c.withProgramLine? line
    else some (.error .notCompactRinex)

/-- Takes in the next line, whose fields are cut, and answers whether it belongs to the recovered
file. -/
def parseLine? (h : Header) (line : Text) : Option (Outcome Header HeaderError Bool) := do
  let counted := { h with lineCount := h.lineCount + 1 }
  match h.lineCount with
  | 0 =>
    let c ← Compression.standard.withVersionLine? line
    some (counted.keepCompression c)
  | 1 =>
    let c ← counted.readProgram? line
    some (counted.keepCompression c)
  | _ =>
    let read ← counted.readLine? line
    some ⟨read.state, read.result.map fun _ => true⟩

section Fields

variable (h : Header) {content : Text} (hascii : Text.isAscii content)
  (hlength : content.length = 60)
include hascii hlength

/-- The line of the revision is cut where it can be. -/
theorem readRevision?_eq : h.readRevision? content = some (h.readRevision content) := by
  have hversion := Text.takeBytes?_of_isAscii hascii (n := 9) (by omega)
  have htype := Text.slice?_of_isAscii hascii (by decide : 20 ≤ 21) (by omega)
  have hsystem := Text.slice?_of_isAscii hascii (by decide : 40 ≤ 41) (by omega)
  simp only [readRevision?, readRevision, hversion, htype, hsystem, Option.bind_eq_bind,
    Option.bind_some, Nat.reduceSub]
  cases Version.parse (content.take 9) with
  | error e => rfl
  | ok version =>
    dsimp only
    split_ifs
    · rfl
    · rfl
    · cases systemOf (Text.trim ((content.drop 40).take 1)) <;> rfl

/-- So is a definition of all systems. -/
theorem readSharedTypes?_eq : h.readSharedTypes? content = some (h.readSharedTypes content) := by
  have hcount := Text.takeBytes?_of_isAscii hascii (n := 6) (by omega)
  have hcodes := Text.dropBytes?_of_isAscii hascii (n := 6) (by omega)
  simp only [readSharedTypes?, readSharedTypes, hcount, hcodes, Option.bind_eq_bind,
    Option.bind_some]

/-- So is a definition of one system. -/
theorem readSystemTypes?_eq : h.readSystemTypes? content = some (h.readSystemTypes content) := by
  have hsystem := Text.takeBytes?_of_isAscii hascii (n := 1) (by omega)
  have hcount := Text.slice?_of_isAscii hascii (by decide : 3 ≤ 6) (by omega)
  have hcodes := Text.dropBytes?_of_isAscii hascii (n := 7) (by omega)
  simp only [readSystemTypes?, readSystemTypes, hsystem, hcount, hcodes, Option.bind_eq_bind,
    Option.bind_some, Nat.reduceSub]
  split_ifs
  · rfl
  · cases systemOf (Text.trim (content.take 1)) <;> rfl

end Fields

/-- Every line of the recovered file is cut where it can be. -/
theorem readLine?_eq (h : Header) (line : Text) : h.readLine? line = some (h.readLine line) := by
  unfold readLine? readLine
  cases hascii : Text.isAscii line with
  | false => rfl
  | true =>
    obtain ⟨htake, hdrop⟩ := Text.cut_of_isAscii hascii 60
    by_cases hlength : 60 ≤ line.length
    · -- The content has all its columns.
      have hcontent : Text.isAscii (line.take 60) := Text.isAscii_take hascii 60
      have hcolumns : (line.take 60).length = 60 := by
        rw [List.length_take]
        omega
      simp only [htake, hdrop, if_pos hlength, Bool.not_true, Bool.false_or,
        h.readRevision?_eq hcontent hcolumns, h.readSharedTypes?_eq hcontent hcolumns,
        h.readSystemTypes?_eq hcontent hcolumns, decide_eq_true_eq, Nat.not_lt.2 hlength,
        Bool.false_eq_true, if_false]
      split_ifs <;> rfl
    · simp only [htake, hdrop, if_neg hlength, Bool.not_true, Bool.false_or, decide_eq_true_eq,
        Nat.not_le.1 hlength, if_true]
      rfl

/-- The second line of the compression is cut where it can be. -/
theorem readProgram?_eq (h : Header) (line : Text) :
    h.readProgram? line = some (h.readProgram line) := by
  unfold readProgram? readProgram
  cases h.compression with
  | none => rfl
  | some c =>
    simp only [Compression.withProgramLine?_eq]
    split <;> rfl

/-- Every line of a header is cut where it can be. -/
theorem parseLine?_eq (h : Header) (line : Text) : h.parseLine? line = some (h.parseLine line) := by
  simp only [parseLine?, parseLine, Compression.withVersionLine?_eq, readProgram?_eq, readLine?_eq,
    Option.bind_eq_bind, Option.bind_some]
  rcases h.lineCount with _ | _ | n <;> rfl

end Header

end CompactRinex
