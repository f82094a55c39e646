import CompactRinex.Header
import CompactRinex.Proofs.Outcome
import CompactRinex.Proofs.Positions.Cuts

/-!
# The two readers of the compression

The two lines of the compression are read at once (`Compression.parse`), or one after the other at
the head of a header (`Header.parseLine`). The checks of the second line stand in another order
there, and its label is cut off before it is known whether the line is ASCII; but what is accepted
is the same, and means the same: `parse_iff_takesCompression`. The header is then read on with
nothing but the compression known (`TakesCompression.parseLines_eq`).
-/

namespace CompactRinex

namespace Compression

/-- The second line has all its columns, and they are ASCII. -/
theorem of_withProgramLine {c c' : Compression} {line : Text}
    (h : c.withProgramLine line = .ok c') :
    ¬ Text.byteLength line < 60 ∧ Text.isAscii line = true := by
  unfold withProgramLine at h
  split at h
  · cases h
  · next hrefused => simpa using hrefused

/-- The two lines that are read at once. -/
theorem parse_eq_ok_iff {t : Text} {c' : Compression} :
    parse t = .ok c' ↔ ∃ first second rest c, Text.lines t = first :: second :: rest ∧
      standard.withVersionLine first = .ok c ∧ Text.trim (second.drop 60) = programLabel ∧
      c.withProgramLine second = .ok c' := by
  unfold parse
  constructor
  · intro h
    split at h
    · cases h
    · next first lines hlines =>
      obtain ⟨c, hversion, h⟩ := bind_eq_ok_iff.1 h
      cases lines with
      | nil => cases h
      | cons second rest =>
        dsimp only at h
        split at h
        · cases h
        · split at h
          · next hlabel =>
            have hlabel' := (Bool.and_eq_true_iff.1 hlabel).2
            exact ⟨first, second, rest, c, hlines, hversion, eq_of_beq hlabel', h⟩
          · cases h
  · rintro ⟨first, second, rest, c, hlines, hversion, hlabel, hprogram⟩
    -- The program line is accepted, so it is long enough and ASCII.
    obtain ⟨hshort, hascii⟩ := of_withProgramLine hprogram
    have haccepted :
        (Text.isAscii second && Text.trim (second.drop 60) == programLabel) = true := by
      rw [hascii, hlabel]
      rfl
    rw [hlines]
    refine bind_eq_ok_iff.2 ⟨c, hversion, ?_⟩
    dsimp only
    rw [if_neg hshort, if_pos haccepted, hprogram]

end Compression

namespace Header

/-- The header after the first line. -/
def ofVersionLine (c : Compression) : Header := { empty with compression := some c, lineCount := 1 }

/-- The header after the two lines of a compression. -/
def ofCompression (c : Compression) : Header := { empty with compression := some c, lineCount := 2 }

/-- A new header accepts the two lines, forwards neither, and has the compression then. -/
def TakesCompression (first second : Text) (c : Compression) : Prop :=
  let head := empty.parseLine first
  let next := head.state.parseLine second
  head.result = .ok false ∧ next.result = .ok false ∧ next.state.compression = some c

/-- The label of an ASCII line. -/
theorem labelOf_of_isAscii {line : Text} (h : Text.isAscii line) :
    labelOf line = Text.trim (line.drop 60) := by
  rw [labelOf, Text.getD_dropBytes? h]

/-- A compression is read off the second line if the line has its label. -/
theorem readProgram_eq_ok_iff {h : Header} {c c' : Compression} (hc : h.compression = some c)
    {line : Text} : h.readProgram line = .ok c' ↔
      Text.trim (line.drop 60) = Compression.programLabel ∧ c.withProgramLine line = .ok c' := by
  simp only [readProgram, hc]
  constructor
  · intro hread
    split at hread
    · next hlabel =>
      -- An accepted line is ASCII, so its label is what stands behind column sixty.
      rw [labelOf_of_isAscii (Compression.of_withProgramLine hread).2] at hlabel
      exact ⟨hlabel, hread⟩
    · cases hread
  · rintro ⟨hlabel, hread⟩
    rw [labelOf_of_isAscii (Compression.of_withProgramLine hread).2, if_pos hlabel, hread]

/-- The first line is accepted if a compression is read off it. -/
theorem parseLine_first {line : Text} {c : Compression}
    (h : Compression.standard.withVersionLine line = .ok c) :
    empty.parseLine line = .ok (ofVersionLine c) false := by
  show keepCompression _ (Compression.standard.withVersionLine line) = _
  rw [h]
  rfl

/-- If the first line is accepted, a compression has been read off it. -/
theorem exists_of_parseLine_first {line : Text} {forwarded : Bool}
    (h : (empty.parseLine line).result = .ok forwarded) :
    ∃ c, Compression.standard.withVersionLine line = .ok c := by
  change (keepCompression _ (Compression.standard.withVersionLine line)).result = _ at h
  cases hread : Compression.standard.withVersionLine line with
  | error e => rw [hread] at h; cases h
  | ok c => exact ⟨c, rfl⟩

/-- The second line is accepted if the compression is completed by it. -/
theorem parseLine_second {line : Text} {c c' : Compression}
    (h : (ofVersionLine c).readProgram line = .ok c') :
    (ofVersionLine c).parseLine line = .ok (ofCompression c') false := by
  show keepCompression _ ((ofVersionLine c).readProgram line) = _
  rw [h]
  rfl

/-- If the second line is accepted, it has completed the compression. -/
theorem exists_of_parseLine_second {line : Text} {c : Compression} {forwarded : Bool}
    (h : ((ofVersionLine c).parseLine line).result = .ok forwarded) :
    ∃ c', (ofVersionLine c).readProgram line = .ok c' := by
  change (keepCompression _ ((ofVersionLine c).readProgram line)).result = _ at h
  cases hread : (ofVersionLine c).readProgram line with
  | error e => rw [hread] at h; cases h
  | ok c' => exact ⟨c', rfl⟩

/-- The two lines that are read one after the other. -/
theorem takesCompression_iff {first second : Text} {c' : Compression} :
    TakesCompression first second c' ↔ ∃ c, Compression.standard.withVersionLine first = .ok c ∧
      Text.trim (second.drop 60) = Compression.programLabel ∧
      c.withProgramLine second = .ok c' := by
  unfold TakesCompression
  constructor
  · rintro ⟨hfirst, hsecond, hkept⟩
    -- An accepted first line leaves the version behind, the second line adds to it.
    obtain ⟨c, hversion⟩ := exists_of_parseLine_first hfirst
    rw [parseLine_first hversion] at hsecond hkept
    obtain ⟨c'', hprogram⟩ := exists_of_parseLine_second hsecond
    rw [show (Outcome.ok (ofVersionLine c) false).state = ofVersionLine c from rfl,
      parseLine_second hprogram] at hkept
    cases hkept
    exact ⟨c, hversion, (readProgram_eq_ok_iff rfl).1 hprogram⟩
  · rintro ⟨c, hversion, hread⟩
    have hprogram := (readProgram_eq_ok_iff (h := ofVersionLine c) rfl).2 hread
    rw [parseLine_first hversion]
    refine ⟨rfl, ?_, ?_⟩
    · exact congrArg Outcome.result (parseLine_second hprogram)
    · exact congrArg (fun o => o.state.compression) (parseLine_second hprogram)

/-- After the two lines the header is read on with nothing but the compression known. -/
theorem TakesCompression.parseLines_eq {first second : Text} {c' : Compression}
    (h : TakesCompression first second c') (rest : List Text) :
    parseLines empty (first :: second :: rest) = parseLines (ofCompression c') rest := by
  obtain ⟨c, hversion, hread⟩ := takesCompression_iff.1 h
  have hfirst := parseLine_first hversion
  have hsecond := parseLine_second ((readProgram_eq_ok_iff (h := ofVersionLine c) rfl).2 hread)
  rw [parseLines, hfirst]
  show parseLines (ofVersionLine c) (second :: rest) = _
  rw [parseLines, hsecond]
  rfl

/-- A compression is accepted only if the structure of its lines is known. -/
theorem TakesCompression.exists_revision {first second : Text} {c' : Compression}
    (h : TakesCompression first second c') : ∃ revision, c'.revision = .ok revision := by
  obtain ⟨c, hversion, -, hprogram⟩ := takesCompression_iff.1 h
  -- The program line keeps the version, which has a revision when it is read.
  have hkept : c'.version = c.version := by
    unfold Compression.withProgramLine at hprogram
    split at hprogram
    · cases hprogram
    · obtain ⟨date, -, hprogram⟩ := bind_eq_ok_iff.1 hprogram
      cases hprogram
      rfl
  unfold Compression.withVersionLine at hversion
  split at hversion
  · cases hversion
  · split at hversion
    · obtain ⟨version, -, hversion⟩ := bind_eq_ok_iff.1 hversion
      obtain ⟨revision, hrevision, hversion⟩ := bind_eq_ok_iff.1 hversion
      cases hversion
      refine ⟨revision, ?_⟩
      simp only [Compression.revision, hkept] at hrevision ⊢
      exact hrevision
    · cases hversion

end Header

/-- Reading the two lines at once accepts what a new header accepts line by line, with the same
compression. -/
theorem Compression.parse_iff_takesCompression (t : Text) (c : Compression) :
    parse t = .ok c ↔ ∃ first second rest, Text.lines t = first :: second :: rest ∧
      Header.TakesCompression first second c := by
  rw [parse_eq_ok_iff]
  constructor
  · rintro ⟨first, second, rest, c₁, hlines, hread⟩
    exact ⟨first, second, rest, hlines, Header.takesCompression_iff.2 ⟨c₁, hread⟩⟩
  · rintro ⟨first, second, rest, hlines, htakes⟩
    obtain ⟨c₁, hread⟩ := Header.takesCompression_iff.1 htakes
    exact ⟨first, second, rest, c₁, hlines, hread⟩

end CompactRinex
