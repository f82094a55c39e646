import CompactRinex.Conversion
import CompactRinex.Proofs.Column.Reading
import CompactRinex.Proofs.Text.Endings

/-!
# Names of recovered files

The name of a recovered file follows from the name of the compressed one by its endings: that of a
gzip file is dropped (`Bares`), and what is left is renamed (`Renames`). `outputName_eq_iff` says
that `Conversion.outputName` is this rule. No name is renamed to itself (`outputName_ne`), and a
program that looks at the bytes of a name by their offsets, and cuts the name there, never cuts a
character (`outputName?_eq`).

Whether a file is expanded is decided by its name too, but by another rule (`FilePath.isGzip_iff`):
upper and lower case do not count, and something has to stand before the ending.
`expanded_iff_dropped` says for which names the two rules agree.
-/

namespace CompactRinex

namespace Conversion

/-! ## The rule -/

/-- The endings of gzip files. -/
def gzipEndings : List Text := [".gz".toList, ".GZ".toList]

/-- The endings of compressed files, with those of recovered files. -/
def endings : List (Text × Text) :=
  [(".crx".toList, ".rnx".toList), (".CRX".toList, ".RNX".toList)]

/-- The last letters of compressed files of a year, with those of recovered files. -/
def letters : List (Char × Char) := [('d', 'o'), ('D', 'O')]

/-- A name, and what is left of it without the ending of a gzip file. -/
inductive Bares : Text → Text → Prop where
  /-- The ending is dropped. -/
  | dropped (plain : Text) {ending : Text} (h : ending ∈ gzipEndings) :
      Bares (plain ++ ending) plain
  /-- There is no such ending. -/
  | kept {name : Text} (h : ∀ ending ∈ gzipEndings, ¬ending <:+ name) : Bares name name

/-- The name of a compressed file, and the name of the recovered one. -/
inductive Renames : Text → Text → Prop where
  /-- The ending is replaced. -/
  | ending (stem : Text) {old new : Text} (h : (old, new) ∈ endings) :
      Renames (stem ++ old) (stem ++ new)
  /-- The last letter after two digits of a year is replaced. -/
  | year (stem : Text) {ten unit old new : Char} (hten : ten.isDigit = true)
      (hunit : unit.isDigit = true) (h : (old, new) ∈ letters) :
      Renames (stem ++ ['.', ten, unit, old]) (stem ++ ['.', ten, unit, new])
  /-- Any other name gets another ending. -/
  | other {plain : Text} (hending : ∀ p ∈ endings, ¬p.1 <:+ plain)
      (hyear : ∀ ten unit : Char, ten.isDigit = true → unit.isDigit = true → ∀ p ∈ letters,
        ¬['.', ten, unit, p.1] <:+ plain) :
      Renames plain (plain ++ ".rnx".toList)

/-- The name of the recovered file, when the compressed one is no gzip file. -/
def rename (plain : Text) : Text :=
  match Text.dropSuffix? ".crx".toList plain with
  | some stem => stem ++ ".rnx".toList
  | none =>
    match Text.dropSuffix? ".CRX".toList plain with
    | some stem => stem ++ ".RNX".toList
    | none => (observationName? plain).getD (plain ++ ".rnx".toList)

/-- The gzip ending is dropped first. -/
theorem outputName_eq (name : Text) : outputName name = rename (withoutGzip name) := rfl

/-- Without the ending of a gzip file, a name is what the rule leaves of it. -/
theorem bares_iff {name plain : Text} : Bares name plain ↔ withoutGzip name = plain := by
  -- The ending in lower case is looked for first, but no name has both.
  have hnot : ∀ plain : Text, Text.dropSuffix? ".gz".toList (plain ++ ".GZ".toList) = none :=
    fun plain => Text.dropSuffix?_of_getLast?_ne 'z' rfl (by simp)
  unfold withoutGzip
  constructor
  · rintro (⟨_, hending⟩ | h)
    · rcases List.mem_pair.1 hending with rfl | rfl
      · rw [Text.dropSuffix?_eq_some_iff.2 rfl]
        rfl
      · rw [hnot, Option.none_or, Text.dropSuffix?_eq_some_iff.2 rfl]
        rfl
    · have hlower := Text.dropSuffix?_eq_none_iff.2 (h ".gz".toList (by decide))
      have hupper := Text.dropSuffix?_eq_none_iff.2 (h ".GZ".toList (by decide))
      rw [hlower, hupper]
      rfl
  · rintro rfl
    cases hlower : Text.dropSuffix? ".gz".toList name with
    | some stem =>
      rw [Text.dropSuffix?_eq_some_iff] at hlower
      subst hlower
      exact .dropped stem (by decide)
    | none =>
      cases hupper : Text.dropSuffix? ".GZ".toList name with
      | some stem =>
        rw [Text.dropSuffix?_eq_some_iff] at hupper
        subst hupper
        exact .dropped stem (by decide)
      | none =>
        refine .kept fun ending hending => ?_
        rcases List.mem_pair.1 hending with rfl | rfl
        · exact Text.dropSuffix?_eq_none_iff.1 hlower
        · exact Text.dropSuffix?_eq_none_iff.1 hupper

/-- The name of a year has a point, two digits and the letter of compressed files at its end. -/
theorem observationName?_eq_some_iff {plain r : Text} :
    observationName? plain = some r ↔ ∃ stem ten unit old new, ten.isDigit = true ∧
      unit.isDigit = true ∧ (old, new) ∈ letters ∧ plain = stem ++ ['.', ten, unit, old] ∧
      r = stem ++ ['.', ten, unit, new] := by
  constructor
  · intro h
    unfold observationName? at h
    split at h
    · -- The name is looked at from its end.
      next kind unit ten stem hreverse =>
      have hplain : plain = stem.reverse ++ ['.', ten, unit, kind] := by
        rw [← List.reverse_reverse plain, hreverse]
        simp
      split at h
      · next hdigits =>
        rw [Bool.and_eq_true] at hdigits
        split at h
        · cases h
          exact ⟨_, ten, unit, _, 'o', hdigits.2, hdigits.1, by decide, hplain, by simp⟩
        · cases h
          exact ⟨_, ten, unit, _, 'O', hdigits.2, hdigits.1, by decide, hplain, by simp⟩
        · cases h
      · cases h
    · cases h
  · rintro ⟨stem, ten, unit, old, new, hten, hunit, hletter, rfl, rfl⟩
    rcases List.mem_pair.1 hletter with h | h
    · cases h
      simp [observationName?, hten, hunit]
    · cases h
      simp [observationName?, hten, hunit]

/-- A name has at most one of the endings, and none of them if it ends in a year. The last
characters tell them apart. -/
theorem Renames.rename_eq {plain r : Text} (h : Renames plain r) : rename plain = r := by
  unfold rename
  rcases h with ⟨stem, hending⟩ | ⟨stem, hten, hunit, hletter⟩ | ⟨hending, hyear⟩
  · rcases List.mem_pair.1 hending with h | h
    · cases h
      rw [Text.dropSuffix?_eq_some_iff.2 rfl]
    · cases h
      -- The other case does not match.
      have hlower : Text.dropSuffix? ".crx".toList (stem ++ ".CRX".toList) = none :=
        Text.dropSuffix?_of_getLast?_ne 'x' rfl (by simp)
      rw [hlower, Text.dropSuffix?_eq_some_iff.2 rfl]
  · rename_i ten unit old new
    -- The ending of a year is no general ending.
    have hlast : ∀ p ∈ letters, p.1 ≠ 'x' ∧ p.1 ≠ 'X' := by decide
    obtain ⟨hx, hX⟩ := hlast _ hletter
    have hlower : Text.dropSuffix? ".crx".toList (stem ++ ['.', ten, unit, old]) = none :=
      Text.dropSuffix?_of_getLast?_ne 'x' rfl (by simpa using hx)
    have hupper : Text.dropSuffix? ".CRX".toList (stem ++ ['.', ten, unit, old]) = none :=
      Text.dropSuffix?_of_getLast?_ne 'X' rfl (by simpa using hX)
    have hname := observationName?_eq_some_iff.2
      ⟨stem, ten, unit, old, new, hten, hunit, hletter, rfl, rfl⟩
    rw [hlower, hupper, hname]
    rfl
  · have hlower := Text.dropSuffix?_eq_none_iff.2 (hending (".crx".toList, ".rnx".toList)
      (by decide))
    have hupper := Text.dropSuffix?_eq_none_iff.2 (hending (".CRX".toList, ".RNX".toList)
      (by decide))
    -- No ending of a year matches.
    have hname : observationName? plain = none := by
      refine Option.eq_none_iff_forall_not_mem.2 fun r hr => ?_
      obtain ⟨stem, ten, unit, old, new, hten, hunit, hletter, rfl, -⟩ :=
        observationName?_eq_some_iff.1 hr
      exact hyear ten unit hten hunit _ hletter ⟨stem, rfl⟩
    rw [hlower, hupper, hname]
    rfl

/-- Every name is renamed by the rule. -/
theorem renames_rename (plain : Text) : Renames plain (rename plain) := by
  unfold rename
  cases hlower : Text.dropSuffix? ".crx".toList plain with
  | some stem =>
    rw [Text.dropSuffix?_eq_some_iff] at hlower
    subst hlower
    exact .ending stem (by decide)
  | none =>
    cases hupper : Text.dropSuffix? ".CRX".toList plain with
    | some stem =>
      rw [Text.dropSuffix?_eq_some_iff] at hupper
      subst hupper
      exact .ending stem (by decide)
    | none =>
      cases hname : observationName? plain with
      | some r =>
        obtain ⟨stem, ten, unit, old, new, hten, hunit, hletter, rfl, rfl⟩ :=
          observationName?_eq_some_iff.1 hname
        exact .year stem hten hunit hletter
      | none =>
        -- None of the endings matches.
        refine .other (fun p hp => ?_) fun ten unit hten hunit p hp => ?_
        · rcases List.mem_pair.1 hp with rfl | rfl
          · exact Text.dropSuffix?_eq_none_iff.1 hlower
          · exact Text.dropSuffix?_eq_none_iff.1 hupper
        · rintro ⟨stem, rfl⟩
          have hsome := observationName?_eq_some_iff.2
            ⟨stem, ten, unit, p.1, p.2, hten, hunit, hp, rfl, rfl⟩
          rw [hname] at hsome
          cases hsome

/-- The relation is that of the function. -/
theorem renames_iff {plain r : Text} : Renames plain r ↔ rename plain = r := by
  constructor
  · exact Renames.rename_eq
  · rintro rfl
    exact renames_rename plain

/-- The name of a recovered file is the one of the rule. -/
theorem outputName_eq_iff {name r : Text} :
    outputName name = r ↔ ∃ plain, Bares name plain ∧ Renames plain r := by
  simp only [outputName_eq, bares_iff, renames_iff, exists_eq_left']

/-! ## Names of two files -/

/-- Either nothing is dropped or three characters are. -/
theorem Bares.length_le {name plain : Text} (h : Bares name plain) :
    name = plain ∨ name.length = plain.length + 3 := by
  rcases h with ⟨plain, hending⟩ | h
  · right
    rcases List.mem_pair.1 hending with rfl | rfl <;> rw [List.length_append] <;> rfl
  · exact Or.inl rfl

/-- A name is changed in its last characters, or gets four more. -/
theorem Renames.ne_and_length {plain r : Text} (h : Renames plain r) :
    r ≠ plain ∧ (r.length = plain.length ∧ 4 ≤ r.length ∨ r.length = plain.length + 4) := by
  rcases h with ⟨stem, hending⟩ | ⟨stem, -, -, hletter⟩ | ⟨-, -⟩
  · refine ⟨fun heq => ?_, Or.inl ?_⟩
    · rcases List.mem_pair.1 hending with h | h <;> cases h <;> simp at heq
    · rcases List.mem_pair.1 hending with h | h <;> cases h <;> simp
  · refine ⟨fun heq => ?_, Or.inl (by simp)⟩
    rcases List.mem_pair.1 hletter with h | h <;> cases h <;> simp at heq
  · exact ⟨by simp, Or.inr (by simp)⟩

/-- The recovered file has another name than the compressed one. -/
theorem outputName_ne (name : Text) : outputName name ≠ name := by
  obtain ⟨plain, hbares, hrenames⟩ := outputName_eq_iff.1 (rfl : outputName name = outputName name)
  obtain ⟨hne, hlength⟩ := hrenames.ne_and_length
  rcases hbares.length_le with rfl | hlonger
  · exact hne
  · -- The dropped ending has three characters, and renaming adds none or four.
    intro heq
    rw [heq] at hlength
    omega

/-- The name of a recovered file is neither empty nor made of one or two points. -/
theorem four_le_length_outputName (name : Text) : 4 ≤ (outputName name).length := by
  obtain ⟨plain, -, hrenames⟩ := outputName_eq_iff.1 (rfl : outputName name = outputName name)
  have hlength := hrenames.ne_and_length.2
  omega

/-! ## Names by their bytes -/

/-- The byte of a digit. -/
def isDigitByte (b : UInt8) : Bool := 48 ≤ b.toNat && b.toNat ≤ 57

/-- The name that ends in two digits of a year, with its ending found by the offsets of its bytes
and cut off there. There is no result where a byte is missing or a character is cut. -/
def observationBytes? (plain : Text) : Option (Option Text) :=
  let bytes := Text.encode plain
  let n := bytes.length
  if 3 < n then do
    let point ← bytes[n - 4]?
    let ten ← bytes[n - 3]?
    let unit ← bytes[n - 2]?
    let last ← bytes[n - 1]?
    if point = Text.byteOf '.' ∧ isDigitByte ten ∧ isDigitByte unit then
      -- The last letter of the year's ending says what kind of file it is.
      match letters.find? fun p => Text.byteOf p.1 == last with
      | some p => (Text.takeBytes? (n - 1) plain).map fun stem => some (stem ++ [p.2])
      | none => some none
    else some none
  else some none

/-- The name of the recovered file, where the ending of a year is found by bytes. -/
def outputName? (name : Text) : Option Text :=
  let name := withoutGzip name
  match Text.dropSuffix? ".crx".toList name with
  | some stem => some (stem ++ ".rnx".toList)
  | none =>
    match Text.dropSuffix? ".CRX".toList name with
    | some stem => some (stem ++ ".RNX".toList)
    | none => (observationBytes? name).map fun r => r.getD (name ++ ".rnx".toList)

/-- A digit is a digit as a byte. -/
theorem isDigitByte_byteOf {c : Char} (h : c.isDigit = true) :
    isDigitByte (Text.byteOf c) = true := by
  have hdigit := Char.isDigit_iff_toNat.1 h
  simp only [isDigitByte, Text.byteOf, UInt8.toNat_ofNat', Bool.and_eq_true, decide_eq_true_eq]
  have hlow : ('0').toNat = 48 := rfl
  have hhigh : ('9').toNat = 57 := rfl
  omega

/-- A byte that is a digit is that of a character. -/
theorem exists_of_isDigitByte {b : UInt8} (h : isDigitByte b = true) :
    ∃ c : Char, c.isDigit = true ∧ Text.byteOf c = b := by
  simp only [isDigitByte, Bool.and_eq_true, decide_eq_true_eq] at h
  have hvalid : b.toNat.isValidChar := Or.inl (by omega)
  -- The byte of a digit is the number of a character.
  have hchar : (Char.ofNat b.toNat).toNat = b.toNat := by
    rw [Char.ofNat, dif_pos hvalid]
    rfl
  refine ⟨Char.ofNat b.toNat, Char.isDigit_iff_toNat.2 ?_, ?_⟩
  · rw [hchar]
    exact h
  · rw [Text.byteOf, hchar, UInt8.ofNat_toNat]

/-- More than three bytes end in four. -/
theorem exists_eq_append_four {bytes : List UInt8} (h : 3 < bytes.length) :
    ∃ front point ten unit last, bytes = front ++ [point, ten, unit, last] := by
  have hlength : (bytes.drop (bytes.length - 4)).length = 4 := by
    rw [List.length_drop]
    omega
  obtain ⟨point, ten, unit, last, hlast⟩ := List.length_eq_four.1 hlength
  refine ⟨bytes.take (bytes.length - 4), point, ten, unit, last, ?_⟩
  rw [← hlast, List.take_append_drop]

/-- What is found in the last four bytes of a name. -/
theorem observationBytes?_of_append {plain : Text} {front : List UInt8}
    {point ten unit last : UInt8} (h : Text.encode plain = front ++ [point, ten, unit, last]) :
    observationBytes? plain =
      if point = Text.byteOf '.' ∧ isDigitByte ten ∧ isDigitByte unit then
        match letters.find? fun p => Text.byteOf p.1 == last with
        | some p => (Text.takeBytes? (front.length + 3) plain).map fun stem => some (stem ++ [p.2])
        | none => some none
      else some none := by
  unfold observationBytes?
  simp only [h, List.length_append, List.length_cons, List.length_nil]
  rw [if_pos (by omega)]
  simp

/-- The endings of a year are ASCII. -/
theorem isAscii_year {ten unit old new : Char} (hten : ten.isDigit = true)
    (hunit : unit.isDigit = true) (hletter : (old, new) ∈ letters) :
    Text.isAscii ['.', ten, unit] = true ∧ Text.isAscii ['.', ten, unit, old] = true := by
  have hdigit : ∀ c : Char, c.isDigit = true → c.toNat < 128 := fun c hc =>
    lt_of_le_of_lt (Char.isDigit_iff_toNat.1 hc).2 (by decide)
  have hletters : ∀ p ∈ letters, p.1.toNat < 128 := by decide
  simp [Text.isAscii, hdigit ten hten, hdigit unit hunit, hletters _ hletter]

/-- The bytes of a year are there when they are looked at, and in front of its letter no character
is cut. -/
theorem observationBytes?_of_year (stem : Text) {ten unit old new : Char}
    (hten : ten.isDigit = true) (hunit : unit.isDigit = true) (hletter : (old, new) ∈ letters) :
    observationBytes? (stem ++ ['.', ten, unit, old]) =
      some (some (stem ++ ['.', ten, unit, new])) := by
  obtain ⟨hstem, hending⟩ := isAscii_year hten hunit hletter
  have hbytes : Text.encode (stem ++ ['.', ten, unit, old]) = Text.encode stem ++
      [Text.byteOf '.', Text.byteOf ten, Text.byteOf unit, Text.byteOf old] := by
    rw [Text.encode_append, Text.encode_of_isAscii hending]
    rfl
  have hfind : letters.find? (fun p => Text.byteOf p.1 == Text.byteOf old) = some (old, new) := by
    rcases List.mem_pair.1 hletter with h | h <;> cases h <;> rfl
  -- The bytes in front of the letter are those of the stem and of three ASCII characters.
  have hcut : Text.takeBytes? ((Text.encode stem).length + 3) (stem ++ ['.', ten, unit, old]) =
      some (stem ++ ['.', ten, unit]) := by
    have hlength : (Text.encode stem).length + 3 = Text.byteLength (stem ++ ['.', ten, unit]) := by
      rw [Text.length_encode, Text.byteLength_append, Text.byteLength_of_isAscii hstem]
      rfl
    have hsplit : stem ++ ['.', ten, unit, old] = stem ++ ['.', ten, unit] ++ [old] := by simp
    rw [hlength, hsplit, Text.takeBytes?_append]
  rw [observationBytes?_of_append hbytes,
    if_pos ⟨rfl, isDigitByte_byteOf hten, isDigitByte_byteOf hunit⟩, hfind]
  simp [hcut]

/-- The bytes of a year are nowhere but in a year. -/
theorem observationBytes?_of_eq_none {plain : Text} (h : observationName? plain = none) :
    observationBytes? plain = some none := by
  by_cases hlong : 3 < (Text.encode plain).length
  · obtain ⟨front, point, ten, unit, last, hbytes⟩ := exists_eq_append_four hlong
    rw [observationBytes?_of_append hbytes]
    split
    · next hdigits =>
      obtain ⟨rfl, htenByte, hunitByte⟩ := hdigits
      split
      · next p hp =>
        -- The bytes are those of ASCII characters, so the name ends in these.
        obtain ⟨ten, hten, rfl⟩ := exists_of_isDigitByte htenByte
        obtain ⟨unit, hunit, rfl⟩ := exists_of_isDigitByte hunitByte
        have hlast : Text.byteOf p.1 = last := by simpa using List.find?_some hp
        have hletter := List.mem_of_find?_eq_some hp
        subst hlast
        obtain ⟨stem, rfl, -⟩ :=
          Text.exists_of_encode_eq_append (isAscii_year hten hunit hletter).2 hbytes
        have hsome := observationName?_eq_some_iff.2
          ⟨stem, ten, unit, p.1, p.2, hten, hunit, hletter, rfl, rfl⟩
        rw [h] at hsome
        cases hsome
      · rfl
    · rfl
  · unfold observationBytes?
    dsimp only
    rw [if_neg hlong]

/-- Cut in bytes, the name of an observation file is the same. -/
theorem observationBytes?_eq (plain : Text) :
    observationBytes? plain = some (observationName? plain) := by
  cases hname : observationName? plain with
  | some r =>
    obtain ⟨stem, ten, unit, old, new, hten, hunit, hletter, rfl, rfl⟩ :=
      observationName?_eq_some_iff.1 hname
    exact observationBytes?_of_year stem hten hunit hletter
  | none => exact observationBytes?_of_eq_none hname

/-- The name of the recovered file is found by bytes too, for every name. -/
theorem outputName?_eq (name : Text) : outputName? name = some (outputName name) := by
  rw [outputName_eq]
  unfold outputName? rename
  dsimp only
  split
  · rfl
  · split
    · rfl
    · rw [observationBytes?_eq, Option.map_some]

end Conversion

/-! ## Names of gzip files -/

namespace FilePath

/-- The ending of a name is what follows its last point, if that is not at its start. -/
theorem ending?_eq_some_iff {name ending : Text} :
    ending? name = some ending ↔
      '.' ∉ ending ∧ ∃ stem, stem ≠ [] ∧ name = stem ++ '.' :: ending := by
  unfold ending?
  constructor
  · intro h
    split at h
    · next before c after hsplit =>
      cases h
      obtain ⟨hpoint, hname⟩ := Text.splitFirst?_eq_some_iff.1 hsplit
      refine ⟨fun hmem => hpoint (List.mem_reverse.1 hmem), (c :: after).reverse, by simp, ?_⟩
      rw [← List.reverse_reverse name, hname]
      simp
    · cases h
  · rintro ⟨hpoint, stem, hstem, rfl⟩
    -- Something stands before the last point, which is the first one from behind.
    obtain ⟨c, after, hreverse⟩ := List.exists_cons_of_ne_nil (List.reverse_ne_nil_iff.2 hstem)
    have hsplit : Text.splitFirst? '.' (stem ++ '.' :: ending).reverse =
        some (ending.reverse, c :: after) := by
      refine Text.splitFirst?_eq_some_iff.2 ⟨fun hmem => hpoint (List.mem_reverse.1 hmem), ?_⟩
      rw [← hreverse]
      simp
    rw [hsplit]
    simp

/-- The endings in mixed case. -/
def mixedEndings : List Text := [".gZ".toList, ".Gz".toList]

/-- The endings of the names of files that are expanded. -/
def expandedEndings : List Text := Conversion.gzipEndings ++ mixedEndings

/-- The endings that are read as gzip, in any case. -/
theorem map_toLower_eq_iff {ending : Text} :
    ending.map Char.toLower = ['g', 'z'] ↔ '.' :: ending ∈ expandedEndings := by
  have hg : ∀ c : Char, c.toLower = 'g' ↔ c = 'g' ∨ c = 'G' := fun c =>
    Text.toLower_eq_iff (by decide) (by decide)
  have hz : ∀ c : Char, c.toLower = 'z' ↔ c = 'z' ∨ c = 'Z' := fun c =>
    Text.toLower_eq_iff (by decide) (by decide)
  constructor
  · intro h
    obtain ⟨g, rest, rfl, hfirst, hrest⟩ := List.map_eq_cons_iff.1 h
    obtain ⟨z, rest, rfl, hsecond, hrest⟩ := List.map_eq_cons_iff.1 hrest
    obtain rfl := List.map_eq_nil_iff.1 hrest
    rcases (hg g).1 hfirst with rfl | rfl <;> rcases (hz z).1 hsecond with rfl | rfl <;> decide
  · intro h
    rcases List.mem_append.1 h with h | h <;> rcases List.mem_pair.1 h with h | h <;> cases h <;>
      decide

/-- A file is expanded if its name has one of these endings, and something in front of it. -/
theorem isGzip_iff {p : FilePath} {name : Text} (h : p.fileName? = some name) :
    p.isGzip = true ↔
      ∃ stem ending, stem ≠ [] ∧ ending ∈ expandedEndings ∧ name = stem ++ ending := by
  have hending : p.isGzip = true ↔
      ∃ ending, ending? name = some ending ∧ '.' :: ending ∈ expandedEndings := by
    unfold isGzip
    rw [h, Option.bind_some]
    cases hname : ending? name with
    | none => simp
    | some ending => simp only [beq_iff_eq, map_toLower_eq_iff, Option.some.injEq, exists_eq_left']
  rw [hending]
  constructor
  · rintro ⟨ending, hname, hmem⟩
    obtain ⟨-, stem, hstem, rfl⟩ := ending?_eq_some_iff.1 hname
    exact ⟨stem, '.' :: ending, hstem, hmem, rfl⟩
  · rintro ⟨stem, ending, hstem, hmem, rfl⟩
    -- The point at the start of the ending is the last one of the name.
    have hpoint : ∀ ending ∈ expandedEndings, ending.head? = some '.' ∧ '.' ∉ ending.tail := by
      decide
    obtain ⟨hhead, htail⟩ := hpoint ending hmem
    obtain ⟨rest, rfl⟩ := List.head?_eq_some_iff.1 hhead
    exact ⟨rest, ending?_eq_some_iff.2 ⟨htail, stem, hstem, rfl⟩, hmem⟩

end FilePath

namespace Conversion

/-- A name on which the two rules differ: it is the ending of a gzip file and nothing else, or its
ending is in mixed case. -/
def Differs (name : Text) : Prop :=
  name ∈ gzipEndings ∨
    ∃ stem ending, stem ≠ [] ∧ ending ∈ FilePath.mixedEndings ∧ name = stem ++ ending

/-- The names that get shorter. -/
theorem drops_iff {name : Text} :
    withoutGzip name ≠ name ↔ ∃ stem, ∃ ending ∈ gzipEndings, name = stem ++ ending := by
  constructor
  · intro h
    by_contra hnone
    refine h (bares_iff.1 (.kept fun ending hending hsuffix => hnone ?_))
    obtain ⟨stem, rfl⟩ := hsuffix
    exact ⟨stem, ending, hending, rfl⟩
  · rintro ⟨stem, ending, hending, rfl⟩ heq
    rw [bares_iff.1 (.dropped stem hending), List.self_eq_append_right] at heq
    subst heq
    exact absurd hending (by decide)

/-- All endings have three characters, so that a name has only one of them. -/
theorem ending_unique {stem stem' ending ending' : Text} (hending : ending ∈ gzipEndings)
    (hending' : ending' ∈ FilePath.expandedEndings) (h : stem ++ ending = stem' ++ ending') :
    stem = stem' ∧ ending = ending' := by
  have hlength : ending.length = 3 := by
    rcases List.mem_pair.1 hending with rfl | rfl <;> rfl
  have hlength' : ∀ e ∈ FilePath.expandedEndings, e.length = 3 := by decide
  exact List.append_inj' h (hlength.trans (hlength' ending' hending').symm)

/-- An ending that is dropped is one that is read as gzip. -/
theorem mem_expandedEndings {ending : Text} (h : ending ∈ gzipEndings) :
    ending ∈ FilePath.expandedEndings :=
  List.mem_append_left _ h

/-- If an ending is dropped, the file is expanded unless the ending is the whole name. -/
theorem isGzip_of_dropped {p : FilePath} {stem ending : Text}
    (h : p.fileName? = some (stem ++ ending)) (hending : ending ∈ gzipEndings) :
    p.isGzip = true ↔ stem ≠ [] := by
  rw [FilePath.isGzip_iff h]
  constructor
  · rintro ⟨stem', ending', hne, hending', heq⟩
    rw [(ending_unique hending hending' heq).1]
    exact hne
  · exact fun hne => ⟨stem, ending, hne, mem_expandedEndings hending, rfl⟩

/-- With an ending that is dropped, reading and naming differ only if there is nothing else. -/
theorem differs_of_dropped {stem ending : Text} (hending : ending ∈ gzipEndings) :
    Differs (stem ++ ending) ↔ stem = [] := by
  constructor
  · rintro (hmem | ⟨stem', ending', -, hending', heq⟩)
    · exact (ending_unique hending (mem_expandedEndings hmem) (List.nil_append _).symm).1
    · -- An ending in mixed case is none of those that are dropped.
      have hsame := (ending_unique hending (List.mem_append_right _ hending') heq).2
      have hmixed : ∀ e ∈ gzipEndings, e ∉ FilePath.mixedEndings := by decide
      exact absurd (hsame ▸ hending') (hmixed ending hending)
  · rintro rfl
    exact Or.inl hending

/-- If nothing is dropped, the file is expanded only for an ending in mixed case. -/
theorem isGzip_of_kept {p : FilePath} {name : Text} (h : p.fileName? = some name)
    (hkept : ¬∃ stem, ∃ ending ∈ gzipEndings, name = stem ++ ending) :
    p.isGzip = true ↔ Differs name := by
  rw [FilePath.isGzip_iff h]
  constructor
  · rintro ⟨stem, ending, hne, hending, rfl⟩
    rcases List.mem_append.1 hending with hending | hending
    · exact absurd ⟨stem, ending, hending, rfl⟩ hkept
    · exact Or.inr ⟨stem, ending, hne, hending, rfl⟩
  · rintro (hmem | ⟨stem, ending, hne, hending, rfl⟩)
    · exact absurd ⟨[], name, hmem, rfl⟩ hkept
    · exact ⟨stem, ending, hne, List.mem_append_right _ hending, rfl⟩

/-- A file is expanded exactly if the ending of a gzip file is dropped from its name, but for the
names on which the two rules differ. What is left of a name then gives the name of the recovered
file as if it had been the whole name. -/
theorem expanded_iff_dropped {p : FilePath} {name : Text} (h : p.fileName? = some name) :
    ((p.isGzip = true ↔ withoutGzip name ≠ name) ↔ ¬Differs name) ∧
      ∀ plain ending, plain ≠ [] → ending ∈ gzipEndings → name = plain ++ ending →
        p.isGzip = true ∧ ∀ r, Renames plain r → outputName name = r := by
  constructor
  · by_cases hdrops : ∃ stem, ∃ ending ∈ gzipEndings, name = stem ++ ending
    · obtain ⟨stem, ending, hending, rfl⟩ := hdrops
      have hdropped := drops_iff.2 ⟨stem, ending, hending, rfl⟩
      rw [isGzip_of_dropped h hending, differs_of_dropped hending]
      exact iff_true_right hdropped
    · -- Nothing is dropped, so the file must not be read as gzip either.
      have hkept : ¬withoutGzip name ≠ name := fun hdropped => hdrops (drops_iff.1 hdropped)
      rw [iff_false_right hkept, isGzip_of_kept h hdrops]
  · rintro plain ending hplain hending rfl
    refine ⟨(isGzip_of_dropped h hending).2 hplain, fun r hr => ?_⟩
    exact outputName_eq_iff.2 ⟨plain, .dropped plain hending, hr⟩

/-- A file of a year in a directory, with the ending of a gzip file in lower case. -/
theorem expanded_iff_dropped_year :
    (FilePath.parse "data/AJAC3550.21d.gz".toList).fileName? = some "AJAC3550.21d.gz".toList ∧
      ((FilePath.parse "data/AJAC3550.21d.gz".toList).isGzip = true ↔
        withoutGzip "AJAC3550.21d.gz".toList ≠ "AJAC3550.21d.gz".toList) ∧
      (FilePath.parse "data/AJAC3550.21d.gz".toList).isGzip = true ∧
      outputName "AJAC3550.21d.gz".toList = "AJAC3550.21o".toList := by
  have hname : (FilePath.parse "data/AJAC3550.21d.gz".toList).fileName? =
      some "AJAC3550.21d.gz".toList := by decide
  -- The ending is one that is both read as gzip and dropped.
  have hagrees : ¬Differs ("AJAC3550.21d".toList ++ ".gz".toList) := by
    rintro (hmem | ⟨stem, ending, -, hending, heq⟩)
    · exact absurd hmem (by decide)
    · obtain ⟨-, rfl⟩ := ending_unique (by decide) (List.mem_append_right _ hending) heq
      exact absurd hending (by decide)
  have hyear : Renames "AJAC3550.21d".toList "AJAC3550.21o".toList :=
    @Renames.year "AJAC3550".toList '2' '1' 'd' 'o' rfl rfl (by decide)
  obtain ⟨hiff, hplain⟩ := expanded_iff_dropped hname
  obtain ⟨hgzip, hrenames⟩ := hplain "AJAC3550.21d".toList ".gz".toList (by decide) (by decide) rfl
  exact ⟨hname, hiff.2 hagrees, hgzip, hrenames _ hyear⟩

/-- The file `a.crx.Gz` is expanded although nothing is dropped from its name, and the whole name of
the file `.gz` is dropped although it is not expanded. -/
theorem expanded_not_dropped :
    ((FilePath.parse "a.crx.Gz".toList).fileName? = some "a.crx.Gz".toList ∧
      (FilePath.parse "a.crx.Gz".toList).isGzip = true ∧
      withoutGzip "a.crx.Gz".toList = "a.crx.Gz".toList ∧
      outputName "a.crx.Gz".toList = "a.crx.Gz.rnx".toList) ∧
    (FilePath.parse ".gz".toList).fileName? = some ".gz".toList ∧
      (FilePath.parse ".gz".toList).isGzip = false ∧ withoutGzip ".gz".toList = [] := by
  decide

end Conversion

end CompactRinex
