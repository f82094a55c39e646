import CompactRinex.Proofs.Overlay.Difference
import CompactRinex.Proofs.Text.Words
import CompactRinex.Proofs.Tracking.Rejection

/-!
# Trailing spaces of data lines

The spaces at the end of a data line stand for missing fields, for the space after the last field,
or for flags that stay. Without them the line has the same fields, and an edit of the flags that may
be shorter (`exists_parse_trimSpaces`). So the flags of the satellite may end earlier, but a text is
blank beyond its end: tracks whose flags differ in trailing spaces only (`Resembles`) answer every
line alike and stay so (`Resembles.decode`).
-/

namespace CompactRinex

namespace Text

/-- A text is its trimmed form, followed by spaces. -/
theorem eq_trimSpaces_append (t : Text) :
    t = trimSpaces t ++ blanks (t.length - (trimSpaces t).length) :=
  (padRight_trimSpaces t).symm

/-- Spaces at the end do not show in any column. -/
theorem getD_append_blanks (t : Text) (n i : ℕ) : (t ++ blanks n).getD i ' ' = t.getD i ' ' := by
  have hpad : t ++ blanks n = padRight (t.length + n) t := by rw [padRight, Nat.add_sub_cancel_left]
  rw [hpad, Overlay.getD_padRight]

end Text

/-! ## Lines -/

/-- Spaces at the end of a field do not count. -/
theorem Field.parse_trimSpaces (t : Text) : parse (Text.trimSpaces t) = parse t := by
  have htrim : Text.trim (Text.trimSpaces t) = Text.trim t := by
    conv_rhs => rw [Text.eq_trimSpaces_append t, Text.trim_append_blanks]
  simp only [parse, htrim]

namespace DataLine

/-- A character that is no space belongs to the first word. -/
theorem splitSpace_cons_of_ne {c : Char} (hc : c ≠ ' ') (line : Text) :
    splitSpace (c :: line) = (c :: (splitSpace line).1, (splitSpace line).2) := by
  simp [splitSpace, hc]

/-- Spaces at the end of a line belong to what follows its first token, but for the one that ends
the token. -/
theorem splitSpace_append_blanks (line : Text) (n : ℕ) :
    ∃ m, splitSpace (line ++ Text.blanks n) =
      ((splitSpace line).1, (splitSpace line).2 ++ Text.blanks m) := by
  induction line with
  | nil =>
    cases n with
    | zero => exact ⟨0, rfl⟩
    | succ n =>
      -- The first of the spaces ends the empty field.
      exact ⟨n, rfl⟩
  | cons c line ih =>
    by_cases hc : c = ' '
    · subst hc
      exact ⟨n, rfl⟩
    · obtain ⟨m, hsplit⟩ := ih
      refine ⟨m, ?_⟩
      rw [List.cons_append, splitSpace_cons_of_ne hc, splitSpace_cons_of_ne hc, hsplit]

/-- The fields of a line with spaces at its end are those of the line. -/
theorem parseFields_append_blanks (count : ℕ) (line : Text) (n : ℕ) :
    ∃ m, parseFields count (line ++ Text.blanks n) =
      (parseFields count line).map fun p => (p.1, p.2 ++ Text.blanks m) := by
  induction count generalizing line n with
  | zero => exact ⟨n, rfl⟩
  | succ count ih =>
    -- The spaces stay behind the last field, less the one that ends it.
    obtain ⟨m, hsplit⟩ := splitSpace_append_blanks line n
    obtain ⟨m', hrest⟩ := ih (splitSpace line).2 m
    refine ⟨m', ?_⟩
    simp only [parseFields, hsplit, hrest]
    cases Field.parse (splitSpace line).1 with
    | error e => rfl
    | ok field =>
      cases parseFields count (splitSpace line).2 with
      | error e => rfl
      | ok p => rfl

/-- Without its trailing spaces a line has the same fields, and an edit of the flags with the same
columns. -/
theorem exists_parse_trimSpaces {count : ℕ} {text : Text} {line : DataLine}
    (h : parse count text = .ok line) :
    ∃ flags n, parse count (Text.trimSpaces text) = .ok ⟨line.fields, flags⟩ ∧
      line.flags = flags ++ Text.blanks n := by
  unfold parse at h ⊢
  obtain ⟨m, hfields⟩ := parseFields_append_blanks count (Text.trimSpaces text)
    (text.length - (Text.trimSpaces text).length)
  rw [← Text.eq_trimSpaces_append text] at hfields
  rw [hfields] at h
  obtain ⟨p, hp, h⟩ := bind_eq_ok_iff.1 h
  obtain ⟨⟨fields, flags⟩, hparsed, rfl⟩ := map_eq_ok_iff.1 hp
  dsimp only at h
  split at h
  · next hadmitted =>
    cases h
    refine ⟨flags, m, bind_eq_ok_iff.2 ⟨(fields, flags), hparsed, ?_⟩, rfl⟩
    -- The shorter edit is made of the same characters.
    have hshorter : admitsFlags count flags = true := by
      simp only [admitsFlags, Bool.and_eq_true, List.all_append, List.length_append,
        decide_eq_true_eq] at hadmitted ⊢
      exact ⟨hadmitted.1.1, by omega⟩
    dsimp only
    rw [if_pos hshorter]
  · cases h

end DataLine

variable {maxOrder : ℕ}

/-! ## Tracks -/

namespace Track

/-- The tracks have the same kernels, and flags that differ in trailing spaces only. -/
structure Resembles (t t' : Track maxOrder) : Prop where
  /-- The kernels are the same. -/
  kernels_eq : t.kernels = t'.kernels
  /-- The flags are ASCII texts with the same columns. -/
  flags : ∃ text text', t.flags.reference = some text ∧ t'.flags.reference = some text' ∧
    Text.isAscii text ∧ Text.isAscii text' ∧ ∀ i, text.getD i ' ' = text'.getD i ' '

/-- A legible track resembles itself. -/
theorem Legible.resembles {t : Track maxOrder} (h : t.Legible) : t.Resembles t := by
  obtain ⟨text, href, htext⟩ := h
  exact ⟨rfl, text, text, href, href, htext, htext, fun _ => rfl⟩

/-- Lines with the same fields and the same columns of flags move such tracks alike, and write the
same cells. -/
theorem Resembles.advance {t t' : Track maxOrder} (h : t.Resembles t') (columns : List Column)
    {line line' : DataLine} (hfields : line.fields = line'.fields)
    (hascii : Text.isAscii line.flags) (hascii' : Text.isAscii line'.flags)
    (hflags : ∀ i, line.flags.getD i ' ' = line'.flags.getD i ' ') :
    (t.advance columns line).result = (t'.advance columns line').result ∧
      (t.advance columns line).state.Resembles (t'.advance columns line').state := by
  obtain ⟨hkernels, text, text', href, href', htext, htext', hsame⟩ := h
  -- Shorter flags read as spaces where they end, so the merged flags agree at each position.
  have hmerged : ∀ i,
      (Overlay.merge (Text.padRight t.flags.width text) line.flags).getD i ' ' =
        (Overlay.merge (Text.padRight t'.flags.width text') line'.flags).getD i ' ' := by
    intro i
    rw [Overlay.getD_merge, Overlay.getD_merge, Overlay.getD_padRight, Overlay.getD_padRight, hsame,
      hflags]
  rw [advance_of_isAscii href htext columns hascii, advance_of_isAscii href' htext' columns hascii',
    hkernels, hfields]
  constructor
  · have hwritten := funext (withFlags_congr hmerged)
    simp only [hwritten]
  · exact ⟨rfl, _, _, rfl, rfl, Overlay.isAscii_merge (Overlay.isAscii_padRight htext) hascii,
      Overlay.isAscii_merge (Overlay.isAscii_padRight htext') hascii', hmerged⟩

end Track

namespace Tracking

/-- The same satellites have tracks, and each has tracks whose flags differ in trailing spaces only.
-/
def Resembles (t t' : Tracking maxOrder) : Prop :=
  ∀ s, Option.Rel Track.Resembles (t.tracks.get? s) (t'.tracks.get? s)

/-- Without tracks there is no difference. -/
theorem resembles_empty : Resembles (∅ : Tracking maxOrder) ∅ := fun _ => .none

/-- Legible tracks resemble themselves. -/
theorem Legible.resembles {t : Tracking maxOrder} (h : t.Legible) : t.Resembles t := by
  intro s
  cases htrack : t.tracks.get? s with
  | none => exact .none
  | some track => exact .some (h s track htrack).resembles

variable {t t' : Tracking maxOrder}

/-- So do the tracks that satellites are given when they are seen for the first time. -/
theorem Resembles.getD (h : t.Resembles t') (s : Satellite) (count : ℕ) :
    ((t.tracks.get? s).getD (.fresh count)).Resembles
      ((t'.tracks.get? s).getD (.fresh count)) := by
  have hs := h s
  generalize t.tracks.get? s = track, t'.tracks.get? s = track' at hs ⊢
  cases hs with
  | none => exact (Track.legible_fresh count).resembles
  | some htracks => exact htracks

/-- Tracks that resemble each other are put in. -/
theorem Resembles.insert (h : t.Resembles t') (s : Satellite) {track track' : Track maxOrder}
    (htracks : track.Resembles track') :
    Resembles ⟨t.tracks.insert s track⟩ ⟨t'.tracks.insert s track'⟩ := by
  intro s'
  simp only [Table.get?_insert]
  split
  · exact .some htracks
  · exact h s'

/-- The tracks that are left resemble each other. -/
theorem Resembles.retain (h : t.Resembles t') (satellites : List Satellite) :
    (t.retain satellites).Resembles (t'.retain satellites) := by
  intro s
  simp only [Tracking.retain, Table.get?_restrict]
  split
  · exact h s
  · exact .none

/-- A data line is answered alike, and what it leaves still resembles. -/
theorem Resembles.decode (h : t.Resembles t') (layout : Layout) (s : Satellite) (id line : Text) :
    (t.decode layout s id line).result = (t'.decode layout s id line).result ∧
      (t.decode layout s id line).state.Resembles (t'.decode layout s id line).state := by
  unfold Tracking.decode
  cases layout.columnsOf s with
  | none => exact ⟨rfl, h⟩
  | some columns =>
    dsimp only
    split
    · cases hline : DataLine.parse columns.length line with
      | error e => exact ⟨rfl, h⟩
      | ok dataLine =>
        have hascii := (Track.parse_eq_ok hline).2
        obtain ⟨hresult, hstate⟩ :=
          (h.getD s columns.length).advance columns rfl hascii hascii fun _ => rfl
        exact ⟨congrArg (Except.map _) hresult, h.insert s hstate⟩
    · exact ⟨rfl, h⟩

/-- The trailing spaces of an accepted data line change neither the record nor, but for trailing
spaces of the flags, what the line leaves. -/
theorem Legible.decode_trimSpaces (h : t.Legible) {layout : Layout} {s : Satellite}
    {id line record : Text} (haccepted : (t.decode layout s id line).result = .ok record) :
    (t.decode layout s id (Text.trimSpaces line)).result = .ok record ∧
      (t.decode layout s id line).state.Resembles
        (t.decode layout s id (Text.trimSpaces line)).state := by
  unfold Tracking.decode at haccepted ⊢
  cases hcolumns : layout.columnsOf s with
  | none =>
    rw [hcolumns] at haccepted
    cases haccepted
  | some columns =>
    rw [hcolumns] at haccepted
    dsimp only at haccepted ⊢
    split at haccepted
    · next hascii =>
      have hascii' : Text.isAscii (Text.trimSpaces line) = true := by
        rw [Text.eq_trimSpaces_append line, Text.isAscii_append_blanks] at hascii
        exact hascii
      rw [if_pos hascii, if_pos hascii']
      cases hline : DataLine.parse columns.length line with
      | error e =>
        rw [hline] at haccepted
        cases haccepted
      | ok dataLine =>
        rw [hline] at haccepted
        -- The fields are the same, and of the flags only spaces at their end are gone.
        obtain ⟨flags, n, hshorter, hflags⟩ := DataLine.exists_parse_trimSpaces hline
        rw [hshorter]
        have hfields : dataLine.fields = (⟨dataLine.fields, flags⟩ : DataLine).fields := rfl
        have hsame : ∀ i, dataLine.flags.getD i ' ' = flags.getD i ' ' := fun i => by
          rw [hflags, Text.getD_append_blanks]
        obtain ⟨hresult, hstate⟩ := (h.resembles.getD s columns.length).advance columns hfields
          (Track.parse_eq_ok hline).2 (Track.parse_eq_ok hshorter).2 hsame
        dsimp only at haccepted ⊢
        rw [← hresult]
        exact ⟨haccepted, h.resembles.insert s hstate⟩
    · cases haccepted

end Tracking

end CompactRinex
