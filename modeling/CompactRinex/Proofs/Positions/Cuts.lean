import CompactRinex.DataLine
import CompactRinex.Overlay
import Mathlib.Data.List.TakeWhile

/-!
# Cuts by position

A line may be read with an offset that runs along it, and an edit may be put into the bytes of a
text in place. Both go by position: a cut gives nothing where it splits a character or leaves the
text, and a byte can only be put where there is one. `Overlay.recover?_eq` and `DataLine.parse?_eq`
say that neither happens, to any edit and to any ASCII line.
-/

namespace CompactRinex

namespace Text

/-! ## Cuts of ASCII texts -/

/-- An ASCII text can be cut at every offset up to its end, and nowhere else. -/
theorem cut_of_isAscii {t : Text} (h : isAscii t) (n : ℕ) :
    takeBytes? n t = (if n ≤ t.length then some (t.take n) else none) ∧
      dropBytes? n t = if n ≤ t.length then some (t.drop n) else none := by
  induction t generalizing n with
  | nil => cases n <;> exact ⟨rfl, rfl⟩
  | cons c t ih =>
    cases n with
    | zero => exact ⟨rfl, rfl⟩
    | succ n =>
      rw [isAscii_iff, List.forall_mem_cons] at h
      -- One byte of the text is one character.
      have hsize : c.utf8Size = 1 := utf8Size_eq_one_iff.2 h.1
      obtain ⟨htake, hdrop⟩ := ih (isAscii_iff.2 h.2) n
      simp only [takeBytes?, dropBytes?, hsize, Nat.add_sub_cancel, htake, hdrop, List.length_cons,
        Nat.succ_le_succ_iff]
      by_cases hn : n ≤ t.length
      · simp [hn]
      · simp [hn]

/-- In an ASCII text a byte is a character, and the first ones can be taken. -/
theorem takeBytes?_of_isAscii {t : Text} (h : isAscii t) {n : ℕ} (hn : n ≤ t.length) :
    takeBytes? n t = some (t.take n) := by rw [(cut_of_isAscii h n).1, if_pos hn]

/-- They can be dropped too. -/
theorem dropBytes?_of_isAscii {t : Text} (h : isAscii t) {n : ℕ} (hn : n ≤ t.length) :
    dropBytes? n t = some (t.drop n) := by rw [(cut_of_isAscii h n).2, if_pos hn]

/-- An ASCII text has as many columns as bytes. -/
theorem le_length_of_isAscii {t : Text} (h : isAscii t) {n : ℕ} (hn : ¬byteLength t < n) :
    n ≤ t.length := by
  rw [byteLength_of_isAscii h] at hn
  exact Nat.le_of_not_lt hn

/-- The start of an ASCII text is ASCII. -/
theorem isAscii_take {t : Text} (h : isAscii t) (n : ℕ) : isAscii (t.take n) :=
  isAscii_iff.2 fun c hc => isAscii_iff.1 h c (List.mem_of_mem_take hc)

/-- So is its end. -/
theorem isAscii_drop {t : Text} (h : isAscii t) (n : ℕ) : isAscii (t.drop n) :=
  isAscii_iff.2 fun c hc => isAscii_iff.1 h c (List.mem_of_mem_drop hc)

/-- So a part within the text can be cut out. -/
theorem slice?_of_isAscii {t : Text} (h : isAscii t) {start stop : ℕ} (hle : start ≤ stop)
    (hstop : stop ≤ t.length) :
    slice? t start stop = some ((t.drop start).take (stop - start)) := by
  have hlength : stop - start ≤ (t.drop start).length := by
    rw [List.length_drop]
    omega
  rw [slice?, if_pos hle, dropBytes?_of_isAscii h (by omega), Option.bind_some,
    takeBytes?_of_isAscii (isAscii_drop h start) hlength]

/-- A character of two bytes cannot be cut. -/
example : slice? ['\u00e9', 'a'] 0 1 = none := by decide

/-- The first `n` bytes and the others, unless that cuts a character or exceeds the text. -/
def splitAt? (n : ℕ) (t : Text) : Option (Text × Text) := do
  let first ← takeBytes? n t
  let rest ← dropBytes? n t
  some (first, rest)

/-- So the text can be cut in two. -/
theorem splitAt?_of_isAscii {t : Text} (h : isAscii t) {n : ℕ} (hn : n ≤ t.length) :
    splitAt? n t = some (t.take n, t.drop n) := by
  rw [splitAt?, takeBytes?_of_isAscii h hn, dropBytes?_of_isAscii h hn]
  rfl

/-- Beyond the end of an ASCII text there is nothing. -/
theorem getD_dropBytes? {t : Text} (h : isAscii t) (n : ℕ) :
    (dropBytes? n t).getD [] = t.drop n := by
  rw [(cut_of_isAscii h n).2]
  by_cases hn : n ≤ t.length
  · rw [if_pos hn, Option.getD_some]
  · rw [if_neg hn, Option.getD_none, List.drop_eq_nil_of_le (by omega)]

end Text

/-! ## Edits in place -/

namespace Overlay

/-- Puts one byte of an edit at a position: a space changes nothing, and `&` leaves a space. -/
def overwriteAt? (bytes : List UInt8) (i : ℕ) (e : UInt8) : Option (List UInt8) :=
  if e = 0x20 then some bytes
  else if i < bytes.length then some (bytes.set i (if e = 0x26 then 0x20 else e))
  else none

/-- Puts an edit into bytes, from a position on. -/
def overwrite? (bytes : List UInt8) (i : ℕ) : List UInt8 → Option (List UInt8)
  | [] => some bytes
  | e :: edit => do
    let bytes ← overwriteAt? bytes i e
    overwrite? bytes (i + 1) edit

/-- The bytes with spaces at the end, so that there are at least `n`. -/
def resize (bytes : List UInt8) (n : ℕ) : List UInt8 :=
  bytes ++ List.replicate (n - bytes.length) 0x20

/-- The text after an edit, which is put into the bytes of the text in place. -/
def recover? (o : Overlay) (edit : Text) : Option (Except Fault Text) :=
  if Text.isAscii edit then
    match o.base edit with
    | .error e => some (.error e)
    | .ok bytes => do
      -- The buffer is resized twice, and then there is room for each byte of the edit.
      let room := resize (resize bytes o.width) (Text.encode edit).length
      let bytes ← overwrite? room 0 (Text.encode edit)
      match Text.decode? bytes with
      | some text => some (.ok text)
      | none => some (.error .nonAscii)
  else some (.error .nonAscii)

/-- Applies an edit in place. -/
def edit? (o : Overlay) (change : Text) : Option (Outcome Overlay Fault Text) := do
  let text ← o.recover? change
  some (.commit o (text.map fun text => ({ o with reference := some text }, text)))

/-- A byte within the text can be overwritten. -/
theorem overwriteAt?_append (kept rest : List UInt8) (c e : UInt8) :
    overwriteAt? (kept ++ c :: rest) kept.length e = some (kept ++ put 0x20 0x26 c e :: rest) := by
  unfold overwriteAt? put
  have hlength : kept.length < (kept ++ c :: rest).length := by
    rw [List.length_append, List.length_cons]
    omega
  by_cases hkeep : e = 0x20
  · rw [if_pos hkeep, if_pos hkeep]
  · rw [if_neg hkeep, if_neg hkeep, if_pos hlength, List.set_append_right _ _ (Nat.le_refl _),
      Nat.sub_self]
    rfl

/-- There is room for an edit of bytes that are at least as many, and it does to each what it does
to its column. -/
theorem overwrite?_append (kept : List UInt8) {rest edit : List UInt8}
    (h : edit.length ≤ rest.length) :
    overwrite? (kept ++ rest) kept.length edit = some (kept ++ mergeBytes rest edit) := by
  unfold mergeBytes
  induction edit generalizing kept rest with
  | nil => rw [overwrite?, mergeWith]
  | cons e edit ih =>
    cases rest with
    | nil => cases h
    | cons c rest =>
      -- The byte that is written joins those that are kept.
      have hnext := ih (kept ++ [put 0x20 0x26 c e]) (Nat.le_of_succ_le_succ h)
      simp only [List.append_assoc, List.singleton_append, List.length_append,
        List.length_singleton] at hnext
      rw [overwrite?, overwriteAt?_append, Option.bind_eq_bind, Option.bind_some, hnext, mergeWith]

/-- Columns beyond a text are blank before they are edited. -/
theorem mergeWith_append_replicate {α : Type} [DecidableEq α] (keep erase : α)
    (text edit : List α) :
    mergeWith keep erase (text ++ List.replicate (edit.length - text.length) keep) edit =
      mergeWith keep erase text edit := by
  induction edit generalizing text with
  | nil => simp [mergeWith]
  | cons e edit ih =>
    cases text with
    | nil =>
      have hrest := ih []
      simp only [List.nil_append, List.length_nil, Nat.sub_zero, List.length_cons] at hrest ⊢
      rw [List.replicate_succ, mergeWith, mergeWith, hrest]
    | cons c text =>
      have hrest := ih text
      simp only [List.cons_append, List.length_cons, Nat.add_sub_add_right, mergeWith, hrest]

/-- Every edit is put at positions that exist. -/
theorem recover?_eq (o : Overlay) (edit : Text) : o.recover? edit = some (o.recover edit) := by
  unfold recover? recover
  by_cases hascii : Text.isAscii edit
  · rw [if_pos hascii, if_pos hascii]
    cases o.base edit with
    | error e => rfl
    | ok bytes =>
      -- The bytes were made as many as those of the edit, and this alone changes no column.
      have hroom : (Text.encode edit).length ≤
          (resize (resize bytes o.width) (Text.encode edit).length).length := by
        rw [resize, List.length_append, List.length_replicate]
        omega
      have hmerge : mergeBytes (resize (resize bytes o.width) (Text.encode edit).length)
          (Text.encode edit) = mergeBytes (resize bytes o.width) (Text.encode edit) :=
        mergeWith_append_replicate 0x20 0x26 _ _
      have hput := overwrite?_append [] hroom
      rw [List.nil_append, List.length_nil, List.nil_append, hmerge] at hput
      have hpadded : bytes ++ List.replicate (o.width - bytes.length) 0x20 =
          resize bytes o.width := rfl
      simp only [hput, Option.bind_some, bind, Except.bind, hpadded]
      cases Text.decode? (mergeBytes (resize bytes o.width) (Text.encode edit)) <;> rfl
  · rw [if_neg hascii, if_neg hascii]

/-- An edit needs no byte outside the text. -/
theorem edit?_eq (o : Overlay) (change : Text) : o.edit? change = some (o.edit change) := by
  rw [edit?, recover?_eq, Option.bind_eq_bind, Option.bind_some, edit]

end Overlay

/-! ## Fields at a running offset -/

namespace DataLine

/-- The offset of the first space from an offset on, or of the end of the line. -/
def tokenEnd? (line : Text) (offset : ℕ) : Option ℕ := do
  let rest ← Text.dropBytes? offset line
  some (if rest.contains ' ' then offset + Text.byteLength (rest.takeWhile (· != ' '))
    else Text.byteLength line)

/-- The next fields of a line from an offset on, and the offset after them. A line that is over has
blank fields only. -/
def fieldsFrom? (line : Text) : ℕ → ℕ → Option (Except Fault (List Field × ℕ))
  | 0, offset => some (.ok ([], offset))
  | count + 1, offset =>
    -- The line has ended, and so have its fields.
    if Text.byteLength line ≤ offset then do
      let rest ← fieldsFrom? line count offset
      some (rest.map fun p => (.missing :: p.1, p.2))
    else do
      let stop ← tokenEnd? line offset
      let token ← Text.slice? line offset stop
      match Field.parse token with
      | .error e => some (.error e)
      | .ok field =>
        let rest ← fieldsFrom? line count (stop + 1)
        some (rest.map fun p => (field :: p.1, p.2))

/-- Takes a line apart by offsets. -/
def parse? (count : ℕ) (line : Text) : Option (Except Fault DataLine) := do
  let read ← fieldsFrom? line count 0
  some (read >>= fun p =>
    let flags := (Text.dropBytes? p.2 line).getD []
    if admitsFlags count flags then .ok ⟨p.1, flags⟩
    else .error (.columnCount count (count + max 1 (Text.words flags).length)))

/-- The first token of a text is a part of it, and the rest comes after one more character. -/
theorem splitSpace_eq (t : Text) :
    splitSpace t = (t.take (t.takeWhile (· != ' ')).length,
      t.drop ((t.takeWhile (· != ' ')).length + 1)) := by
  have happend : t.takeWhile (· != ' ') ++ t.dropWhile (· != ' ') = t :=
    List.takeWhile_append_dropWhile
  generalize hfirst : t.takeWhile (· != ' ') = first at happend
  generalize hrest : t.dropWhile (· != ' ') = rest at happend
  rw [splitSpace, hfirst, hrest, ← happend, List.take_left, List.drop_append,
    List.drop_eq_nil_of_le (Nat.le_succ _), List.nil_append, Nat.add_sub_cancel_left]

/-- The end of a word is where the next space is. -/
theorem tokenEnd?_of_isAscii {line : Text} (h : Text.isAscii line) {offset : ℕ}
    (hoffset : offset ≤ line.length) :
    tokenEnd? line offset = some (offset + ((line.drop offset).takeWhile (· != ' ')).length) := by
  have htoken : Text.isAscii ((line.drop offset).takeWhile (· != ' ')) :=
    Text.isAscii_iff.2 fun c hc =>
      Text.isAscii_iff.1 h c (List.mem_of_mem_drop (List.takeWhile_prefix _ |>.mem hc))
  rw [tokenEnd?, Text.dropBytes?_of_isAscii h hoffset, Option.bind_eq_bind, Option.bind_some,
    Text.byteLength_of_isAscii h, Text.byteLength_of_isAscii htoken]
  by_cases hspace : (line.drop offset).contains ' '
  · rw [if_pos hspace]
  · -- Without a space the token ends with the line.
    have hwhole : (line.drop offset).takeWhile (· != ' ') = line.drop offset := by
      have hmem : ' ' ∉ line.drop offset := fun hmem => hspace (List.contains_iff_mem.2 hmem)
      refine List.takeWhile_eq_self_iff.2 fun c hc => ?_
      exact bne_iff_ne.2 fun heq => hmem (heq ▸ hc)
    rw [if_neg hspace, hwhole, List.length_drop]
    congr 1
    omega

/-- At an offset within an ASCII line the token up to the next space can be cut, and the offset
after that space is the one of the rest. -/
theorem exists_tokenEnd {line : Text} (h : Text.isAscii line) {offset : ℕ}
    (hoffset : offset ≤ line.length) : ∃ stop, tokenEnd? line offset = some stop ∧
      Text.slice? line offset stop = some (splitSpace (line.drop offset)).1 ∧
      line.drop (stop + 1) = (splitSpace (line.drop offset)).2 := by
  generalize htext : line.drop offset = text
  generalize hlen : (text.takeWhile (· != ' ')).length = n
  have hstop := tokenEnd?_of_isAscii h hoffset
  rw [htext, hlen] at hstop
  -- The token ends inside the line.
  have hn : offset + n ≤ line.length := by
    have hle := (List.takeWhile_prefix (p := (· != ' ')) (l := text)).length_le
    rw [hlen, ← htext, List.length_drop] at hle
    omega
  have hsplit := splitSpace_eq text
  rw [hlen] at hsplit
  refine ⟨offset + n, hstop, ?_, ?_⟩
  · rw [Text.slice?_of_isAscii h (Nat.le_add_right _ _) hn, htext, Nat.add_sub_cancel_left, hsplit]
  · rw [hsplit, ← htext, List.drop_drop, Nat.add_assoc]

/-- Cut at a running offset an ASCII line has the fields that follow the offset, and the cuts are
all within the line. The offset may be beyond the line by then: the last field has no space after
it. -/
theorem fieldsFrom?_of_isAscii {line : Text} (h : Text.isAscii line) (count offset : ℕ) :
    ∃ read, fieldsFrom? line count offset = some read ∧
      read.map (fun p => (p.1, line.drop p.2)) = parseFields count (line.drop offset) := by
  induction count generalizing offset with
  | zero => exact ⟨_, rfl, rfl⟩
  | succ count ih =>
    by_cases hover : line.length ≤ offset
    · -- The line is over: this field and the others are blank, and nothing is cut.
      obtain ⟨read, hread, hfields⟩ := ih offset
      have hnil : line.drop offset = [] := List.drop_eq_nil_of_le hover
      refine ⟨read.map fun p => (.missing :: p.1, p.2), ?_, ?_⟩
      · rw [fieldsFrom?, Text.byteLength_of_isAscii h, if_pos hover, hread]
        rfl
      · rw [hnil, parseFields_nil] at hfields ⊢
        cases read with
        | error e => cases hfields
        | ok p =>
          have hp := Except.ok.inj hfields
          simp only [Except.map, List.replicate_succ, Except.ok.injEq, Prod.mk.injEq] at hp ⊢
          rw [hp.1, hp.2]
          exact ⟨rfl, rfl⟩
    · obtain ⟨stop, hstop, htoken, hrest⟩ := exists_tokenEnd h (Nat.le_of_not_le hover)
      obtain ⟨read, hread, hfields⟩ := ih (stop + 1)
      rw [hrest] at hfields
      simp only [fieldsFrom?, Text.byteLength_of_isAscii h, if_neg hover, hstop, htoken,
        Option.bind_eq_bind, Option.bind_some, parseFields]
      cases Field.parse (splitSpace (line.drop offset)).1 with
      | error e => exact ⟨_, rfl, rfl⟩
      | ok field =>
        refine ⟨read.map fun p => (field :: p.1, p.2), by simp only [hread, Option.bind_some], ?_⟩
        simp only [bind, Except.bind, ← hfields]
        cases read <;> rfl

/-- Every ASCII line is taken apart within its bounds. -/
theorem parse?_eq {line : Text} (h : Text.isAscii line) (count : ℕ) :
    parse? count line = some (parse count line) := by
  obtain ⟨read, hread, hfields⟩ := fieldsFrom?_of_isAscii h count 0
  rw [List.drop_zero] at hfields
  simp only [parse?, parse, hread, ← hfields, Option.bind_eq_bind, Option.bind_some]
  cases read with
  | error e => rfl
  | ok p =>
    simp only [bind, Except.bind, Except.map, Text.getD_dropBytes? h]

end DataLine

end CompactRinex
