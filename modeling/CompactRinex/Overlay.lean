import CompactRinex.Fault
import CompactRinex.Outcome
import CompactRinex.Text.Utf8

/-!
# Overlaid texts

A text that changes little from line to line is stored as an edit of the text before it: a space
keeps the character of its column, `&` blanks it, and any other character replaces it. Columns
beyond the edit stay, and a longer edit makes the text longer. Without a text to edit, the edit has
to be the whole text.

Edits are ASCII. The text they change need not be, and columns are then bytes of its UTF-8 form: an
edit that leaves something else than UTF-8 is refused. On an ASCII text columns are characters
(`merge_encode`).
-/

namespace CompactRinex

namespace Overlay

/-- The character of a column after the edit `e` of the character `c`. -/
def put {α : Type} [DecidableEq α] (keep erase : α) (c e : α) : α :=
  if e = keep then c else if e = erase then keep else e

/-- The text after an edit, as long as the longer of the two. -/
def mergeWith {α : Type} [DecidableEq α] (keep erase : α) : List α → List α → List α
  | text, [] => text
  | [], e :: edit => put keep erase keep e :: mergeWith keep erase [] edit
  | c :: text, e :: edit => put keep erase c e :: mergeWith keep erase text edit

/-- An edit of a text, column by column. -/
def merge (text edit : Text) : Text := mergeWith ' ' '&' text edit

/-- An edit of a text in its UTF-8 form, byte by byte. -/
def mergeBytes (text edit : List UInt8) : List UInt8 := mergeWith 0x20 0x26 text edit

/-- The result is as long as the longer one of the two. -/
theorem length_mergeWith {α : Type} [DecidableEq α] (keep erase : α) (text edit : List α) :
    (mergeWith keep erase text edit).length = max text.length edit.length := by
  induction edit generalizing text with
  | nil => simp [mergeWith]
  | cons e edit ih =>
    cases text with
    | nil => simp [mergeWith, ih]
    | cons c text => simp only [mergeWith, List.length_cons, ih]; omega

/-- An edit through a map that tells no edit character from a special one. -/
theorem mergeWith_map {α β : Type} [DecidableEq α] [DecidableEq β] (f : α → β) {keep erase : α}
    {text edit : List α} (hkeep : ∀ e ∈ edit, f e = f keep → e = keep)
    (herase : ∀ e ∈ edit, f e = f erase → e = erase) :
    mergeWith (f keep) (f erase) (text.map f) (edit.map f) =
      (mergeWith keep erase text edit).map f := by
  -- In one place nothing but the marks is mapped to the marks.
  have hput : ∀ c, ∀ e ∈ edit, put (f keep) (f erase) (f c) (f e) = f (put keep erase c e) := by
    intro c e he
    unfold put
    by_cases h1 : e = keep
    · simp [h1]
    · rw [if_neg fun h => h1 (hkeep e he h), if_neg h1]
      by_cases h2 : e = erase
      · simp [h2]
      · rw [if_neg fun h => h2 (herase e he h), if_neg h2]
  clear hkeep herase
  induction edit generalizing text with
  | nil => simp [mergeWith]
  | cons e edit ih =>
    have ih' := fun text => @ih text fun c x hx => hput c x (List.mem_cons_of_mem _ hx)
    cases text with
    | nil =>
      have h0 := ih' []
      simp only [List.map_nil] at h0
      simp only [List.map_nil, List.map_cons, mergeWith, h0, hput keep e (by simp)]
    | cons c text => simp only [List.map_cons, mergeWith, ih', hput c e (by simp)]

/-- An edit of an ASCII text leaves an ASCII text. -/
theorem isAscii_merge {text edit : Text} (ht : Text.isAscii text) (he : Text.isAscii edit) :
    Text.isAscii (merge text edit) := by
  rw [Text.isAscii_iff] at *
  unfold merge
  induction edit generalizing text with
  | nil => simpa [mergeWith] using ht
  | cons e edit ih =>
    -- Each place shows a character of one of the texts, or a space.
    have hput : ∀ c : Char, c.toNat < 128 → (put ' ' '&' c e).toNat < 128 := by
      intro c hc
      unfold put
      split
      · exact hc
      · split
        · decide
        · exact he e (by simp)
    have he' := fun d hd => he d (List.mem_cons_of_mem _ hd)
    cases text with
    | nil =>
      simp only [mergeWith, List.mem_cons, forall_eq_or_imp]
      exact ⟨hput ' ' (by decide), ih ht he'⟩
    | cons c text =>
      simp only [mergeWith, List.mem_cons, forall_eq_or_imp]
      exact ⟨hput c (ht c (by simp)), ih (fun d hd => ht d (List.mem_cons_of_mem _ hd)) he'⟩

/-- On ASCII texts columns are characters. -/
theorem merge_encode {text edit : Text} (ht : Text.isAscii text) (he : Text.isAscii edit) :
    mergeBytes (Text.encode text) (Text.encode edit) = Text.encode (merge text edit) := by
  -- Of ASCII characters different ones have different bytes.
  have inj : ∀ k : Char, k.toNat < 128 → ∀ e ∈ edit,
      UInt8.ofNat e.toNat = UInt8.ofNat k.toNat → e = k := by
    intro k hk e hmem h
    have hlt := Text.isAscii_iff.1 he e hmem
    have h' := congrArg UInt8.toNat h
    simp only [UInt8.toNat_ofNat'] at h'
    exact Char.toNat_inj.1 (by omega)
  rw [Text.encode_of_isAscii ht, Text.encode_of_isAscii he,
    Text.encode_of_isAscii (isAscii_merge ht he)]
  exact mergeWith_map (fun c : Char => UInt8.ofNat c.toNat) (inj ' ' (by decide))
    (inj '&' (by decide))

end Overlay

/-- A text that is edited line by line. -/
structure Overlay where
  /-- The least number of columns. -/
  width : Nat
  /-- The latest text, if there is one. -/
  reference : Option Text
  deriving DecidableEq, Repr

namespace Overlay

/-- The overlay without a text: the first edit has to be the whole text. -/
def unset (width : Nat) : Overlay := ⟨width, none⟩

/-- The overlay with a new text, padded to its width. -/
def force (o : Overlay) (text : Text) : Overlay :=
  { o with reference := some (Text.padRight o.width text) }

/-- The overlay of a given text; an empty one means blank columns. -/
def withReference (width : Nat) (text : Text) : Overlay := (unset width).force text

/-- The overlay without its text. -/
def reset (o : Overlay) : Overlay := { o with reference := none }

/-- The bytes that an edit applies to: those of the text, or none when the edit may stand alone. -/
def base (o : Overlay) (edit : Text) : Except Fault (List UInt8) :=
  match o.reference with
  | some text => .ok (Text.encode text)
  | none =>
    if edit.isEmpty || edit.length < o.width || edit.contains ' ' then .error .missingReference
    else .ok []

/-- The text after an edit. -/
def recover (o : Overlay) (edit : Text) : Except Fault Text :=
  if Text.isAscii edit then do
    let bytes ← o.base edit
    let padded := bytes ++ List.replicate (o.width - bytes.length) 0x20
    match Text.decode? (mergeBytes padded (Text.encode edit)) with
    | some text => .ok text
    | none => .error .nonAscii
  else .error .nonAscii

/-- Applies an edit and answers with the text after it. A refused edit leaves the text alone. -/
def edit (o : Overlay) (change : Text) : Outcome Overlay Fault Text :=
  .commit o ((o.recover change).map fun text => ({ o with reference := some text }, text))

/-- Applies the bytes of `line` from `start` up to, and without, `stop`, as far as there are any. -/
def editSection (o : Overlay) (line : Text) (start stop : Nat) : Outcome Overlay Fault Text :=
  let stop := min stop (Text.byteLength line)
  match Text.slice? line (min start stop) stop with
  | some change => o.edit change
  | none => .fail o .nonAscii

/-- An ASCII edit of an ASCII text always succeeds, column by column. -/
theorem recover_of_isAscii {o : Overlay} {text change : Text} (ho : o.reference = some text)
    (ht : Text.isAscii text) (hc : Text.isAscii change) :
    o.recover change = .ok (merge (Text.padRight o.width text) change) := by
  have hblank : Text.isAscii (Text.blanks (o.width - text.length)) :=
    Text.isAscii_iff.2 fun c hc => by
      rw [List.eq_of_mem_replicate hc]; decide
  have hpad : Text.isAscii (Text.padRight o.width text) := by
    rw [Text.padRight, Text.isAscii_append, ht, hblank]; rfl
  -- The spaces are added to the bytes, and they are those of the padded text.
  have henc : Text.encode text ++ List.replicate (o.width - (Text.encode text).length) 0x20 =
      Text.encode (Text.padRight o.width text) := by
    rw [Text.length_encode, Text.byteLength_of_isAscii ht, Text.padRight, Text.encode_append,
      Text.encode_of_isAscii hblank]
    simp [Text.blanks]
  simp only [recover, base, ho, hc, if_true, bind, Except.bind, henc, merge_encode hpad hc,
    Text.decode?_encode]

/-- The text is kept with the spaces that it lacks. -/
@[simp] theorem reference_force (o : Overlay) (text : Text) :
    (o.force text).reference = some (Text.padRight o.width text) := rfl

/-- After a reset there is no text. -/
@[simp] theorem reference_reset (o : Overlay) : o.reset.reference = none := rfl

end Overlay

end CompactRinex
