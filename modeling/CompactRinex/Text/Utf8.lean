import CompactRinex.Text

/-!
# The UTF-8 form

Where a rule counts bytes, a text is cut at byte offsets, and a cut inside a character gives
nothing. `encode` and `decode?` pass to the bytes and back, and `decode?_encode` says that
nothing is lost on the way.
-/

namespace CompactRinex.Text

/-- The text without its first `n` bytes, unless that cuts a character or exceeds the text. -/
def dropBytes? : Nat → Text → Option Text
  | 0, t => some t
  | _ + 1, [] => none
  | n + 1, c :: cs => if c.utf8Size ≤ n + 1 then dropBytes? (n + 1 - c.utf8Size) cs else none

/-- The first `n` bytes of the text, unless that cuts a character or exceeds the text. -/
def takeBytes? : Nat → Text → Option Text
  | 0, _ => some []
  | _ + 1, [] => none
  | n + 1, c :: cs =>
    if c.utf8Size ≤ n + 1 then (takeBytes? (n + 1 - c.utf8Size) cs).map (c :: ·) else none

/-- The bytes from `start` up to, and without, `stop`, read as a text. -/
def slice? (t : Text) (start stop : Nat) : Option Text :=
  if start ≤ stop then (dropBytes? start t).bind (takeBytes? (stop - start)) else none

/-- The UTF-8 form. -/
def encode (t : Text) : List UInt8 := t.flatMap String.utf8EncodeChar

/-- The text that has these bytes as its UTF-8 form, if there is one. -/
def decode? (bytes : List UInt8) : Option Text := bytes.toByteArray.utf8Decode?.map Array.toList

/-- Decoding undoes encoding. -/
@[simp] theorem decode?_encode (t : Text) : decode? (encode t) = some t := by
  have h := @List.utf8Decode?_utf8Encode t
  simp only [List.utf8Encode] at h
  simp [decode?, encode, h]

/-- The empty text has no bytes. -/
@[simp] theorem encode_nil : encode [] = [] := rfl

/-- The bytes of both texts, one after the other. -/
@[simp] theorem encode_append (s t : Text) : encode (s ++ t) = encode s ++ encode t := by
  simp [encode]

/-- One more character. -/
@[simp] theorem encode_cons (c : Char) (t : Text) :
    encode (c :: t) = String.utf8EncodeChar c ++ encode t := rfl

/-- As many as counted. -/
theorem length_encode (t : Text) : (encode t).length = byteLength t := by
  induction t with
  | nil => rfl
  | cons c t ih =>
    rw [encode_cons, List.length_append, String.length_utf8EncodeChar, byteLength_cons, ih]

/-- An ASCII text has one byte for each character, its number. -/
theorem encode_of_isAscii {t : Text} (h : isAscii t) :
    encode t = t.map fun c => UInt8.ofNat c.toNat := by
  induction t with
  | nil => rfl
  | cons c t ih =>
    rw [isAscii_iff] at h
    have hc : c.val.toNat ≤ 127 := Nat.le_of_lt_succ (h c (by simp))
    have ht := ih (isAscii_iff.2 fun d hd => h d (List.mem_cons_of_mem _ hd))
    simp only [encode, List.flatMap_cons, List.map_cons] at *
    rw [ht, String.utf8EncodeChar, if_pos hc]
    rfl

end CompactRinex.Text
