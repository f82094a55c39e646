import CompactRinex.Source
import Mathlib.Data.List.Basic

/-!
# Lines of texts and of their bytes

A newline ends a line whatever comes after it, so the lines of a text that ends with a newline do
not depend on what is appended (`lines_unlines_append`). The bytes of a text are cut where the text
itself is, as the byte of a newline is part of no other character; a file that holds the UTF-8 form
of a text has the lines of the text (`SourceLine.ofBytes_encode`). No line of a file has a newline
in it (`SourceLine.newline_not_mem`), but it may end with a carriage return, and loses it when it is
written and cut again (`lines_concat_newline`).
-/

namespace CompactRinex

namespace Text

/-! ## Segments -/

variable {α : Type} (isSep : α → Bool)

/-- What stands before the first separator belongs to the first segment. -/
theorem segments_append_of_forall {xs : List α} (h : ∀ x ∈ xs, isSep x = false) {ys part : List α}
    {rest : List (List α)} (hys : segments isSep ys = part :: rest) :
    segments isSep (xs ++ ys) = (xs ++ part) :: rest := by
  induction xs with
  | nil => exact hys
  | cons x xs ih =>
    have hxs := ih fun x' hx' => h x' (List.mem_cons_of_mem x hx')
    have hx := h x List.mem_cons_self
    unfold segments at hxs ⊢
    rw [List.cons_append, List.foldr_cons, hxs, hx]
    rfl

/-- A character that does not separate belongs to the first segment. -/
theorem segments_cons_of_not_sep {x : α} (h : isSep x = false) {xs part : List α}
    {rest : List (List α)} (hxs : segments isSep xs = part :: rest) :
    segments isSep (x :: xs) = (x :: part) :: rest := by
  have hx : ∀ x' ∈ [x], isSep x' = false := fun _ hx' => List.mem_singleton.1 hx' ▸ h
  exact segments_append_of_forall isSep hx hxs

/-- A separator stands between the segments before it and those after it. -/
theorem segments_append_sep {x : α} (h : isSep x = true) (xs ys : List α) :
    segments isSep (xs ++ x :: ys) = segments isSep xs ++ segments isSep ys := by
  induction xs with
  | nil => exact segments_cons_sep ys h
  | cons x' xs ih =>
    rw [List.cons_append]
    cases hx' : isSep x' with
    | true => rw [segments_cons_sep _ hx', segments_cons_sep _ hx', ih, List.cons_append]
    | false =>
      obtain ⟨part, rest, hparts⟩ := List.exists_cons_of_ne_nil (segments_ne_nil isSep xs)
      rw [hparts] at ih
      rw [segments_cons_of_not_sep isSep hx' ih, segments_cons_of_not_sep isSep hx' hparts]
      rfl

/-- There is no separator in a segment. -/
theorem isSep_of_mem_segments {xs part : List α} (hpart : part ∈ segments isSep xs) {x : α}
    (hx : x ∈ part) : isSep x = false := by
  induction xs generalizing part with
  | nil =>
    obtain rfl : part = [] := List.mem_singleton.1 hpart
    cases hx
  | cons x' xs ih =>
    cases hsep : isSep x' with
    | true =>
      rw [segments_cons_sep xs hsep, List.mem_cons] at hpart
      rcases hpart with rfl | hpart
      · cases hx
      · exact ih hpart hx
    | false =>
      obtain ⟨first, rest, hparts⟩ := List.exists_cons_of_ne_nil (segments_ne_nil isSep xs)
      rw [segments_cons_of_not_sep isSep hsep hparts, List.mem_cons] at hpart
      rw [hparts] at ih
      rcases hpart with rfl | hpart
      · rcases List.mem_cons.1 hx with rfl | hx
        · exact hsep
        · exact ih List.mem_cons_self hx
      · exact ih (List.mem_cons_of_mem _ hpart) hx

/-! ## Lines -/

/-- What is left of a line without its carriage return has been in it before. -/
theorem mem_of_mem_dropReturn [BEq α] {ret x : α} {line : List α} (h : x ∈ dropReturn ret line) :
    x ∈ line := by
  unfold dropReturn at h
  split at h
  · exact List.dropLast_subset line h
  · exact h

/-- A line without a carriage return at its end stays. -/
theorem dropReturn_eq_self_iff [BEq α] [LawfulBEq α] {ret : α} {line : List α} :
    dropReturn ret line = line ↔ line.getLast? ≠ some ret := by
  unfold dropReturn
  split
  · next hlast =>
    have hlast := beq_iff_eq.1 hlast
    refine iff_of_false (fun hself => ?_) (fun hne => hne hlast)
    -- A line that ends with the return is not empty, and gets shorter.
    have hlength := congrArg List.length hself
    have hne : line ≠ [] := by
      rintro rfl
      cases hlast
    have hpos := List.length_pos_iff.2 hne
    rw [List.length_dropLast] at hlength
    omega
  · next hlast => exact iff_of_true rfl fun h => hlast (beq_iff_eq.2 h)

/-- There is no newline in a line. -/
theorem newline_not_mem_linesWith [BEq α] [LawfulBEq α] {newline ret : α} {xs line : List α}
    (h : line ∈ linesWith newline ret xs) : newline ∉ line := by
  intro hmem
  have hparts : ∀ part ∈ segments (· == newline) xs, newline ∉ part := by
    intro part hpart hnewline
    have hsep := isSep_of_mem_segments (· == newline) hpart hnewline
    exact absurd rfl (beq_eq_false_iff_ne.1 hsep)
  unfold linesWith at h
  rcases List.mem_append.1 h with hline | hline
  · obtain ⟨part, hpart, rfl⟩ := List.mem_map.1 hline
    exact hparts part (List.dropLast_subset _ hpart) (mem_of_mem_dropReturn hmem)
  · have hlast := Option.mem_toList.1 (List.mem_filter.1 hline).1
    exact hparts line (List.mem_of_mem_getLast? hlast) hmem

/-- Up to a newline the lines are complete. -/
theorem linesWith_append_newline [BEq α] [ReflBEq α] (newline ret : α) (xs ys : List α) :
    linesWith newline ret (xs ++ newline :: ys) =
      (segments (· == newline) xs).map (dropReturn ret) ++ linesWith newline ret ys := by
  have hys := segments_ne_nil (· == newline) ys
  have hparts : segments (· == newline) (xs ++ newline :: ys) =
      segments (· == newline) xs ++ segments (· == newline) ys :=
    segments_append_sep (· == newline) (beq_self_eq_true newline) xs ys
  unfold linesWith
  simp only [hparts]
  rw [List.dropLast_append_of_ne_nil hys, List.map_append, List.append_assoc,
    List.getLast?_append_of_ne_nil _ hys]

/-- Each line is ended. -/
@[simp] theorem unlines_cons (l : Text) (ls : List Text) :
    unlines (l :: ls) = l ++ '\n' :: unlines ls := by
  simp [unlines]

/-- A single line. -/
@[simp] theorem unlines_singleton (l : Text) : unlines [l] = l ++ ['\n'] := unlines_cons l []

/-- Lines are written one after the other. -/
@[simp] theorem unlines_append (ls ls' : List Text) :
    unlines (ls ++ ls') = unlines ls ++ unlines ls' :=
  List.flatMap_append

/-- One more line. -/
theorem unlines_concat (ls : List Text) (l : Text) :
    unlines (ls ++ [l]) = unlines ls ++ (l ++ ['\n']) := by
  rw [unlines_append, unlines_singleton]

/-- The lines of a text whose last line is ended by a newline stay when text is appended. -/
theorem lines_unlines_append (ls : List Text) (t : Text) :
    lines (unlines ls ++ t) = lines (unlines ls) ++ lines t := by
  induction ls with
  | nil => rfl
  | cons l ls ih =>
    unfold lines at ih ⊢
    rw [unlines_cons, List.append_assoc, List.cons_append, linesWith_append_newline, ih,
      linesWith_append_newline, List.append_assoc]

/-- A line that is written and cut again loses a carriage return at its end. -/
theorem lines_concat_newline {l : Text} (h : '\n' ∉ l) :
    lines (l ++ ['\n']) = [dropReturn '\r' l] := by
  have hparts : segments (· == '\n') (l ++ []) = [l ++ []] :=
    segments_append_of_forall (· == '\n') (fun c hc => beq_false_of_ne fun heq => h (heq ▸ hc)) rfl
  rw [List.append_nil] at hparts
  unfold lines
  rw [linesWith_append_newline, hparts]
  rfl

/-- Lines that are written are cut again, if each is one line. -/
theorem lines_unlines {ls : List Text} (h : ∀ l ∈ ls, '\n' ∉ l ∧ l.getLast? ≠ some '\r') :
    lines (unlines ls) = ls := by
  induction ls with
  | nil => rfl
  | cons l ls ih =>
    obtain ⟨hnewline, hreturn⟩ := h l List.mem_cons_self
    have hrest := ih fun l' hl' => h l' (List.mem_cons_of_mem l hl')
    have hfirst := lines_concat_newline hnewline
    rw [dropReturn_eq_self_iff.2 hreturn, ← unlines_singleton] at hfirst
    rw [← List.singleton_append, unlines_append, lines_unlines_append, hfirst, hrest]

/-! ## Bytes -/

/-- Encoding undoes decoding. -/
theorem encode_of_decode? {bytes : List UInt8} {t : Text} (h : decode? bytes = some t) :
    encode t = bytes := by
  obtain ⟨chars, hchars, rfl⟩ := Option.map_eq_some_iff.1 h
  have hsome : bytes.toByteArray.utf8Decode?.isSome := by rw [hchars]; rfl
  have hget : bytes.toByteArray.utf8Decode?.get hsome = chars := Option.get_of_eq_some hsome hchars
  have hencode := ByteArray.utf8Encode_get_utf8Decode? (b := bytes.toByteArray) (h := hsome)
  rw [hget] at hencode
  exact List.toByteArray_inj.1 hencode

/-- An ASCII character is one byte. -/
theorem utf8EncodeChar_of_lt {c : Char} (hc : c.toNat < 128) :
    String.utf8EncodeChar c = [UInt8.ofNat c.toNat] := by
  have hc' : c.val.toNat ≤ 127 := Nat.le_of_lt_succ hc
  rw [String.utf8EncodeChar, if_pos hc']
  rfl

/-- The byte of an ASCII character is part of no other character. -/
theorem ofNat_mem_utf8EncodeChar_iff {c d : Char} (hd : d.toNat < 128) :
    UInt8.ofNat d.toNat ∈ String.utf8EncodeChar c ↔ c = d := by
  have hbyte : (UInt8.ofNat d.toNat).toNat = d.toNat := by
    simp only [UInt8.toNat_ofNat']
    omega
  -- Only the form of one byte has a byte below 128.
  have hmulti : ∀ n, 128 ≤ n % 256 → UInt8.ofNat d.toNat ≠ UInt8.ofNat n := by
    intro n hn heq
    have := congrArg UInt8.toNat heq
    rw [hbyte, UInt8.toNat_ofNat'] at this
    omega
  constructor
  · intro h
    simp only [String.utf8EncodeChar] at h
    split at h
    · next hc =>
      have heq := congrArg UInt8.toNat (List.mem_singleton.1 h)
      rw [hbyte, UInt8.toNat_ofNat'] at heq
      refine Char.toNat_inj.1 ?_
      show c.val.toNat = d.toNat
      omega
    · refine absurd h ?_
      split
      · simp only [List.mem_cons, List.not_mem_nil, or_false, not_or]
        exact ⟨hmulti _ (by omega), hmulti _ (by omega)⟩
      · split
        · simp only [List.mem_cons, List.not_mem_nil, or_false, not_or]
          exact ⟨hmulti _ (by omega), hmulti _ (by omega), hmulti _ (by omega)⟩
        · simp only [List.mem_cons, List.not_mem_nil, or_false, not_or]
          exact ⟨hmulti _ (by omega), hmulti _ (by omega), hmulti _ (by omega), hmulti _ (by omega)⟩
  · rintro rfl
    rw [utf8EncodeChar_of_lt hd]
    exact List.mem_singleton_self _

/-- A text and its bytes are cut at the same places. -/
theorem segments_encode {d : Char} (hd : d.toNat < 128) (t : Text) :
    segments (· == UInt8.ofNat d.toNat) (encode t) = (segments (· == d) t).map encode := by
  induction t with
  | nil => rfl
  | cons c t ih =>
    rw [encode_cons]
    by_cases hc : c = d
    · subst hc
      have hbyte : segments (· == UInt8.ofNat c.toNat) (UInt8.ofNat c.toNat :: encode t) =
          [] :: segments (· == UInt8.ofNat c.toNat) (encode t) :=
        segments_cons_sep _ (beq_self_eq_true (UInt8.ofNat c.toNat))
      have hchar : segments (· == c) (c :: t) = [] :: segments (· == c) t :=
        segments_cons_sep t (beq_self_eq_true c)
      rw [utf8EncodeChar_of_lt hd, List.singleton_append, hbyte, hchar, ih]
      rfl
    · obtain ⟨part, rest, hparts⟩ := List.exists_cons_of_ne_nil (segments_ne_nil (· == d) t)
      -- No byte of another character is the separator, which is ASCII.
      have hbytes : ∀ byte ∈ String.utf8EncodeChar c, (byte == UInt8.ofNat d.toNat) = false := by
        intro byte hbyte
        refine beq_false_of_ne ?_
        rintro rfl
        exact hc ((ofNat_mem_utf8EncodeChar_iff hd).1 hbyte)
      have hchar : segments (· == d) (c :: t) = (c :: part) :: rest :=
        segments_cons_of_not_sep (· == d) (beq_false_of_ne hc) hparts
      rw [hparts] at ih
      rw [segments_append_of_forall _ hbytes ih, hchar]
      rfl

/-- Only the empty text has no bytes. -/
theorem encode_eq_nil_iff {t : Text} : encode t = [] ↔ t = [] := by
  constructor
  · intro h
    have hdecode := decode?_encode t
    rw [h] at hdecode
    exact (Option.some.inj ((decode?_encode []).symm.trans hdecode)).symm
  · rintro rfl
    rfl

/-- A carriage return is dropped from a text and from its bytes alike. -/
theorem dropReturn_encode {d : Char} (hd : d.toNat < 128) (t : Text) :
    dropReturn (UInt8.ofNat d.toNat) (encode t) = encode (dropReturn d t) := by
  rcases t.eq_nil_or_concat with rfl | ⟨t, c, rfl⟩
  · rfl
  · rw [List.concat_eq_append, encode_append, encode_cons, encode_nil, List.append_nil]
    by_cases hc : c = d
    · subst hc
      simp [dropReturn, utf8EncodeChar_of_lt hd]
    · have hbytes : String.utf8EncodeChar c ≠ [] := by
        refine List.ne_nil_of_length_pos ?_
        rw [String.length_utf8EncodeChar]
        exact Char.utf8Size_pos c
      -- The last byte is the separator only if the last character is.
      have hlast : (encode t ++ String.utf8EncodeChar c).getLast? ≠ some (UInt8.ofNat d.toNat) := by
        intro hlast
        rw [List.getLast?_append_of_ne_nil _ hbytes] at hlast
        exact hc ((ofNat_mem_utf8EncodeChar_iff hd).1 (List.mem_of_getLast? hlast))
      have hlast' : (t ++ [c]).getLast? ≠ some d := by
        rw [List.getLast?_concat]
        exact fun h => hc (Option.some.inj h)
      simp only [dropReturn, beq_false_of_ne hlast, beq_false_of_ne hlast', Bool.false_eq_true,
        if_false, encode_append, encode_cons, encode_nil, List.append_nil]

/-- The bytes of a text have the lines of the text. -/
theorem byteLines_encode (t : Text) : byteLines (encode t) = (lines t).map some := by
  have hparts : segments (· == 10) (encode t) = (segments (· == '\n') t).map encode :=
    segments_encode (d := '\n') (by decide) t
  have hreturn : dropReturn 13 ∘ encode = encode ∘ dropReturn '\r' :=
    funext (dropReturn_encode (d := '\r') (by decide))
  -- Only the empty line has no bytes, so the same last line is left out.
  have hempty : (fun last => !last.isEmpty) ∘ encode = fun last : Text => !last.isEmpty := by
    funext l
    rw [Function.comp_apply, Bool.eq_iff_iff]
    simp only [Bool.not_eq_true', List.isEmpty_eq_false_iff, ne_eq, encode_eq_nil_iff]
  have hlines : linesWith 10 13 (encode t) = (lines t).map encode := by
    unfold lines linesWith
    simp only [hparts, ← List.map_dropLast, List.map_map, hreturn, List.getLast?_map,
      Option.toList_map, List.filter_map, hempty, List.map_append]
  have hdecode : decode? ∘ encode = some := funext decode?_encode
  rw [byteLines, hlines, List.map_map, hdecode]

/-- There is no newline in a line that is cut from bytes. -/
theorem newline_not_mem_byteLines {bytes : List UInt8} {l : Text} (h : some l ∈ byteLines bytes) :
    '\n' ∉ l := by
  obtain ⟨line, hline, hdecode⟩ := List.mem_map.1 h
  intro hnewline
  have hbyte : UInt8.ofNat '\n'.toNat ∈ encode l :=
    List.mem_flatMap.2 ⟨'\n', hnewline, (ofNat_mem_utf8EncodeChar_iff (by decide)).2 rfl⟩
  rw [encode_of_decode? hdecode] at hbyte
  exact newline_not_mem_linesWith hline hbyte

end Text

/-- A file that holds the UTF-8 form of a text has the lines of the text. -/
theorem SourceLine.ofBytes_encode (t : Text) :
    SourceLine.ofBytes (Text.encode t) = SourceLine.ofText t := by
  rw [ofBytes, Text.byteLines_encode, List.map_map]
  rfl

/-- There is no newline in a line of a file, whatever its bytes are, compressed or not. -/
theorem SourceLine.newline_not_mem {gzip : Bool} {content : Except IoFault (List UInt8)} {l : Text}
    (h : .ok l ∈ ofFile gzip content) : '\n' ∉ l := by
  -- The lines of bytes are cut at the line feeds.
  have hbytes : ∀ bytes, .ok l ∈ ofBytes bytes → '\n' ∉ l := by
    intro bytes hline
    obtain ⟨line?, hmem, heq⟩ := List.mem_map.1 hline
    cases line? with
    | none => cases heq
    | some line =>
      cases heq
      exact Text.newline_not_mem_byteLines hmem
  cases content with
  | error fault => exact absurd (List.mem_singleton.1 h) nofun
  | ok file =>
    cases gzip with
    | false => exact hbytes file h
    | true =>
      simp only [ofFile, if_true, ofGzip] at h
      split at h
      · exact hbytes _ h
      · rcases List.mem_append.1 h with hwhole | hfault
        · exact hbytes _ hwhole
        · exact absurd (List.mem_singleton.1 hfault) nofun

end CompactRinex
