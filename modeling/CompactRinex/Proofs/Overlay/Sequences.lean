import CompactRinex.Proofs.Overlay.Difference

/-!
# Sequences of edits

A column that is edited again and again shows what has been written there last. `Overlay.shown` says
so for one column without going through the edits in turn, and `Overlay.written` puts the columns
together to a text as long as the longest of the text and the edits. `editAll_eq_written` says that
this is what a sequence of edits leads to. It follows that two edits can be superposed to one, and
that `Overlay.editBetween` leads to any text without `&`. The spaces that such a text ends with are
lost where the text before was shorter (`trailing_space_lost`): an edit without them has no column
there. An overlay without a text takes an edit that stands for a whole text as an edit of blanks.
-/

namespace CompactRinex.Overlay

/-! ## What is written last -/

/-- The last character that one of the edits writes into a column. A space writes nothing. -/
def lastWritten? (changes : List Text) (column : ℕ) : Option Char :=
  ((changes.map fun change => change.getD column ' ').filter (· ≠ ' ')).getLast?

/-- What a column of the text shows after the edits. -/
def shown (text : Text) (changes : List Text) (column : ℕ) : Char :=
  match lastWritten? changes column with
  | none => text.getD column ' '
  | some c => if c = '&' then ' ' else c

/-- The number of columns after the edits. -/
def extent (width : ℕ) (text : Text) (changes : List Text) : ℕ :=
  (changes.map List.length).foldl max (max width text.length)

/-- The text after the edits. -/
def written (width : ℕ) (text : Text) (changes : List Text) : Text :=
  (List.range (extent width text changes)).map (shown text changes)

/-- Applies edits one after the other. Answers with the overlay after them, and with the answer to
each of them. -/
def editAll (o : Overlay) : List Text → Overlay × List (Except Fault Text)
  | [] => (o, [])
  | change :: changes =>
    let edited := o.edit change
    let rest := edited.state.editAll changes
    (rest.1, edited.result :: rest.2)

/-- A space leaves what was written before. -/
theorem lastWritten?_concat (changes : List Text) (change : Text) (i : ℕ) :
    lastWritten? (changes ++ [change]) i =
      if change.getD i ' ' = ' ' then lastWritten? changes i else some (change.getD i ' ') := by
  unfold lastWritten?
  rw [List.map_append, List.map_singleton, List.filter_append, List.getLast?_append]
  generalize change.getD i ' ' = c
  by_cases h : c = ' '
  · simp [h]
  · simp [h]

/-- One more edit changes a column by its own rule. -/
theorem shown_concat (text : Text) (changes : List Text) (change : Text) (i : ℕ) :
    shown text (changes ++ [change]) i =
      put ' ' '&' (shown text changes i) (change.getD i ' ') := by
  unfold shown put
  rw [lastWritten?_concat]
  by_cases h : change.getD i ' ' = ' '
  · rw [if_pos h, if_pos h]
  · rw [if_neg h, if_neg h]

/-- One more edit may reach further. -/
theorem extent_concat (width : ℕ) (text : Text) (changes : List Text) (change : Text) :
    extent width text (changes ++ [change]) = max (extent width text changes) change.length := by
  simp [extent]

/-- The text after the edits is what merging them one by one leads to. -/
theorem foldl_merge_eq_written (width : ℕ) (text : Text) (changes : List Text) :
    changes.foldl merge (Text.padRight width text) = written width text changes := by
  -- The last edit is merged last, so the induction takes the edits from the end.
  have hmerged : (changes.foldl merge (Text.padRight width text)).length =
        extent width text changes ∧
      ∀ i, (changes.foldl merge (Text.padRight width text)).getD i ' ' = shown text changes i := by
    induction changes using List.reverseRecOn with
    | nil => exact ⟨Text.length_padRight width text, getD_padRight width text⟩
    | append_singleton changes change ih =>
      simp only [List.foldl_append, List.foldl_cons, List.foldl_nil, extent_concat, shown_concat]
      refine ⟨?_, fun i => ?_⟩
      · rw [merge, length_mergeWith, ih.1]
      · rw [getD_merge, ih.2]
  have hlen : (written width text changes).length = extent width text changes := by simp [written]
  -- Beyond the extent neither text has a column.
  refine Text.eq_of_getD (hmerged.1.trans hlen.symm) fun i => ?_
  by_cases hi : i < extent width text changes
  · rw [hmerged.2, List.getD_eq_getElem _ _ (hlen ▸ hi)]
    simp [written]
  · have hle := Nat.le_of_not_lt hi
    rw [List.getD_eq_default _ _ (hmerged.1 ▸ hle), List.getD_eq_default _ _ (hlen ▸ hle)]

/-- Without an edit the text is shown, with the spaces that it lacks. -/
theorem written_nil (width : ℕ) (text : Text) :
    written width text [] = Text.padRight width text := (foldl_merge_eq_written width text []).symm

/-- One more edit. -/
theorem written_concat (width : ℕ) (text : Text) (changes : List Text) (change : Text) :
    written width text (changes ++ [change]) = merge (written width text changes) change := by
  rw [← foldl_merge_eq_written, ← foldl_merge_eq_written, List.foldl_append]
  rfl

/-- There are as many columns as the furthest edit needs. -/
theorem length_written (width : ℕ) (text : Text) (changes : List Text) :
    (written width text changes).length = extent width text changes := by
  simp [written]

/-- The least width is always there. -/
theorem le_extent (width : ℕ) (text : Text) (changes : List Text) :
    width ≤ extent width text changes := by
  induction changes using List.reverseRecOn with
  | nil => exact le_max_left _ _
  | append_singleton changes change ih =>
    rw [extent_concat]
    exact ih.trans (le_max_left _ _)

/-- Edits in ASCII lead to an ASCII text. -/
theorem isAscii_written {width : ℕ} {text : Text} {changes : List Text} (ht : Text.isAscii text)
    (hc : ∀ change ∈ changes, Text.isAscii change) : Text.isAscii (written width text changes) := by
  induction changes using List.reverseRecOn with
  | nil =>
    rw [written_nil]
    exact isAscii_padRight ht
  | append_singleton changes change ih =>
    rw [written_concat]
    have hbefore := ih fun c hmem => hc c (List.mem_append_left _ hmem)
    exact isAscii_merge hbefore (hc change (List.mem_append_right _ (List.mem_singleton_self _)))

/-! ## One edit after the other -/

/-- An ASCII edit of an ASCII text with all its columns is accepted, and merged into it. -/
theorem edit_eq_merge {width : ℕ} {text change : Text} (hwidth : width ≤ text.length)
    (ht : Text.isAscii text) (hc : Text.isAscii change) :
    edit ⟨width, some text⟩ change =
      .ok ⟨width, some (merge text change)⟩ (merge text change) := by
  rw [edit, recover_of_isAscii rfl ht hc, padRight_of_le hwidth]
  rfl

/-- From the text after some edits on, each further edit leads to the text after one edit more. -/
theorem editAll_written {width : ℕ} {text : Text} {before changes : List Text}
    (ht : Text.isAscii text) (hbefore : ∀ change ∈ before, Text.isAscii change)
    (hc : ∀ change ∈ changes, Text.isAscii change) :
    editAll ⟨width, some (written width text before)⟩ changes =
      (⟨width, some (written width text (before ++ changes))⟩,
        (List.range changes.length).map fun k =>
          .ok (written width text (before ++ changes.take (k + 1)))) := by
  induction changes generalizing before with
  | nil => rw [List.append_nil]; rfl
  | cons change changes ih =>
    -- The first edit joins those that have been made before.
    obtain ⟨hhead, htail⟩ := List.forall_mem_cons.1 hc
    have hwidth : width ≤ (written width text before).length := by
      rw [length_written]
      exact le_extent width text before
    have hbefore' : ∀ c ∈ before ++ [change], Text.isAscii c := fun c hmem => by
      rcases List.mem_append.1 hmem with hold | hnew
      · exact hbefore c hold
      · exact List.mem_singleton.1 hnew ▸ hhead
    have hstep := edit_eq_merge hwidth (isAscii_written ht hbefore) hhead
    rw [← written_concat] at hstep
    rw [editAll, hstep, Outcome.ok]
    simp only [ih hbefore' htail, List.append_assoc, List.singleton_append, List.length_cons,
      List.range_succ_eq_map, List.map_cons, List.map_map, List.take_succ_cons, List.take_zero]
    rfl

/-! ## Two edits in one -/

/-- The edit that does what two edits do one after the other: it shows the second, and the first
where the second is blank. -/
def superpose (first second : Text) : Text := mergeWith ' ' ' ' first second

/-- A column of the superposed edit. -/
theorem getD_superpose (first second : Text) (i : ℕ) :
    (superpose first second).getD i ' ' =
      if second.getD i ' ' = ' ' then first.getD i ' ' else second.getD i ' ' := by
  rw [superpose, getD_mergeWith, put]
  split
  · rfl
  · rfl

/-- Two edits in ASCII are one in ASCII. -/
theorem isAscii_superpose {first second : Text} (hf : Text.isAscii first)
    (hs : Text.isAscii second) : Text.isAscii (superpose first second) := by
  rw [isAscii_iff_getD] at *
  intro i
  rw [getD_superpose]
  split
  · exact hf i
  · exact hs i

/-- Two edits after each other are one. -/
theorem merge_superpose (text first second : Text) :
    merge text (superpose first second) = merge (merge text first) second := by
  refine Text.eq_of_getD ?_ fun i => ?_
  · simp only [merge, superpose, length_mergeWith]
    rw [max_assoc]
  · rw [getD_merge, getD_merge, getD_merge, getD_superpose]
    unfold put
    by_cases h : second.getD i ' ' = ' '
    · simp only [h, if_true]
    · simp only [h, if_false]

/-- Two edits that are made one after the other can be made in one. -/
theorem edit_edit_eq_superpose {width : ℕ} {text first second : Text} (hwidth : width ≤ text.length)
    (ht : Text.isAscii text) (hf : Text.isAscii first) (hs : Text.isAscii second) :
    (edit ⟨width, some text⟩ first).state.edit second =
      edit ⟨width, some text⟩ (superpose first second) := by
  have hfirst := edit_eq_merge hwidth ht hf
  have hwidth' : width ≤ (merge text first).length := by
    rw [merge, length_mergeWith]
    exact hwidth.trans (le_max_left _ _)
  calc (edit ⟨width, some text⟩ first).state.edit second
      = edit ⟨width, some (merge text first)⟩ second := by rw [hfirst]; rfl
    _ = .ok ⟨width, some (merge (merge text first) second)⟩ (merge (merge text first) second) :=
        edit_eq_merge hwidth' (isAscii_merge ht hf) hs
    _ = .ok ⟨width, some (merge text (superpose first second))⟩
          (merge text (superpose first second)) := by rw [merge_superpose]
    _ = edit ⟨width, some text⟩ (superpose first second) :=
        (edit_eq_merge hwidth ht (isAscii_superpose hf hs)).symm

/-! ## Editing into a given text -/

/-- The edit that leads from one text to another, without the spaces at its end. -/
def editBetween (before after : Text) : Text := Text.trimSpaces (changes before after)

/-- The edit between two texts is that of each column. -/
theorem getD_editBetween (before after : Text) (i : ℕ) :
    (editBetween before after).getD i ' ' = change (before.getD i ' ') (after.getD i ' ') := by
  rw [editBetween, Text.getD_trimSpaces, getD_changes]

/-- The edit is ASCII if the second text is. -/
theorem isAscii_editBetween {before after : Text} (ha : Text.isAscii after) :
    Text.isAscii (editBetween before after) := by
  rw [isAscii_iff_getD] at *
  intro i
  rw [getD_editBetween, change]
  split
  · decide
  · split
    · decide
    · exact ha i

/-- The edit reaches as far as the visible part of either text. -/
theorem length_editBetween_le (before after : Text) :
    (editBetween before after).length ≤ max before.length (Text.trimSpaces after).length := by
  -- The spaces at the end of the second text add no column to the edit.
  have hcolumns : ∀ i, (changes before (Text.trimSpaces after)).getD i ' ' =
      (editBetween before after).getD i ' ' := fun i => by
    rw [getD_editBetween, getD_changes, Text.getD_trimSpaces]
  have hle := Text.length_le_of_getD hcolumns (Text.getLast?_trimSpaces_ne _)
  simpa [changes] using hle

/-- The edit between two texts leads to the second, as far as that can be seen. -/
theorem merge_editBetween {before after : Text} (hamp : '&' ∉ after) :
    merge before (editBetween before after) =
      Text.padRight before.length (Text.trimSpaces after) := by
  have hcolumns : ∀ i, (merge before (editBetween before after)).getD i ' ' =
      (Text.trimSpaces after).getD i ' ' := fun i => by
    -- A column that differs is written, and a blank one is erased.
    rw [getD_merge, getD_editBetween, put_change (getD_ne_ampersand hamp i), Text.getD_trimSpaces]
  have hlen : (merge before (editBetween before after)).length =
      max before.length (Text.trimSpaces after).length := by
    have hvisible := Text.length_le_of_getD hcolumns (Text.getLast?_trimSpaces_ne after)
    have hedit := length_editBetween_le before after
    rw [merge, length_mergeWith] at *
    omega
  refine Text.eq_of_getD (hlen.trans (Text.length_padRight _ _).symm) fun i => ?_
  rw [hcolumns, getD_padRight]

/-- The edit leads to the second text, apart from spaces at its end. -/
theorem edit_editBetween {width : ℕ} {text target : Text} (hwidth : width ≤ text.length)
    (ht : Text.isAscii text) (htarget : Text.isAscii target) (hamp : '&' ∉ target) :
    edit ⟨width, some text⟩ (editBetween text target) =
      .ok ⟨width, some (Text.padRight text.length (Text.trimSpaces target))⟩
        (Text.padRight text.length (Text.trimSpaces target)) := by
  rw [edit_eq_merge hwidth ht (isAscii_editBetween htarget), merge_editBetween hamp]

/-! ## The first edit -/

/-- The edit may be the first one: it is a whole text. -/
def StandsAlone (width : ℕ) (change : Text) : Prop :=
  Text.isAscii change ∧ change ≠ [] ∧ ' ' ∉ change ∧ width ≤ change.length

/-- The answer to an edit is the recovered text. -/
theorem result_edit (o : Overlay) (change : Text) :
    (o.edit change).result = o.recover change := by
  unfold edit
  cases o.recover change <;> rfl

/-- Without a text an edit has to be a whole text itself. -/
theorem base_unset (width : ℕ) (change : Text) :
    (unset width).base change =
      if change.isEmpty || change.length < width || change.contains ' ' then
        .error .missingReference
      else .ok [] := rfl

/-- A whole text is taken as an edit of an empty one. -/
theorem recover_unset {width : ℕ} {change : Text} (h : StandsAlone width change) :
    (unset width).recover change = recover ⟨width, some []⟩ change := by
  obtain ⟨-, hne, hspace, hwidth⟩ := h
  have hbase : base (unset width) change = .ok [] := by
    simp [base_unset, hne, hspace, Nat.not_lt.2 hwidth]
  unfold recover
  rw [hbase]
  rfl

/-- A whole text is taken as an edit of blanks. -/
theorem edit_unset {width : ℕ} {change : Text} (h : StandsAlone width change) :
    (unset width).edit change = (withReference width []).edit change := by
  have hwidth : width ≤ (Text.padRight width []).length := by
    rw [Text.length_padRight]
    exact le_max_left _ _
  have hrecover : (unset width).recover change = .ok (merge (Text.padRight width []) change) :=
    (recover_unset h).trans (recover_of_isAscii rfl rfl h.1)
  rw [edit, hrecover]
  exact (edit_eq_merge hwidth (isAscii_padRight rfl) h.1).symm

/-- An overlay without a text accepts whole texts, and nothing else. -/
theorem exists_answer_iff_standsAlone {width : ℕ} {change : Text} :
    (∃ answer, ((unset width).edit change).result = .ok answer) ↔ StandsAlone width change := by
  rw [result_edit]
  constructor
  · rintro ⟨answer, h⟩
    have hascii := isAscii_of_recover_eq_ok h
    rw [recover, if_pos hascii] at h
    obtain ⟨bytes, hbase, -⟩ := bind_eq_ok_iff.1 h
    -- Without a stored text the change itself has to be a whole text.
    rw [base_unset] at hbase
    split at hbase
    · cases hbase
    · next hwhole =>
      simp only [Bool.or_eq_true, List.isEmpty_iff, decide_eq_true_eq, List.contains_iff_mem,
        not_or, Nat.not_lt] at hwhole
      exact ⟨hascii, hwhole.1.1, hwhole.2, hwhole.1.2⟩
  · intro h
    exact ⟨_, (recover_unset h).trans (recover_of_isAscii rfl rfl h.1)⟩

/-! ## The closed form -/

/-- What a sequence of ASCII edits of an ASCII text leads to, in closed form. From there on, two
edits can be made in one, and any text without `&` can be reached with the edit between the two,
apart from the spaces that it ends with and that are beyond the text before. Without a text, an edit
has to be a whole text and is an edit of blanks. -/
theorem editAll_eq_written {width : ℕ} {text : Text} {changes : List Text}
    (ht : Text.isAscii text) (hc : ∀ change ∈ changes, Text.isAscii change) :
    let content := written width text changes
    let after : Overlay := ⟨width, some content⟩
    -- Every edit succeeds, with the text after it.
    (withReference width text).editAll changes =
      (after, (List.range changes.length).map fun k =>
        .ok (written width text (changes.take (k + 1)))) ∧
    (∀ first second, Text.isAscii first → Text.isAscii second →
      (after.edit first).state.edit second = after.edit (superpose first second)) ∧
    (∀ target, Text.isAscii target → '&' ∉ target →
      let reached := Text.padRight content.length (Text.trimSpaces target)
      after.edit (editBetween content target) = .ok ⟨width, some reached⟩ reached) ∧
    ∀ change,
      ((∃ answer, ((unset width).edit change).result = .ok answer) ↔ StandsAlone width change) ∧
      (StandsAlone width change →
        (unset width).edit change = (withReference width []).edit change) := by
  intro content after
  have hwidth : width ≤ content.length := by
    rw [length_written]
    exact le_extent width text changes
  have hcontent : Text.isAscii content := isAscii_written ht hc
  -- The overlay starts with the text after no edits.
  have hrun := @editAll_written width text [] changes ht (List.forall_mem_nil _) hc
  rw [written_nil] at hrun
  exact ⟨hrun, fun first second hf hs => edit_edit_eq_superpose hwidth hcontent hf hs,
    fun target htarget hamp => edit_editBetween hwidth hcontent htarget hamp,
    fun change => ⟨exists_answer_iff_standsAlone, edit_unset⟩⟩

/-- Three edits, the second of which is longer than the text and the third of which brings a column
back that the first has blanked. -/
theorem editAll_eq_written_columns :
    let text := "ABC".toList
    let changes := ["&".toList, " x  D".toList, "Z".toList]
    (withReference 4 text).editAll changes =
        (⟨4, some "ZxC D".toList⟩, [.ok " BC ".toList, .ok " xC D".toList, .ok "ZxC D".toList]) ∧
      Text.isAscii text ∧ (∀ change ∈ changes, Text.isAscii change) := by
  have ht : Text.isAscii "ABC".toList := by decide
  have hc : ∀ change ∈ ["&".toList, " x  D".toList, "Z".toList], Text.isAscii change := by decide
  have h := (@editAll_eq_written 4 _ _ ht hc).1
  exact ⟨h.trans (by decide), ht, hc⟩

/-- The edit from `G01` to `G02` and a space leaves no column for the space. -/
theorem trailing_space_lost :
    let after := edit (withReference 0 "G01".toList) (editBetween "G01".toList "G02 ".toList)
    editBetween "G01".toList "G02 ".toList = "  2".toList ∧
      after.result = .ok "G02".toList ∧
      ∀ width, Text.padRight width "G02 ".toList ≠ "G02".toList := by
  refine ⟨by decide, by decide, fun width h => ?_⟩
  -- No width makes the longer text as short as what is left.
  have hlen := congrArg List.length h
  rw [Text.length_padRight] at hlen
  have hle : 4 ≤ max width 4 := le_max_right width 4
  have hthree : max width 4 = 3 := hlen
  omega

end CompactRinex.Overlay
