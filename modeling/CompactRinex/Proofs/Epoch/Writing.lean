import CompactRinex.Epoch.Description
import CompactRinex.Proofs.Outcome
import CompactRinex.Proofs.Text.Rows
import Mathlib.Order.Lattice

/-!
# Descriptions and recovered epoch lines

Spaces after a description hide nothing of it: what is read from a text is also read from the text
followed by spaces (`flag_append`, `count_append`, `satellites_append`). This matters because an
edit cannot make a description shorter. The recovered epoch line depends on the columns up to the
last satellite only, and `render_observations` and `render_event` give it in closed form.
-/

namespace CompactRinex

namespace EpochDescription

/-- The description with a given text. -/
def ofText (revision : Revision) (text : Text) : EpochDescription := ⟨revision, ⟨0, some text⟩⟩

variable {revision : Revision} {text : Text}

/-- The revision is the one that was given. -/
@[simp] theorem revision_ofText : (ofText revision text).revision = revision := rfl

/-- A part of a description is there when the text does not end before it does. -/
theorem field_ofText_eq_ok_iff {start stop : ℕ} {part : Text} :
    (ofText revision text).field start stop = .ok part ↔
      stop ≤ text.length ∧ (text.drop start).take (stop - start) = part := by
  simp only [field, text?, ofText, Text.columns?]
  by_cases h : stop ≤ text.length
  · simp [h]
  · simp [h]

/-! ## Descriptions followed by spaces -/

/-- Spaces at the end do not change a field. -/
theorem field_append (spaces : Text) {start stop : ℕ} {part : Text}
    (h : (ofText revision text).field start stop = .ok part) :
    (ofText revision (text ++ spaces)).field start stop = .ok part := by
  rw [field_ofText_eq_ok_iff] at h ⊢
  obtain ⟨hle, hpart⟩ := h
  refine ⟨by rw [List.length_append]; omega, ?_⟩
  rw [← hpart]
  by_cases hstart : start ≤ stop
  · rw [List.drop_append_of_le_length (le_trans hstart hle),
      List.take_append_of_le_length (by rw [List.length_drop]; omega)]
  · simp [Nat.sub_eq_zero_of_le (Nat.le_of_not_le hstart)]

/-- Nor the flag. -/
theorem flag_append (spaces : Text) {flag : EpochFlag}
    (h : (ofText revision text).flag = .ok flag) :
    (ofText revision (text ++ spaces)).flag = .ok flag := by
  unfold EpochDescription.flag at h ⊢
  obtain ⟨part, hpart, hflag⟩ := bind_eq_ok_iff.1 h
  exact bind_eq_ok_iff.2 ⟨part, field_append spaces hpart, hflag⟩

/-- Nor the count. -/
theorem count_append (spaces : Text) {n : ℕ} (h : (ofText revision text).count = .ok n) :
    (ofText revision (text ++ spaces)).count = .ok n := by
  unfold EpochDescription.count at h ⊢
  obtain ⟨part, hpart, hcount⟩ := bind_eq_ok_iff.1 h
  exact bind_eq_ok_iff.2 ⟨part, field_append spaces hpart, hcount⟩

/-- Nor a satellite. -/
theorem listedAt_append (spaces : Text) {layout : Layout} {position : ℕ} {entry : Listed}
    (h : (ofText revision text).listedAt layout position = .ok entry) :
    (ofText revision (text ++ spaces)).listedAt layout position = .ok entry := by
  unfold listedAt at h ⊢
  obtain ⟨id, hid, hentry⟩ := bind_eq_ok_iff.1 h
  exact bind_eq_ok_iff.2 ⟨id, field_append spaces hid, hentry⟩

/-- What the satellites of a description are. -/
theorem satellites_eq_ok_iff {d : EpochDescription} {layout : Layout} {listed : List Listed} :
    d.satellites layout = .ok listed ↔ d.count = .ok listed.length ∧
      List.Forall₂ (fun position entry => d.listedAt layout position = .ok entry)
        (List.range listed.length) listed := by
  unfold satellites
  rw [bind_eq_ok_iff]
  constructor
  · rintro ⟨n, hn, hlisted⟩
    have h := mapM_eq_ok_iff.1 hlisted
    obtain rfl : n = listed.length := by
      rw [← h.length_eq, List.length_range]
    exact ⟨hn, h⟩
  · rintro ⟨hn, h⟩
    exact ⟨_, hn, mapM_eq_ok_iff.2 h⟩

/-- Spaces at the end do not change the list of satellites. -/
theorem satellites_append (spaces : Text) {layout : Layout} {listed : List Listed}
    (h : (ofText revision text).satellites layout = .ok listed) :
    (ofText revision (text ++ spaces)).satellites layout = .ok listed := by
  rw [satellites_eq_ok_iff] at h ⊢
  exact ⟨count_append spaces h.1, h.2.imp fun _ _ => listedAt_append spaces⟩

/-! ## The length of a description -/

/-- A description with a count has all columns before the satellites. -/
theorem le_length_of_count {n : ℕ} (h : (ofText revision text).count = .ok n) :
    revision.flagColumn + 4 ≤ text.length := by
  unfold EpochDescription.count at h
  obtain ⟨part, hpart, -⟩ := bind_eq_ok_iff.1 h
  exact (field_ofText_eq_ok_iff.1 hpart).1

/-- The text reaches to the end of each identifier. -/
theorem le_length_of_listedAt {layout : Layout} {position : ℕ} {entry : Listed}
    (h : (ofText revision text).listedAt layout position = .ok entry) :
    revision.satelliteColumn + 3 * (position + 1) ≤ text.length := by
  unfold listedAt at h
  obtain ⟨id, hid, -⟩ := bind_eq_ok_iff.1 h
  exact (field_ofText_eq_ok_iff.1 hid).1

/-- A description of the first revision has the columns of all its satellites. -/
theorem le_length_of_satellites {layout : Layout} {listed : List Listed}
    (h : (ofText .v1 text).satellites layout = .ok listed) :
    31 + 3 * listed.length ≤ text.length := by
  obtain ⟨hcount, hlisted⟩ := satellites_eq_ok_iff.1 h
  cases hn : listed.length with
  | zero => exact le_length_of_count hcount
  | succ n =>
    -- The last satellite is the one that reaches furthest.
    have hlt : n < listed.length := by omega
    have hget := hlisted.get (i := n) (by simpa using hlt) hlt
    simp only [List.get_eq_getElem, List.getElem_range] at hget
    exact le_length_of_listedAt hget

/-! ## Recovered lines -/

/-- The line of an event in the recovered file. -/
def eventLine (revision : Revision) (text : Text) : Text :=
  match revision with
  | .v1 => ' ' :: text.take 31
  | .v3 => '>' :: text.take 34

/-- The line of `count` satellites in the recovered file. The first revision has the satellites, 36
characters on each line, and the clock at column 68; the third has the clock after six blanks. -/
def observationLine (revision : Revision) (text : Text) (count : ℕ) (clock : Option Text) : Text :=
  match revision with
  | .v1 =>
    let rows := Text.groups 36 ((text.drop 31).take (3 * count))
    let first := ' ' :: text.take 31 ++ rows.headD []
    clock.elim first (fun offset => Text.padRight 68 first ++ offset) ++
      rows.tail.flatMap fun row => '\n' :: Text.blanks 32 ++ row
  | .v3 => '>' :: text.take 34 ++ clock.elim [] fun offset => Text.blanks 6 ++ offset

/-- The identifiers on the lines of a description are its satellite columns, cut into rows. -/
theorem mapM_identifiers {n : ℕ} (h : 31 + 3 * n ≤ text.length) :
    (List.range ((n + 11) / 12)).mapM ((ofText .v1 text).identifiers n) =
      .ok (Text.groups 36 ((text.drop 31).take (3 * n))) := by
  have hlen : ((text.drop 31).take (3 * n)).length = 3 * n := by
    rw [List.length_take, List.length_drop]; omega
  have hrows : (3 * n + (36 - 1)) / 36 = (n + 11) / 12 := by omega
  -- Row by row: a row of the columns is a row of the description.
  rw [mapM_eq_ok_iff, Text.groups, hlen, hrows, List.forall₂_map_right_iff, List.forall₂_same]
  intro row hrow
  have hle : 12 * row ≤ n := by rw [List.mem_range] at hrow; omega
  refine (@field_ofText_eq_ok_iff .v1 _ _ _ _).2 ⟨?_, ?_⟩
  · show 31 + 3 * min n (12 * (row + 1)) ≤ text.length
    omega
  · show (text.drop (31 + 36 * row)).take (31 + 3 * min n (12 * (row + 1)) - (31 + 36 * row)) = _
    rw [List.drop_take, List.drop_drop, List.take_take]
    congr 1
    omega

/-- The first columns of a description are there. -/
theorem field_zero (revision : Revision) {stop : ℕ} (h : stop ≤ text.length) :
    (ofText revision text).field 0 stop = .ok (text.take stop) :=
  field_ofText_eq_ok_iff.2 ⟨h, rfl⟩

/-- An event with a count can be written. -/
theorem render_event {flag : EpochFlag} {n : ℕ} (hflag : (ofText revision text).flag = .ok flag)
    (hevent : flag.isEvent = true) (hcount : (ofText revision text).count = .ok n) :
    (ofText revision text).render none = .ok (eventLine revision text) := by
  -- The count has been read, so the description is long enough to be cut.
  have hlen := le_length_of_count hcount
  simp only [render, hflag, hcount, bind, Except.bind]
  cases revision with
  | v1 =>
    have hhead := field_zero .v1 (show 31 ≤ text.length from hlen)
    simp only [ofText] at hhead ⊢
    simp only [renderV1, hhead, hevent, bind, Except.bind, if_true]
    rfl
  | v3 =>
    have hhead := field_zero .v3 (show 34 ≤ text.length from hlen)
    simp only [ofText] at hhead ⊢
    simp only [renderV3, hhead, bind, Except.bind]
    rfl

/-- Observations with a list of satellites can be written, whatever the clock is. -/
theorem render_observations {flag : EpochFlag} {layout : Layout} {listed : List Listed}
    (hflag : (ofText revision text).flag = .ok flag) (hevent : flag.isEvent = false)
    (hlisted : (ofText revision text).satellites layout = .ok listed) (clock : Option Text) :
    (ofText revision text).render clock =
      .ok (observationLine revision text listed.length clock) := by
  have hcount := (satellites_eq_ok_iff.1 hlisted).1
  have hlen := le_length_of_count hcount
  simp only [render, hflag, hcount, bind, Except.bind]
  cases revision with
  | v1 =>
    have hhead := field_zero .v1 (show 31 ≤ text.length from hlen)
    -- All satellites are there to be written out again.
    have hrows := mapM_identifiers (le_length_of_satellites hlisted)
    simp only [ofText] at hhead hrows ⊢
    simp only [renderV1, hhead, hevent, hrows, bind, Except.bind, Bool.false_eq_true, if_false]
    cases clock <;> rfl
  | v3 =>
    have hhead := field_zero .v3 (show 34 ≤ text.length from hlen)
    simp only [ofText] at hhead ⊢
    simp only [renderV3, hhead, hevent, bind, Except.bind, Bool.false_eq_true, if_false]
    cases clock with
    | none => simp [observationLine, Revision.lead]
    | some offset => simp [observationLine, Revision.lead]

/-! ## Recovered lines of descriptions followed by spaces -/

/-- Spaces at the end do not change the line of an event. -/
theorem eventLine_append {n : ℕ} (spaces : Text)
    (hcount : (ofText revision text).count = .ok n) :
    eventLine revision (text ++ spaces) = eventLine revision text := by
  have hlen := le_length_of_count hcount
  cases revision with
  | v1 => simp only [eventLine, List.take_append_of_le_length (show 31 ≤ text.length from hlen)]
  | v3 => simp only [eventLine, List.take_append_of_le_length (show 34 ≤ text.length from hlen)]

/-- Nor do they change the line of observations. -/
theorem observationLine_append {layout : Layout} {listed : List Listed} (spaces : Text)
    (hlisted : (ofText revision text).satellites layout = .ok listed) (clock : Option Text) :
    observationLine revision (text ++ spaces) listed.length clock =
      observationLine revision text listed.length clock := by
  have hlen := le_length_of_count (satellites_eq_ok_iff.1 hlisted).1
  cases revision with
  | v1 =>
    -- The list of satellites ends before the spaces that are added.
    have hsat := le_length_of_satellites hlisted
    have htake : 3 * listed.length ≤ (text.drop 31).length := by rw [List.length_drop]; omega
    have h31 : 31 ≤ text.length := hlen
    simp only [observationLine, List.take_append_of_le_length h31,
      List.drop_append_of_le_length h31, List.take_append_of_le_length htake]
  | v3 =>
    simp only [observationLine, List.take_append_of_le_length (show 34 ≤ text.length from hlen)]

end EpochDescription

end CompactRinex
