import CompactRinex.Proofs.Body.Reports

/-!
# Counting special records

The epoch line of an event says how many special records follow. A record that is accepted counts,
and the last one to count ends the event. A record that is refused does not count, whether it cannot
be understood itself or completes an update that cannot be used (`step_records`): each refusal makes
the event longer by one line (`state_after_records`), so that the line after the announced number of
records may still be taken for a record (`records_after_refusal`). Whatever a record contains, it is
passed on as it is.
-/

namespace CompactRinex

/-- The number of records that have to be accepted before the event ends. -/
def Phase.due : Phase → ℕ
  | records left _ => max left 1
  | epoch | clock _ | observation _ _ => 0

/-- One for a line that is refused. -/
def Progress.refusal {maxOrder : ℕ} (p : Progress maxOrder) : ℕ := if p.fault = none then 0 else 1

namespace Body

variable {maxOrder : ℕ}

/-- The body after these lines, accepted or not. -/
def after (b : Body maxOrder) (lines : List Text) : Body maxOrder :=
  lines.foldl (fun b line => (b.step line).body) b

/-- The number of these lines that are refused. -/
def refusals (b : Body maxOrder) : List Text → ℕ
  | [] => 0
  | line :: lines => (b.step line).refusal + (b.step line).body.refusals lines

/-- One more line. -/
theorem after_concat (b : Body maxOrder) (lines : List Text) (line : Text) :
    b.after (lines ++ [line]) = ((b.after lines).step line).body := by
  rw [after, List.foldl_append]
  rfl

/-- One more line may be one more that is refused. -/
theorem refusals_concat (b : Body maxOrder) (lines : List Text) (line : Text) :
    b.refusals (lines ++ [line]) = b.refusals lines + ((b.after lines).step line).refusal := by
  induction lines generalizing b with
  | nil => exact Nat.add_comm _ _
  | cons first lines ih =>
    have hlater := ih (b.step first).body
    have hafter : b.after (first :: lines) = (b.step first).body.after lines := rfl
    rw [List.cons_append, refusals, refusals, hlater, hafter, Nat.add_assoc]

/-- No more lines are refused than there are. -/
theorem refusals_le_length (b : Body maxOrder) (lines : List Text) :
    b.refusals lines ≤ lines.length := by
  induction lines generalizing b with
  | nil => exact Nat.le_refl 0
  | cons line lines ih =>
    have hlater := ih (b.step line).body
    have hfirst : (b.step line).refusal ≤ 1 := by
      unfold Progress.refusal
      split <;> omega
    rw [refusals, List.length_cons]
    omega

/-- A special record is passed on. If it is accepted there is one record less to come, and the event
ends when there is none. -/
theorem step_records {b : Body maxOrder} (hstate : b.phase.state = .records) (line : Text) :
    (b.step line).output = line ++ ['\n'] ∧
      (b.step line).body.phase.due + 1 = b.phase.due + (b.step line).refusal ∧
      (b.step line).body.phase.state =
        if (b.step line).body.phase.due = 0 then .epoch else .records := by
  have hexit := exit_step b line
  generalize b.step line = p at hexit ⊢
  cases hexit with
  | recordFault hphase =>
    refine ⟨rfl, ?_, ?_⟩
    · rw [hphase]; rfl
    · exact (if_neg (by simp only [Phase.due]; omega)).symm
  | record hphase _ hleft =>
    rw [hphase]
    refine ⟨rfl, ?_, ?_⟩
    · simp only [Phase.due, Progress.refusal, if_true]
      omega
    · exact (if_neg (by simp only [Phase.due]; omega)).symm
  | updateFault hphase _ hleft | layoutFault hphase _ hleft =>
    -- The last record has been counted, and one more is waited for all the same.
    have hdue : b.phase.due = 1 := by
      rw [hphase]
      exact Nat.max_eq_right hleft
    refine ⟨rfl, ?_, rfl⟩
    rw [hdue]
    rfl
  | lastRecord hphase _ hleft =>
    have hdue : b.phase.due = 1 := by
      rw [hphase]
      exact Nat.max_eq_right hleft
    refine ⟨rfl, ?_, rfl⟩
    rw [hdue]
    rfl
  | epochRefused hphase | epochUnusable hphase | event hphase | observations hphase
    | clockRefused hphase | clockUnwritten hphase | clock hphase | unlisted hphase
    | dataFault hphase | data hphase => rw [hphase] at hstate; cases hstate

/-- Records are counted as long as some are to come, those that are refused apart. -/
theorem due_after {b : Body maxOrder} (hstate : b.phase.state = .records) {lines : List Text}
    (hlines : lines.length < b.phase.due + b.refusals lines) :
    (b.after lines).phase.state = .records ∧
      (b.after lines).phase.due + lines.length = b.phase.due + b.refusals lines := by
  induction lines generalizing b with
  | nil => exact ⟨hstate, rfl⟩
  | cons line lines ih =>
    obtain ⟨-, hdue, hstate'⟩ := step_records hstate line
    have hle := (b.step line).body.refusals_le_length lines
    rw [refusals, List.length_cons] at hlines ⊢
    -- The event has not ended, or later lines would have to be refused more than once.
    rw [if_neg (by omega)] at hstate'
    obtain ⟨hstate'', hdue''⟩ := ih hstate' (by omega)
    have hafter : b.after (line :: lines) = (b.step line).body.after lines := rfl
    rw [hafter]
    exact ⟨hstate'', by omega⟩

/-- The records that an accepted event announces are to come. -/
theorem due_of_event {b : Body maxOrder} (hphase : b.phase = .epoch) {line : Text}
    (haccepted : (b.step line).fault = none) {flag : EpochFlag}
    (hflag : (b.step line).body.epoch.flag = .ok flag) (hevent : flag.isEvent = true) {n : ℕ}
    (hcount : (b.step line).body.epoch.count = .ok n) (hpos : 1 ≤ n) :
    (b.step line).body.phase.state = .records ∧ (b.step line).body.phase.due = n := by
  have hexit := exit_step b line
  generalize b.step line = p at hexit haccepted hflag hcount ⊢
  cases hexit with
  | epochRefused | epochUnusable => cases haccepted
  | event _ _ _ _ hcount' =>
    -- The count of the description is the number of records.
    obtain rfl : _ = n := Except.ok.inj (hcount'.symm.trans hcount)
    simp only [recordsPhase, if_neg (Nat.one_le_iff_ne_zero.1 hpos)]
    exact ⟨rfl, Nat.max_eq_left hpos⟩
  | observations _ _ hflag' hevent' =>
    -- The flag is that of an event.
    obtain rfl := Except.ok.inj (hflag'.symm.trans hflag)
    rw [hevent] at hevent'
    cases hevent'
  | clockRefused h | clockUnwritten h | clock h | unlisted h | dataFault h | data h | recordFault h
    | record h | updateFault h | layoutFault h | lastRecord h => rw [hphase] at h; cases h

/-- After an event that announces `n` special records, every line is passed on as one of them until
there have been `n`, and one more for each that was refused. The next line is an epoch line. -/
theorem state_after_records {b : Body maxOrder} (hphase : b.phase = .epoch) {line : Text}
    (haccepted : (b.step line).fault = none) {flag : EpochFlag}
    (hflag : (b.step line).body.epoch.flag = .ok flag) (hevent : flag.isEvent = true) {n : ℕ}
    (hcount : (b.step line).body.epoch.count = .ok n) (hpos : 1 ≤ n) {records : List Text}
    (hrecords : records.length < n + (b.step line).body.refusals records) (record : Text) :
    ((b.step line).body.after records).phase.state = .records ∧
      (((b.step line).body.after records).step record).output = record ++ ['\n'] ∧
      ((b.step line).body.after (records ++ [record])).phase.state =
        if (records ++ [record]).length < n + (b.step line).body.refusals (records ++ [record])
        then .records else .epoch := by
  obtain ⟨hstate, hdue⟩ := due_of_event hphase haccepted hflag hevent hcount hpos
  generalize (b.step line).body = event at hstate hdue hrecords ⊢
  obtain ⟨hstate', hdue'⟩ := due_after hstate (hdue.symm ▸ hrecords)
  obtain ⟨houtput, hdue'', hstate''⟩ := step_records hstate' record
  refine ⟨hstate', houtput, ?_⟩
  rw [after_concat, hstate'', refusals_concat, List.length_append, List.length_singleton]
  -- The event ends when no record is due any more.
  by_cases hend : ((event.after records).step record).body.phase.due = 0
  · rw [if_pos hend, if_neg (by omega)]
  · rw [if_neg hend, if_pos (by omega)]

/-- One record is announced and refused, and the next line is taken for a record. -/
theorem records_after_refusal :
    ∃ (b : Body 5) (line record : Text), Reachable b ∧ b.phase = .epoch ∧
      line = "> 2021 01 01 00 00 00.0000000  4  1".toList ∧
      record =
        "G    x C1C                                                  SYS / # / OBS TYPES".toList ∧
      (b.step line).fault = none ∧
      (b.step line).body.epoch.flag = .ok .headerInformationFollows ∧
      (b.step line).body.epoch.count = .ok 1 ∧
      ((b.step line).body.step record).fault = some (.headerUpdate (.badObservables .gps)) ∧
      ((b.step line).body.after [record]).phase.state = .records := by
  obtain ⟨b, hb⟩ : ∃ b : Body 5,
    ofLayout 5 ((Layout.ofRevision .v3).withObservables .gps 1) = .ok b := ⟨_, rfl⟩
  have h : Reachable b := .start hb
  cases hb
  exact ⟨_, _, _, h, rfl, rfl, rfl, rfl, rfl, rfl, rfl, rfl⟩

/-- Of two announced records one is refused, and then the definition that they make lacks a code:
two more lines are passed on before the event ends. -/
theorem state_after_records_unusable :
    ∃ (b : Body 5) (line : Text) (records : List Text), Reachable b ∧ b.phase = .epoch ∧
      line = "> 2021 01 01 00 00 00.0000000  4  2".toList ∧
      records =
        ["G    2 C1C                                                  SYS / # / OBS TYPES".toList,
          "G    x C1C                                                  SYS / # / OBS TYPES".toList,
          "AN EVENT                                                    COMMENT".toList] ∧
      (b.step line).body.refusals records = 2 ∧
      (b.step line).body.epoch.count = .ok 2 ∧ ∀ record,
        ((b.step line).body.after records).phase.state = .records ∧
        (((b.step line).body.after records).step record).output = record ++ ['\n'] ∧
        ((b.step line).body.after (records ++ [record])).phase.state =
          if (records ++ [record]).length < 2 + (b.step line).body.refusals (records ++ [record])
          then .records else .epoch := by
  obtain ⟨b, hb⟩ : ∃ b : Body 5,
    ofLayout 5 ((Layout.ofRevision .v3).withObservables .gps 1) = .ok b := ⟨_, rfl⟩
  have h : Reachable b := .start hb
  cases hb
  refine ⟨_, _, _, h, rfl, rfl, rfl, ?refused, rfl, fun record => ?_⟩
  case refused => rfl
  exact @state_after_records _ _ rfl _ rfl .headerInformationFollows rfl rfl 2 rfl (by decide) _
    (by decide) record

end Body

end CompactRinex
