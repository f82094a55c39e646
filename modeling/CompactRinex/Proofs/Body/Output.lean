import CompactRinex.Proofs.Body.Invariant
import CompactRinex.Proofs.Body.Reports

/-!
# What a line adds to the recovered file

The recovered file only grows, and by whole lines. A line that is accepted answers with the number
of bytes that it has added, and a line that is refused adds nothing, with one exception: a special
record is passed on before it is understood, so that a refused record of header information is in
the file all the same (`Reachable.write_appends`).
-/

namespace CompactRinex

namespace Body

variable {maxOrder : ℕ} {b : Body maxOrder}

/-- A file grows by what a step adds, and the answer is how much that is. -/
theorem write_eq (b : Body maxOrder) (file line : Text) :
    b.write file line = ⟨((b.step line).body, file ++ (b.step line).output),
      (b.step line).fault.elim (.ok (Text.byteLength (b.step line).output)) .error⟩ := by
  have hsize : Text.byteLength (file ++ (b.step line).output) - Text.byteLength file =
      Text.byteLength (b.step line).output := by
    rw [Text.byteLength_append]
    omega
  unfold write
  dsimp only
  rw [hsize]
  cases (b.step line).fault with
  | none => rfl
  | some fault => rfl

/-- A line that is refused adds nothing, unless it is a record of header information: then it is
passed on as it is. -/
theorem Sound.output_of_fault (h : Sound b) {line : Text} {fault : Fault}
    (hfault : (b.step line).fault = some fault) :
    (b.phase.state ≠ .records ∧ (b.step line).output = []) ∨
      (b.phase.state = .records ∧ b.epoch.flag = .ok .headerInformationFollows ∧
        (b.step line).output = line ++ ['\n']) := by
  have hinPhase := h.inPhase
  have hexit := exit_step b line
  generalize b.step line = p at hexit hfault ⊢
  cases hexit with
  | epochRefused hphase | epochUnusable hphase | clockRefused hphase | clockUnwritten hphase
    | unlisted hphase | dataFault hphase =>
    refine Or.inl ⟨fun hstate => ?_, rfl⟩
    rw [hphase] at hstate
    cases hstate
  | event | observations | clock | data | record | lastRecord => cases hfault
  | recordFault hphase =>
    simp only [InPhase, hphase] at hinPhase
    exact Or.inr ⟨by rw [hphase]; rfl, hinPhase (Option.some_ne_none _), rfl⟩
  | @updateFault left update update' e hphase hread _ hlayout =>
    -- Without a header the layout that is asked for is the one in force.
    obtain _ | header := update'
    · cases hlayout
    · simp only [InPhase, hphase] at hinPhase
      have hupdate := update_ne_none_of_readUpdate hread (Option.some_ne_none header)
      exact Or.inr ⟨by rw [hphase]; rfl, hinPhase hupdate, rfl⟩
  | layoutFault hphase hread =>
    simp only [InPhase, hphase] at hinPhase
    have hupdate := update_ne_none_of_readUpdate hread (Option.some_ne_none _)
    exact Or.inr ⟨by rw [hphase]; rfl, hinPhase hupdate, rfl⟩

/-- A file grows by whole lines. The answer to a line that is accepted is the number of bytes that
it has added, and a line that is refused adds nothing, unless it is a record of header information:
then it is passed on as it is. -/
theorem Reachable.write_appends (h : Reachable b) (file line : Text) :
    ∃ added, (b.write file line).state.2 = file ++ added ∧
      (added = [] ∨ ∃ text, added = text ++ ['\n']) ∧
      (∀ n, (b.write file line).result = .ok n → n = Text.byteLength added) ∧
      ∀ fault, (b.write file line).result = .error fault →
        (b.phase.state ≠ .records ∧ added = []) ∨
          (b.phase.state = .records ∧ b.epoch.flag = .ok .headerInformationFollows ∧
            added = line ++ ['\n']) := by
  rw [write_eq]
  refine ⟨(b.step line).output, rfl, b.output_eq_nil_or line, fun n hresult => ?_,
    fun fault hresult => ?_⟩
  · cases hfault : (b.step line).fault with
    | none =>
      rw [hfault] at hresult
      exact (Except.ok.inj hresult).symm
    | some fault => rw [hfault] at hresult; cases hresult
  · cases hfault : (b.step line).fault with
    | none => rw [hfault] at hresult; cases hresult
    | some fault' =>
      -- The invariant says in which phase a fault leaves a text behind.
      exact h.sound.output_of_fault hfault

/-- A record of header information is refused, and it is in the file. -/
theorem output_of_refused_record :
    ∃ (b : Body 5) (line : Text), Reachable b ∧
      line = "G    x C1C                                                  SYS / # / OBS TYPES".toList ∧
      (b.write [] line).result = .error (.headerUpdate (.badObservables .gps)) ∧
      (b.write [] line).state.2 = line ++ ['\n'] ∧ (b.write [] line).state.2 ≠ [] := by
  obtain ⟨b, hb⟩ : ∃ b : Body 5,
    ofLayout 5 ((Layout.ofRevision .v3).withObservables .gps 1) = .ok b := ⟨_, rfl⟩
  have h₀ : Reachable b := .start hb
  cases hb
  -- One record is announced, and its count of codes is no number.
  have h := h₀.take (.line "> 2021 01 01 00 00 00.0000000  4  1".toList)
  exact ⟨_, _, h, rfl, rfl, rfl, nofun⟩

/-- A data line whose value does not fit its column, after a file with a character of two bytes. -/
theorem write_appends_overflow :
    ∃ (b : Body 5) (file line : Text), Reachable b ∧ file = "\u00e9\n".toList ∧
      line = "3&123456789012345".toList ∧
      (b.write file line).result = .error (.formatOverflow 123456789012345 14) ∧
      b.phase.state ≠ .records ∧ (b.write file line).state.2 = file := by
  obtain ⟨b, hb⟩ : ∃ b : Body 5,
    ofLayout 5 ((Layout.ofRevision .v3).withObservables .gps 1) = .ok b := ⟨_, rfl⟩
  have h₀ : Reachable b := .start hb
  cases hb
  have h := (h₀.take (.line "> 2021 01 01 00 00 00.0000000  0  1      G01".toList)).take (.line [])
  refine ⟨_, _, _, h, rfl, rfl, ?fault, nofun, ?file⟩
  case fault => rfl
  case file =>
    obtain ⟨added, hadded, -, -, hfault⟩ :=
      h.write_appends "\u00e9\n".toList "3&123456789012345".toList
    rcases hfault (.formatOverflow 123456789012345 14) rfl with ⟨-, rfl⟩ | ⟨hstate, -⟩
    · rw [hadded, List.append_nil]
    · cases hstate

end Body

end CompactRinex
