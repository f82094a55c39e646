import CompactRinex.Proofs.Body.Alphabet
import CompactRinex.Proofs.Body.Rejection
import CompactRinex.Proofs.Body.Synchronisation

/-!
# Trailing spaces of clock and data lines

A clock line or a data line that is accepted is accepted without the spaces at its end too,
completes the same text, and leaves a body that is alike (`Reachable.trimSpaces_alike`). The bodies
need not be equal: the flags of a satellite may have become shorter.
-/

namespace CompactRinex

namespace Body

variable {maxOrder : ℕ} {b : Body maxOrder}

/-- A body whose flags are texts is alike itself. -/
theorem alike_self (h : b.tracking.Legible) : Alike b b := ⟨rfl, rfl, rfl, rfl, h.resembles⟩

/-- A clock line is one field, which does not change. -/
theorem readClock_trimSpaces (b : Body maxOrder) (listed : List Listed) (line : Text) :
    b.readClock listed (Text.trimSpaces line) = b.readClock listed line :=
  readClock_congr listed (Field.parse_trimSpaces line)

/-- An accepted data line leaves flags that differ in trailing spaces at most. -/
theorem readObservation_trimSpaces (htracking : b.tracking.Legible) {listed : List Listed}
    {position : ℕ} {line : Text}
    (haccepted : (b.readObservation listed position line).fault = none) (walks₁ walks₂ : Walks) :
    ProgressAlike walks₁ walks₂ (b.readObservation listed position line)
      (b.readObservation listed position (Text.trimSpaces line)) := by
  simp only [readObservation] at haccepted ⊢
  cases hentry : listed[position]? with
  | none =>
    rw [hentry] at haccepted
    cases haccepted
  | some entry =>
    simp only [hentry] at haccepted
    cases hresult : (b.tracking.decode b.layout entry.satellite entry.id line).result with
    | error fault =>
      rw [hresult] at haccepted
      cases haccepted
    | ok record =>
      -- The fields are the same, and the flags differ in spaces at the end.
      obtain ⟨hshorter, hstate⟩ := htracking.decode_trimSpaces hresult
      simp only [hresult, hshorter]
      exact .of_fault_eq ⟨rfl, rfl, rfl, rfl, hstate⟩ rfl rfl

/-- Without the spaces at its end an accepted clock line or data line is taken in alike. -/
theorem Reachable.trimSpaces_alike (h : Reachable b)
    (hstate : b.phase.state = .clock ∨ b.phase.state = .observation) {walks₁ : Walks} {line : Text}
    (haccepted : (b.stepAlong walks₁ line).fault = none) (walks₂ : Walks) :
    ProgressAlike walks₁ walks₂ (b.stepAlong walks₁ line)
      (b.stepAlong walks₂ (Text.trimSpaces line)) := by
  cases hphase : b.phase with
  | epoch => simp [hphase, Phase.state] at hstate
  | clock listed =>
    -- A clock line is read without the blanks around it.
    have hbody := alike_self (h.along walks₁ (.line line)).tracking.legible
    simp only [takeAlong, stepAlong, hphase, readClock_trimSpaces] at hbody ⊢
    exact .of_fault_eq hbody rfl rfl
  | observation listed position =>
    simp only [stepAlong, hphase] at haccepted ⊢
    exact readObservation_trimSpaces h.tracking.legible haccepted walks₁ walks₂
  | records left update => simp [hphase, Phase.state] at hstate

end Body

end CompactRinex
