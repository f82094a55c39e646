import CompactRinex.Proofs.Body.TrailingSpaces
import CompactRinex.Proofs.Machine.Simulation

/-!
# Machines that no caller can tell apart

Two machines may have been through different lines and hold different contents in the fields that
are not in use. What a caller is shown depends on none of this once the bodies that they represent
are alike (`Represents.reports_eq_of_alike`): the reports are the same altogether when both runs
meet their tables in the same orders, and the same apart from the constellation of an inconsistent
definition in any orders.

This is so after a literal epoch line (`reports_eq_of_literal`), and after a clock line or a data
line with and without the spaces at its end (`Reachable.write_trimSpaces`).
-/

namespace CompactRinex

namespace Machine

variable {maxOrder : ℕ} {m m₁ m₂ : Machine maxOrder} {b b₁ b₂ : Body maxOrder}

/-- Machines that represent bodies that are alike report the same, whatever is in their files. -/
theorem Represents.reports_eq_of_alike (h₁ : m₁.Represents b₁) (h₂ : m₂.Represents b₂)
    (hb₁ : b₁.Reachable) (hb₂ : b₂.Reachable) (halike : b₁.Alike b₂) (file₁ file₂ : Text) :
    (∀ inputs, m₁.reports file₁ inputs = m₂.reports file₂ inputs) ∧
      ∀ inputs₁ inputs₂ : List (Walks × Input), inputs₁.map Prod.snd = inputs₂.map Prod.snd →
        (m₁.reports file₁ inputs₁).map Report.unnamed =
          (m₂.reports file₂ inputs₂).map Report.unnamed := by
  refine ⟨fun inputs => ?_, fun inputs₁ inputs₂ hsame => ?_⟩
  · rw [h₁.reports_eq, h₂.reports_eq, halike.reports_eq hb₁.coherent hb₂.coherent]
  · rw [h₁.reports_eq, h₂.reports_eq,
      halike.reports_unnamed_eq hb₁.coherent hb₂.coherent hsame]

/-! ## Literal epoch lines -/

/-- Two reachable machines between epochs that have the same layout and the same clock show the same
from the next literal epoch line on, whatever follows. With the tables met in the same orders every
report is the same. In any orders every report is the same apart from the constellation that an
inconsistent definition is reported for. -/
theorem reports_eq_of_literal (h₁ : Reachable m₁) (h₂ : Reachable m₂) (hstate₁ : m₁.state = .epoch)
    (hstate₂ : m₂.state = .epoch) (hlayout : m₁.layout.view = m₂.layout.view)
    (hclock : m₁.clock = m₂.clock) {description : Text} (hascii : Text.isAscii description)
    (file₁ file₂ : Text) :
    (∀ walks inputs,
      m₁.reports file₁ ((walks, .line (m₁.layout.revision.marker :: description)) :: inputs) =
        m₂.reports file₂ ((walks, .line (m₁.layout.revision.marker :: description)) :: inputs)) ∧
    ∀ walks₁ walks₂ inputs₁ inputs₂, inputs₁.map Prod.snd = inputs₂.map Prod.snd →
      (m₁.reports file₁ ((walks₁, .line (m₁.layout.revision.marker :: description)) ::
        inputs₁)).map Report.unnamed =
      (m₂.reports file₂ ((walks₂, .line (m₁.layout.revision.marker :: description)) ::
        inputs₂)).map Report.unnamed := by
  obtain ⟨b₁, hb₁, hrepresents₁⟩ := h₁.exists_body
  obtain ⟨b₂, hb₂, hrepresents₂⟩ := h₂.exists_body
  have hphase₁ := hrepresents₁.phase_of_epoch hstate₁
  have hphase₂ := hrepresents₂.phase_of_epoch hstate₂
  rw [← hrepresents₁.layout_eq, ← hrepresents₂.layout_eq] at hlayout
  rw [← hrepresents₁.clock_eq, ← hrepresents₂.clock_eq] at hclock
  rw [← hrepresents₁.layout_eq]
  generalize hline : Input.line (b₁.layout.revision.marker :: description) = line
  -- The first line makes the bodies alike, whatever the orders are.
  have halike : ∀ walks₁ walks₂, Body.ProgressAlike walks₁ walks₂ (b₁.takeAlong walks₁ line)
      (b₂.takeAlong walks₂ line) := by
    intro walks₁ walks₂
    rw [← hline]
    exact Body.literal_alike hb₁.coherent hb₂.coherent hphase₁ hphase₂ hlayout hclock hascii
      walks₁ walks₂
  have hlater := fun walks₁ walks₂ =>
    (hrepresents₁.takeAlong walks₁ file₁ line).represents.reports_eq_of_alike
      (hrepresents₂.takeAlong walks₂ file₂ line).represents (hb₁.along walks₁ line)
      (hb₂.along walks₂ line) (halike walks₁ walks₂).body
  constructor
  · intro walks inputs
    simp only [reports]
    rw [(hrepresents₁.takeAlong walks file₁ line).report_eq,
      (hrepresents₂.takeAlong walks file₂ line).report_eq, (halike walks walks).report_eq rfl,
      (hlater walks walks _ _).1]
  · intro walks₁ walks₂ inputs₁ inputs₂ hsame
    simp only [reports, List.map_cons]
    rw [(hrepresents₁.takeAlong walks₁ file₁ line).report_eq,
      (hrepresents₂.takeAlong walks₂ file₂ line).report_eq,
      (halike walks₁ walks₂).unnamed_report_eq, (hlater walks₁ walks₂ _ _).2 _ _ hsame]

/-- A new machine, and one that has followed a satellite for an epoch. The second one has kept its
list of satellites and the position behind the last of them. -/
theorem reports_eq_of_literal_followed :
    ∃ m₁ m₂ : Machine 5, Reachable m₁ ∧ Reachable m₂ ∧ m₁.state = .epoch ∧ m₂.state = .epoch ∧
      m₁.layout.view = m₂.layout.view ∧ m₁.clock = m₂.clock ∧ m₁.epoch ≠ m₂.epoch ∧
      m₁.satellites = [] ∧ m₂.satellites = [⟨⟨.gps, 1⟩, "G01".toList⟩] ∧ m₂.position = 1 ∧
      m₂.observations.value? ⟨.gps, 1⟩ 0 = some 1000 ∧ ∀ walks inputs,
        m₁.reports []
            ((walks, .line "> 2021 01 01 00 00 30.0000000  0  1      G01".toList) :: inputs) =
          m₂.reports []
            ((walks, .line "> 2021 01 01 00 00 30.0000000  0  1      G01".toList) :: inputs) := by
  obtain ⟨m, hm⟩ : ∃ m : Machine 5,
    ofLayout 5 .inserted ((Layout.ofRevision .v3).withObservables .gps 1) = .ok m := ⟨_, rfl⟩
  have h₁ : Reachable m := .start hm
  cases hm
  -- The second machine has gone through an epoch of its own.
  have h₂ := ((h₁.take .inserted []
    (.line "> 2021 01 01 00 00 00.0000000  0  1      G01".toList)).take .inserted []
    (.line [])).take .inserted [] (.line "3&1000".toList)
  have hascii : Text.isAscii " 2021 01 01 00 00 30.0000000  0  1      G01".toList := rfl
  refine ⟨_, _, h₁, h₂, ?epoch₁, ?epoch₂, ?layout, ?clock, by decide +kernel, ?none, ?satellites,
    ?position, by decide +kernel, fun walks inputs => ?reports⟩
  case epoch₁ => rfl
  case epoch₂ => rfl
  case layout => rfl
  case clock => rfl
  case none => rfl
  case satellites => rfl
  case position => rfl
  case reports =>
    exact (reports_eq_of_literal h₁ h₂ rfl rfl rfl rfl hascii [] []).1 walks inputs

/-! ## Trailing spaces -/

/-- Without the spaces at its end an accepted clock line or data line is accepted as well, adds the
same text, and leaves a machine that shows the same, whatever follows. With the tables met in the
same orders every report is the same. In any orders every report is the same apart from the
constellation that an inconsistent definition is reported for. -/
theorem Reachable.write_trimSpaces (h : Reachable m)
    (hstate : m.state = .clock ∨ m.state = .observation) {walks : Walks} {file line : Text}
    {size : ℕ}
    (haccepted : (m.write walks file line).result = .ok size) (walks' : Walks) :
    (m.write walks' file (Text.trimSpaces line)).result = .ok size ∧
      (m.write walks' file (Text.trimSpaces line)).state.2 = (m.write walks file line).state.2 ∧
      (∀ later inputs,
        (m.write walks' file (Text.trimSpaces line)).state.1.reports later inputs =
          (m.write walks file line).state.1.reports later inputs) ∧
      ∀ later inputs₁ inputs₂, inputs₁.map Prod.snd = inputs₂.map Prod.snd →
        ((m.write walks' file (Text.trimSpaces line)).state.1.reports later inputs₁).map
            Report.unnamed =
          ((m.write walks file line).state.1.reports later inputs₂).map Report.unnamed := by
  obtain ⟨b, hb, hrepresents⟩ := h.exists_body
  rw [← hrepresents.state_eq] at hstate
  have hfault := hrepresents.fault_of_ok haccepted
  have halike := hb.trimSpaces_alike hstate hfault walks'
  have hfollows := hrepresents.write walks file line
  have htrimmed := hrepresents.write walks' file (Text.trimSpaces line)
  -- Clock lines and data lines meet no table, so the fault is the same in other orders too.
  have hfault' : (b.stepAlong walks' (Text.trimSpaces line)).fault = none := by
    have := halike.unnamed_eq
    rw [hfault] at this
    exact Option.map_eq_none_iff.1 this.symm
  have hreports := fun later => hfollows.represents.reports_eq_of_alike htrimmed.represents
    (hb.along walks (.line line)) (hb.along walks' (.line (Text.trimSpaces line))) halike.body
    later later
  refine ⟨?_, ?_, fun later inputs => ((hreports later).1 inputs).symm,
    fun later inputs₁ inputs₂ hsame => ((hreports later).2 inputs₂ inputs₁ hsame.symm).symm⟩
  · have hsize := hfollows.result_eq
    rw [haccepted, hfault] at hsize
    rw [htrimmed.result_eq, hfault', ← halike.output_eq, hsize]
  · rw [htrimmed.file_eq, hfollows.file_eq, halike.output_eq]

/-- A satellite with one observable has got another. With its trailing spaces the line makes the
flags two characters longer. -/
theorem write_trimSpaces_redefined :
    ∃ m : Machine 5, Reachable m ∧ m.state = .observation ∧
      (m.write .inserted [] "10  1   ".toList).result = .ok 19 ∧
      ((m.write .inserted [] "10  1   ".toList).state.1.observations.flags.get? ⟨.gps, 1⟩).bind
        Overlay.reference = some "1   ".toList ∧
      ((m.write .inserted [] "10  1".toList).state.1.observations.flags.get? ⟨.gps, 1⟩).bind
        Overlay.reference = some "1 ".toList ∧
      (m.write .inserted [] "10  1".toList).result = .ok 19 ∧
      ∀ later inputs,
        (m.write .inserted [] "10  1".toList).state.1.reports later inputs =
          (m.write .inserted [] "10  1   ".toList).state.1.reports later inputs := by
  obtain ⟨m, hm⟩ : ∃ m : Machine 5,
    ofLayout 5 .inserted ((Layout.ofRevision .v3).withObservables .gps 1) = .ok m := ⟨_, rfl⟩
  have h₀ : Reachable m := .start hm
  cases hm
  have hobserved := ((h₀.take .inserted []
    (.line "> 2021 01 01 00 00 00.0000000  0  1      G01".toList)).take .inserted []
    (.line [])).take .inserted [] (.line "3&1000".toList)
  -- A second observable is defined, so there are flags that no line has named.
  have hredefined := (hobserved.take .inserted [] (.line (Text.blanks 31 ++ ['4']))).take
    .inserted []
    (.line ("G    2 C1C C2C".toList ++ Text.blanks 46 ++ "SYS / # / OBS TYPES".toList))
  have h := (hredefined.take .inserted [] (.line (Text.blanks 31 ++ ['0']))).take .inserted []
    (.line [])
  have hline : Text.trimSpaces "10  1   ".toList = "10  1".toList := rfl
  have htrimmed := h.write_trimSpaces (.inr (by decide +kernel))
    (by decide +kernel : (Machine.write _ .inserted [] "10  1   ".toList).result = .ok 19) .inserted
  rw [hline] at htrimmed
  refine ⟨_, h, ?state, ?accepted, ?longer, ?shorter, htrimmed.1, htrimmed.2.2.1⟩
  case state => decide +kernel
  case accepted => decide +kernel
  case longer => decide +kernel
  case shorter => decide +kernel

end Machine

end CompactRinex
