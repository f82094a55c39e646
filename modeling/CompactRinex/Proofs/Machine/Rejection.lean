import CompactRinex.Proofs.Body.Rejection
import CompactRinex.Proofs.Machine.Simulation

/-!
# Rejected lines and the fields of a machine

What `Body.Stays` says of a body holds of every field of a machine, of those that are not in use as
well: a line that is rejected moves neither the satellites nor the position among them, also where
the next line is an epoch line and they are left over from an earlier epoch. `Machine.Stays` lists
what else it may have stored. `Reachable.stays` says that this is all, for every machine that does
not await a special record, and that no number of rejected lines moves the machine on.
-/

namespace CompactRinex

variable {maxOrder : ℕ}

/-! ## The tracks of one satellite -/

/-- The tables hold the same of the satellite. -/
structure Ledger.SameAt (s : Satellite) (l l' : Ledger maxOrder) : Prop where
  /-- The flags are the same. -/
  flags_eq : l'.flags.get? s = l.flags.get? s
  /-- The kernels of all columns are the same. -/
  kernel_eq : ∀ i, l'.kernels.get? (s, i) = l.kernels.get? (s, i)

/-- Tables that carry the same track hold the same. -/
theorem Ledger.Carries.sameAt {l l' : Ledger maxOrder} {t t' : Tracking maxOrder} {s : Satellite}
    (h : l.Carries t) (h' : l'.Carries t') (htrack : t'.tracks.get? s = t.tracks.get? s) :
    l.SameAt s l' where
  flags_eq := by rw [h'.flags_eq, htrack, h.flags_eq]
  kernel_eq i := by simp only [h'.kernel_eq, h.kernel_eq, Tracking.kernel?, htrack]

namespace Machine

variable {m m' : Machine maxOrder} {line : Text} {fault : Fault}

/-! ## What a rejected line leaves behind -/

/-- What a line that is rejected with a fault leaves of the machine. -/
structure Stays (m : Machine maxOrder) (line : Text) (fault : Fault) (m' : Machine maxOrder) :
    Prop where
  /-- The machine is at the same place. -/
  place : m.SamePlace m'
  /-- Only a clock line whose offset does not fit has moved the clock. -/
  clock : m'.clock ≠ m.clock →
    m.state = .clock ∧ ∃ value width, fault = .formatOverflow value width
  /-- A literal epoch line has ended all histories, and then its parts have been found unusable. -/
  literal : m.state = .epoch → m.layout.IsLiteral line →
    (∀ s, Ledger.empty.SameAt s m'.observations) ∧ m'.epoch.text? = some line.tail ∧
      m'.epoch.Unusable m.layout fault
  /-- Any other epoch line has ended no history, whatever satellites it lists. -/
  differential : m.state = .epoch → ¬m.layout.IsLiteral line →
    ∀ s, m.observations.SameAt s m'.observations
  /-- A clock line does not matter to the satellites. -/
  offset : m.state = .clock → ∀ s, m.observations.SameAt s m'.observations
  /-- A data line may have moved the tracks of its own satellite, up to the cell that fails. -/
  data : m.state = .observation → ∃ entry, m.satellites[m.position]? = some entry ∧
    (¬fault.OfCell maxOrder → ∀ s, m.observations.SameAt s m'.observations) ∧
    ∀ s, s ≠ entry.satellite → m.observations.SameAt s m'.observations

/-- A rejected line leaves as much of the machine as it leaves of the body. -/
theorem Represents.stays_of_body {b b' : Body maxOrder} (h : m.Represents b) (h' : m'.Represents b')
    (hplace : m.SamePlace m') (hbody : b.Stays line fault b') : m.Stays line fault m' := by
  -- Equal tracks leave equal cells in the two maps.
  have hsame : b'.tracking = b.tracking → ∀ s, m.observations.SameAt s m'.observations :=
    fun heq s => h.carries.sameAt h'.carries (by rw [heq])
  exact {
    place := hplace
    clock := fun hne => by
      rw [← h.clock_eq, ← h'.clock_eq] at hne
      obtain ⟨⟨listed, hclock⟩, hoverflow⟩ := hbody.clock hne
      refine ⟨?_, hoverflow⟩
      rw [← h.state_eq, hclock, Phase.state]
    literal := fun hstate hliteral => by
      obtain ⟨htracking, htext, hunusable⟩ :=
        hbody.literal (h.phase_of_epoch hstate) (h.layout_eq.symm ▸ hliteral)
      refine ⟨fun s => Ledger.carries_empty.sameAt h'.carries (by rw [htracking]), ?_, ?_⟩
      · rw [← h'.epoch_eq, htext]
      · rw [← h'.epoch_eq, ← h.layout_eq]
        exact hunusable
    differential := fun hstate hliteral =>
      hsame (hbody.differential (h.phase_of_epoch hstate) (h.layout_eq.symm ▸ hliteral))
    offset := fun hstate => hsame (hbody.offset m.satellites (h.phase_of_clock hstate))
    data := fun hstate => by
      obtain ⟨entry, hentry, hcell, hothers⟩ :=
        hbody.data m.satellites m.position (h.phase_of_observation hstate)
      exact ⟨entry, hentry, fun hnot => hsame (by_contra fun hne => hnot (hcell hne)),
        fun s hs => h.carries.sameAt h'.carries (hothers s hs)⟩ }

/-- A rejected line leaves every reachable machine as `Stays` says. -/
theorem Reachable.stays_write (h : Reachable m) (hstate : m.state ≠ .records) {walks : Walks}
    {file : Text} (hresult : (m.write walks file line).result = .error fault) :
    m.Stays line fault (m.write walks file line).state.1 := by
  obtain ⟨b, hb, hrepresents⟩ := h.exists_body
  have hfollows := hrepresents.write walks file line
  have hfault := hrepresents.fault_of_error hresult
  refine hrepresents.stays_of_body hfollows.represents
    (hfollows.samePlace (hfault ▸ Option.some_ne_none fault) hstate) ?_
  exact hb.sound.stays_of_exit hb.tracking.legible (hrepresents.state_eq ▸ hstate)
    (Body.exit_stepAlong b walks line) hfault

/-- A line is rejected, and leaves the machine and the file like this. -/
def Rejects (p p' : Machine maxOrder × Text) : Prop :=
  ∃ walks line fault, p.1.write walks p.2 line = .fail p' fault

/-- However many lines are rejected one after the other, the machine does not move on. -/
theorem Reachable.samePlace_of_rejects (h : Reachable m) (hstate : m.state ≠ .records) {file : Text}
    {p : Machine maxOrder × Text} (hrejects : Relation.ReflTransGen Rejects (m, file) p) :
    Reachable p.1 ∧ m.SamePlace p.1 := by
  induction hrejects with
  | refl => exact ⟨h, .refl m⟩
  | @tail p p' _ hlast ih =>
    obtain ⟨hreachable, hplace⟩ := ih
    obtain ⟨walks, line, fault, hwrite⟩ := hlast
    have hnext := hreachable.take walks p.2 (.line line)
    have hresult : (p.1.write walks p.2 line).result = .error fault := by rw [hwrite]; rfl
    -- The machine is not among records, so the last line leaves it at its place too.
    have hstays := hreachable.stays_write (hplace.state_eq ▸ hstate) hresult
    rw [hwrite] at hstays
    rw [takeAlong, hwrite] at hnext
    exact ⟨hnext, hplace.trans hstays.place⟩

/-- A line that is rejected, and is no special record, never moves a reachable machine on. The kind
of the next line, the layout, the satellites and the position among them stay; the clock stays
unless its offset did not fit, and the tables stay unless a literal epoch line has emptied them or a
cell of a data line has failed. So it is however many lines are rejected. -/
theorem Reachable.stays (h : Reachable m) (hstate : m.state ≠ .records) :
    (∀ walks file line fault, (m.write walks file line).result = .error fault →
      m.Stays line fault (m.write walks file line).state.1) ∧
      ∀ file p, Relation.ReflTransGen Rejects (m, file) p → m.SamePlace p.1 :=
  ⟨fun _ _ _ _ hresult => h.stays_write hstate hresult,
    fun _ _ hrejects => (h.samePlace_of_rejects hstate hrejects).2⟩

/-- The second column of the first of two satellites has an order that is not supported. The first
column has moved, and the machine still awaits the data line of the first satellite. -/
theorem stays_order_too_big :
    ∃ m : Machine 5, ∃ line fault, Reachable m ∧ m.state = .observation ∧ m.position = 0 ∧
      m.satellites = [⟨⟨.gps, 1⟩, "G01".toList⟩, ⟨⟨.gps, 2⟩, "G02".toList⟩] ∧
      line = "3&7 9&1".toList ∧ fault = .orderTooBig 9 5 ∧
      m.observations.value? ⟨.gps, 1⟩ 0 = none ∧
      (m.write .inserted [] line).result = .error fault ∧
      (m.write .inserted [] line).state.1.observations.value? ⟨.gps, 1⟩ 0 = some 7 ∧
      m.Stays line fault (m.write .inserted [] line).state.1 := by
  obtain ⟨m, hm⟩ : ∃ m : Machine 5,
    ofLayout 5 .inserted ((Layout.ofRevision .v3).withObservables .gps 2) = .ok m := ⟨_, rfl⟩
  have h₀ : Reachable m := .start hm
  cases hm
  have h := (h₀.take .inserted []
    (.line "> 2021 01 01 00 00 00.0000000  0  2      G01G02".toList)).take .inserted []
      (.line [])
  -- The first cell has been stored when the second one is refused.
  refine ⟨_, _, _, h, ?state, rfl, rfl, rfl, rfl, rfl, ?result, ?value,
    (h.stays ?moving).1 _ _ _ _ ?result⟩
  case state => rfl
  case moving => exact nofun
  case result => decide +kernel
  case value => decide +kernel

end Machine

end CompactRinex
