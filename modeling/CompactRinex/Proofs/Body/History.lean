import CompactRinex.Proofs.Body.Run
import CompactRinex.Proofs.Fault
import CompactRinex.Proofs.Tracking.Isolated

/-!
# Histories

The tracks of a body are updated by epoch lines and data lines alike. `Body.histories` says, without
looking at them, which data lines of a satellite count: those since its history last started, at a
literal epoch line, at a reinitialization or when the satellite was missing from the list of an
epoch. `tracking_eq_isolated` says that after a run without faults the track of every satellite is
what these lines lead to, each column and the flags on their own, and that the last record was
written from it.
-/

namespace CompactRinex

/-- The data lines of each satellite since its history started. -/
abbrev Histories := Satellite → List Consumed

/-- The flags of a satellite. -/
def Tracking.flags {maxOrder : ℕ} (t : Tracking maxOrder) (s : Satellite) : Text :=
  ((t.tracks.get? s).bind fun track => track.flags.reference).getD []

/-- What taking in the data line of a satellite does when it is written. -/
theorem Tracking.decode_eq_ok {maxOrder : ℕ} {t : Tracking maxOrder} {layout : Layout}
    {s : Satellite} {id line record : Text}
    (h : (t.decode layout s id line).result = .ok record) :
    ∃ columns dataLine cells, layout.columnsOf s = some columns ∧
      DataLine.parse columns.length line = .ok dataLine ∧
      (((t.tracks.get? s).getD (.fresh columns.length)).advance columns dataLine).result =
        .ok cells ∧
      record = render layout.revision id cells ∧
      (t.decode layout s id line).state = ⟨t.tracks.insert s
        (((t.tracks.get? s).getD (.fresh columns.length)).advance columns dataLine).state⟩ := by
  rcases t.decode_cases layout s id line with ⟨fault, -, hrefused⟩ |
    ⟨columns, dataLine, moved, hcolumns, hline, hmoved, htaken⟩
  · rw [hrefused] at h
    cases h
  · rw [htaken] at h ⊢
    obtain ⟨cells, hcells, hrecord⟩ := map_eq_ok_iff.1 h
    subst hmoved
    exact ⟨columns, dataLine, cells, hcolumns, hline, hcells, hrecord.symm, rfl⟩

namespace Body

variable {maxOrder : ℕ}

/-- The histories after an input that is accepted. -/
def recount (b : Body maxOrder) (h : Histories) : Input → Histories
  | .restart => fun _ => []
  | .line text =>
    match b.phase with
    | .epoch =>
      let kept : Histories :=
        if text.head? = some b.layout.revision.marker then fun _ => [] else h
      match (b.step text).body.phase with
      | .clock listed => fun s => if s ∈ listed.map Listed.satellite then kept s else []
      | _ => kept
    | .observation listed position =>
      match listed[position]? with
      | none => h
      | some entry =>
        match b.layout.columnsOf entry.satellite with
        | none => h
        | some columns =>
          match DataLine.parse columns.length text with
          | .error _ => h
          | .ok line => fun s =>
            if s = entry.satellite then h s ++ [⟨entry.id, columns, line, (b.step text).output⟩]
            else h s
    | _ => h

/-- The histories after inputs that are accepted. -/
def histories (b : Body maxOrder) (h : Histories) : List Input → Histories
  | [] => h
  | input :: inputs => (b.take input).body.histories (b.recount h input) inputs

/-- The track of every satellite is what its history leads to. -/
def Recorded (b : Body maxOrder) (h : Histories) : Prop :=
  ∀ s count, Track.Follows b.layout.revision (h s) ((b.tracking.tracks.get? s).getD (.fresh count))

/-- A literal epoch line ends all histories, any other epoch line none. -/
theorem Recorded.described {b : Body maxOrder} {h : Histories} (hb : Recorded b h)
    (hc : Coherent b) {line : Text} {epoch : EpochDescription} {kind : EpochKind}
    (hnext : b.epoch.next line = .ok (epoch, kind)) :
    Recorded (b.described epoch kind)
      (if line.head? = some b.layout.revision.marker then fun _ => [] else h) := by
  -- The marker at the start of the line says whether the histories start anew.
  have hkind := EpochDescription.literal_iff_of_next hnext
  rw [hc.revision_eq] at hkind
  intro s count
  by_cases hliteral : kind = .literal
  · rw [if_pos (hkind.1 hliteral)]
    simp only [Body.described, hliteral, if_true]
    exact Track.follows_fresh _ count
  · rw [if_neg fun hhead => hliteral (hkind.2 hhead)]
    simp only [Body.described, hliteral, if_false]
    exact hb s count

/-- The satellites that are not listed lose their history. -/
theorem Recorded.retain {b : Body maxOrder} {h : Histories} (hb : Recorded b h)
    (satellites : List Satellite) (phase : Phase) :
    Recorded { b with phase, tracking := b.tracking.retain satellites }
      (fun s => if s ∈ satellites then h s else []) := by
  intro s count
  simp only [Tracking.retain, Table.get?_restrict, List.contains_iff_mem]
  by_cases hmem : s ∈ satellites
  · simp only [hmem, if_true]
    exact hb s count
  · simp only [hmem, if_false]
    exact Track.follows_fresh _ count

/-- A data line counts for its satellite and for no other. -/
theorem Recorded.data {b : Body maxOrder} {h : Histories} (hb : Recorded b h) {s : Satellite}
    {id text : Text} {columns : List Column} {line : DataLine} {cells : List Text}
    (hline : DataLine.parse columns.length text = .ok line)
    (hcells : (((b.tracking.tracks.get? s).getD (.fresh columns.length)).advance columns
      line).result = .ok cells) (phase : Phase) :
    Recorded
      { b with
        phase
        tracking := ⟨b.tracking.tracks.insert s
          (((b.tracking.tracks.get? s).getD (.fresh columns.length)).advance columns line).state⟩ }
      (fun s' => if s' = s then
        h s' ++ [⟨id, columns, line, Tracking.render b.layout.revision id cells ++ ['\n']⟩]
        else h s') := by
  intro s' count
  obtain ⟨hlen, hflags⟩ := Track.parse_eq_ok hline
  simp only [Table.get?_insert]
  -- The other satellites have no line more.
  by_cases hs : s' = s
  · subst hs
    simp only [if_true]
    exact (hb s' columns.length).advance hlen hflags hcells id
  · simp only [hs, if_false]
    exact hb s' count

/-- The tracks follow the histories through every input that is accepted. -/
theorem Recorded.take {b : Body maxOrder} {h : Histories} (hb : Recorded b h) (hc : Coherent b)
    {input : Input} (hfault : (b.take input).fault = none) :
    Recorded (b.take input).body (b.recount h input) := by
  cases input with
  | restart => exact fun s count => Track.follows_fresh _ count
  | line text =>
    have hexit := exit_step b text
    simp only [Body.take, recount] at hfault ⊢
    generalize b.step text = p at hexit hfault ⊢
    cases hexit with
    | epochRefused => cases hfault
    | epochUnusable => cases hfault
    | @event _ _ flag count _ hphase hnext =>
      have hkept := hb.described hc hnext
      simp only [hphase]
      -- No clock line follows, so there is no list that satellites could be missing from.
      have hrecords : ∀ listed, recordsPhase flag count ≠ .clock listed := by
        intro listed
        unfold recordsPhase
        split <;> simp
      split
      · next listed hclock => exact absurd hclock (hrecords listed)
      · exact hkept
    | observations hphase hnext =>
      have hkept := hb.described hc hnext
      simp only [hphase]
      exact hkept.retain _ _
    | clockRefused => cases hfault
    | clockUnwritten => cases hfault
    | clock hphase =>
      simp only [hphase]
      exact hb
    | unlisted => cases hfault
    | dataFault => cases hfault
    | @data listed position entry record hphase hentry hresult =>
      -- The line is recorded with the columns that it was read with.
      obtain ⟨columns, line, cells, hcolumns, hline, hcells, rfl, hstate⟩ :=
        Tracking.decode_eq_ok hresult
      simp only [hphase, hentry, hcolumns, hline, hstate]
      exact hb.data hline hcells _
    | recordFault => cases hfault
    | record hphase =>
      simp only [hphase]
      exact hb
    | updateFault => cases hfault
    | layoutFault => cases hfault
    | lastRecord hphase _ _ hlayout =>
      -- The layout may be a new one, but its revision is the same.
      simp only [hphase]
      intro s count
      rw [(hc.of_updatedLayout hlayout).1]
      exact hb s count

/-- The tracks follow the histories through every run without a fault. -/
theorem Recorded.run {b b' : Body maxOrder} {h : Histories} (hb : Recorded b h) (hc : Coherent b)
    {inputs : List Input} {output : Text} (hrun : b.run inputs = .ok (b', output)) :
    Recorded b' (b.histories h inputs) := by
  induction inputs generalizing b h output with
  | nil => cases hrun; exact hb
  | cons input inputs ih =>
    obtain ⟨hfault, q, hq, hp⟩ := run_cons_eq_ok_iff.1 hrun
    cases hp
    exact ih (hb.take hc hfault) (hc.take input) hq

/-- After a run without faults, the value of every satellite in every column is the one that the
isolated kernel of the column has after the fields of the history of the satellite, its flags are
the fold of the edits of the history over blanks, and its last record was written from both. -/
theorem tracking_eq_isolated {layout : Layout} {start b : Body maxOrder}
    (hstart : ofLayout maxOrder layout = .ok start) {inputs : List Input} {output : Text}
    (hrun : start.run inputs = .ok (b, output)) (s : Satellite) :
    (∀ i, ∃ kernel, Kernel.isolated maxOrder
        (Consumed.cells i (start.histories (fun _ => []) inputs s)) = .ok kernel ∧
      b.tracking.value? s i = kernel.bind Kernel.value?) ∧
    (∀ i, (b.tracking.flags s).getD i ' ' =
      (Consumed.flags (start.histories (fun _ => []) inputs s)).getD i ' ') ∧
    ∀ last ∈ (start.histories (fun _ => []) inputs s).getLast?, ∃ values,
      Track.Prints maxOrder (start.histories (fun _ => []) inputs s) last values ∧
      last.output = Tracking.render b.layout.revision last.id
        (Track.withFlags (Consumed.flags (start.histories (fun _ => []) inputs s)) values) ++
          ['\n'] := by
  have hempty : Recorded start (fun _ => []) := by
    obtain ⟨-, clock, -, rfl⟩ := ofLayout_eq_ok hstart
    exact fun s count => Track.follows_fresh _ count
  have hf := hempty.run (coherent_ofLayout hstart) hrun s 0
  -- What the invariant says is read off for each part.
  generalize start.histories (fun _ => []) inputs s = history at hf ⊢
  refine ⟨fun i => ⟨_, hf.kernel_eq i, ?_⟩, fun i => ?_, hf.output_eq⟩
  · simp only [Tracking.value?]
    cases b.tracking.tracks.get? s with
    | none => rfl
    | some track => rfl
  · obtain ⟨text, href, -, htext⟩ := hf.flags_eq
    rw [← htext]
    simp only [Tracking.flags]
    cases htrack : b.tracking.tracks.get? s with
    | none =>
      rw [htrack] at href
      cases href
      rfl
    | some track =>
      rw [htrack] at href
      exact congrArg (fun t : Option Text => (t.getD []).getD i ' ') href

/-- A satellite that leaves the list for an epoch and returns, and has a blank field then. -/
theorem tracking_eq_isolated_returned :
    ∃ start b : Body 5, ∃ inputs output,
      ofLayout 5 ((Layout.ofRevision .v3).withObservables .gps 2) = .ok start ∧
      inputs = [.line "> 2021 01 01 00 00 00.0000000  0  1      G01".toList, .line [],
        .line "3&1000 3&7 5".toList,
        .line "                                           2".toList, .line [],
        .line "3&500".toList,
        .line "                                           1".toList, .line [],
        .line "3&2000   7".toList,
        .line [' '], .line [], .line "10 3&8".toList] ∧
      start.run inputs = .ok (b, output) ∧ b.tracking.value? ⟨.gps, 1⟩ 0 = some 2010 ∧
      ∃ kernel, Kernel.isolated 5
          (Consumed.cells 0 (start.histories (fun _ => []) inputs ⟨.gps, 1⟩)) = .ok kernel ∧
        b.tracking.value? ⟨.gps, 1⟩ 0 = kernel.bind Kernel.value? := by
  refine ⟨?_, ?_, ?_, ?_, ?start, ?lines, ?run, ?value,
    (tracking_eq_isolated ?start ?run ⟨.gps, 1⟩).1 0⟩
  case start => rfl
  case lines => rfl
  case run => rfl
  case value => rfl

end Body

end CompactRinex
