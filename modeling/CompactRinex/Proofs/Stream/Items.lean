import CompactRinex.Proofs.Body.Framing
import CompactRinex.Proofs.Stream.Ending
import CompactRinex.Proofs.Text.Lines

/-!
# The items of a stream

`Stream.Items` says, without the queue and the states of a stream, which items the lines of a file
lead to: the lines of the header that belong to the recovered file, and then what a body recovers
that is started with the layout of this header. The items that a stream gives one after the other,
up to the first error or the end, are these (`Stream.yields_iff_items`).
-/

namespace CompactRinex

variable {maxOrder : ℕ}

namespace Body

/-- The lines that a body gives for the lines after a header of `before` lines, and the error after
them. -/
inductive Items (b : Body maxOrder) (before : ℕ) : List Text → List Text → Option StreamError → Prop
    where
  /-- A line is refused. -/
  | refused {accepted more : List Text} {line output : Text} {b' : Body maxOrder} {fault : Fault}
      (hrun : b.run (accepted.map .line) = .ok (b', output))
      (hfault : (b'.step line).fault = some fault) :
      Items b before (accepted ++ line :: more) (Text.lines output)
        (some (.body (before + accepted.length + 1) line fault))
  /-- All lines are accepted, and the content may end after them. -/
  | whole {accepted : List Text} {output : Text} {b' : Body maxOrder}
      (hrun : b.run (accepted.map .line) = .ok (b', output)) (hfinish : b'.finish = .ok ()) :
      Items b before accepted (Text.lines output) none
  /-- All lines are accepted, but the content does not end after the last of them. -/
  | truncated {accepted : List Text} {last output : Text} {b' : Body maxOrder}
      (hrun : b.run ((accepted ++ [last]).map .line) = .ok (b', output))
      (hfinish : b'.finish = .error .truncated) :
      Items b before (accepted ++ [last]) (Text.lines output)
        (some (.body (before + accepted.length + 1) last .truncated))

end Body

namespace Stream

/-- The lines of the recovered file that the lines of a compressed file lead to, and the error after
them. -/
inductive Items (maxOrder : ℕ) : List Text → List Text → Option StreamError → Prop where
  /-- A line of the header is refused. -/
  | refused {head more : List Text} {line : Text} {h : Header} {e : HeaderError}
      (hread : Header.Reads head h) (hresult : (h.parseLine line).result = .error e) :
      Items maxOrder (head ++ line :: more) (head.drop 2) (some (.header e))
  /-- The content ends before the header does. -/
  | endless {head : List Text} {h : Header} (hread : Header.Reads head h) :
      Items maxOrder head (head.drop 2) (some (.header .missingDelimiter))
  /-- There is no layout for the header. -/
  | unusable {head more : List Text} {line : Text} {h : Header} {forwarded : Bool} {e : HeaderError}
      (hread : Header.Reads head h) (hresult : (h.parseLine line).result = .ok forwarded)
      (hcomplete : (h.parseLine line).state.complete = true)
      (hlayout : (h.parseLine line).state.layout = .error e) :
      Items maxOrder (head ++ line :: more) (head.drop 2) (some (.header e))
  /-- The header has a layout, and the body follows. -/
  | body {head rest ls : List Text} {line : Text} {h : Header} {forwarded : Bool} {layout : Layout}
      {b : Body maxOrder} {e : Option StreamError} (hread : Header.Reads head h)
      (hresult : (h.parseLine line).result = .ok forwarded)
      (hcomplete : (h.parseLine line).state.complete = true)
      (hlayout : (h.parseLine line).state.layout = .ok layout)
      (hbody : Body.ofLayout maxOrder layout = .ok b)
      (hitems : b.Items (head.length + 1) rest ls e) :
      Items maxOrder (head ++ line :: rest) ((head ++ [line]).drop 2 ++ ls) e

/-! ## One item after the other -/

/-- The lines that a stream gives one after the other, and the error after them, if it does not end.
-/
inductive Yields : Stream maxOrder → List Text → Option StreamError → Prop where
  /-- A line, and what follows it. -/
  | line {s s' : Stream maxOrder} {line : Text} {ls : List Text} {e : Option StreamError}
      (hnext : s.next = (some (.ok line), s')) (h : Yields s' ls e) : Yields s (line :: ls) e
  /-- An error. -/
  | failed {s s' : Stream maxOrder} {e : StreamError} (hnext : s.next = (some (.error e), s')) :
      Yields s [] (some e)
  /-- The end. -/
  | ended {s s' : Stream maxOrder} (hnext : s.next = (none, s')) : Yields s [] none

/-- A stream ends, or gives an error: a drain gathers its items. -/
theorem yields_drain (s : Stream maxOrder) : Yields s s.drain.lines s.drain.error := by
  induction hn : s.drain.lines.length generalizing s with
  | zero =>
    -- The first item tells how the drained list begins.
    have hdrain := s.drain_eq_ofNext
    rcases hnext : s.next with ⟨_ | (e | line), s'⟩
    · rw [hnext] at hdrain
      rw [hdrain]
      exact .ended hnext
    · rw [hnext] at hdrain
      rw [hdrain]
      exact .failed hnext
    · rw [hnext] at hdrain
      rw [hdrain] at hn
      cases hn
  | succ n ih =>
    have hdrain := s.drain_eq_ofNext
    rcases hnext : s.next with ⟨_ | (e | line), s'⟩
    · rw [hnext] at hdrain
      rw [hdrain] at hn
      cases hn
    · rw [hnext] at hdrain
      rw [hdrain] at hn
      cases hn
    · rw [hnext] at hdrain
      rw [hdrain] at hn ⊢
      exact .line hnext (ih s' (Nat.succ.inj hn))

/-- The items of a stream are determined. -/
theorem Yields.drain_eq {s : Stream maxOrder} {ls : List Text} {e : Option StreamError}
    (h : Yields s ls e) : s.drain.lines = ls ∧ s.drain.error = e := by
  induction h with
  | line hnext _ ih =>
    rw [drain_eq_ofNext, hnext]
    exact ⟨congrArg _ ih.1, ih.2⟩
  | failed hnext => rw [drain_eq_ofNext, hnext]; exact ⟨rfl, rfl⟩
  | ended hnext => rw [drain_eq_ofNext, hnext]; exact ⟨rfl, rfl⟩

/-- The items of a stream are determined. -/
theorem Yields.unique {s : Stream maxOrder} {ls ls' : List Text} {e e' : Option StreamError}
    (h : Yields s ls e) (h' : Yields s ls' e') : ls = ls' ∧ e = e' :=
  ⟨h.drain_eq.1.symm.trans h'.drain_eq.1, h.drain_eq.2.symm.trans h'.drain_eq.2⟩

/-- The items follow from the next one and what is left then. -/
theorem Yields.congr {s s' : Stream maxOrder} {ls : List Text} {e : Option StreamError}
    (h : Yields s ls e) (hnext : s'.next = s.next) : Yields s' ls e := by
  cases h with
  | line hline h => exact .line (hnext.trans hline) h
  | failed herror => exact .failed (hnext.trans herror)
  | ended hend => exact .ended (hnext.trans hend)

/-- Queued lines come first. -/
theorem yields_queued (queued : List Text) {source : List SourceLine} {r : Reader maxOrder}
    {ls : List Text} {e : Option StreamError} (h : Yields ⟨source, { r with pending := [] }⟩ ls e) :
    Yields ⟨source, { r with pending := queued }⟩ (queued ++ ls) e := by
  induction queued with
  | nil => exact h
  | cons line queued ih => exact .line (pull_queued source rfl) ih

section Empty

/-! ## A stream without queued lines -/

variable {r : Reader maxOrder} (hpending : r.pending = []) (hdone : r.done = false)
include hpending hdone

/-- An accepted line gives its items, and then the others follow. -/
theorem yields_take {line : Text} {rest : List SourceLine} {ls : List Text}
    {e : Option StreamError} (htake : (r.take line).result = .ok ())
    (h : Yields ⟨rest, (r.take line).state⟩ ls e) : Yields ⟨.ok line :: rest, r⟩ ls e := by
  refine h.congr ?_
  simp only [next, pull, hpending, hdone, htake, Bool.false_eq_true, if_false]

/-- A refused line ends the items with its error. -/
theorem yields_refused {line : Text} {rest : List SourceLine} {e : StreamError}
    (htake : (r.take line).result = .error e) : Yields ⟨.ok line :: rest, r⟩ [] (some e) := by
  have hnext : next ⟨.ok line :: rest, r⟩ =
      (some (.error e), ⟨rest, (r.take line).state.close⟩) := by
    simp only [next, pull, hpending, hdone, htake, Bool.false_eq_true, if_false]
  exact .failed hnext

/-- Where the content may end there are no more items. -/
theorem yields_end (hfinish : r.finish = .ok ()) : Yields ⟨[], r⟩ [] none := by
  have hnext : next ⟨[], r⟩ = (none, ⟨[], r.close⟩) := by
    simp only [next, pull, hpending, hdone, hfinish, Bool.false_eq_true, if_false]
  exact .ended hnext

/-- Where it may not, the error is the last item. -/
theorem yields_truncated {e : StreamError} (hfinish : r.finish = .error e) :
    Yields ⟨[], r⟩ [] (some e) := by
  have hnext : next ⟨[], r⟩ = (some (.error e), ⟨[], r.close⟩) := by
    simp only [next, pull, hpending, hdone, hfinish, Bool.false_eq_true, if_false]
  exact .failed hnext

end Empty

/-! ## The body -/

/-- A step adds whole lines. -/
theorem exists_unlines_step (b : Body maxOrder) (line : Text) :
    ∃ ls, (b.step line).output = Text.unlines ls := by
  rcases b.output_eq_nil_or line with hnil | ⟨text, htext⟩
  · exact ⟨[], hnil⟩
  · exact ⟨[text], htext.trans (Text.unlines_singleton text).symm⟩

/-- Lines that the body accepts give the lines of the texts that they add. -/
theorem yields_run {b b' : Body maxOrder} {n : ℕ} {h : Header} {accepted : List Text}
    {output last : Text} {rest : List SourceLine} {ls : List Text} {e : Option StreamError}
    (hrun : b.run (accepted.map .line) = .ok (b', output))
    (hrest : Yields
      ⟨rest, ⟨n + accepted.length, h, some b', [], accepted.getLast?.getD last, false⟩⟩ ls e) :
    Yields ⟨accepted.map .ok ++ rest, ⟨n, h, some b, [], last, false⟩⟩ (Text.lines output ++ ls)
      e := by
  induction accepted generalizing b n output last with
  | nil => cases hrun; exact hrest
  | cons line accepted ih =>
    obtain ⟨hfault, ⟨b'', output'⟩, hrun', hp⟩ := Body.run_cons_eq_ok_iff.1 hrun
    have hfault : (b.step line).fault = none := hfault
    cases hp
    obtain ⟨added, hadded⟩ := exists_unlines_step b line
    -- An accepted line puts what it has written into the queue.
    have htake : Reader.take ⟨n, h, some b, [], last, false⟩ line =
        .ok ⟨n + 1, h, some (b.step line).body, Text.lines (b.step line).output, line, false⟩
          () := by
      simp only [Reader.take, Reader.takeBody, hfault, List.nil_append]
    -- Every output is of whole lines, so the outputs can be cut one by one.
    have hlines : Text.lines ((b.step line).output ++ output') =
        Text.lines (b.step line).output ++ Text.lines output' := by
      rw [hadded, Text.lines_unlines_append]
    rw [List.getLast?_cons, Option.getD_some, List.length_cons, Nat.add_comm accepted.length,
      ← Nat.add_assoc] at hrest
    refine yields_take rfl rfl (by rw [htake]; rfl) ?_
    rw [htake]
    show Yields _ (Text.lines ((b.step line).output ++ output') ++ ls) e
    rw [hlines, List.append_assoc]
    exact yields_queued _ (r := ⟨n + 1, h, some (b.step line).body, [], line, false⟩)
      (ih hrun' hrest)

/-- The items of a body are those of the stream after its header. -/
theorem yields_body {b : Body maxOrder} {n : ℕ} {rest ls : List Text} {e : Option StreamError}
    (hitems : b.Items n rest ls e) (h : Header) (last : Text) :
    Yields ⟨rest.map .ok, ⟨n, h, some b, [], last, false⟩⟩ ls e := by
  cases hitems with
  | @refused accepted more line output b' fault hrun hfault =>
    rw [List.map_append, List.map_cons, ← List.append_nil (Text.lines output)]
    refine yields_run hrun (yields_refused rfl rfl ?_)
    simp only [Reader.take, Reader.takeBody, hfault, Outcome.fail]
  | @whole _ output b' hrun hfinish =>
    rw [← List.append_nil (List.map _ rest), ← List.append_nil (Text.lines output)]
    refine yields_run hrun (yields_end rfl rfl ?_)
    simp only [Reader.finish, hfinish]
  | @truncated accepted last' output b' hrun hfinish =>
    rw [← List.append_nil (List.map _ (accepted ++ [last'])), ← List.append_nil (Text.lines output)]
    refine yields_run hrun (yields_truncated rfl rfl ?_)
    simp only [Reader.finish, hfinish, List.getLast?_concat, Option.getD_some, List.length_append,
      List.length_singleton, Nat.add_assoc]

/-! ## The header -/

/-- One more line is given unless it is one of the first two. -/
theorem drop_two_concat (head : List Text) (line : Text) :
    (head ++ [line]).drop 2 = head.drop 2 ++ if 2 ≤ head.length then [line] else [] := by
  rw [List.drop_append]
  split
  · next h => rw [Nat.sub_eq_zero_of_le h, List.drop_zero]
  · next h =>
    obtain ⟨n, hn⟩ : ∃ n, 2 - head.length = n + 1 := ⟨1 - head.length, by omega⟩
    rw [hn, List.drop_succ_cons, List.drop_nil]

/-- The lines of the header are given that belong to the recovered file. -/
theorem yields_head {head : List Text} {h : Header} (hread : Header.Reads head h)
    {rest : List SourceLine} {ls : List Text} {e : Option StreamError}
    (hrest : Yields (⟨rest, ⟨head.length, h, none, [], [], false⟩⟩ : Stream maxOrder) ls e) :
    Yields (ofFile maxOrder (head.map .ok ++ rest)) (head.drop 2 ++ ls) e := by
  induction hread generalizing rest ls with
  | start => exact hrest
  | @line head h line forwarded hread hresult hcomplete ih =>
    have hforwarded := (Header.parsesLine_parseLine hread.complete_eq line).forwarded_eq _ hresult
    rw [hread.lineCount_eq] at hforwarded
    have htake : (⟨head.length, h, none, [], [], false⟩ : Reader maxOrder).take line =
        .ok ⟨head.length + 1, (h.parseLine line).state, none,
          if 2 ≤ head.length then [line] else [], [], false⟩ () := by
      simp only [Reader.take, Reader.takeHeader, hresult, hcomplete, hforwarded, decide_eq_true_eq,
        Bool.false_eq_true, if_false, List.nil_append]
    -- The first two lines are read and not forwarded, all others are.
    rw [drop_two_concat, List.append_assoc, List.map_append, List.append_assoc]
    refine ih (yields_take rfl rfl (by rw [htake]; rfl) ?_)
    rw [htake]
    rw [List.length_append] at hrest
    exact yields_queued _
      (r := ⟨head.length + 1, (h.parseLine line).state, none, [], [], false⟩) hrest

/-- The last line of a header is given before what follows it. -/
theorem yields_lastHeaderLine {head : List Text} {h : Header} (hread : Header.Reads head h)
    {line : Text} {forwarded : Bool} (hresult : (h.parseLine line).result = .ok forwarded)
    (hcomplete : (h.parseLine line).state.complete = true) {layout : Layout}
    (hlayout : (h.parseLine line).state.layout = .ok layout) {b : Body maxOrder}
    (hbody : Body.ofLayout maxOrder layout = .ok b) {rest : List SourceLine} {ls : List Text}
    {e : Option StreamError} (hrest : Yields
      ⟨rest, ⟨head.length + 1, (h.parseLine line).state, some b, [], [], false⟩⟩ ls e) :
    Yields (ofFile maxOrder (head.map .ok ++ .ok line :: rest)) ((head ++ [line]).drop 2 ++ ls)
      e := by
  have hparses := Header.parsesLine_parseLine hread.complete_eq line
  -- The line that ends the header is not one of the first two, so it is forwarded.
  obtain ⟨htrue, hcount⟩ := hparses.of_complete hcomplete
  cases hresult.symm.trans htrue
  rw [hread.lineCount_eq] at hcount
  have htake : (⟨head.length, h, none, [], [], false⟩ : Reader maxOrder).take line =
      .ok ⟨head.length + 1, (h.parseLine line).state, some b, [line], [], false⟩ () := by
    simp only [Reader.take, Reader.takeHeader, Reader.openBody, hresult, hcomplete, hlayout, hbody,
      if_true, List.nil_append, Outcome.ok]
  rw [drop_two_concat, if_pos hcount, List.append_assoc]
  refine yields_head hread (yields_take rfl rfl (by rw [htake]; rfl) ?_)
  rw [htake]
  exact yields_queued [line]
    (r := ⟨head.length + 1, (h.parseLine line).state, some b, [], [], false⟩) hrest

/-! ## All items -/

/-- The items of the lines of a file are those of its stream. -/
theorem Items.yields {lines ls : List Text} {e : Option StreamError}
    (h : Items maxOrder lines ls e) : Yields (ofFile maxOrder (lines.map .ok)) ls e := by
  cases h with
  | @refused head more line h e hread hresult =>
    rw [List.map_append, ← List.append_nil (head.drop 2)]
    refine yields_head hread (yields_refused rfl rfl ?_)
    simp only [Reader.take, Reader.takeHeader, hresult, Outcome.fail]
  | endless hread =>
    rw [← List.append_nil (lines.map _), ← List.append_nil (lines.drop 2)]
    exact yields_head hread (yields_truncated rfl rfl rfl)
  | @unusable head more line h forwarded e hread hresult hcomplete hlayout =>
    rw [List.map_append, ← List.append_nil (head.drop 2)]
    refine yields_head hread (yields_refused rfl rfl ?_)
    simp only [Reader.take, Reader.takeHeader, Reader.openBody, hresult, hcomplete, hlayout,
      if_true, Outcome.fail]
  | @body head rest ls line h forwarded layout b e hread hresult hcomplete hlayout hbody hitems =>
    rw [List.map_append]
    exact yields_lastHeaderLine hread hresult hcomplete hlayout hbody (yields_body hitems _ [])

/-- A body accepts all lines, or it refuses one of them. -/
theorem run_or_refused (b : Body maxOrder) (lines : List Text) :
    (∃ p, b.run (lines.map .line) = .ok p) ∨
    ∃ accepted line more b' output fault, lines = accepted ++ line :: more ∧
      b.run (accepted.map .line) = .ok (b', output) ∧ (b'.step line).fault = some fault := by
  induction lines generalizing b with
  | nil => exact Or.inl ⟨_, rfl⟩
  | cons line lines ih =>
    cases hfault : (b.step line).fault with
    | some fault => exact Or.inr ⟨[], line, lines, b, [], fault, rfl, rfl, hfault⟩
    | none =>
      -- The first line is accepted, so the others decide.
      rcases ih (b.step line).body with ⟨p, hrun⟩ | ⟨accepted, line', more, b', output, fault, rfl,
        hrun, hfault'⟩
      · exact Or.inl ⟨_, Body.run_cons_eq_ok_iff.2 ⟨hfault, p, hrun, rfl⟩⟩
      · exact Or.inr ⟨line :: accepted, line', more, b', _, fault, rfl,
          Body.run_cons_eq_ok_iff.2 ⟨hfault, _, hrun, rfl⟩, hfault'⟩

/-- A body has items, whatever lines follow the header. -/
theorem exists_bodyItems {b : Body maxOrder} (hphase : b.phase = .epoch) (n : ℕ)
    (lines : List Text) : ∃ ls e, b.Items n lines ls e := by
  rcases run_or_refused b lines with ⟨⟨b', output⟩, hrun⟩ | ⟨accepted, line, more, b', output,
    fault, rfl, hrun, hfault⟩
  · by_cases hfinish : b'.finish = .ok ()
    · exact ⟨_, _, .whole hrun hfinish⟩
    · -- Before any line the content may end.
      rcases lines.eq_nil_or_concat with rfl | ⟨accepted, last, rfl⟩
      · cases hrun
        exact absurd (by simp only [Body.finish, hphase]) hfinish
      · rw [List.concat_eq_append] at hrun ⊢
        refine ⟨_, _, .truncated hrun ?_⟩
        rw [Body.finish_eq_ok_iff] at hfinish
        exact Body.finish_eq_truncated_iff.2 hfinish
  · exact ⟨_, _, .refused hrun hfault⟩

/-- The lines of every file have items. -/
theorem exists_items (hM : 3 ≤ maxOrder) {head : List Text} {h : Header}
    (hread : Header.Reads head h) (rest : List Text) :
    ∃ ls e, Items maxOrder (head ++ rest) ls e := by
  induction rest generalizing head h with
  | nil => exact ⟨_, _, by rw [List.append_nil]; exact .endless hread⟩
  | cons line rest ih =>
    cases hresult : (h.parseLine line).result with
    | error e => exact ⟨_, _, .refused hread hresult⟩
    | ok forwarded =>
      cases hcomplete : (h.parseLine line).state.complete with
      | false =>
        obtain ⟨ls, e, hitems⟩ := ih (.line hread hresult hcomplete)
        rw [List.append_assoc] at hitems
        exact ⟨ls, e, hitems⟩
      | true =>
        cases hlayout : (h.parseLine line).state.layout with
        | error e => exact ⟨_, _, .unusable hread hresult hcomplete hlayout⟩
        | ok layout =>
          -- A layout of a header can be opened when the order of its columns is supported.
          obtain ⟨b, hbody⟩ := Header.exists_body_of_layout hM hlayout
          have hphase : b.phase = .epoch := by
            obtain ⟨-, clock, -, rfl⟩ := Body.ofLayout_eq_ok hbody
            rfl
          obtain ⟨ls, e, hitems⟩ := exists_bodyItems hphase (head.length + 1) rest
          exact ⟨_, e, .body hread hresult hcomplete hlayout hbody hitems⟩

/-- The items that the stream of a UTF-8 file gives one after the other, up to the first error or
the end, are those of the lines of the file. -/
theorem yields_iff_items (hM : 3 ≤ maxOrder) (t : Text) :
    (∃ ls e, Yields (ofFile maxOrder (SourceLine.ofBytes (Text.encode t))) ls e) ∧
      ∀ ls e, Yields (ofFile maxOrder (SourceLine.ofBytes (Text.encode t))) ls e ↔
        Items maxOrder (Text.lines t) ls e := by
  rw [SourceLine.ofBytes_encode]
  obtain ⟨ls, e, hitems⟩ := exists_items hM .start (Text.lines t)
  refine ⟨⟨ls, e, hitems.yields⟩, fun ls' e' => ⟨fun h => ?_, Items.yields⟩⟩
  obtain ⟨rfl, rfl⟩ := hitems.yields.unique h
  exact hitems

/-- A file that ends before the clock line of its first epoch. -/
theorem yields_iff_items_truncated :
    ∃ t, 3 ≤ 5 ∧ Text.lines t =
        ["3.0                 COMPACT RINEX FORMAT                    CRINEX VERS   / TYPE".toList,
          "RNX2CRX ver.4.0.7                       02-Jan-21 00:01     CRINEX PROG / DATE".toList,
          "G    1 C1C                                                  SYS / # / OBS TYPES".toList,
          "                                                            END OF HEADER".toList,
          "> 2021 01 01 00 00 00.0000000  0  1      G01".toList] ∧
      Items 5 (Text.lines t)
        ["G    1 C1C                                                  SYS / # / OBS TYPES".toList,
          "                                                            END OF HEADER".toList]
        (some (.body 5 "> 2021 01 01 00 00 00.0000000  0  1      G01".toList .truncated)) := by
  obtain ⟨t, ht⟩ : ∃ t, Text.lines t =
      ["3.0                 COMPACT RINEX FORMAT                    CRINEX VERS   / TYPE".toList,
        "RNX2CRX ver.4.0.7                       02-Jan-21 00:01     CRINEX PROG / DATE".toList,
        "G    1 C1C                                                  SYS / # / OBS TYPES".toList,
        "                                                            END OF HEADER".toList,
        "> 2021 01 01 00 00 00.0000000  0  1      G01".toList] :=
    ⟨Text.unlines
      ["3.0                 COMPACT RINEX FORMAT                    CRINEX VERS   / TYPE".toList,
        "RNX2CRX ver.4.0.7                       02-Jan-21 00:01     CRINEX PROG / DATE".toList,
        "G    1 C1C                                                  SYS / # / OBS TYPES".toList,
        "                                                            END OF HEADER".toList,
        "> 2021 01 01 00 00 00.0000000  0  1      G01".toList], by decide +kernel⟩
  -- The file ends after its first epoch line, and the last line is reported.
  have hyields := yields_drain (ofFile 5 (SourceLine.ofText t))
  obtain ⟨hlines, herror⟩ : (ofFile 5 (SourceLine.ofText t)).drain.lines =
      ["G    1 C1C                                                  SYS / # / OBS TYPES".toList,
        "                                                            END OF HEADER".toList] ∧
      (ofFile 5 (SourceLine.ofText t)).drain.error =
        some (.body 5 "> 2021 01 01 00 00 00.0000000  0  1      G01".toList .truncated) := by
    rw [SourceLine.ofText, ht]
    decide +kernel
  rw [hlines, herror, ← SourceLine.ofBytes_encode] at hyields
  exact ⟨t, by decide, ht, ((yields_iff_items (by decide) t).2 _ _).1 hyields⟩

end Stream

end CompactRinex
