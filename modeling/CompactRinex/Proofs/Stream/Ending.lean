import CompactRinex.Proofs.Header.Reading
import CompactRinex.Stream

/-!
# How a stream ends

Once a stream has given an error it takes in no further line. There is one way only in which an item
can follow: the last line of the header is queued before the layout of the header is made, so if
there is none, or no body can be started with it, the line is still given after the error
(`Stream.Reachable.after_error`). After the end there is nothing (`Stream.next_after_end`).
-/

namespace CompactRinex

variable {maxOrder : ℕ}

namespace Reader

/-- As long as lines are taken in, a header that is complete has its body. -/
def Opened (r : Reader maxOrder) : Prop :=
  r.done = false → r.body = none → r.header.complete = false

/-- The header is complete, but no body could be started with it. -/
def Unusable (r : Reader maxOrder) : Prop := r.header.complete = true ∧ r.body = none

/-- A reader that has ended is opened. -/
theorem opened_of_done {r : Reader maxOrder} (h : r.done = true) : r.Opened :=
  fun hdone => absurd (hdone.symm.trans h) Bool.false_ne_true

/-- A reader that is opened does not wait for a layout. -/
theorem Opened.not_unusable {r : Reader maxOrder} (h : r.Opened) (hdone : r.done = false) :
    ¬r.Unusable :=
  fun ⟨hcomplete, hbody⟩ => absurd ((h hdone hbody).symm.trans hcomplete) Bool.false_ne_true

/-- A line of the header that is accepted starts the body if it is the last one. A line that is
refused is not queued, unless it is the last one and no body can be started. -/
theorem takeHeader_cases {r : Reader maxOrder} (hcomplete : r.header.complete = false)
    (hbody : r.body = none) (hpending : r.pending = []) (line : Text) :
    ((r.takeHeader line).result = .ok () ∧ ((r.takeHeader line).state.body = none →
      (r.takeHeader line).state.header.complete = false)) ∨
    ∃ e, (r.takeHeader line).result = .error e ∧
      ((¬(r.takeHeader line).state.Unusable ∧ (r.takeHeader line).state.pending = []) ∨
        ((r.takeHeader line).state.Unusable ∧ (r.takeHeader line).state.pending = [line])) := by
  have hparses := Header.parsesLine_parseLine hcomplete line
  unfold takeHeader
  dsimp only
  cases hresult : (r.header.parseLine line).result with
  | error e =>
    refine Or.inr ⟨_, rfl, Or.inl ⟨fun h => ?_, hpending⟩⟩
    exact absurd ((Header.complete_parseLine_of_error hcomplete hresult).symm.trans h.1)
      Bool.false_ne_true
  | ok forwarded =>
    dsimp only
    split
    · next hlast =>
      -- The last line of the header is queued.
      obtain rfl : forwarded = true :=
        Except.ok.inj (hresult.symm.trans (hparses.of_complete hlast).1)
      rw [hpending]
      unfold openBody
      dsimp only
      split
      · exact Or.inr ⟨_, rfl, Or.inr ⟨⟨hlast, hbody⟩, rfl⟩⟩
      · split
        · exact Or.inr ⟨_, rfl, Or.inr ⟨⟨hlast, hbody⟩, rfl⟩⟩
        · exact Or.inl ⟨rfl, nofun⟩
    · next hmore => exact Or.inl ⟨rfl, fun _ => Bool.eq_false_iff.2 hmore⟩

/-- A line is not queued when it is refused, unless it is the last one of a header for which no body
can be started. -/
theorem take_cases {r : Reader maxOrder} (hopened : r.Opened) (hdone : r.done = false)
    (hpending : r.pending = []) (line : Text) :
    ((r.take line).result = .ok () ∧ (r.take line).state.Opened) ∨
    ∃ e, (r.take line).result = .error e ∧
      ((¬(r.take line).state.Unusable ∧ (r.take line).state.pending = []) ∨
        ((r.take line).state.Unusable ∧ (r.take line).state.pending = [line])) := by
  unfold take
  dsimp only
  split
  · next hbody =>
    rcases takeHeader_cases (r := { r with lineCount := r.lineCount + 1 }) (hopened hdone hbody)
      hbody hpending line with ⟨hresult, h⟩ | hrefused
    · exact Or.inl ⟨hresult, fun _ => h⟩
    · exact Or.inr hrefused
  · next b hbody =>
    unfold takeBody
    dsimp only
    split
    · -- The body has been opened, so no line of the header is waiting any more.
      exact Or.inr ⟨_, rfl, Or.inl ⟨fun h => (nomatch h.2), hpending⟩⟩
    · exact Or.inl ⟨rfl, nofun⟩

end Reader

namespace Stream

/-! ## One item -/

/-- A queued line is given out first. -/
theorem pull_queued (source : List SourceLine) {r : Reader maxOrder} {line : Text}
    {rest : List Text} (hpending : r.pending = line :: rest) :
    pull source r = (some (.ok line), ⟨source, { r with pending := rest }⟩) := by
  rw [pull.eq_def, hpending]

/-- A reader that has ended gives nothing out. -/
theorem pull_of_done (source : List SourceLine) {r : Reader maxOrder} (hpending : r.pending = [])
    (hdone : r.done = true) : pull source r = (none, ⟨source, r⟩) := by
  rw [pull.eq_def, hpending]
  exact if_pos hdone

/-- What asking for an item leads to. -/
inductive Pulled (source : List SourceLine) :
    Option (Except StreamError Text) × Stream maxOrder → Prop where
  /-- A recovered line. -/
  | line {line : Text} {s : Stream maxOrder} (hopened : s.reader.Opened) :
      Pulled source (some (.ok line), s)
  /-- The end. -/
  | ended {s : Stream maxOrder} (hdone : s.reader.done = true) (hpending : s.reader.pending = []) :
      Pulled source (none, s)
  /-- An error after which nothing is queued. -/
  | failed {e : StreamError} {s : Stream maxOrder} (hdone : s.reader.done = true)
      (husable : ¬s.reader.Unusable) (hpending : s.reader.pending = []) :
      Pulled source (some (.error e), s)
  /-- The error of a header for which no body can be started, whose last line is queued. -/
  | unusable {e : StreamError} {s : Stream maxOrder} (consumed : List SourceLine) {line : Text}
      (hdone : s.reader.done = true) (hunusable : s.reader.Unusable)
      (hsource : source = consumed ++ .ok line :: s.source) (hpending : s.reader.pending = [line]) :
      Pulled source (some (.error e), s)

/-- A line more at the start of the source does not matter. -/
theorem Pulled.cons {source : List SourceLine}
    {p : Option (Except StreamError Text) × Stream maxOrder} (h : Pulled source p)
    (l : SourceLine) : Pulled (l :: source) p := by
  cases h with
  | line hopened => exact .line hopened
  | ended hdone hpending => exact .ended hdone hpending
  | failed hdone husable hpending => exact .failed hdone husable hpending
  | unusable consumed hdone hunusable hsource hpending =>
    exact .unusable (l :: consumed) hdone hunusable (by rw [hsource]; rfl) hpending

/-- Asking for an item leads to one of these. -/
theorem pulled_pull (source : List SourceLine) {r : Reader maxOrder} (hopened : r.Opened) :
    Pulled source (pull source r) := by
  induction source generalizing r with
  | nil =>
    unfold pull
    split
    · exact .line hopened
    · next hpending =>
      split
      · next hdone => exact .ended hdone hpending
      · next hdone =>
        have hdone := Bool.eq_false_iff.2 hdone
        dsimp only
        cases r.finish with
        | ok u => exact .ended rfl hpending
        | error e => exact .failed rfl (hopened.not_unusable hdone) hpending
  | cons l source ih =>
    unfold pull
    split
    · exact .line hopened
    · next hpending =>
      split
      · next hdone => exact .ended hdone hpending
      · next hdone =>
        have hdone := Bool.eq_false_iff.2 hdone
        cases l with
        | error fault => exact .failed rfl (hopened.not_unusable hdone) hpending
        | ok line =>
          -- An accepted line leads to the rest, a refused one is what has been asked for.
          rcases Reader.take_cases hopened hdone hpending line with
            ⟨hresult, hopened'⟩ | ⟨e, hresult, ⟨husable, hpending'⟩ | ⟨hunusable, hpending'⟩⟩
          · simp only [hresult]
            exact (ih hopened').cons _
          · simp only [hresult]
            exact .failed rfl husable hpending'
          · simp only [hresult]
            exact .unusable [] rfl hunusable rfl hpending'

/-- So does asking a stream for the next item. -/
theorem pulled_next (s : Stream maxOrder) (hopened : s.reader.Opened) :
    Pulled s.source s.next := pulled_pull s.source hopened

/-! ## All items -/

/-- The stream after so many more items have been asked for. -/
def after (s : Stream maxOrder) : ℕ → Stream maxOrder
  | 0 => s
  | n + 1 => s.next.2.after n

/-- A stream of a file or of a body alone, of which some items may have been asked for. -/
inductive Reachable : Stream maxOrder → Prop where
  /-- The stream of a whole file. -/
  | file (source : List SourceLine) : Reachable (ofFile maxOrder source)
  /-- The stream of a body alone. -/
  | body {source : List SourceLine} {layout : Layout} {s : Stream maxOrder}
      (h : ofBody maxOrder source layout = .ok s) : Reachable s
  /-- The stream after one more item has been asked for. -/
  | next {s : Stream maxOrder} (h : Reachable s) : Reachable s.next.2

/-- Every reachable stream is opened. -/
theorem Reachable.opened {s : Stream maxOrder} (h : Reachable s) : s.reader.Opened := by
  induction h with
  | file source => exact fun _ _ => rfl
  | body h =>
    unfold ofBody at h
    split at h
    · cases h
    · cases h
      exact nofun
  | @next s _ ih =>
    -- Only an item that is handed out leaves the reader as it was, all others close it.
    have hpulled := s.pulled_next ih
    generalize s.next = p at hpulled ⊢
    cases hpulled with
    | line hopened => exact hopened
    | ended hdone => exact Reader.opened_of_done hdone
    | failed hdone => exact Reader.opened_of_done hdone
    | unusable _ hdone => exact Reader.opened_of_done hdone

/-- A stream that takes in no further line gives what is queued, and then nothing. -/
theorem next_after_done {s : Stream maxOrder} (hdone : s.reader.done = true) (n : ℕ) :
    (s.after n).next.1 = s.reader.pending[n]?.map .ok := by
  induction n generalizing s with
  | zero =>
    simp only [after, next]
    -- The queue is served before the mark is looked at.
    cases hpending : s.reader.pending with
    | nil => rw [pull_of_done _ hpending hdone]; rfl
    | cons line rest => rw [pull_queued _ hpending]; rfl
  | succ n ih =>
    rw [after, ih]
    · simp only [next]
      cases hpending : s.reader.pending with
      | nil => rw [pull_of_done _ hpending hdone, hpending]; rfl
      | cons line rest => rw [pull_queued _ hpending]; rfl
    · simp only [next]
      cases hpending : s.reader.pending with
      | nil => rw [pull_of_done _ hpending hdone]; exact hdone
      | cons line rest => rw [pull_queued _ hpending]; exact hdone

/-- Nothing follows the end. -/
theorem next_after_end {s s' : Stream maxOrder} (h : Reachable s) (hnext : s.next = (none, s'))
    (n : ℕ) : (s'.after n).next.1 = none := by
  have hpulled := s.pulled_next h.opened
  rw [hnext] at hpulled
  cases hpulled with
  | ended hdone hpending => rw [next_after_done hdone, hpending]; rfl

/-- Nothing follows an error, unless the header was complete and no body could be started with it:
its last line follows then, and after that nothing. -/
theorem Reachable.after_error {s s' : Stream maxOrder} (h : Reachable s) {e : StreamError}
    (hnext : s.next = (some (.error e), s')) :
    ((∀ n, (s'.after n).next.1 = none) ↔ ¬s'.reader.Unusable) ∧
      (s'.reader.Unusable → ∃ consumed line, s.source = consumed ++ .ok line :: s'.source ∧
        s'.next.1 = some (.ok line) ∧ ∀ n, (s'.after (n + 1)).next.1 = none) := by
  have hpulled := s.pulled_next h.opened
  rw [hnext] at hpulled
  cases hpulled with
  | failed hdone husable hpending =>
    refine ⟨iff_of_true (fun n => ?_) husable, fun hunusable => absurd hunusable husable⟩
    rw [next_after_done hdone, hpending]
    rfl
  | @unusable _ _ consumed line hdone hunusable hsource hpending =>
    -- What follows the error is the queue, which holds the last line of the header.
    have hitems : ∀ n, (s'.after n).next.1 = [line][n]?.map .ok := fun n => by
      rw [next_after_done hdone, hpending]
    refine ⟨iff_of_false (fun hnone => ?_) (fun h => h hunusable), fun _ =>
      ⟨consumed, line, hsource, hitems 0, fun n => hitems (n + 1)⟩⟩
    exact absurd ((hitems 0).symm.trans (hnone 0)) (Option.some_ne_none _)

/-- A header without observables: its last line follows the error. -/
theorem line_after_error :
    ∃ s s' : Stream 5, Reachable s ∧ s.source = List.map .ok
        ["3.0                 COMPACT RINEX FORMAT                    CRINEX VERS   / TYPE".toList,
          "RNX2CRX ver.4.0.7                       02-Jan-21 00:01     CRINEX PROG / DATE".toList,
          "                                                            END OF HEADER".toList] ∧
      s.next = (some (.error (.header .missingObservables)), s') ∧
      s'.next.1 =
        some (.ok "                                                            END OF HEADER".toList) ∧
      ¬∀ n, (s'.after n).next.1 = none := by
  refine ⟨_, _, .file _, rfl, rfl, rfl, fun hnone => ?_⟩
  exact absurd (hnone 0) (Option.some_ne_none _)

/-- A body alone whose epoch line has the marker of another revision. -/
theorem after_error_foreign :
    ∃ s s' : Stream 5, Reachable s ∧
      s.next = (some (.error (.body 1 ">".toList .foreignEpochV1)), s') ∧ ¬s'.reader.Unusable ∧
      ∀ n, (s'.after n).next.1 = none := by
  obtain ⟨s, hs⟩ : ∃ s : Stream 5,
    ofBody 5 [.ok ">".toList, .ok []] (.ofRevision .v1) = .ok s := ⟨_, rfl⟩
  have hreachable : Reachable s := .body hs
  cases hs
  refine ⟨_, _, hreachable, rfl, ?unusable, (hreachable.after_error rfl).1.2 ?unusable⟩
  case unusable => exact fun h => nomatch h.2

end Stream

end CompactRinex
