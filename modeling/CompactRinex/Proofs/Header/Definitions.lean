import CompactRinex.Proofs.Body.Epochs

/-!
# Definitions of observables

A line of a header starts a definition, goes on with the one before it, ends the header, or says
nothing about observables (`Remark`). What a header knows after some lines can be read off these
lines alone: a constellation has its last definition, with the codes of all lines up to the next
definition (`lastDefinition`, `get?_readUpdates`). A layout that takes the definitions over gets as
many columns of the usual form as there are codes, for these constellations and no others, and in
whatever order it meets them (`updateLayout_cases`). Only which of several inconsistent definitions
is reported depends on that order.
-/

namespace CompactRinex

/-! ## Tables -/

namespace Table

variable {κ α : Type} [DecidableEq κ]

/-- The later value counts. -/
theorem put_put (k : κ) (a b : α) (l : List (κ × α)) : put k b (put k a l) = put k b l := by
  induction l with
  | nil => simp [put]
  | cons p l ih =>
    obtain ⟨q, c⟩ := p
    by_cases hq : q = k
    · simp [put, hq]
    · simp [put, hq, ih]

/-- The second of two insertions at a key counts. -/
theorem insert_insert (t : Table κ α) (k : κ) (a b : α) :
    (t.insert k a).insert k b = t.insert k b := by
  simp only [insert, put_put]

/-- Pairs without a key do not show it. -/
theorem find_eq_none {k : κ} {l : List (κ × α)} (h : k ∉ l.map Prod.fst) : find k l = none := by
  induction l with
  | nil => rfl
  | cons p l ih =>
    obtain ⟨hp, hl⟩ := not_or.1 (List.mem_cons.not.1 h)
    rw [find, if_neg fun hk => hp hk.symm, ih hl]

/-- A table is empty if it shows nothing. -/
theorem isEmpty_iff (t : Table κ α) : t.isEmpty = true ↔ ∀ k, t.get? k = none := by
  obtain ⟨entries, hnodup⟩ := t
  cases entries with
  | nil => exact ⟨fun _ _ => rfl, fun _ => rfl⟩
  | cons p rest =>
    refine ⟨nofun, fun h => ?_⟩
    have hfirst := h p.1
    simp only [get?, find, if_true] at hfirst
    cases hfirst

/-- The pairs that are met on a walk show what the table shows. -/
theorem find_along (t : Table κ α) (walk : Walk (κ × α)) (k : κ) :
    find k (t.along walk) = t.get? k := by
  -- The walk is a table of its own, with the same pairs.
  have hmem := (⟨t.along walk, t.nodup_along walk⟩ : Table κ α).mem_entries_iff k
  simp only [mem_along, mem_entries_iff] at hmem
  exact Option.ext fun a => (hmem a).symm

end Table

/-! ## Remarks -/

/-- What a line of a header says about observables. -/
inductive Remark where
  /-- A definition starts, with a number of observables and the codes of the first of them. -/
  | defines (c : Constellation) (declared : ℕ) (codes : List Text)
  /-- The definition before goes on. -/
  | continues (codes : List Text)
  /-- The header ends, and with it the definition. -/
  | ends
  /-- Nothing. -/
  | other

namespace Remark

/-- The remark of a line that names one constellation, or none if it continues a definition. -/
def ofTypes (c : Option Constellation) (count codes : Text) : Remark :=
  match c with
  | none => continues (Text.words codes)
  | some c =>
    (Numeral.readCount (Text.trim count)).elim other fun n => defines c n (Text.words codes)

/-- The remark of a line for all constellations. -/
def ofSharedTypes (content : Text) : Remark :=
  let count := Text.trim (content.take 6)
  ofTypes (if count.isEmpty then none else some .mixed) count (content.drop 6)

/-- The remark of a line for one constellation. -/
def ofSystemTypes (content : Text) : Remark :=
  let system := Text.trim (content.take 1)
  if system.isEmpty then ofTypes none [] (content.drop 7)
  else match Header.systemOf system with
    | .error _ => other
    | .ok c => ofTypes (some c) ((content.drop 3).take 3) (content.drop 7)

/-- What a line says, if it is accepted. -/
def ofLine (line : Text) : Remark :=
  let content := line.take 60
  let label := Text.trim (line.drop 60)
  if !Text.isAscii line || line.length < 60 then other
  else if label = "# / TYPES OF OBSERV".toList then ofSharedTypes content
  else if label = "SYS / # / OBS TYPES".toList then ofSystemTypes content
  else if label = "END OF HEADER".toList then ends
  else other

/-- The codes by which later lines continue a definition. -/
def continuation : List Remark → List Text
  | continues codes :: rest => codes ++ continuation rest
  | other :: rest => continuation rest
  | defines _ _ _ :: _ | ends :: _ | [] => []

/-- The last definition of a constellation, with the codes of its continuation lines. -/
def lastDefinition (c : Constellation) : List Remark → Option Definition
  | defines c' declared codes :: rest =>
    (lastDefinition c rest).or
      (if c' = c then some ⟨declared, codes ++ continuation rest⟩ else none)
  | _ :: rest => lastDefinition c rest
  | [] => none

end Remark

namespace Header

/-- The header after a remark, as far as observables are concerned. -/
def note (h : Header) : Remark → Header
  | .defines c declared codes =>
    { h with definitions := h.definitions.insert c ⟨declared, codes⟩, pending := some c }
  | .continues codes =>
    match h.pending with
    | none => h
    | some c =>
      match h.definitions.get? c with
      | none => h
      | some d =>
        { h with definitions := h.definitions.insert c { d with codes := d.codes ++ codes } }
  | .ends => { h with pending := none }
  | .other => h

/-- Two headers say the same about observables. -/
def Agrees (h h' : Header) : Prop := h.definitions = h'.definitions ∧ h.pending = h'.pending

/-- A definition is noted with the codes of its first line. -/
theorem agrees_define {h : Header} {c : Constellation} {count codes : Text}
    (hresult : (h.define c count codes).result = .ok ()) :
    (h.define c count codes).state.Agrees (h.note (.ofTypes (some c) count codes)) := by
  unfold define declare at hresult ⊢
  unfold Remark.ofTypes
  cases hcount : Numeral.readCount (Text.trim count) with
  | none => rw [hcount] at hresult; cases hresult
  | some n =>
    -- The definition is put in without codes first, and then with those of the line.
    simp only [Outcome.ok, collect, Table.get?_insert, if_true, List.nil_append,
      Table.insert_insert]
    exact ⟨rfl, rfl⟩

/-- The revision line says nothing about observables. -/
theorem agrees_readRevision (h : Header) (content : Text) :
    (h.readRevision content).state.Agrees h := by
  unfold readRevision
  dsimp only
  split
  · exact ⟨rfl, rfl⟩
  · split
    · exact ⟨rfl, rfl⟩
    · split
      · exact ⟨rfl, rfl⟩
      · split <;> exact ⟨rfl, rfl⟩

/-- The reader does what the remark says. -/
theorem agrees_readSharedTypes {h : Header} {content : Text}
    (hresult : (h.readSharedTypes content).result = .ok ()) :
    (h.readSharedTypes content).state.Agrees (h.note (.ofSharedTypes content)) := by
  unfold readSharedTypes at hresult ⊢
  unfold Remark.ofSharedTypes
  dsimp only at hresult ⊢
  split
  · exact ⟨rfl, rfl⟩
  · next hcount =>
    rw [if_neg hcount] at hresult
    exact agrees_define hresult

/-- So it does with the definition of one system. -/
theorem agrees_readSystemTypes {h : Header} {content : Text}
    (hresult : (h.readSystemTypes content).result = .ok ()) :
    (h.readSystemTypes content).state.Agrees (h.note (.ofSystemTypes content)) := by
  unfold readSystemTypes at hresult ⊢
  unfold Remark.ofSystemTypes
  dsimp only at hresult ⊢
  split
  · exact ⟨rfl, rfl⟩
  · next hsystem =>
    rw [if_neg hsystem] at hresult
    cases hletter : systemOf (Text.trim (content.take 1)) with
    | error e => rw [hletter] at hresult; cases hresult
    | ok c =>
      rw [hletter] at hresult
      exact agrees_define hresult

/-- An accepted line is noted for what it says. -/
theorem agrees_readLine {h : Header} {line : Text} (hresult : (h.readLine line).result = .ok ()) :
    (h.readLine line).state.Agrees (h.note (.ofLine line)) := by
  unfold readLine at hresult ⊢
  unfold Remark.ofLine
  dsimp only at hresult ⊢
  generalize Text.trim (line.drop 60) = label at hresult ⊢
  split
  · exact ⟨rfl, rfl⟩
  · next hread =>
    rw [if_neg hread] at hresult
    by_cases hrevision : label = "RINEX VERSION / TYPE".toList
    · -- The label of the revision is none of those that matter.
      subst hrevision
      exact h.agrees_readRevision _
    · rw [if_neg hrevision] at hresult ⊢
      split
      · next hshared =>
        rw [if_pos hshared] at hresult
        exact agrees_readSharedTypes hresult
      · next hshared =>
        rw [if_neg hshared] at hresult
        split
        · next hsystem =>
          rw [if_pos hsystem] at hresult
          exact agrees_readSystemTypes hresult
        · split <;> exact ⟨rfl, rfl⟩

/-- The definition of a constellation when the header goes on with these codes. -/
def extended (h : Header) (c : Constellation) (codes : List Text) : Option Definition :=
  if h.pending = some c then
    (h.definitions.get? c).map fun d => { d with codes := d.codes ++ codes }
  else h.definitions.get? c

/-- Headers that agree have the same definitions, whatever follows. -/
theorem Agrees.extended_eq {h h' : Header} (hagrees : h.Agrees h') (c : Constellation)
    (codes : List Text) : h.extended c codes = h'.extended c codes := by
  simp only [extended, hagrees.1, hagrees.2]

/-- Nothing follows. -/
theorem extended_nil (h : Header) (c : Constellation) : h.extended c [] = h.definitions.get? c := by
  unfold extended
  split
  · cases h.definitions.get? c with
    | none => rfl
    | some d => simp
  · rfl

/-- The codes of a continuation line are added. -/
theorem extended_note_continues (h : Header) (c : Constellation) (codes rest : List Text) :
    (h.note (.continues codes)).extended c rest = h.extended c (codes ++ rest) := by
  -- The codes belong to the pending definition. Without one the header stays as it is.
  cases hpending : h.pending with
  | none =>
    have hnote : h.note (.continues codes) = h := by simp only [note, hpending]
    rw [hnote]
    simp [extended, hpending]
  | some c' =>
    cases hd : h.definitions.get? c' with
    | none =>
      have hnote : h.note (.continues codes) = h := by simp only [note, hpending, hd]
      rw [hnote]
      by_cases hc : c' = c
      · subst hc
        simp [extended, hpending, hd]
      · simp [extended, hpending, hc]
    | some d =>
      have hnote : h.note (.continues codes) = { h with
          definitions := h.definitions.insert c' { d with codes := d.codes ++ codes } } := by
        simp only [note, hpending, hd]
      rw [hnote]
      by_cases hc : c' = c
      · subst hc
        simp [extended, hpending, hd, Table.get?_insert]
      · have hc' : c ≠ c' := fun h => hc h.symm
        simp [extended, hpending, hc, hc', Table.get?_insert]

/-- A remark is part of the last definition, of its continuation, or of neither. -/
theorem extended_note (h : Header) (c : Constellation) (remark : Remark) (rest : List Remark) :
    (Remark.lastDefinition c rest).or ((h.note remark).extended c (Remark.continuation rest)) =
      (Remark.lastDefinition c (remark :: rest)).or
        (h.extended c (Remark.continuation (remark :: rest))) := by
  cases remark with
  | defines c' declared codes =>
    -- No code goes on to the definition before, and the new one takes the place of an earlier one
    -- of its constellation.
    simp only [Remark.lastDefinition, Remark.continuation, Option.or_assoc, extended_nil]
    congr 1
    by_cases hc : c' = c
    · subst hc
      simp [extended, note, Table.get?_insert]
    · have hc' : c ≠ c' := fun h => hc h.symm
      simp [extended, note, Table.get?_insert, hc, hc']
  | continues codes =>
    simp only [Remark.lastDefinition, Remark.continuation, extended_note_continues]
  | ends =>
    -- Codes that come later belong to nothing.
    simp only [Remark.lastDefinition, Remark.continuation, extended_nil]
    simp [extended, note]
  | other => rfl

/-- What a header knows after some lines: the last definition among them, or the one from before
with the codes that follow it. -/
theorem get?_readUpdates {h : Header} {update : Option Header} {records : List Text}
    (hread : records.foldlM (fun update line => Body.readUpdate line update) (some h) =
      .ok update) :
    ∃ h', update = some h' ∧ ∀ c, h'.definitions.get? c =
      (Remark.lastDefinition c (records.map .ofLine)).or
        (h.extended c (Remark.continuation (records.map .ofLine))) := by
  -- From the first line on: what it says moves from the lines into the header, which is why the
  -- header to start with is any.
  induction records generalizing h with
  | nil =>
    cases hread
    exact ⟨h, rfl, fun c => (h.extended_nil c).symm⟩
  | cons line records ih =>
    rw [List.foldlM_cons] at hread
    obtain ⟨update', hfirst, hrest⟩ := bind_eq_ok_iff.1 hread
    simp only [Body.readUpdate] at hfirst
    split at hfirst
    · next hresult =>
      cases hfirst
      obtain ⟨h', rfl, hget⟩ := ih hrest
      refine ⟨h', rfl, fun c => ?_⟩
      rw [hget, (agrees_readLine hresult).extended_eq]
      exact h.extended_note c _ _
    · cases hfirst

/-- The definitions that are applied are consistent, and each declares its columns. -/
theorem get?_applyDefinitions {definitions : List (Constellation × Definition)}
    (hnodup : (definitions.map Prod.fst).Nodup) {layout layout' : Layout}
    (h : applyDefinitions layout definitions = .ok layout') :
    layout'.defaultConstellation = layout.defaultConstellation ∧
      (∀ c d, (c, d) ∈ definitions → d.declared = d.codes.length) ∧
      ∀ c, layout'.columns.get? c = ((Table.find c definitions).map fun d =>
        List.replicate d.codes.length Column.observation).or (layout.columns.get? c) := by
  induction definitions generalizing layout with
  | nil => cases h; exact ⟨rfl, nofun, fun c => rfl⟩
  | cons p rest ih =>
    obtain ⟨c₀, d₀⟩ := p
    rw [List.map_cons, List.nodup_cons] at hnodup
    simp only [applyDefinitions] at h
    split at h
    · next hdeclared =>
      obtain ⟨hdefault, hrest, hget⟩ := ih hnodup.2 h
      refine ⟨hdefault, ?_, fun c => ?_⟩
      · intro c d hmem
        rcases List.mem_cons.1 hmem with heq | hmem
        · cases heq
          exact hdeclared
        · exact hrest c d hmem
      · rw [hget]
        simp only [Layout.withObservables, Layout.columns_withColumns, Table.get?_insert,
          Table.find]
        by_cases hc : c₀ = c
        · -- No other definition is of the same constellation.
          subst hc
          rw [Table.find_eq_none hnodup.1]
          simp
        · have hc' : c ≠ c₀ := fun h => hc h.symm
          simp [hc, hc']
    · cases h

/-- Definitions can be applied, or one of them states another number than it has codes. -/
theorem applyDefinitions_cases (layout : Layout)
    (definitions : List (Constellation × Definition)) :
    (∃ layout', applyDefinitions layout definitions = .ok layout') ∨
      ∃ c d, (c, d) ∈ definitions ∧ d.declared ≠ d.codes.length ∧
        applyDefinitions layout definitions = .error (.badObservables c) := by
  induction definitions generalizing layout with
  | nil => exact Or.inl ⟨layout, rfl⟩
  | cons p rest ih =>
    obtain ⟨c, d⟩ := p
    -- The first definition with another number of codes ends the walk.
    by_cases hdeclared : d.declared = d.codes.length
    · simp only [applyDefinitions, hdeclared, if_true]
      rcases ih (layout.withObservables c d.codes.length) with hok | ⟨c', d', hmem, hne, herror⟩
      · exact Or.inl hok
      · exact Or.inr ⟨c', d', List.mem_cons_of_mem _ hmem, hne, herror⟩
    · refine Or.inr ⟨c, d, List.mem_cons_self, hdeclared, ?_⟩
      simp only [applyDefinitions, hdeclared, if_false]

/-- Which definition is reported does not depend on the layout. -/
theorem applyDefinitions_eq_error {definitions : List (Constellation × Definition)}
    {layout : Layout} {e : HeaderError} (h : applyDefinitions layout definitions = .error e)
    (layout' : Layout) : applyDefinitions layout' definitions = .error e := by
  induction definitions generalizing layout layout' with
  | nil => cases h
  | cons p rest ih =>
    obtain ⟨c, d⟩ := p
    -- Whether a definition is accepted does not depend on the layout.
    simp only [applyDefinitions] at h ⊢
    split at h
    · next hdeclared =>
      rw [if_pos hdeclared]
      exact ih h _
    · next hdeclared =>
      rw [if_neg hdeclared]
      exact h

/-- The definitions of a header are all consistent, and then the layout takes them over, or one that
is not is reported. Only which one it is depends on the walk. -/
theorem updateLayout_cases (h : Header) (walk : Walk (Constellation × Definition))
    (layout : Layout) :
    (∃ layout', h.updateLayout walk layout = .ok layout' ∧
      (∀ c d, h.definitions.get? c = some d → d.declared = d.codes.length) ∧
      layout'.revision = layout.revision ∧
      layout'.defaultConstellation = layout.defaultConstellation ∧
      layout'.clock = layout.clock ∧
      ∀ c, layout'.columns.get? c = ((h.definitions.get? c).map fun d =>
        List.replicate d.codes.length Column.observation).or (layout.columns.get? c)) ∨
      ∃ c d, h.definitions.get? c = some d ∧ d.declared ≠ d.codes.length ∧
        h.updateLayout walk layout = .error (.badObservables c) := by
  -- Whatever the walk, it meets the definitions of the table and no others.
  have hmem : ∀ c d, (c, d) ∈ h.definitions.along walk ↔ h.definitions.get? c = some d :=
    fun c d => Table.mem_along.trans (h.definitions.mem_entries_iff c d)
  rcases applyDefinitions_cases layout (h.definitions.along walk) with ⟨layout', hok⟩ |
    ⟨c, d, hd, hbad, herror⟩
  · obtain ⟨hrevision, hclock, -⟩ := of_applyDefinitions hok
    obtain ⟨hdefault, hconsistent, hcolumns⟩ :=
      get?_applyDefinitions (h.definitions.nodup_along walk) hok
    refine Or.inl ⟨layout', hok, fun c d hd => hconsistent c d ((hmem c d).2 hd), hrevision,
      hdefault, hclock, fun c => ?_⟩
    rw [hcolumns, Table.find_along]
  · exact Or.inr ⟨c, d, (hmem c d).1 hd, hbad, herror⟩

end Header

end CompactRinex
