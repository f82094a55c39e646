import CompactRinex.Proofs.Header.Compression
import CompactRinex.Proofs.Header.Reading
import CompactRinex.Proofs.Header.Written

/-!
# Observables of a header

A header that has been written with definitions of observables, and with other lines between them,
gives each constellation its last definition, with all codes in order, and a layout with as many
columns as there are codes (`parse_of_isHeader`).

Every line of such a header is taken in whatever came before (`Passes`), so the header is read to
its end; what it knows then is told by the remarks of the lines (`Leads`), and the lines between the
definitions make none (`Remark.filter_other`).
-/

namespace CompactRinex

namespace Header

/-! ## Kinds of lines -/

/-- The labels of the lines that matter. -/
def specialLabels : List Text :=
  ["RINEX VERSION / TYPE".toList, "# / TYPES OF OBSERV".toList, "SYS / # / OBS TYPES".toList,
    "END OF HEADER".toList]

/-- The line is not ASCII, or ends before its label, or has another label. -/
def isSilent (line : Text) : Bool :=
  match label? line with
  | none => true
  | some label => !specialLabels.contains label

/-- The revision line of a file of observations. -/
structure IsRevisionLine (line : Text) : Prop where
  /-- The line has its label. -/
  label_eq : label? line = some "RINEX VERSION / TYPE".toList
  /-- The revision is a number. -/
  version : ∃ v, Version.parse (line.take 9) = .ok v
  /-- The file holds observations. -/
  observation : (line.drop 20).take 1 = ['O']
  /-- The letter of the constellation is blank or known. -/
  system : Text.trim ((line.drop 40).take 1) = [] ∨
    ∃ c, systemOf (Text.trim ((line.drop 40).take 1)) = .ok c

/-- The text starts with a header that was compressed like this and has these definitions, in this
order. Silent lines may stand anywhere between its lines, and the body follows. -/
def IsHeader (t : Text) (c : Compression) (definitions : List WrittenDefinition) : Prop :=
  ∃ first second revision middle last rest,
    Text.lines t = first :: second :: (middle ++ last :: rest) ∧ TakesCompression first second c ∧
    IsRevisionLine revision ∧
    (middle.filter fun line => !isSilent line) =
      revision :: definitions.flatMap WrittenDefinition.lines ∧
    label? last = some "END OF HEADER".toList

/-! ## Lines that are taken in -/

/-- A line without a label is passed over. -/
theorem readLine_of_no_label {line : Text} (h : label? line = none) (header : Header) :
    header.readLine line = .ok header () := by
  unfold label? at h
  unfold readLine
  split at h
  · next hrefused => rw [if_pos hrefused]
  · cases h

/-- The label says which reader the content is for. -/
theorem readLine_of_label {line label : Text} (h : label? line = some label) (header : Header) :
    header.readLine line =
      if label = "RINEX VERSION / TYPE".toList then header.readRevision (line.take 60)
      else if label = "# / TYPES OF OBSERV".toList then header.readSharedTypes (line.take 60)
      else if label = "SYS / # / OBS TYPES".toList then header.readSystemTypes (line.take 60)
      else if label = "END OF HEADER".toList then
        .ok { header with complete := true, pending := none } ()
      else .ok header () := by
  unfold label? at h
  unfold readLine
  split at h
  · cases h
  · next haccepted =>
    cases h
    rw [if_neg haccepted]

/-- Every header takes the line in, and goes on after it. -/
structure Passes (line : Text) : Prop where
  /-- The line is accepted. -/
  accepted : ∀ h : Header, (h.readLine line).result = .ok ()
  /-- The line is not the last one. -/
  rewrites : ∀ h : Header, h.Rewrites (h.readLine line).state

/-- A line that changes nothing passes. -/
theorem passes_of_eq_ok {line : Text} (h : ∀ header, readLine header line = .ok header ()) :
    Passes line where
  accepted header := by rw [h]; rfl
  rewrites header := by rw [h]; exact .refl header

/-- A silent line says nothing. -/
theorem of_isSilent {line : Text} (h : isSilent line = true) :
    Passes line ∧ Remark.ofLine line = .other := by
  unfold isSilent at h
  cases hlabel : label? line with
  | none => exact ⟨passes_of_eq_ok (readLine_of_no_label hlabel), ofLine_of_no_label hlabel⟩
  | some label =>
    have hspecial : label ∉ specialLabels := by simpa [hlabel] using h
    simp only [specialLabels, List.mem_cons, List.not_mem_nil, or_false, not_or] at hspecial
    -- None of the four labels is on the line.
    obtain ⟨hrevision, hshared, hsystem, hend⟩ := hspecial
    refine ⟨passes_of_eq_ok fun header => ?_, ?_⟩
    · rw [readLine_of_label hlabel, if_neg hrevision, if_neg hshared, if_neg hsystem, if_neg hend]
    · rw [ofLine_of_label hlabel, if_neg hshared, if_neg hsystem, if_neg hend]

/-- The revision line of a file of observations says nothing about observables. -/
theorem IsRevisionLine.passes {line : Text} (h : IsRevisionLine line) :
    Passes line ∧ Remark.ofLine line = .other := by
  obtain ⟨v, hversion⟩ := h.version
  have hread : ∀ header : Header, header.readLine line = header.readRevision (line.take 60) :=
    fun header => by rw [readLine_of_label h.label_eq, if_pos rfl]
  -- The fields of the line end before the label.
  have hfirst : (line.take 60).take 9 = line.take 9 := by rw [List.take_take]; rfl
  have hkind : ((line.take 60).drop 20).take 1 = ['O'] := by
    rw [List.drop_take, List.take_take]
    exact h.observation
  have hletter : ((line.take 60).drop 40).take 1 = (line.drop 40).take 1 := by
    rw [List.drop_take, List.take_take]
    rfl
  refine ⟨⟨fun header => ?_, fun header => ?_⟩, ?_⟩
  · rw [hread, readRevision, hfirst, hversion]
    dsimp only
    rw [hkind, hletter, if_neg fun hne => hne rfl]
    rcases h.system with hblank | ⟨c, hsystem⟩
    · rw [hblank]
      rfl
    · split
      · rfl
      · rw [hsystem]
        rfl
  · rw [hread]
    exact header.rewrites_readRevision _
  · rw [ofLine_of_label h.label_eq]
    rfl

/-- A definition that is noted has been accepted. -/
theorem result_define {c : Constellation} {count codes : Text}
    (h : Remark.ofTypes (some c) count codes ≠ .other) (header : Header) :
    (header.define c count codes).result = .ok () := by
  unfold Remark.ofTypes at h
  unfold define declare
  cases hcount : Numeral.readCount (Text.trim count) with
  | none => simp [hcount] at h
  | some n => rfl

/-- A definition of all systems is accepted. -/
theorem result_readSharedTypes {content : Text} (h : Remark.ofSharedTypes content ≠ .other)
    (header : Header) : (header.readSharedTypes content).result = .ok () := by
  unfold Remark.ofSharedTypes at h
  unfold readSharedTypes
  dsimp only at h ⊢
  split
  · rfl
  · next hcount =>
    rw [if_neg hcount] at h
    exact result_define h header

/-- So is a definition of one system. -/
theorem result_readSystemTypes {content : Text} (h : Remark.ofSystemTypes content ≠ .other)
    (header : Header) : (header.readSystemTypes content).result = .ok () := by
  unfold Remark.ofSystemTypes at h
  unfold readSystemTypes
  dsimp only at h ⊢
  split
  · rfl
  · next hsystem =>
    rw [if_neg hsystem] at h
    cases hletter : systemOf (Text.trim (content.take 1)) with
    | error e => simp [hletter] at h
    | ok c =>
      rw [hletter] at h
      exact result_define h header

/-- A line that says something, and does not end the header, passes. -/
theorem passes_of_remark {line : Text} (hremark : Remark.ofLine line ≠ .other)
    (hends : Remark.ofLine line ≠ .ends) : Passes line := by
  cases hlabel : label? line with
  | none => exact absurd (ofLine_of_no_label hlabel) hremark
  | some label =>
    rw [ofLine_of_label hlabel] at hremark hends
    by_cases hshared : label = "# / TYPES OF OBSERV".toList
    · subst hshared
      rw [if_pos rfl] at hremark
      have hread : ∀ header : Header, header.readLine line =
          header.readSharedTypes (line.take 60) := fun header => by
        rw [readLine_of_label hlabel, if_neg (by decide), if_pos rfl]
      exact ⟨fun header => hread header ▸ result_readSharedTypes hremark header,
        fun header => hread header ▸ header.rewrites_readSharedTypes _⟩
    · rw [if_neg hshared] at hremark hends
      -- Neither of the two labels, so the line ends the header or says nothing.
      by_cases hsystem : label = "SYS / # / OBS TYPES".toList
      · subst hsystem
        rw [if_pos rfl] at hremark
        have hread : ∀ header : Header, header.readLine line =
            header.readSystemTypes (line.take 60) := fun header => by
          rw [readLine_of_label hlabel, if_neg (by decide), if_neg hshared, if_pos rfl]
        exact ⟨fun header => hread header ▸ result_readSystemTypes hremark header,
          fun header => hread header ▸ header.rewrites_readSystemTypes _⟩
      · rw [if_neg hsystem] at hremark hends
        by_cases hend : label = "END OF HEADER".toList
        · exact absurd (if_pos hend) hends
        · exact absurd (if_neg hend) hremark

/-- The lines of a definition pass. -/
theorem passes_of_mem_lines {d : WrittenDefinition} {line : Text} (h : line ∈ d.lines) :
    Passes line := by
  have hmem := List.mem_map_of_mem (f := Remark.ofLine) h
  rw [d.remarks_lines] at hmem
  -- Each line starts the definition or continues it.
  rcases List.mem_cons.1 hmem with hfirst | hfurther
  · exact passes_of_remark (by rw [hfirst]; nofun) (by rw [hfirst]; nofun)
  · obtain ⟨codes, -, hcodes⟩ := List.mem_map.1 hfurther
    exact passes_of_remark (by rw [← hcodes]; nofun) (by rw [← hcodes]; nofun)

/-! ## The lines of a header -/

/-- The header after some lines that do not end it: what it knows is what the lines say, or what it
knew and the lines went on with. -/
structure Leads (h : Header) (lines : List Text) (h' : Header) : Prop where
  /-- The lines are accepted, and further lines are read with this header. -/
  parseLines_eq : ∀ rest, parseLines h (lines ++ rest) = parseLines h' rest
  /-- The next line is one of the recovered file. -/
  two_le : 2 ≤ h'.lineCount
  /-- The header goes on. -/
  complete_eq : h'.complete = false
  /-- The compression stays. -/
  compression_eq : h'.compression = h.compression
  /-- The last definition of each constellation counts. -/
  get?_eq : ∀ c, h'.definitions.get? c =
    (Remark.lastDefinition c (lines.map .ofLine)).or
      (h.extended c (Remark.continuation (lines.map .ofLine)))

/-- A line that passes is read, and the next line is read with the header that it leaves. -/
theorem Passes.parseLines_eq {line : Text} (hline : Passes line) {h : Header}
    (hcount : 2 ≤ h.lineCount) (hcomplete : h.complete = false) (rest : List Text) :
    parseLines h (line :: rest) =
      parseLines ({ h with lineCount := h.lineCount + 1 }.readLine line).state rest := by
  have hopen : ({ h with lineCount := h.lineCount + 1 }.readLine line).state.complete = false :=
    (hline.rewrites _).keeps.2.trans hcomplete
  rw [parseLines, parseLine_of_two_le hcount, hline.accepted]
  simp [Except.map, hopen]

/-- Lines that pass are read one after the other. -/
theorem exists_leads {h : Header} (hcount : 2 ≤ h.lineCount) (hcomplete : h.complete = false)
    {lines : List Text} (hlines : ∀ line ∈ lines, Passes line) : ∃ h', h.Leads lines h' := by
  -- From the first line on, as in the header itself, so the header to start with is any.
  induction lines generalizing h with
  | nil => exact ⟨h, fun _ => rfl, hcount, hcomplete, rfl, fun c => (h.extended_nil c).symm⟩
  | cons line lines ih =>
    have hline := hlines line List.mem_cons_self
    have hrewrites := hline.rewrites { h with lineCount := h.lineCount + 1 }
    have hagrees := agrees_readLine (hline.accepted { h with lineCount := h.lineCount + 1 })
    have hparse := hline.parseLines_eq hcount hcomplete
    generalize ({ h with lineCount := h.lineCount + 1 }.readLine line).state = next at *
    have hcount' : 2 ≤ next.lineCount := by
      have hkept : next.lineCount = h.lineCount + 1 := hrewrites.keeps.1
      omega
    obtain ⟨h', hleads⟩ := ih hcount' (hrewrites.keeps.2.trans hcomplete)
      fun l hl => hlines l (List.mem_cons_of_mem line hl)
    refine ⟨h', fun rest => ?_, hleads.two_le, hleads.complete_eq,
      hleads.compression_eq.trans hrewrites.compression_eq, fun c => ?_⟩
    · rw [List.cons_append, hparse, hleads.parseLines_eq]
    · rw [hleads.get?_eq, hagrees.extended_eq]
      exact extended_note _ c _ _

/-- The last line completes the header. -/
theorem parseLines_last {h : Header} (hcount : 2 ≤ h.lineCount) {line : Text}
    (hline : label? line = some "END OF HEADER".toList) (rest : List Text) :
    parseLines h (line :: rest) = .ok
      { h with lineCount := h.lineCount + 1, complete := true, pending := none } := by
  have hread := readLine_of_label hline { h with lineCount := h.lineCount + 1 }
  rw [if_neg (by decide), if_neg (by decide), if_neg (by decide), if_pos rfl] at hread
  rw [parseLines, parseLine_of_two_le hcount, hread]
  rfl

/-- A header is read to its end. Its compression is that of the first two lines, and each
constellation has its last definition. -/
theorem IsHeader.exists_parse {t : Text} {c : Compression} {definitions : List WrittenDefinition}
    (ht : IsHeader t c definitions) :
    ∃ h revision, parse t = .ok h ∧ h.compression = some c ∧ c.revision = .ok revision ∧
      ∀ k, h.definitions.get? k = lastWritten definitions k := by
  obtain ⟨first, second, revisionLine, middle, last, rest, hlines, htakes, hrevision, hmiddle,
    hlast⟩ := ht
  obtain ⟨revision, hknown⟩ := htakes.exists_revision
  have hpasses : ∀ line ∈ middle, Passes line := by
    intro line hline
    cases hsilent : isSilent line with
    | true => exact (of_isSilent hsilent).1
    | false =>
      have hkept : line ∈ middle.filter fun line => !isSilent line :=
        List.mem_filter.2 ⟨hline, by simp [hsilent]⟩
      rw [hmiddle] at hkept
      rcases List.mem_cons.1 hkept with rfl | hkept
      · exact hrevision.passes.1
      · obtain ⟨d, -, hd⟩ := List.mem_flatMap.1 hkept
        exact passes_of_mem_lines hd
  obtain ⟨h, hleads⟩ :=
    exists_leads (h := ofCompression c) (le_refl 2) rfl hpasses
  refine ⟨{ h with lineCount := h.lineCount + 1, complete := true, pending := none }, revision, ?_,
    hleads.compression_eq, hknown, fun k => ?_⟩
  · rw [parse, hlines]
    exact (htakes.parseLines_eq _).trans
      ((hleads.parseLines_eq _).trans (parseLines_last hleads.two_le hlast rest))
  · -- Nothing was known before the first line, and the silent lines can be left out.
    have hnothing : (ofCompression c).extended k
        (Remark.continuation (middle.map .ofLine)) = none := rfl
    have hsilent : ∀ line ∈ middle, (!isSilent line) = false → Remark.ofLine line = .other :=
      fun line _ hline => (of_isSilent (by simpa using hline)).2
    obtain ⟨-, hfiltered⟩ := Remark.filter_other (fun line => !isSilent line) hsilent
    show h.definitions.get? k = _
    rw [hleads.get?_eq, hnothing, Option.or_none, ← hfiltered, hmiddle, List.map_cons,
      hrevision.passes.2]
    exact lastDefinition_lines definitions k

/-! ## The layout of a header -/

/-- The layout of a header with definitions, in whatever order these are met: each has as many codes
as it states, and its constellation gets as many columns of the usual form, or one that has not is
reported. -/
theorem layoutAlong_cases {h : Header} {c : Compression} {revision : Revision}
    (hcompression : h.compression = some c) (hrevision : c.revision = .ok revision)
    (hsome : h.definitions.isEmpty = false) (walk : Walk (Constellation × Definition)) :
    (∃ layout, h.layoutAlong walk = .ok layout ∧
      (∀ k d, h.definitions.get? k = some d → d.declared = d.codes.length) ∧
      ∀ k, layout.columns.get? k =
        (h.definitions.get? k).map fun d => List.replicate d.codes.length Column.observation) ∨
      ∃ k d, h.definitions.get? k = some d ∧ d.declared ≠ d.codes.length ∧
        h.layoutAlong walk = .error (.badObservables k) := by
  -- The layout to start with has no columns.
  obtain ⟨base, hbase, hlayout⟩ : ∃ base : Layout, base.columns = ∅ ∧
      h.layoutAlong walk = h.updateLayout walk base := by
    refine ⟨{ Layout.ofRevision revision with defaultConstellation := h.defaultConstellation }, rfl,
      ?_⟩
    simp only [layoutAlong, hcompression, hrevision, hsome]
    rfl
  rcases h.updateLayout_cases walk base with
    ⟨layout', hok, hconsistent, -, -, -, hcolumns⟩ | ⟨k, d, hd, hbad, herror⟩
  · refine Or.inl ⟨layout', hlayout.trans hok, hconsistent, fun k => ?_⟩
    rw [hcolumns, hbase, Table.get?_empty, Option.or_none]
  · exact Or.inr ⟨k, d, hd, hbad, hlayout.trans herror⟩

/-! ## Recovered definitions -/

/-- What a header says about the observables, after these definitions. The layout is the same in
whatever order they are met, and so is that there is none. -/
structure Gives (h : Header) (definitions : List WrittenDefinition) : Prop where
  /-- Each constellation has its last definition, with its codes in order. -/
  observables : ∀ c, h.definitions.get? c = lastWritten definitions c
  /-- Without definitions there is no layout. -/
  layout_nil : definitions = [] → ∀ walk, h.layoutAlong walk = .error .missingObservables
  /-- If the last definitions have as many codes as they state, the layout has as many columns of
  the usual form. -/
  layout_ok : definitions ≠ [] →
    (∀ c d, lastWritten definitions c = some d → d.declared = d.codes.length) →
    ∀ walk, ∃ layout, h.layoutAlong walk = .ok layout ∧ ∀ c, layout.columns.get? c =
      (lastWritten definitions c).map fun d => List.replicate d.codes.length Column.observation
  /-- If one of them has not, there is no layout, and such a one is reported. -/
  layout_error : ∀ c d, lastWritten definitions c = some d → d.declared ≠ d.codes.length →
    ∀ walk, ∃ c' d', lastWritten definitions c' = some d' ∧ d'.declared ≠ d'.codes.length ∧
      h.layoutAlong walk = .error (.badObservables c')

/-- A header whose table holds the last definitions gives them. -/
theorem gives_of_get? {h : Header} {c : Compression} {revision : Revision}
    {definitions : List WrittenDefinition} (hcompression : h.compression = some c)
    (hrevision : c.revision = .ok revision)
    (hget : ∀ k, h.definitions.get? k = lastWritten definitions k) : h.Gives definitions := by
  have hcases := layoutAlong_cases hcompression hrevision
  simp only [hget] at hcases
  -- The table is empty exactly if no definition has been written.
  have hsome : ∀ k, lastWritten definitions k ≠ none → h.definitions.isEmpty = false := by
    intro k hk
    refine Bool.eq_false_iff.2 fun hempty => hk ?_
    rw [← hget, h.definitions.isEmpty_iff.1 hempty]
  refine ⟨hget, ?none, ?ok, ?error⟩
  case none =>
    rintro rfl walk
    have hempty : h.definitions.isEmpty = true := h.definitions.isEmpty_iff.2 hget
    simp only [layoutAlong, hcompression, hrevision, hempty]
    rfl
  case ok =>
    intro hne hconsistent walk
    obtain ⟨k, hk⟩ := lastWritten_ne_none hne
    rcases hcases (hsome k hk) walk with ⟨layout, hlayout, -, hcolumns⟩ | ⟨k', d', hd', hbad, -⟩
    · exact ⟨layout, hlayout, hcolumns⟩
    · exact absurd (hconsistent k' d' hd') hbad
  case error =>
    intro k d hd hbad walk
    have hk : lastWritten definitions k ≠ none := by
      rw [hd]
      exact Option.some_ne_none d
    rcases hcases (hsome k hk) walk with ⟨layout, -, hconsistent, -⟩ | hreported
    · exact absurd (hconsistent k d hd) hbad
    · exact hreported

/-- The definitions of a header are recovered: it is read, each constellation has its last
definition, and the layout has as many columns as there are codes, in whatever order the definitions
are met. Any header with the same definitions for each constellation gives the same. -/
theorem parse_of_isHeader {t : Text} {c : Compression} {definitions : List WrittenDefinition}
    (ht : IsHeader t c definitions) :
    ∃ h, parse t = .ok h ∧ h.Gives definitions ∧
      ∀ t' c' definitions', IsHeader t' c' definitions' →
        (∀ k, (definitions'.filter fun d => d.form.constellation = k) =
          definitions.filter fun d => d.form.constellation = k) →
        ∃ h', parse t' = .ok h' ∧ h'.Gives definitions := by
  obtain ⟨h, revision, hparse, hcompression, hrevision, hget⟩ := ht.exists_parse
  refine ⟨h, hparse, gives_of_get? hcompression hrevision hget, ?_⟩
  intro t' c' definitions' ht' hsame
  obtain ⟨h', revision', hparse', hcompression', hrevision', hget'⟩ := ht'.exists_parse
  refine ⟨h', hparse', gives_of_get? hcompression' hrevision' fun k => ?_⟩
  -- Of each system the same definition is the last one in both.
  rw [hget', lastWritten_congr hsame]

/-- The definition of a system on two lines, with a comment and a line beyond ASCII between them,
and a new definition. -/
theorem parse_of_isHeader_redefined :
    ∃ (old new : WrittenDefinition) (c : Compression) (t : Text),
      t = Text.unlines [
        Text.padRight 60 "3.0".toList ++ Compression.versionLabel,
        Text.padRight 40 "RNX2CRX".toList ++ Text.padRight 20 "02-Jan-21 00:01".toList ++
          Compression.programLabel,
        Text.padRight 20 "     3.04".toList ++ Text.padRight 20 "OBSERVATION DATA".toList ++
          Text.padRight 20 "M (MIXED)".toList ++ "RINEX VERSION / TYPE".toList,
        Text.padRight 60 ("G   14".toList ++ (List.replicate 13 " C1C".toList).flatten) ++
          "SYS / # / OBS TYPES".toList,
        Text.padRight 60 "G    2 C1C L1C".toList ++ "COMMENT".toList,
        Text.padRight 60 "R    2 d\u00e9f".toList ++ "SYS / # / OBS TYPES".toList,
        Text.padRight 60 (Text.blanks 9 ++ ['X']) ++ "SYS / # / OBS TYPES".toList,
        Text.padRight 60 "G    2 C1C L1C".toList ++ "SYS / # / OBS TYPES".toList,
        Text.blanks 60 ++ "END OF HEADER".toList] ∧
      IsHeader t c [old, new] ∧
      lastWritten [old, new] .gps = some ⟨2, ["C1C".toList, "L1C".toList]⟩ ∧
      ∃ h, parse t = .ok h ∧ h.Gives [old, new] ∧
        ∀ t' c' definitions', IsHeader t' c' definitions' →
          (∀ k, (definitions'.filter fun d => d.form.constellation = k) =
            [old, new].filter fun d => d.form.constellation = k) →
          ∃ h', parse t' = .ok h' ∧ h'.Gives [old, new] := by
  obtain ⟨c, hc⟩ : ∃ c, TakesCompression (Text.padRight 60 "3.0".toList ++ Compression.versionLabel)
      (Text.padRight 40 "RNX2CRX".toList ++ Text.padRight 20 "02-Jan-21 00:01".toList ++
        Compression.programLabel) c :=
    ⟨_, rfl, rfl, rfl⟩
  -- A file of the later revision, on all systems.
  have hrevision : IsRevisionLine (Text.padRight 20 "     3.04".toList ++
      Text.padRight 20 "OBSERVATION DATA".toList ++ Text.padRight 20 "M (MIXED)".toList ++
      "RINEX VERSION / TYPE".toList) :=
    ⟨rfl, ⟨⟨3, 4⟩, rfl⟩, rfl, .inr ⟨.mixed, rfl⟩⟩
  refine ⟨
    ⟨.system .gps, 14, ⟨1, "14".toList, by decide, by decide, by decide⟩, rfl,
      List.replicate 13
        ⟨⟨1, "C1C".toList, by decide, by decide, by decide⟩, by decide⟩ ++
        [⟨⟨3, "X".toList, by decide, by decide, by decide⟩, by decide⟩]⟩,
    ⟨.system .gps, 2, ⟨2, "2".toList, by decide, by decide, by decide⟩, rfl,
      [⟨⟨1, "C1C".toList, by decide, by decide, by decide⟩, by decide⟩,
        ⟨⟨1, "L1C".toList, by decide, by decide, by decide⟩, by decide⟩]⟩,
    c, _, rfl, ?header, rfl, parse_of_isHeader ?header⟩
  case header =>
    refine ⟨_, _, _, [_, _, _, _, _, _], _, [], Text.lines_unlines ?_, hc, hrevision, ?_, ?_⟩
    · decide +kernel
    · decide +kernel
    · rfl

end Header

end CompactRinex
