import CompactRinex.Command
import CompactRinex.Proofs.Conversion.Names
import CompactRinex.Proofs.Outcome
import CompactRinex.Proofs.Text.Rows

/-!
# Places of recovered files

A path that is written is the path that is read again (`FilePath.parse_toText`), and a path leads to
its last name in the place that the names before it lead to (`Directory.locate_eq_ok`). So two paths
that differ in their last names only never lead to the same place (`Directory.place_ne`). A
recovered file that is written beside the compressed one has another name than that
(`Conversion.outputName_ne`), hence what the compressed file holds does not change while it is
recovered (`Command.content_run`), whatever it is and however the conversion ends.
-/

namespace CompactRinex

/-! ## Paths -/

namespace FilePath

/-- A name as it stands between the slashes of a path. -/
def IsName (name : Text) : Prop := '/' ∉ name ∧ name ≠ [] ∧ name ≠ ['.']

/-- The names of a path hold no separator. -/
theorem isName_of_mem_names {t name : Text} (h : name ∈ (parse t).names) : IsName name := by
  obtain ⟨hsegment, hreal⟩ := List.mem_filter.1 h
  simp only [Bool.and_eq_true, bne_iff_ne] at hreal
  refine ⟨fun hslash => ?_, hreal.1, hreal.2⟩
  have hsep := Text.isSep_of_mem_segments (· == '/') hsegment hslash
  exact absurd rfl (beq_eq_false_iff_ne.1 hsep)

/-- The names of a path are found between the slashes of its text. -/
theorem segments_intercalate_names {names : List Text} (hne : names ≠ [])
    (h : ∀ name ∈ names, IsName name) :
    Text.segments (· == '/') (List.intercalate ['/'] names) = names := by
  refine Text.segments_intercalate rfl hne fun name hname c hc => ?_
  exact beq_false_of_ne fun heq => (h name hname).1 (heq ▸ hc)

/-- No name of a path is passed over. -/
theorem filter_names {names : List Text} (h : ∀ name ∈ names, IsName name) :
    names.filter (fun name => name != [] && name != ['.']) = names := by
  refine List.filter_eq_self.2 fun name hname => ?_
  obtain ⟨-, hempty, hpoint⟩ := h name hname
  simp [hempty, hpoint]

/-- A path that is written is the path that is read again. -/
theorem parse_toText {p : FilePath} (h : ∀ name ∈ p.names, IsName name) : parse p.toText = p := by
  obtain ⟨rooted, names⟩ := p
  cases names with
  | nil => cases rooted <;> rfl
  | cons name rest =>
    have hsegments := segments_intercalate_names (List.cons_ne_nil name rest) h
    have hfilter := filter_names h
    cases rooted with
    | true =>
      have htext : toText ⟨true, name :: rest⟩ = '/' :: List.intercalate ['/'] (name :: rest) := rfl
      have hfirst : Text.segments (· == '/') ('/' :: List.intercalate ['/'] (name :: rest)) =
          [] :: (name :: rest) := by
        refine (Text.segments_cons_sep _ ?_).trans (congrArg ([] :: ·) hsegments)
        rfl
      rw [htext, parse, hfirst, List.filter_cons_of_neg (by decide), hfilter]
      rfl
    | false =>
      -- The first name has no slash, so the path does not start with one.
      have htext : toText ⟨false, name :: rest⟩ = List.intercalate ['/'] (name :: rest) := rfl
      have hhead : ((List.intercalate ['/'] (name :: rest)).head? == some '/') = false := by
        obtain ⟨hslash, hempty, -⟩ := h name List.mem_cons_self
        obtain ⟨c, cs, rfl⟩ := List.exists_cons_of_ne_nil hempty
        rw [Text.intercalate_cons, List.cons_append, List.head?_cons]
        refine beq_false_of_ne fun heq => hslash ?_
        rw [← Option.some.inj heq]
        exact List.mem_cons_self
      rw [htext, parse, hsegments, hfilter, hhead]

/-- The last name of a path that names a file. -/
theorem names_eq_of_fileName? {p : FilePath} {name : Text} (h : p.fileName? = some name) :
    p.names = p.names.dropLast ++ [name] ∧ name ≠ ['.', '.'] := by
  obtain ⟨hlast, hpoints⟩ := Option.filter_eq_some_iff.1 h
  obtain ⟨front, hnames⟩ := List.getLast?_eq_some_iff.1 hlast
  refine ⟨?_, bne_iff_ne.1 hpoints⟩
  rw [hnames, List.dropLast_concat]

end FilePath

/-! ## Places -/

namespace Directory

variable {d : Directory}

/-- A step goes to a name, or stays. -/
theorem step_eq_ok {place place' : List Text} {name : Text} (h : d.step place name = .ok place') :
    ((name = [] ∨ name = ['.']) → place' = place) ∧
      (FilePath.IsName name → name ≠ above → place' = place ++ [name]) := by
  unfold step at h
  split at h
  · cases h
  · split at h
    · next hsame =>
      cases h
      exact ⟨fun _ => rfl, fun hname => absurd hsame (not_or.2 hname.2)⟩
    · next hother =>
      -- The step goes into a directory that exists.
      refine ⟨fun hsame => absurd hsame hother, fun _ habove => ?_⟩
      rw [if_neg habove] at h
      split at h
      · cases h
      · cases h
        rfl

/-- Where the names between the slashes lead, those without the empty ones and the single points
lead too. -/
theorem foldlM_step_filter {place place' : List Text} {segments : List Text}
    (h : segments.foldlM d.step place = .ok place') :
    (segments.filter fun name => name != [] && name != ['.']).foldlM d.step place = .ok place' := by
  induction segments generalizing place with
  | nil => exact h
  | cons name segments ih =>
    rw [List.foldlM_cons] at h
    obtain ⟨next, hnext, hrest⟩ := bind_eq_ok_iff.1 h
    by_cases hreal : name = [] ∨ name = ['.']
    · -- Such a name stays where it is.
      obtain rfl := (step_eq_ok hnext).1 hreal
      rw [List.filter_cons_of_neg (by rcases hreal with rfl | rfl <;> decide)]
      exact ih hrest
    · rw [not_or] at hreal
      rw [List.filter_cons_of_pos (by simp [hreal.1, hreal.2]), List.foldlM_cons]
      exact bind_eq_ok_iff.2 ⟨next, hnext, ih hrest⟩

/-- A path to a file leads to the last of its names in the place that the others lead to. -/
theorem locate_eq_ok {path : Text} {place : List Text} {name : Text}
    (hname : (FilePath.parse path).fileName? = some name) (h : d.locate path = .ok place) :
    ∃ parent, (FilePath.parse path).names.dropLast.foldlM d.step [] = .ok parent ∧
      place = parent ++ [name] := by
  obtain ⟨hnames, habove⟩ := FilePath.names_eq_of_fileName? hname
  have hmem : name ∈ (FilePath.parse path).names := by
    rw [hnames]
    exact List.mem_append_right _ (List.mem_singleton_self name)
  unfold locate at h
  split at h
  · cases h
  · split at h
    · cases h
    · split at h
      · cases h
      · split at h
        · -- Of the paths from the root only one is known, and it names no file.
          rw [if_neg (List.ne_nil_of_mem hmem)] at h
          cases h
        · have hfold := foldlM_step_filter h
          change (FilePath.parse path).names.foldlM d.step [] = _ at hfold
          rw [hnames, List.foldlM_append] at hfold
          obtain ⟨parent, hparent, hlast⟩ := bind_eq_ok_iff.1 hfold
          rw [List.foldlM_cons] at hlast
          obtain ⟨place', hstep, hnil⟩ := bind_eq_ok_iff.1 hlast
          cases hnil
          -- The last name goes neither up nor nowhere.
          exact ⟨parent, hparent,
            (step_eq_ok hstep).2 (FilePath.isName_of_mem_names hmem) habove⟩

/-- Two files beside each other with different names are not at the same place. -/
theorem place_ne {path path' : Text} {place place' : List Text} {name name' : Text}
    (hname : (FilePath.parse path).fileName? = some name)
    (hname' : (FilePath.parse path').fileName? = some name')
    (hparent : (FilePath.parse path').names.dropLast = (FilePath.parse path).names.dropLast)
    (hne : name' ≠ name) (h : d.locate path = .ok place) (h' : d.locate path' = .ok place') :
    place' ≠ place := by
  obtain ⟨parent, hleads, rfl⟩ := locate_eq_ok hname h
  obtain ⟨parent', hleads', rfl⟩ := locate_eq_ok hname' h'
  -- The parents are the same place, so the last names decide.
  rw [hparent, hleads] at hleads'
  cases hleads'
  intro heq
  exact hne (List.singleton_inj.1 (List.append_cancel_left heq))

end Directory

/-! ## Recovered files -/

namespace Conversion

/-- There are no slashes in a name but those that were in the other one. -/
theorem slash_not_mem_outputName {name : Text} (h : '/' ∉ name) : '/' ∉ outputName name := by
  obtain ⟨plain, hbares, hrenames⟩ := outputName_eq_iff.1 (rfl : outputName name = outputName name)
  -- Dropping an ending adds nothing.
  have hplain : '/' ∉ plain := by
    rcases hbares with ⟨plain, -⟩ | -
    · exact fun hmem => h (List.mem_append_left _ hmem)
    · exact h
  generalize outputName name = r at hrenames
  rcases hrenames with ⟨stem, hending⟩ | ⟨stem, -, -, hletter⟩ | ⟨-, -⟩
  · have hstem : '/' ∉ stem := fun hmem => hplain (List.mem_append_left _ hmem)
    -- Nor does a new ending hold a separator.
    have hnew : ∀ p ∈ endings, '/' ∉ p.2 := by decide
    exact List.not_mem_append hstem (hnew _ hending)
  · have hnew : ∀ p ∈ letters, p.2 ≠ '/' := by decide
    have hletter := hnew _ hletter
    simp only [List.mem_append, List.mem_cons, List.not_mem_nil, or_false, not_or] at hplain ⊢
    exact ⟨hplain.1, hplain.2.1, hplain.2.2.1, hplain.2.2.2.1, Ne.symm hletter⟩
  · exact List.not_mem_append hplain (by decide)

/-- The name of the output is one name, and not that of the directory above. -/
theorem isName_outputName {name : Text} (h : FilePath.IsName name) :
    FilePath.IsName (outputName name) ∧ outputName name ≠ ['.', '.'] := by
  have hne : ∀ t : Text, t.length < 4 → outputName name ≠ t := by
    rintro t hshort rfl
    exact absurd (four_le_length_outputName name) (Nat.not_le_of_lt hshort)
  exact ⟨⟨slash_not_mem_outputName h.1, hne [] (by decide), hne ['.'] (by decide)⟩,
    hne ['.', '.'] (by decide)⟩

end Conversion

namespace Command

variable {command : Command} {name : Text}

/-- Unless a name is given, the recovered file is written beside the compressed one, under the name
that follows from its name. -/
theorem outputName_of_none (houtput : command.output = none)
    (hname : (FilePath.parse command.input).fileName? = some name) :
    ∃ output, command.outputName = .ok output ∧
      FilePath.parse output =
        (FilePath.parse command.input).withFileName (Conversion.outputName name) ∧
      (FilePath.parse output).fileName? = some (Conversion.outputName name) := by
  have hmem : name ∈ (FilePath.parse command.input).names := by
    rw [(FilePath.names_eq_of_fileName? hname).1]
    exact List.mem_append_right _ (List.mem_singleton_self name)
  obtain ⟨hnew, hpoints⟩ := Conversion.isName_outputName (FilePath.isName_of_mem_names hmem)
  generalize hoption : (FilePath.parse command.input).withFileName (Conversion.outputName name) = p
  have hnames : p.names =
      (FilePath.parse command.input).names.dropLast ++ [Conversion.outputName name] := by
    rw [← hoption]
    rfl
  -- All the names of the new path are names of files, so it is read back from its text.
  have hparse : FilePath.parse p.toText = p := by
    refine FilePath.parse_toText fun n hn => ?_
    rw [hnames] at hn
    rcases List.mem_append.1 hn with hn | hn
    · exact FilePath.isName_of_mem_names (List.dropLast_subset _ hn)
    · rw [List.mem_singleton.1 hn]
      exact hnew
  refine ⟨p.toText, ?_, hparse, ?_⟩
  · unfold outputName Conversion.outputPath
    rw [houtput, hname]
    exact congrArg (fun q : FilePath => Except.ok q.toText) hoption
  · rw [hparse, FilePath.fileName?, hnames, List.getLast?_concat]
    exact Option.filter_some_pos (bne_iff_ne.2 hpoints)

/-- The recovered file is not made at the place of the compressed one. -/
theorem target_ne (houtput : command.output = none)
    (hname : (FilePath.parse command.input).fileName? = some name) {output : Text}
    (h : command.outputName = .ok output) {d made : Directory} {place target : List Text}
    (hopen : d.openFile command.input = .ok place)
    (hcreate : d.create output = .ok (target, made)) : target ≠ place := by
  obtain ⟨output', houtput', hparse, hfile⟩ := outputName_of_none houtput hname
  rw [h] at houtput'
  cases houtput'
  have hlocate : d.locate command.input = .ok place := by
    obtain ⟨place', hlocate, hrest⟩ := bind_eq_ok_iff.1 hopen
    split at hrest
    · cases hrest
      exact hlocate
    · cases hrest
  have hlocate' : d.locate output = .ok target := by
    obtain ⟨target', hlocate', hrest⟩ := bind_eq_ok_iff.1 hcreate
    split at hrest
    · cases hrest
    · cases hrest
      exact hlocate'
  -- Both names lie in one directory.
  have hparent : (FilePath.parse output).names.dropLast =
      (FilePath.parse command.input).names.dropLast := by
    rw [hparse]
    exact List.dropLast_concat
  exact Directory.place_ne hname hfile hparent (Conversion.outputName_ne name) hlocate hlocate'

/-- While a file is recovered beside it, the compressed file holds what it held before. -/
theorem content_run (houtput : command.output = none)
    (hname : (FilePath.parse command.input).fileName? = some name) {d : Directory}
    {place : List Text} (hopen : d.openFile command.input = .ok place) :
    (command.run d).state.content place = d.content place := by
  obtain ⟨output, hok, -, -⟩ := outputName_of_none houtput hname
  unfold run
  simp only [hok, hopen]
  cases hcreate : d.create output with
  | error fault => rfl
  | ok p =>
    obtain ⟨target, made⟩ := p
    have hne : place ≠ target := Ne.symm (target_ne houtput hname hok hopen hcreate)
    have hmade : made.content place = d.content place := by
      obtain ⟨target', -, hrest⟩ := bind_eq_ok_iff.1 hcreate
      split at hrest
      · cases hrest
      · cases hrest
        rw [Directory.content_write, if_neg hne]
    -- Whatever is recovered, it is written to the place that has been made.
    dsimp only
    split
    · exact (Directory.content_write _ _ _ _).trans ((if_neg hne).trans hmade)
    · exact (Directory.content_write _ _ _ _).trans ((if_neg hne).trans hmade)

/-- A file whose path has a name is recovered under the name that the rule gives, which is found
without cutting a character and is another one; the recovered file is beside the compressed one and
never in its place, so that this one holds what it held before. -/
theorem recovers_beside (houtput : command.output = none)
    (hname : (FilePath.parse command.input).fileName? = some name) :
    ∃ r output, Conversion.outputName? name = some r ∧ r ≠ name ∧
      (∀ r', (∃ plain, Conversion.Bares name plain ∧ Conversion.Renames plain r') ↔ r' = r) ∧
      command.outputName = .ok output ∧
      FilePath.parse output = (FilePath.parse command.input).withFileName r ∧
      ∀ d place, d.openFile command.input = .ok place →
        (∀ target made, d.create output = .ok (target, made) → target ≠ place) ∧
          (command.run d).state.content place = d.content place := by
  obtain ⟨output, hok, hparse, -⟩ := outputName_of_none houtput hname
  refine ⟨Conversion.outputName name, output, Conversion.outputName?_eq name,
    Conversion.outputName_ne name, fun r' => ?_, hok, hparse, fun d place hopen => ⟨?_, ?_⟩⟩
  · rw [← Conversion.outputName_eq_iff, eq_comm]
  · exact fun target made hcreate => target_ne houtput hname hok hopen hcreate
  · exact content_run houtput hname hopen

/-- A file of a year in a directory, in whose name there are letters of two bytes. -/
theorem recovers_beside_year :
    (FilePath.parse "data/\u00e9\u00e8.21D.GZ".toList).fileName? =
        some "\u00e9\u00e8.21D.GZ".toList ∧
      ∃ r output, Conversion.outputName? "\u00e9\u00e8.21D.GZ".toList = some r ∧
        r = "\u00e9\u00e8.21O".toList ∧
        outputName ⟨"data/\u00e9\u00e8.21D.GZ".toList, none⟩ = .ok output ∧
        output = "data/\u00e9\u00e8.21O".toList ∧
        ∃ d place, d.openFile "data/\u00e9\u00e8.21D.GZ".toList = .ok place ∧
          d.content place = .ok [0x1f, 0x8b] ∧
          (run ⟨"data/\u00e9\u00e8.21D.GZ".toList, none⟩ d).state.content place =
            .ok [0x1f, 0x8b] := by
  have hname : (FilePath.parse "data/\u00e9\u00e8.21D.GZ".toList).fileName? =
      some "\u00e9\u00e8.21D.GZ".toList := by decide
  obtain ⟨r, output, hr, -, -, hok, -, hplaces⟩ :=
    @recovers_beside ⟨"data/\u00e9\u00e8.21D.GZ".toList, none⟩ _ rfl hname
  have hr' : some r = some "\u00e9\u00e8.21O".toList := hr.symm.trans (by decide)
  have hok' : (Except.ok output : Except ConversionError Text) =
      .ok "data/\u00e9\u00e8.21O".toList := hok.symm.trans (by rfl)
  -- In a directory that holds the file.
  have hopen : Directory.openFile ((∅ : Directory).write
      ["data".toList, "\u00e9\u00e8.21D.GZ".toList] [0x1f, 0x8b])
      "data/\u00e9\u00e8.21D.GZ".toList = .ok ["data".toList, "\u00e9\u00e8.21D.GZ".toList] := by
    rfl
  exact ⟨hname, r, output, hr, Option.some.inj hr', hok, Except.ok.inj hok', _, _, hopen, rfl,
    (hplaces _ _ hopen).2⟩

end Command

end CompactRinex
