import CompactRinex.Clock
import CompactRinex.Epoch.Description
import CompactRinex.Proofs.InPlace.Programs
import CompactRinex.Proofs.Positions.Slots

/-!
# Kernels that refuse an input

The kernels of the decompression change in place: the text that is edited (`Overlay`), the
differences of a column (`Kernel`), the clock and the description of the epoch. Each of them is
given here as a program that makes one store after the other. All checks come before the first store
(`kernels_atomic`): an input that is refused leaves the kernel as it was, and no later input can
tell that it has been given.
-/

namespace CompactRinex

open InPlace (Careful Succeeds)

/-! ## Texts -/

namespace Overlay

/-- What a caller does with a text. -/
inductive Operation where
  /-- Forgets the text. -/
  | reset
  /-- Puts another text in its place. -/
  | force (text : Text)
  /-- Edits the text. -/
  | edit (change : Text)
  /-- Edits the text by a section of a line. -/
  | editSection (line : Text) (start stop : ℕ)

/-- Carries out an operation. An edit answers with the text after it. -/
def perform (o : Overlay) : Operation → Outcome Overlay Fault (Option Text)
  | .reset => .ok o.reset none
  | .force text => .ok (o.force text) none
  | .edit change => ⟨(o.edit change).state, (o.edit change).result.map some⟩
  | .editSection line start stop =>
    ⟨(o.editSection line start stop).state, (o.editSection line start stop).result.map some⟩

/-- Edits the text in place. All columns are rewritten before it is known whether they are a text,
but in a copy of the bytes. -/
def editInPlace (change : Text) : InPlace Overlay Text := do
  let o ← get
  if Text.isAscii change then
    let bytes ← MonadExcept.ofExcept (o.base change)
    -- The text is edited in a copy, which takes its place when it can be decoded.
    let copy := bytes ++ List.replicate (o.width - bytes.length) 0x20
    match Text.decode? (mergeBytes copy (Text.encode change)) with
    | some text =>
      set { o with reference := some text }
      return text
    | none => throw .nonAscii
  else throw .nonAscii

/-- Edits the text by a section of a line, if the section does not cut a character. -/
def editSectionInPlace (line : Text) (start stop : ℕ) : InPlace Overlay Text :=
  let stop := min stop (Text.byteLength line)
  match Text.slice? line (min start stop) stop with
  | some change => editInPlace change
  | none => throw .nonAscii

/-- The program of an operation. -/
def program : Operation → InPlace Overlay (Option Text)
  | .reset => do
    modify reset
    return none
  | .force text => do
    modify (force · text)
    return none
  | .edit change => some <$> editInPlace change
  | .editSection line start stop => some <$> editSectionInPlace line start stop

/-- An edit fails before it stores. -/
theorem careful_editInPlace (change : Text) : Careful (editInPlace change) := by
  refine .bind_of_reads InPlace.reads_get fun o => ?_
  split
  · refine .bind_of_reads (InPlace.reads_ofExcept _) fun bytes => ?_
    dsimp only
    split
    · exact ((InPlace.succeeds_set _).bind fun _ => InPlace.succeeds_pure _).careful
    · exact (InPlace.reads_throw _).careful
  · exact (InPlace.reads_throw _).careful

/-- The program edits the text. -/
theorem outcome_editInPlace (o : Overlay) (change : Text) :
    InPlace.outcome (editInPlace change) o = o.edit change := by
  unfold editInPlace edit recover
  rw [InPlace.outcome_get_bind]
  by_cases hascii : Text.isAscii change = true
  · simp only [if_pos hascii, InPlace.outcome_ofExcept_bind]
    cases o.base change with
    | error e => rfl
    | ok bytes =>
      dsimp only [bind, Except.bind]
      cases Text.decode? (mergeBytes (bytes ++ List.replicate (o.width - bytes.length) 0x20)
        (Text.encode change)) <;> rfl
  · simp only [if_neg hascii]
    rfl

/-- An edit of a section fails before it stores. -/
theorem careful_editSectionInPlace (line : Text) (start stop : ℕ) :
    Careful (editSectionInPlace line start stop) := by
  dsimp only [editSectionInPlace]
  split
  · exact careful_editInPlace _
  · exact (InPlace.reads_throw _).careful

/-- The program edits the section. -/
theorem outcome_editSectionInPlace (o : Overlay) (line : Text) (start stop : ℕ) :
    InPlace.outcome (editSectionInPlace line start stop) o = o.editSection line start stop := by
  dsimp only [editSectionInPlace, editSection]
  cases Text.slice? line (min start (min stop (Text.byteLength line)))
      (min stop (Text.byteLength line)) with
  | none => rfl
  | some change => exact outcome_editInPlace o change

/-- Every operation fails before it stores. -/
theorem careful_program (op : Operation) : Careful (program op) := by
  cases op with
  | reset => exact ((InPlace.succeeds_modify _).bind fun _ => InPlace.succeeds_pure _).careful
  | force text => exact ((InPlace.succeeds_modify _).bind fun _ => InPlace.succeeds_pure _).careful
  | edit change => exact (careful_editInPlace change).map some
  | editSection line start stop => exact (careful_editSectionInPlace line start stop).map some

/-- The programs are the operations. -/
theorem outcome_program (o : Overlay) (op : Operation) :
    InPlace.outcome (program op) o = o.perform op := by
  cases op with
  | reset => rfl
  | force text => rfl
  | edit change => rw [program, InPlace.outcome_map, outcome_editInPlace, perform]
  | editSection line start stop =>
    rw [program, InPlace.outcome_map, outcome_editSectionInPlace, perform]

end Overlay

/-! ## Differences -/

namespace Kernel

/-- A kernel between two stores. Its fields are stored one at a time, and need not fit each other.
-/
structure Draft where
  /-- The column. -/
  column : Column
  /-- The order of the differences. -/
  order : ℕ
  /-- The latest value and its differences. -/
  row : List Int64

variable {maxOrder : ℕ}

/-- The fields of a kernel. -/
def draft (k : Kernel maxOrder) : Draft := ⟨k.column, k.order, k.row⟩

/-- A draft says everything about a kernel. -/
theorem draft_injective : Function.Injective (@draft maxOrder) := by
  rintro ⟨column, order, row⟩ ⟨column', order', row'⟩ h
  cases h
  rfl

/-- The operations that check what they are given before they change anything. The one that takes in
a difference and writes the value does not. -/
def Operation.isChecked : Operation → Bool
  | .accept _ => false
  | _ => true

namespace Draft

/-- Forgets the history. -/
def clear : InPlace Draft Unit := modify fun d => { d with row := [] }

/-- Starts a new history with a literal value, if the order is supported. -/
def restart (maxOrder : ℕ) (value : Int64) (order : ℕ) : InPlace Draft Unit := do
  let _ ← MonadExcept.ofExcept (admitOrder maxOrder order)
  clear
  modify fun d => { d with order }
  modify fun d => { d with row := [value] }

/-- Takes in a difference, and answers with the value recovered from it. -/
def advance (delta : Int64) : InPlace Draft Int64 := do
  let d ← get
  set { d with row := Row.next Saturating.add d.order d.row delta }
  return (Row.refresh Saturating.add delta d.row).1

/-- Writes a value. -/
def render (value : Int64) : InPlace Draft Text := do
  let d ← get
  MonadExcept.ofExcept (d.column.render value)

/-- Takes in a difference and writes the value recovered from it. -/
def accept (delta : Int64) : InPlace Draft Text := do
  let value ← advance delta
  render value

/-- Takes in a field. -/
def apply (maxOrder : ℕ) : Field → InPlace Draft (Option Int64)
  | .missing => return none
  | .literal order value => do
    restart maxOrder value order
    return some value
  | .delta difference => some <$> advance difference

/-- The program of an operation. -/
def program (maxOrder : ℕ) : Operation → InPlace Draft Answer
  | .reset => (fun _ => .done) <$> clear
  | .restart value order => (fun _ => .done) <$> restart maxOrder value order
  | .advance delta => (fun v => .value (some v)) <$> advance delta
  | .accept delta => .text <$> accept delta
  | .render value => .text <$> render value
  | .apply field => .value <$> apply maxOrder field

/-- A difference is always taken in. -/
theorem succeeds_advance (delta : Int64) : Succeeds (advance delta) :=
  InPlace.succeeds_get.bind fun _ => (InPlace.succeeds_set _).bind fun _ => InPlace.succeeds_pure _

/-- A value is rendered without a store. -/
theorem careful_render (value : Int64) : Careful (render value) :=
  .bind_of_reads InPlace.reads_get fun _ => (InPlace.reads_ofExcept _).careful

/-- The order is checked before the history is forgotten. -/
theorem careful_restart (maxOrder : ℕ) (value : Int64) (order : ℕ) :
    Careful (restart maxOrder value order) := by
  refine .bind_of_reads (InPlace.reads_ofExcept _) fun _ => Succeeds.careful ?_
  exact (InPlace.succeeds_modify _).bind fun _ =>
    (InPlace.succeeds_modify _).bind fun _ => InPlace.succeeds_modify _

/-- A field fails before it stores. -/
theorem careful_apply (maxOrder : ℕ) (field : Field) : Careful (apply maxOrder field) := by
  cases field with
  | missing => exact (InPlace.reads_pure none).careful
  | literal order value =>
    exact (careful_restart maxOrder value order).bind_of_succeeds fun _ => InPlace.succeeds_pure _
  | delta difference => exact (succeeds_advance difference).careful.map some

/-- The program renders the value. -/
theorem outcome_render (k : Kernel maxOrder) (value : Int64) :
    InPlace.outcome (render value) k.draft = ⟨k.draft, k.render value⟩ := by
  rw [render, InPlace.outcome_get_bind, Kernel.render]
  show InPlace.outcome (MonadExcept.ofExcept (k.column.render value)) k.draft = _
  cases k.column.render value <;> rfl

/-- The program restarts the kernel. -/
theorem outcome_restart (k : Kernel maxOrder) (value : Int64) (order : ℕ) :
    InPlace.outcome (restart maxOrder value order) k.draft =
      (Outcome.commit k ((k.restart value order).map fun k' => (k', ()))).lift draft := by
  unfold restart Kernel.restart
  by_cases h : 0 < order ∧ order ≤ maxOrder
  · rw [admitOrder_of_le h.1 h.2]
    rfl
  · rw [admitOrder_of_not h]
    rfl

/-- The program takes the difference in. -/
theorem outcome_advance (k : Kernel maxOrder) (delta : Int64) :
    InPlace.outcome (advance delta) k.draft =
      (Outcome.ok (k.advance delta) (k.recovered delta)).lift draft := rfl

/-- The program takes the field in. -/
theorem outcome_apply (k : Kernel maxOrder) (field : Field) :
    InPlace.outcome (apply maxOrder field) k.draft = (k.apply field).lift draft := by
  cases field with
  | missing => rfl
  | literal order value =>
    rw [apply, InPlace.outcome_bind, outcome_restart, Kernel.apply, Kernel.step]
    cases k.restart value order <;> rfl
  | delta difference => rfl

/-- Every checked operation fails before it stores. -/
theorem careful_program {op : Operation} (h : op.isChecked = true) :
    Careful (program maxOrder op) := by
  cases op with
  | reset => exact (InPlace.succeeds_modify _).careful.map _
  | restart value order => exact (careful_restart maxOrder value order).map _
  | advance delta => exact (succeeds_advance delta).careful.map _
  | accept delta =>
    -- The value is written when the kernel has moved on.
    cases h
  | render value => exact (careful_render value).map _
  | apply field => exact (careful_apply maxOrder field).map _

/-- The programs are the operations. -/
theorem outcome_program (k : Kernel maxOrder) (op : Operation) :
    InPlace.outcome (program maxOrder op) k.draft = (k.perform op).lift draft := by
  cases op with
  | reset => rfl
  | restart value order =>
    rw [program, InPlace.outcome_map, outcome_restart, perform]
    cases k.restart value order <;> rfl
  | advance delta => rfl
  | accept delta =>
    rw [program, InPlace.outcome_map, accept, InPlace.outcome_bind, outcome_advance]
    dsimp only [Outcome.lift, Outcome.ok]
    rw [outcome_render]
    rfl
  | render value =>
    rw [program, InPlace.outcome_map, outcome_render, perform]
    rfl
  | apply field =>
    rw [program, InPlace.outcome_map, outcome_apply, perform]
    rfl

end Draft

end Kernel

/-! ## The clock -/

namespace Clock

variable {maxOrder : ℕ}

/-- What a caller does with the clock. -/
inductive Operation where
  /-- Forgets the history. -/
  | reset
  /-- Takes in a line. -/
  | decode (line : Text)

/-- Carries out an operation. A line is answered with the offset after it, if there is one. -/
def perform (c : Clock maxOrder) : Operation → Outcome (Clock maxOrder) Fault (Option Int64)
  | .reset => .ok c.reset none
  | .decode line => c.decode line

/-- The fields of the kernel of a clock. -/
def draft (c : Clock maxOrder) : Kernel.Draft := c.kernel.draft

/-- A draft says everything about a clock. -/
theorem draft_injective : Function.Injective (@draft maxOrder) := by
  rintro ⟨kernel⟩ ⟨kernel'⟩ h
  exact congrArg Clock.mk (Kernel.draft_injective h)

/-- Takes in a line. -/
def decodeInPlace (maxOrder : ℕ) (line : Text) : InPlace Kernel.Draft (Option Int64) := do
  let field ← MonadExcept.ofExcept (Field.parse line)
  match field with
  | .missing => do
    let d ← get
    return d.row.head?
  | field => Kernel.Draft.apply maxOrder field

/-- The program of an operation. -/
def program (maxOrder : ℕ) : Operation → InPlace Kernel.Draft (Option Int64)
  | .reset => (fun _ => none) <$> Kernel.Draft.clear
  | .decode line => decodeInPlace maxOrder line

/-- Every operation fails before it stores. -/
theorem careful_program (op : Operation) : Careful (program maxOrder op) := by
  cases op with
  | reset => exact (InPlace.succeeds_modify _).careful.map _
  | decode line =>
    refine .bind_of_reads (InPlace.reads_ofExcept _) fun field => ?_
    cases field with
    | missing => exact .bind_of_reads InPlace.reads_get fun _ => (InPlace.reads_pure _).careful
    | literal order value => exact Kernel.Draft.careful_apply maxOrder (.literal order value)
    | delta difference => exact Kernel.Draft.careful_apply maxOrder (.delta difference)

/-- The programs are the operations. -/
theorem outcome_program (c : Clock maxOrder) (op : Operation) :
    InPlace.outcome (program maxOrder op) c.draft = (c.perform op).lift draft := by
  cases op with
  | reset => rfl
  | decode line =>
    rw [program, decodeInPlace, InPlace.outcome_ofExcept_bind, perform, decode, next]
    cases Field.parse line with
    | error e => rfl
    | ok field =>
      -- A field that is not blank is taken in by the kernel alone.
      have hfield : InPlace.outcome (Kernel.Draft.apply maxOrder field) c.draft =
          (Outcome.commit c ((c.kernel.step field).map fun p => (⟨p.1⟩, p.2))).lift draft := by
        refine (Kernel.Draft.outcome_apply c.kernel field).trans ?_
        rw [Kernel.apply]
        cases c.kernel.step field <;> rfl
      cases field with
      | missing => rfl
      | literal order value => exact hfield
      | delta difference => exact hfield

end Clock

/-! ## Descriptions of epochs -/

namespace EpochDescription

/-- What a caller does with a description. -/
inductive Operation where
  /-- Forgets the description. -/
  | reset
  /-- Takes in a line. -/
  | decode (line : Text)

/-- Carries out an operation. A line is answered with the way it has given the description. -/
def perform (d : EpochDescription) : Operation → Outcome EpochDescription Fault (Option EpochKind)
  | .reset => .ok d.reset none
  | .decode line => ⟨(d.decode line).state, (d.decode line).result.map some⟩

/-- A program on the text of a description. -/
def onOverlay {α : Type} (x : InPlace Overlay α) : InPlace EpochDescription α :=
  .within (·.overlay) (fun d overlay => { d with overlay }) x

/-- Takes in the content of a line, which is the description or an edit of it. -/
def storeContent (line : Text) : EpochKind → InPlace EpochDescription Unit
  | .literal =>
    if Text.isAscii (content line) then onOverlay (modify (·.force (content line)))
    else throw .nonAscii
  | .differential => (fun _ => ()) <$> onOverlay (Overlay.editInPlace (content line))

/-- Takes in a line. -/
def decodeInPlace (line : Text) : InPlace EpochDescription EpochKind := do
  let d ← get
  let kind ← MonadExcept.ofExcept (d.classify line)
  storeContent line kind
  return kind

/-- The program of an operation. -/
def program : Operation → InPlace EpochDescription (Option EpochKind)
  | .reset => (fun _ => none) <$> onOverlay (modify Overlay.reset)
  | .decode line => some <$> decodeInPlace line

/-- A careful program on the text is careful on the description. -/
theorem careful_onOverlay {α : Type} {x : InPlace Overlay α} (hx : Careful x) :
    Careful (onOverlay x) :=
  .within (fun _ => rfl) hx

/-- A line fails before its content is stored. -/
theorem careful_storeContent (line : Text) (kind : EpochKind) :
    Careful (storeContent line kind) := by
  cases kind with
  | literal =>
    dsimp only [storeContent]
    split
    · exact careful_onOverlay (InPlace.succeeds_modify _).careful
    · exact (InPlace.reads_throw _).careful
  | differential => exact (careful_onOverlay (Overlay.careful_editInPlace _)).map _

/-- Every operation fails before it stores. -/
theorem careful_program (op : Operation) : Careful (program op) := by
  cases op with
  | reset => exact (careful_onOverlay (InPlace.succeeds_modify _).careful).map _
  | decode line =>
    refine .map (.bind_of_reads InPlace.reads_get fun d => ?_) some
    refine .bind_of_reads (InPlace.reads_ofExcept _) fun kind => ?_
    exact (careful_storeContent line kind).bind_of_succeeds fun _ => InPlace.succeeds_pure _

/-- A literal line replaces the text, and any other line edits it. -/
theorem outcome_storeContent (d : EpochDescription) (line : Text) (kind : EpochKind) :
    InPlace.outcome (storeContent line kind) d =
      match kind with
      | .literal =>
        if Text.isAscii (content line) then
          .ok { d with overlay := d.overlay.force (content line) } ()
        else .fail d .nonAscii
      | .differential =>
        ⟨{ d with overlay := (d.overlay.edit (content line)).state },
          (d.overlay.edit (content line)).result.map fun _ => ()⟩ := by
  cases kind with
  | literal =>
    dsimp only [storeContent]
    split <;> rfl
  | differential =>
    rw [storeContent, InPlace.outcome_map, onOverlay, InPlace.outcome_within,
      Overlay.outcome_editInPlace]
    rfl

/-- The program takes the line in. -/
theorem outcome_decodeInPlace (d : EpochDescription) (line : Text) :
    InPlace.outcome (decodeInPlace line) d = d.decode line := by
  rw [decodeInPlace, InPlace.outcome_get_bind, InPlace.outcome_ofExcept_bind, decode, next]
  cases d.classify line with
  | error e => rfl
  | ok kind =>
    dsimp only
    -- What is stored depends on the kind of the line.
    rw [InPlace.outcome_bind, outcome_storeContent]
    cases kind with
    | literal =>
      by_cases hascii : Text.isAscii (content line) = true
      · simp only [if_pos hascii]
        rfl
      · simp only [if_neg hascii]
        rfl
    | differential =>
      dsimp only [bind, Except.bind, Overlay.edit]
      cases d.overlay.recover (content line) <;> rfl

/-- The programs are the operations. -/
theorem outcome_program (d : EpochDescription) (op : Operation) :
    InPlace.outcome (program op) d = d.perform op := by
  cases op with
  | reset => rfl
  | decode line => rw [program, InPlace.outcome_map, outcome_decodeInPlace, perform]

end EpochDescription

/-- No kernel keeps anything of an input that it refuses. In place all checks of an operation come
before its first store, for texts that are not ASCII and for fields that do not fit each other too.
The operation that takes in a difference and writes the value is the only one that does more before
it fails. -/
theorem kernels_atomic (maxOrder : ℕ) :
    Atomic Overlay.perform id Overlay.program (fun _ => true) ∧
      Atomic (@Kernel.perform maxOrder) Kernel.draft (Kernel.Draft.program maxOrder)
        Kernel.Operation.isChecked ∧
      Atomic (@Clock.perform maxOrder) Clock.draft (Clock.program maxOrder) (fun _ => true) ∧
      Atomic EpochDescription.perform id EpochDescription.program (fun _ => true) := by
  refine ⟨?text, ?differences, ?clock, ?description⟩
  case text =>
    exact .of_careful Function.injective_id Overlay.outcome_program
      fun op _ => Overlay.careful_program op
  case differences =>
    exact .of_careful Kernel.draft_injective Kernel.Draft.outcome_program
      fun _ => Kernel.Draft.careful_program
  case clock =>
    exact .of_careful Clock.draft_injective Clock.outcome_program
      fun op _ => Clock.careful_program op
  case description =>
    exact .of_careful Function.injective_id EpochDescription.outcome_program
      fun op _ => EpochDescription.careful_program op

/-- The edit of a character of two bytes fails after its first byte has been replaced. -/
example : Overlay.edit ⟨0, some "\u00e9".toList⟩ "x".toList =
    .fail ⟨0, some "\u00e9".toList⟩ .nonAscii := by
  rfl

end CompactRinex
