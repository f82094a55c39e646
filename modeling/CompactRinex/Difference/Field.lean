import CompactRinex.Fault

/-!
# Compressed numerical fields

A field is blank, a literal value with the order of the differences to come (`3&1000`), or a
difference. `Field.toText` writes what `Field.parse` reads (`parse_toText`).
-/

namespace CompactRinex

/-- A numerical field of the compressed body. -/
inductive Field where
  /-- A blank field: there is no value. -/
  | missing
  /-- A literal value; the fields after it are differences of up to this order. -/
  | literal (order : Nat) (value : Int64)
  /-- A difference. -/
  | delta (difference : Int64)
  deriving DecidableEq, Repr

namespace Field

/-- The order and the value around the first `&`. -/
def parseLiteral? (order value : Text) : Option Field := do
  let order ← Numeral.readCount (Text.trim order)
  let value ← Numeral.readInt64 (Text.trim value)
  some (.literal order value)

/-- Reads a field. A refused one is reported without the blanks around it. -/
def parse (t : Text) : Except Fault Field :=
  let trimmed := Text.trim t
  if trimmed.isEmpty then .ok .missing
  else
    let read := match Text.splitFirst? '&' trimmed with
      | some (order, value) => parseLiteral? order value
      | none => (Numeral.readInt64 trimmed).map .delta
    match read with
    | some field => .ok field
    | none => .error (.malformedField trimmed)

/-- The text of a field. -/
def toText : Field → Text
  | missing => []
  | literal order value => Numeral.digits order ++ '&' :: Numeral.ofInt value.toInt
  | delta difference => Numeral.ofInt difference.toInt

/-- An empty field is a missing one. -/
@[simp] theorem parse_nil : parse [] = .ok missing := rfl

/-- The only fault of reading a field is that it is malformed. -/
theorem eq_of_parse_error {t : Text} {e : Fault} (h : parse t = .error e) :
    e = .malformedField (Text.trim t) := by
  simp only [parse] at h
  split at h
  · cases h
  · split at h <;> cases h
    rfl

end Field

end CompactRinex
