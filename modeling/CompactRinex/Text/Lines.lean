import CompactRinex.Text.Utf8

/-!
# Lines

A newline ends a line, and one carriage return before it belongs to the newline. What follows the
last newline is a line too unless it is empty, and keeps its carriage return. Bytes are cut in the
same way before each line is decoded, so that a bad byte spoils only its own line.
-/

namespace CompactRinex.Text

/-- A line without the one carriage return that stood before its newline. -/
def dropReturn {α : Type} [BEq α] (ret : α) (line : List α) : List α :=
  if line.getLast? == some ret then line.dropLast else line

/-- The lines of a sequence in which `newline` ends a line, where `ret` may stand before it. -/
def linesWith {α : Type} [BEq α] (newline ret : α) (xs : List α) : List (List α) :=
  let parts := segments (· == newline) xs
  parts.dropLast.map (dropReturn ret) ++ (parts.getLast?.toList.filter fun last => !last.isEmpty)

/-- The lines of a text. -/
def lines (t : Text) : List Text := linesWith '\n' '\r' t

/-- The lines of a content given by its bytes; a line that is not UTF-8 is missing. -/
def byteLines (bytes : List UInt8) : List (Option Text) := (linesWith 10 13 bytes).map decode?

/-- The text in which each of `ls` is followed by a newline. -/
def unlines (ls : List Text) : Text := ls.flatMap (· ++ ['\n'])

/-- The empty text has no line. -/
@[simp] theorem lines_nil : lines [] = [] := rfl

end CompactRinex.Text
