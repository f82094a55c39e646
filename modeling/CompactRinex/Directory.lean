import CompactRinex.FilePath
import CompactRinex.Source
import CompactRinex.Table

/-!
# Directories

A directory with what it holds, as far as a conversion sees it: the bytes of files, and the
directories that lead to them. Above it are directories that hold nothing else. `openFile` and
`create` say what a path names and which fault there is otherwise. What a file holds shows in
`content`, which `content_write` describes after a change.
-/

namespace CompactRinex

/-- The files around a directory, each by the names that lead to it from there. -/
structure Directory where
  files : Table (List Text) (List UInt8)
  deriving Repr

namespace Directory

/-- The most bytes of a name. -/
def maxNameLength : Nat := 255

/-- The most bytes of a path. -/
def maxPathLength : Nat := 4095

instance : EmptyCollection Directory := ⟨⟨∅⟩⟩

/-- The name that leads from a directory to the one above it. -/
def above : Text := ['.', '.']

/-- These names lead to the directory itself or to one above it. -/
def isOuter (place : List Text) : Bool := place.all (· == above)

/-- These names lead to a directory: to one that is always there, or to one that holds something. -/
def isDirectory (d : Directory) (place : List Text) : Bool :=
  isOuter place || d.files.entries.any fun file => place != file.1 && place.isPrefixOf file.1

/-- Goes on from a place by one name of a path. -/
def step (d : Directory) (place : List Text) (name : Text) : Except IoFault (List Text) :=
  if !d.isDirectory place then
    .error (if d.files.contains place then .notDirectory else .notFound)
  else if name = [] ∨ name = ['.'] then .ok place
  else if name = above then .ok (if isOuter place then place ++ [above] else place.dropLast)
  else if maxNameLength < Text.byteLength name then .error .nameTooLong
  else .ok (place ++ [name])

/-- The place that a path leads to; there may be nothing. Of the paths from the root only the root
itself is known. -/
def locate (d : Directory) (path : Text) : Except IoFault (List Text) :=
  if '\x00' ∈ path then .error .zeroByte
  else if path = [] then .error .notFound
  else if maxPathLength < Text.byteLength path then .error .nameTooLong
  else if (FilePath.parse path).rooted then
    if (FilePath.parse path).names = [] then .ok [] else .error .notFound
  else (Text.segments (· == '/') path).foldlM d.step []

/-- The place of the file or the directory that a path names. -/
def openFile (d : Directory) (path : Text) : Except IoFault (List Text) := do
  let place ← d.locate path
  if d.files.contains place || d.isDirectory place then .ok place else .error .notFound

/-- What is read at a place that has been opened. -/
def content (d : Directory) (place : List Text) : Except IoFault (List UInt8) :=
  match d.files.get? place with
  | some bytes => .ok bytes
  | none => .error .isDirectory

/-- The directory after a file at a place is given these bytes. -/
def write (d : Directory) (place : List Text) (bytes : List UInt8) : Directory :=
  ⟨d.files.insert place bytes⟩

/-- Makes an empty file under a path, in place of the one that is there. -/
def create (d : Directory) (path : Text) : Except IoFault (List Text × Directory) := do
  let place ← d.locate path
  if d.isDirectory place then .error .isDirectory else .ok (place, d.write place [])

/-- A change shows at its place and nowhere else. -/
theorem content_write (d : Directory) (place place' : List Text) (bytes : List UInt8) :
    (d.write place bytes).content place' =
      if place' = place then .ok bytes else d.content place' := by
  simp only [content, write, Table.get?_insert]
  by_cases h : place' = place
  · rw [if_pos h, if_pos h]
  · rw [if_neg h, if_neg h]

end Directory

end CompactRinex
