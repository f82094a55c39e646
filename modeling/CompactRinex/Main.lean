import CompactRinex.Command

/-!
# The program

Carries out one command as `Command.run` says, on the files of the system. The program answers 0
when the whole file has been recovered, 1 after an error and 2 when its arguments make no sense.
-/

namespace CompactRinex.Program

/-- The fault behind an error of the system. -/
def faultOf : IO.Error → IoFault
  | .noFileOrDirectory .. => .notFound
  | .inappropriateType _ 20 _ => .notDirectory
  | .inappropriateType .. => .isDirectory
  | .invalidArgument _ 36 _ => .nameTooLong
  | e => .other (toString e)

/-- Runs an action and keeps its fault as a value. -/
def attempt {α : Type} (action : IO α) : IO (Except IoFault α) := do
  try return .ok (← action) catch e => return .error (faultOf e)

/-- Reports an error. -/
def fail (e : ConversionError) : IO UInt32 := do
  IO.eprintln s!"Error: {e.word}: {e.message}"
  return 1

/-- Writes the lines of a stream up to its end or its first error. -/
partial def writeLines {maxOrder : Nat} (out : IO.FS.Handle) (s : Stream maxOrder) :
    IO (Option StreamError) := do
  match s.next with
  | (none, _) => return none
  | (some (.error e), _) => return some e
  | (some (.ok line), rest) =>
    out.putStrLn (String.ofList line)
    writeLines out rest

/-- The next bytes of a file, as many as are read when it is opened. -/
def readFirst (path : FilePath) (file : IO.FS.Handle) : IO ByteArray :=
  if Conversion.readAhead path = 0 then pure .empty
  else file.read (USize.ofNat (Conversion.readAhead path))

/-- Recovers a file. What is read of the compressed file before the recovered one is made matters
only when both are the same file. -/
def recover (command : Command) : IO UInt32 := do
  let path := FilePath.parse command.input
  match command.outputName with
  | .error e => fail e
  | .ok output =>
    match ← attempt (IO.FS.Handle.mk (String.ofList command.input) .read) with
    | .error fault => fail (.stream (.io fault))
    | .ok file =>
      let first ← attempt (readFirst path file)
      match ← attempt (IO.FS.Handle.mk (String.ofList output) .write) with
      | .error fault => fail (.io fault)
      | .ok out =>
        -- The output has been created before the rest is read.
        let rest ← attempt file.readBinToEnd
        let bytes := do return (← first).toList ++ (← rest).toList
        let source := SourceLine.ofFile path.isGzip bytes
        match ← attempt (writeLines out (Stream.ofFile Conversion.maxOrder source)) with
        | .error fault => fail (.io fault)
        | .ok (some e) => fail (.stream e)
        | .ok none => return 0

end CompactRinex.Program

/-- Recovers the file that the arguments name. -/
def main (args : List String) : IO UInt32 := do
  match CompactRinex.Command.parse? (args.map String.toList) with
  | none =>
    IO.eprintln CompactRinex.Command.usage
    return 2
  | some command => CompactRinex.Program.recover command
