import Runic.Command.Run

/-!
# The command on a machine

Files and streams are those of the machine that the command runs on.  `Machine.host` leaves two of
its fields open: how to walk through a directory and how to draw a diagnostic.
-/

namespace Runic.Command.Machine

/-- The reason why the system refuses something, as a `FileFault`.  Some of its codes come
negated. -/
def fault : IO.Error → FileFault
  | .noFileOrDirectory _ _ _ => .notFound
  | .alreadyExists _ _ _ => .alreadyExists
  | error@(.inappropriateType _ code _) =>
    match min code (0 - code) with
    | 20 => .notADirectory
    | 21 => .isADirectory
    | _ => .other (toString error)
  | error => .other (toString error)

/-- Try `action`, with a refusal by the system as a `FileFault`. -/
def guarded {α : Type} (action : IO α) : IO (Except FileFault α) := do
  try
    let result ← action
    return .ok result
  catch error => return .error (fault error)

/-- Make the directory of `path` and those above it that are missing. -/
def makeDirectories (path : Path) : IO Unit := do
  try IO.FS.createDir path.text
  catch error =>
    match fault error with
    | .notADirectory => throw error
    | _ => IO.FS.createDirAll path.text

/-- The surroundings that the machine offers.  The walk through a directory and the drawing of a
diagnostic are left to the caller. -/
def host (walker : Walker IO) (draw : Diagnostic → String → String → IO Bool) : Host IO where
  input := do (← IO.getStdin).readBinToEnd
  read path := guarded (IO.FS.readBinFile path.text)
  walker := walker
  makeDirectories path := guarded (makeDirectories path)
  write path text := guarded (IO.FS.writeFile path.text text)
  print text := IO.print text
  say line := IO.eprintln line
  draw := draw

/-- Run the command over `host` and return its exit code. -/
def run (walker : Walker IO) (draw : Diagnostic → String → String → IO Bool)
    (arguments : List String) : IO UInt32 := do
  let exit ← Command.run (host walker draw) arguments
  return exit.toUInt32

end Runic.Command.Machine
