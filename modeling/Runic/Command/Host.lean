import Runic.Diagnostic
import Runic.Files.Disk

/-!
# Surroundings of the command

The command reads, writes and speaks only through a `Host`, so it can run on a real machine or on
a `World`, which is a value.

Two things that a host does are the work of libraries: it walks through directories with a
`Walker`, and it draws a diagnostic beside the source that it is about.  Both are fields of `Host`.
`World.walker` is a walk through the disk of a world, and `World.hostWith` takes any other.
-/

namespace Runic.Command

/-! ## Walking through a directory -/

/-- One thing that a walk comes to: the names that lead there from the path that is walked, and
whether it is a file. -/
structure Entry where
  names : List String
  isFile : Bool
deriving DecidableEq, Repr

/-- A path at which a walk cannot go on, and the reason. -/
structure WalkFault where
  path : Path
  fault : FileFault
deriving DecidableEq, Repr

/-- A way to walk through a directory.  `fold path visit init` hands one entry after another to
`visit`, from the path itself down, and stops where `visit` fails.  The entries are not collected
first: whatever `visit` does to the files is done before the walk looks for the next entry. -/
structure Walker (m : Type → Type) where
  fold : {ε β : Type} → Path → (β → Except WalkFault Entry → ExceptT ε m β) → β → ExceptT ε m β

/-! ## Hosts -/

/-- What the command can do in its surroundings.  `Command.run` is written against this, and proofs
choose what the surroundings do. -/
structure Host (m : Type → Type) where
  /-- Everything on standard input. -/
  input : m ByteArray
  /-- The bytes of a file. -/
  read : Path → m (Except FileFault ByteArray)
  /-- The walk through a directory. -/
  walker : Walker m
  /-- Make a directory and those above it that are missing. -/
  makeDirectories : Path → m (Except FileFault Unit)
  /-- Make a file or replace what it holds. -/
  write : Path → String → m (Except FileFault Unit)
  /-- Put text on standard output. -/
  print : String → m Unit
  /-- Put a line on the error stream. -/
  say : String → m Unit
  /-- Draw a diagnostic on the error stream, beside the lines of the source that it is about.  The
  two texts are the name of the source and the source.  The answer is whether that succeeded. -/
  draw : Diagnostic → String → String → m Bool

/-! ## A machine as a value -/

/-- A disk and the three streams: the surroundings of a run as a value. -/
structure World where
  disk : Disk
  input : ByteArray
  output : String := ""
  /-- The lines on the error stream. -/
  said : List String := []

namespace World

/-- Run a file operation on the disk of the world.  The disk changes also if the operation fails
halfway. -/
def onDisk {α : Type} (action : Attempt Disk FileFault α) : StateM World (Except FileFault α) :=
  fun world =>
    let (outcome, disk) := action world.disk
    (outcome, { world with disk := disk })

/-- Put a text on the error stream, line by line. -/
def say (text : String) : StateM World Unit :=
  fun world => ((), { world with said := world.said ++ text.splitOn "\n" })

section

variable {ε β : Type}

/-- Walk through what is below a directory, at most `depth` levels deep.  A directory is listed when
the walk enters it.  Each of its entries is handed to `visit`, and one that is a directory is
entered next, before the entry after it. -/
def walkBelow (root : List String)
    (visit : β → Except WalkFault Entry → ExceptT ε (StateM World) β) :
    Nat → List String → β → ExceptT ε (StateM World) β
  | 0, _, b => return b
  | depth + 1, names, b => do
    let world ← get
    (world.disk.entriesOf (root ++ names)).foldlM (fun b entry => do
      let b ← visit b (.ok ⟨names ++ [entry.1], entry.2⟩)
      if entry.2 then return b else walkBelow root visit depth (names ++ [entry.1]) b) b

/-- Walk through what `path` leads to, as `walkBelow` does.  What was there at the start is walked
whole, and directories that were made meanwhile are walked up to 4096 levels below that. -/
def walk (path : Path) (visit : β → Except WalkFault Entry → ExceptT ε (StateM World) β)
    (init : β) :
    ExceptT ε (StateM World) β := do
  let world ← get
  match world.disk.locate path.steps with
  | .error fault => visit init (.error ⟨path, fault⟩)
  | .ok (_, .file _) => visit init (.ok ⟨[], true⟩)
  | .ok (root, .directory) =>
    let b ← visit init (.ok ⟨[], false⟩)
    walkBelow root visit (world.disk.height + 4096) [] b

end

/-- The walker that lists the directories of `World.disk` with `walk`. -/
def walker : Walker (StateM World) := ⟨walk⟩

/-- The surroundings that a world offers to those who walk through it with a given walker.  Of a
drawn diagnostic the error stream keeps its `Diagnostic.summary`. -/
def hostWith (walker : Walker (StateM World)) : Host (StateM World) where
  input := fun world => (world.input, world)
  read path := fun world => (world.disk.read path, world)
  walker := walker
  makeDirectories path := onDisk (Disk.makeDirectories path)
  write path text := onDisk (Disk.write path text.toUTF8)
  print text := fun world => ((), { world with output := world.output ++ text })
  say := say
  draw diagnostic file source := do
    (diagnostic.summary file source).forM say
    return true

/-- The surroundings that a world offers, with its own `walker`. -/
def host : Host (StateM World) := hostWith walker

end World

end Runic.Command
