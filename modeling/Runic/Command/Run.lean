import Runic.Command.Arguments
import Runic.Command.Host
import Runic.Compile

/-!
# The command

One run of the command compiles one source, or every source below a directory.

* `single` reads a file or standard input, and writes a file or standard output.  If the source
  has an error, a report of it goes to the error stream and the run fails.
* `batch` walks through a directory and writes one file for each source, at the same place below
  another directory, perhaps one that the walk has yet to enter.  A source with an error is reported
  and counted, and the walk goes on; a file that cannot be read or written ends the run.
* `run` does what the arguments say and returns the exit code: zero, one for a failed run, two
  for arguments that are refused.
-/

namespace Runic.Command

/-- Why a run fails: what could not be done, and the chain of causes behind it. -/
structure Failure where
  message : String
  causes : List String := []
deriving DecidableEq, Repr

namespace Failure

/-- The text behind `label`, with its further lines indented to stand under the first. -/
def hanging (label text : String) : String :=
  let pad := "".pushn ' ' label.length
  label ++ ("\n" ++ pad).intercalate (text.splitOn "\n")

/-- The causes of a failure, each on a line of its own and numbered if there are several. -/
def causeLines : List String → List String
  | [] => []
  | [cause] => ["", "Caused by:", hanging "    " cause]
  | causes =>
    "" :: "Caused by:" :: causes.zipIdx.map fun (cause, number) =>
      hanging s!"    {number}: " cause

/-- The lines that a failed run ends with on the error stream. -/
def lines (failure : Failure) : List String :=
  s!"Error: {failure.message}" :: causeLines failure.causes

end Failure

/-- What to make of every source: the output, its options, and whether to report progress. -/
structure Job where
  output : Output
  options : Options
  verbose : Bool
deriving DecidableEq, Repr

/-- How many sources of a batch were compiled so far, and how many of them failed. -/
structure Tally where
  compiled : Nat := 0
  failed : Nat := 0
deriving DecidableEq, Repr

section

variable {m : Type → Type} [Monad m] (host : Host m)

/-- Put lines on the error stream, one after another. -/
def sayAll : List String → m Unit
  | [] => return ()
  | line :: lines => do
    host.say line
    sayAll lines

/-- Report progress by `line`, if the job is verbose. -/
def note (job : Job) (line : String) : m Unit :=
  if job.verbose then host.say line else return ()

/-- Go on with what a file operation gave, or fail the run with `message` and the reason. -/
def orFail {α : Type} (message : String) (outcome : Except FileFault α) : ExceptT Failure m α :=
  match outcome with
  | .ok a => return a
  | .error fault => throw ⟨message, [fault.message]⟩

/-- The text of the file at `path`.  A file that cannot be read, or that is no UTF-8, fails the
run. -/
def readText (path : Path) : ExceptT Failure m String := do
  let bytes ← host.read path
  orFail s!"failed to read input file {path.text}" (bytes >>= decodeText)

/-- Compile one source.  An error with a place is drawn by `host.draw`, or said as its headline if
it cannot be drawn.  No error fails the run here. -/
def compileSource (job : Job) (name source : String) : m (Except Error String) := do
  note host job s!"hoonc: compiling {name} ({job.output.title}, i{job.options.atomBits})"
  match emit source job.output job.options with
  | .ok text => return .ok text
  | .error error =>
    match Diagnostic.ofError? error with
    | some diagnostic =>
      let drawn ← host.draw diagnostic name source
      if !drawn then host.say (diagnostic.headline name source)
    | none => pure ()
    return .error error

/-- Write `text` to `path`, and make the directory it belongs to first.  Whatever the files refuse
fails the run. -/
def writeOutput (job : Job) (path : Path) (text : String) : ExceptT Failure m Unit := do
  match path.parent? with
  | some parent =>
    if parent.text ≠ "" then
      let made ← host.makeDirectories parent
      orFail s!"failed to create directory {Text.quoted parent.text}" made
  | none => pure ()
  let written ← host.write path text
  orFail s!"failed to write output file {path.text}" written
  ExceptT.lift (note host job s!"hoonc: wrote {path.text}")

/-! ## One source -/

/-- The name of the source and its text, from the file `input` or from standard input. -/
def readSource (input : Option String) : ExceptT Failure m (String × String) := do
  match input with
  | some path =>
    let source ← readText host ⟨path, []⟩
    return (path, source)
  | none =>
    let bytes ← host.input
    match decodeText bytes with
    | .ok source => return ("<stdin>", source)
    | .error fault => throw ⟨fault.message, []⟩

/-- Compile one source, and write its output to the file `output` or put it on standard output.  An
error in the source fails the run. -/
def single (job : Job) (input output : Option String) : ExceptT Failure m Unit := do
  let (name, source) ← readSource host input
  match ← ExceptT.lift (compileSource host job name source) with
  | .error error => throw ⟨s!"failed to compile {name}", [error.text]⟩
  | .ok text =>
    match output with
    | some path => writeOutput host job ⟨path, []⟩ text
    | none => host.print text

/-! ## Many sources -/

/-- The path has the extension of a source. -/
def isSource (path : Path) : Bool := path.extension? = some "hoon"

/-- Where the output of `source` goes: the same names below `outDir`, with the extension of the
output. -/
def target (outDir : String) (output : Output) (source : Path) : Path :=
  (Path.below outDir source.names).withExtension output.extension

/-- What a batch does with one thing that its walk comes to.  A source is compiled at once, and its
output is written or its error said before the walk goes on; everything else is passed over. -/
def compileEntry (job : Job) (dir outDir : String) (tally : Tally) :
    Except WalkFault Entry → ExceptT Failure m Tally
  | .error ⟨path, fault⟩ =>
    let cause := s!"IO error for operation on {path.text}: {fault.message}"
    throw ⟨s!"failed to walk {dir}", [cause, fault.message]⟩
  | .ok ⟨names, isFile⟩ => do
    if isFile && isSource ⟨dir, names⟩ then
      let source ← readText host ⟨dir, names⟩
      match ← ExceptT.lift (compileSource host job (Path.text ⟨dir, names⟩) source) with
      | .ok text =>
        writeOutput host job (target outDir job.output ⟨dir, names⟩) text
        return { tally with compiled := tally.compiled + 1 }
      | .error error =>
        host.say s!"error: failed to compile {Path.text ⟨dir, names⟩}: {error.text}"
        return { tally with failed := tally.failed + 1 }
    else return tally

/-- Say how a batch went.  It fails if a source did, with the number of failed sources. -/
def conclude (job : Job) (tally : Tally) : ExceptT Failure m Unit := do
  ExceptT.lift (note host job s!"hoonc: {tally.compiled} compiled, {tally.failed} failed")
  if tally.failed ≠ 0 then
    let total := tally.compiled + tally.failed
    throw ⟨s!"{tally.failed} of {total} files failed to compile", []⟩

/-- Compile every source below `dir` while walking through it, by `compileEntry`. -/
def batch (job : Job) (dir outDir : String) : ExceptT Failure m Unit := do
  let tally ← host.walker.fold ⟨dir, []⟩ (compileEntry host job dir outDir) {}
  conclude host job tally

/-! ## A run -/

/-- What an invocation wants made of every source.  The name of the output and the width of atoms
are checked here. -/
def Invocation.job (invocation : Invocation) : Except Error Job := do
  let output ← Output.ofName invocation.emit
  let options := ⟨invocation.atomBits, invocation.entry⟩
  let _ ← options.atom
  return ⟨output, options, invocation.verbose⟩

/-- Do what an invocation says: a batch if there are directories, and a single source otherwise. -/
def execute (invocation : Invocation) : ExceptT Failure m Unit := do
  match invocation.job with
  | .error error => throw ⟨error.text, []⟩
  | .ok job =>
    match invocation.batch with
    | some (dir, outDir) => batch host job dir outDir
    | none => single host job invocation.input invocation.output

/-- Run the command and return its exit code: 0 for success, 1 for a failed run and 2 for a
misuse. -/
def run (arguments : List String) : m Nat := do
  match readArguments arguments with
  | .error misuse =>
    host.say s!"error: {misuse.message}"
    return 2
  | .ok .help =>
    host.print helpText
    return 0
  | .ok .version =>
    host.print versionText
    return 0
  | .ok (.run invocation) =>
    match ← (execute host invocation).run with
    | .ok () => return 0
    | .error failure =>
      sayAll host failure.lines
      return 1

end

end Runic.Command
