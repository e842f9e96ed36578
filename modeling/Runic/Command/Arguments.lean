import Runic.Lowering.Numeral

/-!
# Arguments of the command

Every argument is an option.  A setting takes a value, either behind it in the next argument or
attached to it: `--emit ast`, `--emit=ast`, `-i file`, `-ifile`, `-i=file`.  A switch takes none,
and short switches can be joined, with a setting as the last of them: `-vi file`.  Two dashes alone
end the options.

No option may be given twice.  Arguments are read from left to right, and a request for help or for
the version ends the reading, so only what stands before it can be wrong.

`readArguments` reads them all and returns a `Request`.
-/

namespace Runic.Command

/-- An option with a value, such as `--emit ast`. -/
inductive Setting where
  | input | output | emit | atomBits | entry | dir | outDir
deriving DecidableEq, Repr

/-- An option without a value, such as `--verbose`. -/
inductive Switch where
  | verbose | help | version
deriving DecidableEq, Repr

/-- An option. -/
inductive Flag where
  | setting (setting : Setting)
  | switch (switch : Switch)
deriving DecidableEq, Repr

/-- The name of a setting, without the dashes in front of it. -/
def Setting.name : Setting → String
  | input => "input"
  | output => "output"
  | emit => "emit"
  | atomBits => "atom-bits"
  | entry => "entry"
  | dir => "dir"
  | outDir => "out-dir"

/-- The name of a switch, without the dashes in front of it. -/
def Switch.name : Switch → String
  | verbose => "verbose"
  | help => "help"
  | version => "version"

namespace Flag

/-- The name of an option, as it is written behind two dashes. -/
def name : Flag → String
  | setting s => s.name
  | switch s => s.name

/-- All options. -/
def all : List Flag := [
  setting .input, setting .output, setting .emit, setting .atomBits, setting .entry,
  setting .dir, setting .outDir, switch .verbose, switch .help, switch .version]

/-- The option with the name `name`. -/
def ofName? (name : String) : Option Flag := all.find? (·.name = name)

/-- The option of a letter behind one dash. -/
def ofLetter? : Char → Option Flag
  | 'i' => some (setting .input)
  | 'o' => some (setting .output)
  | 'v' => some (switch .verbose)
  | 'h' => some (switch .help)
  | 'V' => some (switch .version)
  | _ => none

end Flag

/-- Why `readArguments` refuses its arguments. -/
inductive Misuse where
  | unexpected (argument : String)
  | missingValue (setting : Setting)
  | unneededValue (switch : Switch)
  | repeated (flag : Flag)
  | badNumber (text : String)
  | conflict (one other : Setting)
  | requires (one other : Setting)
deriving DecidableEq, Repr

/-- The wording of a misuse, as the command says it behind `error: `. -/
def Misuse.message : Misuse → String
  | unexpected argument => s!"unexpected argument {argument}"
  | missingValue setting => s!"--{setting.name} needs a value"
  | unneededValue switch => s!"--{switch.name} takes no value"
  | repeated flag => s!"--{flag.name} is given twice"
  | badNumber text => s!"invalid number {text}"
  | conflict one other => s!"--{one.name} cannot be used with --{other.name}"
  | requires one other => s!"--{one.name} needs --{other.name}"

/-! ## What the options say -/

/-- The options read so far.  What is `none` or not set gets its default in `Given.finish`. -/
structure Given where
  input : Option String := none
  output : Option String := none
  emit : Option String := none
  atomBits : Option Nat := none
  entry : Option String := none
  dir : Option String := none
  outDir : Option String := none
  verbose : Bool := false
deriving DecidableEq, Repr

/-- What the command is to do, with every default filled in. -/
structure Invocation where
  input : Option String
  output : Option String
  emit : String
  atomBits : Nat
  entry : String
  /-- The directory to compile and the one to write to. -/
  batch : Option (String × String)
  verbose : Bool
deriving DecidableEq, Repr

/-- What the user asks for: the help, the version, or a run. -/
inductive Request where
  | help
  | version
  | run (invocation : Invocation)
deriving DecidableEq, Repr

/-- The number that `text` writes in decimal, if it has at most 32 bits.  A sign is understood, so a
zero may have any. -/
def word? (text : String) : Option Nat :=
  match signedDecimal? text.toList with
  | some (.ofNat n) => if n < Nat.pow 2 32 then some n else none
  | _ => none

namespace Given

/-- The value of a text setting.  It is a misuse to give the same setting twice. -/
def once (setting : Setting) (old : Option String) (value : String) :
    Except Misuse (Option String) :=
  match old with
  | none => .ok (some value)
  | some _ => .error (.repeated (.setting setting))

/-- Take note of `setting` with its `value`; a number or a name that does not fit is a misuse. -/
def set (given : Given) (setting : Setting) (value : String) : Except Misuse Given :=
  match setting with
  | .input => do return { given with input := ← once .input given.input value }
  | .output => do return { given with output := ← once .output given.output value }
  | .emit => do return { given with emit := ← once .emit given.emit value }
  | .entry => do return { given with entry := ← once .entry given.entry value }
  | .dir => do return { given with dir := ← once .dir given.dir value }
  | .outDir => do return { given with outDir := ← once .outDir given.outDir value }
  | .atomBits =>
    match given.atomBits, word? value with
    | some _, _ => .error (.repeated (.setting .atomBits))
    | none, some bits => .ok { given with atomBits := some bits }
    | none, none => .error (.badNumber value)

/-- Take note of `--verbose`. -/
def beVerbose (given : Given) : Except Misuse Given :=
  if given.verbose then .error (.repeated (.switch .verbose))
  else .ok { given with verbose := true }

/-- Check that the options go together, and fill in what was not given: `--dir` asks for
`--out-dir` and excludes `--input`. -/
def finish (given : Given) : Except Misuse Request :=
  let invocation := fun batch =>
    Request.run ⟨given.input, given.output, given.emit.getD "llvm", given.atomBits.getD 32,
      given.entry.getD "main", batch, given.verbose⟩
  match given.input, given.dir, given.outDir with
  | some _, some _, _ => .error (.conflict .input .dir)
  | none, some _, none => .error (.requires .dir .outDir)
  | none, some dir, some outDir => .ok (invocation (some (dir, outDir)))
  | _, none, _ => .ok (invocation none)

end Given

/-! ## Reading -/

/-- The argument starts with a dash and is longer than that, so it is an option or the `--` that
ends them, and is no value. -/
def isOptionLike (argument : String) : Bool :=
  match argument.toList with
  | '-' :: _ :: _ => true
  | _ => false

/-- Where `readFrom` stands behind one argument. -/
inductive Reading where
  /-- The option is complete. -/
  | next (given : Given)
  /-- The value is in the next argument. -/
  | pending (given : Given) (setting : Setting)
  /-- No more options. -/
  | done (given : Given)
  /-- There is nothing more to read. -/
  | ask (request : Request)
deriving DecidableEq, Repr

/-- Take note of a switch.  Help and version are answered at once, whatever else is given. -/
def readSwitch (given : Given) : Switch → Except Misuse Reading
  | .verbose => do return .next (← given.beVerbose)
  | .help => return .ask .help
  | .version => return .ask .version

/-- The letters behind one dash: switches in turn, up to a setting, whose value is the rest of the
letters or the next argument. -/
def readLetters (given : Given) : List Char → Except Misuse Reading
  | [] => return .next given
  | c :: cs =>
    match Flag.ofLetter? c with
    | none => .error (.unexpected (String.ofList ['-', c]))
    | some (.setting setting) =>
      match cs with
      | [] => return .pending given setting
      | '=' :: value => do return .next (← given.set setting (String.ofList value))
      | value => do return .next (← given.set setting (String.ofList value))
    | some (.switch switch) => do
      match ← readSwitch given switch with
      | .next given => readLetters given cs
      | reading => return reading

/-- A name behind two dashes, and the value attached to it by an equals sign, if there is one. -/
def readName (given : Given) (cs : List Char) : Except Misuse Reading :=
  let name := String.ofList (cs.takeWhile (· ≠ '='))
  match Flag.ofName? name, cs.dropWhile (· ≠ '=') with
  | none, _ => .error (.unexpected ("--" ++ name))
  | some (.setting setting), [] => return .pending given setting
  | some (.setting setting), _ :: value => do
    return .next (← given.set setting (String.ofList value))
  | some (.switch switch), [] => readSwitch given switch
  | some (.switch switch), _ :: _ => .error (.unneededValue switch)

/-- One argument where an option is due.  It is a misuse if it is none. -/
def readArgument (given : Given) (argument : String) : Except Misuse Reading :=
  match argument.toList with
  | ['-', '-'] => return .done given
  | '-' :: '-' :: cs => readName given cs
  | '-' :: c :: cs => readLetters given (c :: cs)
  | _ => .error (.unexpected argument)

/-- Read the remaining arguments, the options in front of them being `given`. -/
def readFrom (given : Given) : List String → Except Misuse Request
  | [] => given.finish
  | argument :: arguments => do
    match ← readArgument given argument with
    | .next given => readFrom given arguments
    | .ask request => return request
    | .done given =>
      match arguments with
      | [] => given.finish
      | stray :: _ => .error (.unexpected stray)
    | .pending given setting =>
      match arguments with
      | [] => .error (.missingValue setting)
      | value :: rest =>
        if isOptionLike value then .error (.missingValue setting)
        else do readFrom (← given.set setting value) rest

/-- Read the arguments of the command, nothing being given in front of them. -/
def readArguments (arguments : List String) : Except Misuse Request := readFrom {} arguments

/-! ## Answers that need no source -/

/-- The name of the program and its version. -/
def versionText : String := "hoonc-cli 0.1.0\n"

/-- How to use the command. -/
def helpText : String := "\n".intercalate [
  "Compile a subset of Hoon into LLVM-flavoured IR",
  "",
  "Usage: hoonc [OPTIONS]",
  "",
  "Options:",
  "  -i, --input <INPUT>     Source file (stdin when absent)",
  "  -o, --output <OUTPUT>   Output file (stdout when absent)",
  "      --emit <FORMAT>     Output format: tokens, ast, reduced, llvm [default: llvm]",
  "      --atom-bits <BITS>  Width of an atom: 8, 16, 32 or 64 [default: 32]",
  "      --entry <NAME>      Entry function name [default: main]",
  "      --dir <DIR>         Compile every .hoon file under DIR",
  "      --out-dir <DIR>     Where --dir writes its outputs",
  "  -v, --verbose           Report progress on stderr",
  "  -h, --help              Print help",
  "  -V, --version           Print version",
  ""]

end Runic.Command
