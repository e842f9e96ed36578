import Runic.Node.Printer
import Runic.Token

/-!
# What can go wrong

An error is the cause of a failure, not its wording: each stage has a type of faults, and
`Error` joins them with the place in the source where there is one.  The wording is in one place
per type, in its `message`.

* `Error.message` is the cause without its place, `Error.text` with it.
* `Error.stage` names the stage that failed, `Error.span?` is the place.
-/

namespace Runic

/-- Why the system refuses to read or write a file. -/
inductive FileFault where
  | notFound
  | alreadyExists
  | notADirectory
  | isADirectory
  | notUtf8
  /-- Anything else, in the system's words. -/
  | other (text : String)
deriving DecidableEq, Repr

/-- The system's wording of a fault, with the number of the error. -/
def FileFault.message : FileFault → String
  | notFound => "No such file or directory (os error 2)"
  | alreadyExists => "File exists (os error 17)"
  | notADirectory => "Not a directory (os error 20)"
  | isADirectory => "Is a directory (os error 21)"
  | notUtf8 => "stream did not contain valid UTF-8"
  | other text => text

/-- Why `parse` makes no tree of the tokens. -/
inductive ParseFault where
  /-- An expression was due at the end of the source. -/
  | endOfInput
  /-- A token that starts no expression. -/
  | unexpected (kind : Kind) (text : String)
  /-- Another kind of token was due. -/
  | expected (kind : Kind) (found : Token)
  /-- A single space where a gap was due. -/
  | aceForGap
  /-- Neither the end of a jogging list nor its next pair. -/
  | expectedCommaOrPar (found : Token)
  /-- A whole expression, and more behind it. -/
  | trailing (text : String)
  /-- The left side of `=` is no name. -/
  | labelNotFace
  /-- An arm rune was opened by a parenthesis. -/
  | noWideForm (rune : Rune)
  /-- A wide form with a wrong number of arguments. -/
  | arity (rune : Rune) (signature : Signature) (found : Nat)
  /-- A tall jogging list with half a pair. -/
  | oddPairs (rune : Rune)
  /-- A tall list without its closer. -/
  | unterminated (rune : Rune) (closer : Kind)
deriving DecidableEq, Repr

/-- How a token is called in the message that another one was due. -/
def Token.describe (t : Token) : String :=
  match t.kind with
  | .eof => "end of input"
  | .face | .num | .rune => s!"{t.kind.text} {Text.quoted t.text}"
  | kind => kind.text

/-- The number of arguments a signature asks for, in words. -/
def Signature.describe (s : Signature) : String :=
  match s.tail with
  | .fixed => s!"{s.args}"
  | _ => s!"at least {s.least}"

/-- The wording of a fault of parsing. -/
def ParseFault.message : ParseFault → String
  | endOfInput => "unexpected end of input"
  | unexpected kind text => s!"unexpected token {kind.text} ({Text.quoted text})"
  | expected kind found => s!"expected {kind.text}, found {found.describe}"
  | aceForGap => "expected a gap (two spaces or a newline), found a single space"
  | expectedCommaOrPar found => s!"expected `,` or `)`, found {found.describe}"
  | trailing text => s!"unexpected trailing input {Text.quoted text}"
  | labelNotFace => "left side of `=` must be a face"
  | noWideForm rune => s!"rune {rune.text} has no wide form"
  | arity rune signature found =>
    s!"rune {rune.text} expects {signature.describe} arguments, found {found}"
  | oddPairs rune => s!"rune {rune.text} needs name/value pairs"
  | unterminated rune closer =>
    s!"unterminated jogging list for {rune.text}: expected {closer.text}"

/-- Why `reduce` finds no canonical form of a tree. -/
inductive ReduceFault where
  | arity (rune : Rune) (expected found : Nat)
  | tooFew (rune : Rune) (least : Nat)
  /-- The rune is neither canonical nor short for anything. -/
  | noExpansion (rune : Rune)
  /-- `|^` with arms besides its own. -/
  | extraArms
  /-- `=:` with half a pair. -/
  | oddPairs
  | notFace (rune : Rune) (found : Node)
  /-- A call to another arm than `$`. -/
  | notBucArm (rune : Rune) (found : Node)
  | noDefault (mold : Node)
deriving DecidableEq, Repr

/-- The wording of a fault of reduction. -/
def ReduceFault.message : ReduceFault → String
  | arity rune expected found => s!"{rune.text} expects {expected} arguments, found {found}"
  | tooFew rune least => s!"{rune.text} expects at least {least} arguments"
  | noExpansion rune => s!"no reduction for rune {rune.text}"
  | extraArms => "cannot reduce |^ with additional arms"
  | oddPairs => "=: needs name/value pairs"
  | notFace rune found => s!"{rune.text} expects a face, found {found.print}"
  | notBucArm rune found =>
    s!"{rune.text} can only reduce calls to the $ arm, found {found.print}"
  | noDefault mold => s!"cannot take the default value of {mold.print}"

/-- Why `lower` makes no code of a canonical tree. -/
inductive LowerFault where
  | unboundFace (name : String)
  /-- A cell where an atom is due. -/
  | cellAsAtom (cell : Node)
  /-- A mold where a value is due. -/
  | notAValue (node : Node)
  | notFace (rune : Rune) (found : Node)
  | notBoolean (test : Node)
  | arity (rune : Rune) (found : Nat)
  | notCanonical (rune : Rune)
  | builtinArity (name : String) (arity found : Nat)
  | notAGate (name : String)
  | unknownGate (name : String)
  /-- The target of a call is an expression without a gate as its value. -/
  | noGateProduced (target : Node)
  | notCallable (target : Node)
  | tooManyArguments (params found : Nat)
  /-- The target of `%=` is no name of a gate. -/
  | overrideTarget (target : Node)
  /-- `%=` with half a pair. -/
  | oddPairs
  /-- A conditional where its value is needed. -/
  | branchNotTail
  /-- A parameter of the callee that the caller's subject does not have. -/
  | missingFace (name : String)
  | gateAsData
  /-- The type of atoms is not an integer type. -/
  | atomsNotIntegers
  | numeralTooLarge (digits : String) (bits : Nat)
  | sampleType (mold : Node)
  | duplicateSample (name : String)
  | sampleMold (mold : Node)
deriving DecidableEq, Repr

/-- The wording of a fault of lowering. -/
def LowerFault.message : LowerFault → String
  | unboundFace name => s!"unbound face {name}"
  | cellAsAtom cell => s!"cell {cell.print} has no atom representation"
  | notAValue node => s!"cannot lower {node.print} as a value"
  | notFace rune found => s!"{rune.text} expects a face, found {found.print}"
  | notBoolean test => s!"?: expects a boolean test, found {test.print}"
  | arity rune found => s!"rune {rune.text} applied to {found} arguments"
  | notCanonical rune => s!"unhandled rune {rune.text}; only reduced trees can be lowered"
  | builtinArity name expected found => s!"{name} expects {expected} arguments, found {found}"
  | notAGate name => s!"{name} is not a gate"
  | unknownGate name => s!"unknown gate {name}"
  | noGateProduced target => s!"{target.print} does not produce a gate"
  | notCallable target => s!"cannot call {target.print}"
  | tooManyArguments params found => s!"gate takes at most {params} arguments, found {found}"
  | overrideTarget target => s!"unhandled %= target {target.print}"
  | oddPairs => "%= needs name/value pairs"
  | branchNotTail => "a conditional is only supported in tail position"
  | missingFace name => s!"no value for {name} in the subject"
  | gateAsData => "a gate cannot be used as data"
  | atomsNotIntegers => "atoms must be integers"
  | numeralTooLarge digits bits => s!"numeral {digits} does not fit in i{bits}"
  | sampleType mold => s!"unsupported sample type {mold.print}"
  | duplicateSample name => s!"duplicate sample {name}"
  | sampleMold mold => s!"unsupported sample mold {mold.print}"

/-- Why `Module.verify` refuses a module, or a builder a change to it. -/
inductive IrFault where
  | unknownFunction (id : Nat)
  | missingBlock (block count : Nat)
  /-- A change to a block that is already closed. -/
  | terminated
  | noBlocks (symbol : String)
  | noTerminator (block : Nat) (symbol : String)
  | missingTarget (block : Nat) (symbol : String)
deriving DecidableEq, Repr

/-- The wording of a fault of a module. -/
def IrFault.message : IrFault → String
  | unknownFunction id => s!"unknown function #{id}"
  | missingBlock block count => s!"block {block} out of {count}"
  | terminated => "instruction appended after terminator"
  | noBlocks symbol => s!"function {symbol} has no blocks"
  | noTerminator block symbol => s!"block {block} of function {symbol} has no terminator"
  | missingTarget block symbol =>
    s!"block {block} of function {symbol} branches to a missing block"

/-- The cause of a failure, for all stages from reading the file to rendering the module. -/
inductive Error where
  | file (fault : FileFault)
  | unknownFormat (name : String)
  | atomWidth (bits : Nat)
  | illegal (span : Span) (text : String)
  | parse (span : Span) (fault : ParseFault)
  | unknownRune (span : Span) (rune : String)
  | reduce (span : Span) (fault : ReduceFault)
  | lower (span : Span) (fault : LowerFault)
  | ir (fault : IrFault)
deriving DecidableEq, Repr

namespace Error

/-- The place of the error in the source.  The errors of files, options and modules have none. -/
def span? : Error → Option Span
  | illegal span _ | parse span _ | unknownRune span _ | reduce span _ | lower span _ => some span
  | file _ | unknownFormat _ | atomWidth _ | ir _ => none

/-- The name of the stage that failed, as diagnostics show it. -/
def stage : Error → String
  | file _ => "io"
  | unknownFormat _ | atomWidth _ => "config"
  | illegal _ _ => "lex"
  | parse _ _ | unknownRune _ _ => "parse"
  | reduce _ _ => "reduce"
  | lower _ _ | ir _ => "codegen"

/-- The cause, without its place. -/
def message : Error → String
  | file fault => s!"failed to read source: {fault.message}"
  | unknownFormat name => s!"unsupported emit format: {name}"
  | atomWidth bits => s!"unsupported atom width: {bits} bits (expected 8, 16, 32 or 64)"
  | illegal _ text => s!"illegal character {Text.quoted text}"
  | parse _ fault => fault.message
  | unknownRune _ rune => s!"unknown rune {rune}"
  | reduce _ fault => fault.message
  | lower _ fault => fault.message
  | ir fault => s!"malformed IR: {fault.message}"

/-- The cause behind its stage and byte offset, if it has a place. -/
def text (error : Error) : String :=
  match error with
  | illegal span _ => s!"lex error at byte {span.start}: {error.message}"
  | parse span _ | unknownRune span _ => s!"parse error at byte {span.start}: {error.message}"
  | reduce span _ => s!"reduction error at byte {span.start}: {error.message}"
  | lower span _ => s!"codegen error at byte {span.start}: {error.message}"
  | _ => error.message

end Error

end Runic
