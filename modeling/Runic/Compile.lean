import Runic.Canonical.Reduce
import Runic.Ir.Render
import Runic.Lowering.Lower
import Runic.Node.Parser

/-!
# Compiling

The stages in a row.  A source is read as tokens, the tokens as a tree, the tree is brought into
canonical form, and that is lowered to a module.

* `compile` runs them all and returns an `Artifact`.
* `emit` runs as many as an `Output` needs and returns its text.

Only a module depends on the options, so no other output looks at them.
-/

namespace Runic

/-- What `compile` has to know besides the source. -/
structure Options where
  /-- The width of an atom. -/
  atomBits : Nat := 32
  /-- The name of the exported function. -/
  entry : String := "main"
deriving DecidableEq, Repr

/-- The widths that `Options.atomBits` may have. -/
def atomWidths : List Nat := [8, 16, 32, 64]

/-- The type of atoms, or the error that there is none of this width. -/
def Options.atom (options : Options) : Except Error Ir.Ty :=
  if options.atomBits ∈ atomWidths then .ok (.int options.atomBits)
  else .error (.atomWidth options.atomBits)

/-- What `compile` makes of a source. -/
structure Artifact where
  /-- The text of the module. -/
  ir : String
  canonical : Node
  /-- The number of functions in the module. -/
  functions : Nat
deriving DecidableEq, Repr

/-- Compile a source: parse it, reduce the tree, lower the canonical form to a module and render
that.  The width of atoms is checked first. -/
def compile (source : String) (options : Options) : Except Error Artifact := do
  let atom ← options.atom
  let node ← parse source
  let canonical ← reduce node
  let module ← canonical.toModule atom options.entry
  let ir ← module.render
  return ⟨ir, canonical, module.functions.length⟩

/-- The text whose UTF-8 form is `bytes`. -/
def decodeText (bytes : ByteArray) : Except FileFault String :=
  match String.fromUTF8? bytes with
  | some text => .ok text
  | none => .error .notUtf8

/-- Compile what reading a file gave.  A file that could not be read or decoded is an error without
a place. -/
def compileFile (content : Except FileFault ByteArray) (options : Options) :
    Except Error Artifact :=
  match content >>= decodeText with
  | .ok source => compile source options
  | .error fault => .error (.file fault)

/-- The forms of a source that `emit` can give. -/
inductive Output where
  | tokens | ast | reduced | llvm
deriving DecidableEq, Repr

namespace Output

/-- The output called `name`.  The last one has two names. -/
def ofName? : String → Option Output
  | "tokens" => some tokens
  | "ast" => some ast
  | "reduced" => some reduced
  | "llvm" | "ll" => some llvm
  | _ => none

/-- The output called `name`, or the error that there is none. -/
def ofName (name : String) : Except Error Output :=
  match ofName? name with
  | some output => .ok output
  | none => .error (.unknownFormat name)

/-- How an output is called in messages about progress. -/
def title : Output → String
  | tokens => "Tokens"
  | ast => "Ast"
  | reduced => "Reduced"
  | llvm => "Llvm"

/-- The extension of a file that holds the output. -/
def extension : Output → String
  | tokens => "tokens"
  | ast => "ast"
  | reduced => "reduced"
  | llvm => "ll"

end Output

/-- Text with an end of line behind it. -/
def asLine (text : String) : String := text ++ "\n"

/-- The text of an output: the tokens one on a line, the tree, its canonical form, or the module.
Each stops where its own stages do. -/
def emit (source : String) (output : Output) (options : Options) : Except Error String :=
  match output with
  | .tokens => .ok (String.join ((lex source).map fun token => asLine token.line))
  | .ast => do
    let node ← parse source
    return asLine node.print
  | .reduced => do
    let node ← parse source
    let canonical ← reduce node
    return asLine canonical.print
  | .llvm => do
    let artifact ← compile source options
    return artifact.ir

end Runic
