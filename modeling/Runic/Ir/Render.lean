import Runic.Ir.Verify

/-!
# The text of a module

The text follows the layout of the module.  Block labels and results share one counter in each
function: it runs over the blocks from top to bottom, whatever the order in which they were filled.
A first pass counts, and the lines are written in a second one, in which every number is looked up
by the id that it was given to.

* `Function.numbering` is what the first pass counts, and `Function.number?` looks a number up.
* `Function.lines` is the body of a function line by line.
* `Module.render` is the text of a well-formed module.
-/

namespace Runic.Ir

/-! ## Numbers -/

/-- What has a number of its own in the text of a function: a label or the result of an
instruction. -/
inductive Numbered where
  | label (block : BlockId)
  | result (inst : InstId)
deriving DecidableEq, Repr

namespace Function

/-- Everything that is numbered in a function, from top to bottom: the label of each block, then the
results of its instructions.  The place in this list is the number. -/
def numbering (function : Function) : List Numbered :=
  function.blocks.zipIdx.flatMap fun (block, index) =>
    .label index :: block.insts.map fun inst => .result inst.id

/-- The number of a label or a result: its place in `numbering`.  If an id stood for two
instructions, the later one would have its number. -/
def number? (function : Function) (item : Numbered) : Option Nat :=
  function.numbering.zipIdx.reverse.lookup item

/-- The number in front of a line that introduces a label or a result. -/
def number (function : Function) (item : Numbered) : Nat := (function.number? item).getD 0

/-- The number of a label or a result, as an operand or a branch refers to it. -/
def numberText (function : Function) (item : Numbered) : String :=
  match function.number? item with
  | some number => s!"%{number}"
  | none => "undef"

end Function

/-! ## Operands -/

/-- The symbol of a function that stands as an operand. -/
def Module.symbolText (module : Module) (id : FuncId) : String :=
  match module.functions[id]? with
  | some function => function.symbol
  | none => "undef"

/-- The symbol that a call names.  A call to nothing in the module would name none. -/
def Module.calleeText (module : Module) (id : FuncId) : String :=
  (module.functions[id]?.map Function.symbol).getD ""

/-- An operand without its type.  Results are referred to by `numberText`. -/
def Value.text (module : Module) (function : Function) : Value → String
  | const _ value => s!"{value}"
  | param _ name => "%" ++ quoteName name
  | inst _ id => function.numberText (.result id)
  | func id => module.symbolText id

/-- An operand behind its type.  A function as an operand is a pointer. -/
def Value.typedText (module : Module) (function : Function) (value : Value) : String :=
  match value.ty? with
  | some ty => s!"{ty.text} {value.text module function}"
  | none => s!"ptr {value.text module function}"

/-! ## Lines -/

/-- A line of the body of a function, before it is put into characters. -/
inductive Line where
  /-- The head of a block. -/
  | label (number : Nat)
  /-- A result and how it is computed. -/
  | result (number : Nat) (text : String)
  /-- The end of a block. -/
  | terminator (text : String)
  /-- Between two blocks. -/
  | blank
deriving DecidableEq, Repr

namespace Line

/-- The line as it is written, without the end of line. -/
def text : Line → String
  | label number => s!"{number}:"
  | result number text => s!"\t%{number} = {text}"
  | terminator text => "\t" ++ text
  | blank => ""

/-- The number that the line introduces, as a label or as a result. -/
def number? : Line → Option Nat
  | label number | result number _ => some number
  | terminator _ | blank => none

end Line

/-- What an instruction computes, behind the `=` of its line. -/
def Operation.text (module : Module) (function : Function) : Operation → String
  | binary op ty lhs rhs =>
    s!"{op.text} {ty.text} {lhs.text module function}, {rhs.text module function}"
  | icmpEq ty lhs rhs =>
    s!"icmp eq {ty.text} {lhs.text module function}, {rhs.text module function}"
  | zext value ty => s!"zext {value.typedText module function} to {ty.text}"
  | call callee ret args =>
    let args := ", ".intercalate (args.map (·.typedText module function))
    s!"call {ret.text} {module.calleeText callee}({args})"

/-- How a block ends: `ret` with a value, or `br` with a condition and two labels. -/
def Terminator.text (module : Module) (function : Function) : Terminator → String
  | ret value => s!"ret {value.typedText module function}"
  | condBr cond yes no =>
    let yes := function.numberText (.label yes)
    let no := function.numberText (.label no)
    s!"br {cond.typedText module function}, label {yes}, label {no}"

/-- The lines of the block with an id: its label and its results, each behind the number that
`Function.number` has for it, and its terminator. -/
def Block.lines (module : Module) (function : Function) (block : Block) (id : BlockId) :
    List Line :=
  let results := block.insts.map fun inst =>
    Line.result (function.number (.result inst.id)) (inst.operation.text module function)
  let close := block.terminator.toList.map fun t => Line.terminator (t.text module function)
  .label (function.number (.label id)) :: results ++ close

/-- The lines of blocks, the first of which has the id `id`, with a blank line between each two. -/
def Function.linesFrom (module : Module) (function : Function) (id : BlockId) :
    List Block → List Line
  | [] => []
  | [block] => block.lines module function id
  | block :: blocks =>
    block.lines module function id ++ .blank :: function.linesFrom module (id + 1) blocks

namespace Function

/-- The lines of the body of a function, block by block. -/
def lines (module : Module) (function : Function) : List Line :=
  function.linesFrom module 0 function.blocks

/-- The head of a function, up to and including its brace. -/
def header (function : Function) : String :=
  let linkage :=
    match function.linkage with
    | .entry _ => ""
    | .internal _ => "private "
  let params := function.params.map fun param => s!"{param.ty.text} %{quoteName param.name}"
  let params := ", ".intercalate params
  s!"define {linkage}{function.ret.text} {function.symbol}({params}) \x7b"

/-- The text of a function: its header, the lines of its body and the closing brace. -/
def text (module : Module) (function : Function) : String :=
  let lines := function.header :: (function.lines module).map Line.text ++ ["\x7d"]
  String.join (lines.map (· ++ "\n"))

end Function

/-- The text of a module that passes `verify`: its functions with a blank line between each two. -/
def Module.render (module : Module) : Except Error String := do
  module.verify
  return "\n".intercalate (module.functions.map (·.text module))

end Runic.Ir
