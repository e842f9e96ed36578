import Runic.Ir.Symbol

/-!
# Modules of code

Code is a module of functions in static single assignment form: a function is a list of blocks, a
block a list of instructions closed by a terminator, and the result of an instruction is known by
the id the instruction was given when it was appended.

This file has the types; changing a module is the subject of `Runic.Ir.Builder`, checking one of
`Runic.Ir.Verify`, and its text of `Runic.Ir.Render`.
-/

namespace Runic.Ir

/-- A function, by its place in `Module.functions`. -/
abbrev FuncId := Nat

/-- A block, by its place in `Function.blocks`. -/
abbrev BlockId := Nat

/-- An instruction, by the order of creation in its function.  Refused ones count too. -/
abbrev InstId := Nat

/-- The type of a value at run time. -/
inductive Ty where
  /-- Integers of a width. -/
  | int (bits : Nat)
  /-- What an equality test gives. -/
  | bool
deriving DecidableEq, Repr

/-- The type as it is written. -/
def Ty.text : Ty → String
  | int bits => s!"i{bits}"
  | bool => "i1"

/-- An operand of an instruction or of a terminator. -/
inductive Value where
  | const (ty : Ty) (value : Int)
  | param (ty : Ty) (name : String)
  /-- The result of an instruction. -/
  | inst (ty : Ty) (id : InstId)
  /-- A function, only good for being called. -/
  | func (id : FuncId)
deriving DecidableEq, Repr

namespace Value

/-- The type at run time, which a function does not have. -/
def ty? : Value → Option Ty
  | const ty _ | param ty _ | inst ty _ => some ty
  | func _ => none

/-- The function that an operand stands for, if it is one. -/
def func? : Value → Option FuncId
  | func id => some id
  | _ => none

end Value

/-- Arithmetic on two operands. -/
inductive BinaryOp where
  | add | sub | mul
deriving DecidableEq, Repr

/-- The operator as it is written. -/
def BinaryOp.text : BinaryOp → String
  | add => "add"
  | sub => "sub"
  | mul => "mul"

/-- What an instruction computes. -/
inductive Operation where
  | binary (op : BinaryOp) (ty : Ty) (lhs rhs : Value)
  /-- Are the operands equal? -/
  | icmpEq (ty : Ty) (lhs rhs : Value)
  /-- Widen with zeros. -/
  | zext (value : Value) (ty : Ty)
  | call (callee : FuncId) (ret : Ty) (args : List Value)
deriving DecidableEq, Repr

/-- The type of the result. -/
def Operation.ty : Operation → Ty
  | binary _ ty _ _ => ty
  | icmpEq _ _ _ => .bool
  | zext _ ty => ty
  | call _ ret _ => ret

/-- An operation and the id under which operands refer to its result. -/
structure Inst where
  id : InstId
  operation : Operation
deriving DecidableEq, Repr

/-- The end of a block: a return, or a branch to one of two blocks. -/
inductive Terminator where
  | ret (value : Value)
  | condBr (cond : Value) (yes no : BlockId)
deriving DecidableEq, Repr

/-- Instructions, and the terminator once the block is closed. -/
structure Block where
  insts : List Inst
  terminator : Option Terminator
deriving DecidableEq, Repr

/-- A block without instructions that is not closed. -/
def Block.empty : Block := ⟨[], none⟩

/-- A parameter of a function. -/
structure Param where
  name : String
  ty : Ty
deriving DecidableEq, Repr

/-- The parameter as an operand. -/
def Param.value (param : Param) : Value := .param param.ty param.name

/-- How a function is known outside of its own text. -/
inductive Linkage where
  /-- Exported under a name. -/
  | entry (name : String)
  /-- Known in the module only, by a number. -/
  | internal (number : Nat)
deriving DecidableEq, Repr

/-- The symbol by which calls name a function. -/
def Linkage.symbol : Linkage → String
  | entry name => "@" ++ quoteName name
  | internal number => s!"@{number}"

/-- A function: how it is known, its parameters and result, and its blocks in the order of
creation. -/
structure Function where
  linkage : Linkage
  params : List Param
  ret : Ty
  blocks : List Block
  /-- The id of the next instruction. -/
  nextInst : InstId
deriving DecidableEq, Repr

namespace Function

/-- A function without blocks, as the builder declares it. -/
def declare (linkage : Linkage) (params : List Param) (ret : Ty) : Function :=
  ⟨linkage, params, ret, [], 0⟩

/-- The symbol of a function. -/
def symbol (function : Function) : String := function.linkage.symbol

/-- The parameter at `index` as an operand. -/
def param? (function : Function) (index : Nat) : Option Value :=
  function.params[index]?.map Param.value

end Function

/-- The functions of a module, in the order of declaration. -/
structure Module where
  functions : List Function
  /-- The number of the next internal function. -/
  nextInternal : Nat
deriving DecidableEq, Repr

namespace Module

/-- A module without functions. -/
def empty : Module := ⟨[], 0⟩

end Module

end Runic.Ir
