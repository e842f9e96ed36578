import Runic.Ir.Basic

/-!
# Built-in gates

Four names of arithmetic are known without being bound.  At the head of a call they come before
the subject, and the call is a single instruction.
-/

namespace Runic

open Ir (BinaryOp)

/-- A gate that is lowered to one instruction instead of a call. -/
structure Builtin where
  name : String
  op : BinaryOp
  /-- The right operand, if it is not an argument. -/
  constant : Option Int
deriving DecidableEq, Repr

namespace Builtin

/-- The built-in gates: decrement, and the three operations on two atoms. -/
def all : List Builtin := [
  ⟨"dec", .sub, some 1⟩,
  ⟨"add", .add, none⟩,
  ⟨"sub", .sub, none⟩,
  ⟨"mul", .mul, none⟩]

/-- The number of arguments, which is one if the right operand is a constant. -/
def arity (builtin : Builtin) : Nat :=
  match builtin.constant with
  | some _ => 1
  | none => 2

/-- The built-in gate called `name`. -/
def find? (name : String) : Option Builtin := all.find? (·.name = name)

end Builtin

end Runic
