import Runic.Ir.Verify
import Runic.Lowering.Builtin
import Runic.Lowering.Capture
import Runic.Lowering.Numeral

/-!
# Code from canonical trees

A tree is lowered under a subject into an open block of a function.  What comes out is an operand,
or nothing if the tree was a conditional: then the block is closed and both branches have returned
from the function.

Every operand is an atom of one width, a truth value or a function.

* `=/` binds an operand and goes on with the body.
* `?:` closes the block with a branch to two new ones, so it must stand last.
* `.+`, `.=` and calls of built-in gates are one instruction.
* `|-` is a new function and a call of it, `|=` only the function.
* `%-` calls a function with arguments for its last parameters; `%=` with named ones.  Every
  other parameter is taken from the subject of the caller, under the same face.

Truth values become atoms wherever an atom is due (`widen`).  What was built before a failure
stays in the module.
-/

namespace Runic

open Ir

/-- Where code goes: the type of atoms, and an open block of a function. -/
structure Site where
  atom : Ty
  func : FuncId
  block : BlockId
deriving DecidableEq, Repr

namespace Lowering

/-! ## Operands -/

/-- Fail with `fault` at `span`. -/
def fail {α : Type} (span : Span) (fault : LowerFault) : Build α :=
  Attempt.fail (.lower span fault)

/-- Append an operation at `site` and return its result. -/
def emit (site : Site) (operation : Operation) : Build (Option Value) := do
  let value ← Build.append site.func site.block operation
  return some value

/-- An operand as an atom.  A truth value is widened, a function refused. -/
def widen (site : Site) (span : Span) (value : Value) : Build Value :=
  match value.ty? with
  | some .bool => Build.append site.func site.block (.zext value site.atom)
  | some (.int _) => return value
  | none => fail span .gateAsData

/-- Return an operand from the function of `site`, unless the block is closed already. -/
def finish (site : Site) (span : Span) (result : Option Value) : Build Unit := do
  match result with
  | none => return ()
  | some value =>
    let value ← widen site span value
    Build.terminate site.func site.block (.ret value)

/-- The operand that `lowered` gives.  A conditional gives none and is an error at `span`. -/
def operand (span : Span) (lowered : Build (Option Value)) : Build Value := do
  match ← lowered with
  | some value => return value
  | none => fail span .branchNotTail

/-- The operand that `lowered` gives, as an atom. -/
def atomOperand (site : Site) (span : Span) (lowered : Build (Option Value)) : Build Value := do
  let value ← operand span lowered
  widen site span value

/-! ## Functions -/

/-- How the head of a call says what is called. -/
inductive Head where
  /-- The function in which the call stands. -/
  | here
  /-- A built-in gate or a face of the subject. -/
  | named (name : String)
  /-- The value of an expression. -/
  | computed
  /-- Nothing that can be called. -/
  | refused
deriving DecidableEq, Repr

/-- What a tree is as the head of a call. -/
def Head.of : Node → Head
  | .buc _ | .dot _ => .here
  | .face name _ => .named name
  | .rune _ _ _ => .computed
  | .pat _ | .faced _ _ _ | .num _ _ | .cell _ _ _ => .refused

/-- The atom that `face` stands for in `subject`. -/
def subjectAtom (subject : Subject) (site : Site) (span : Span) (face : String) : Build Value :=
  match subject.get? face with
  | some value => widen site span value
  | none => fail span (.missingFace face)

/-- The function that `face` stands for in `subject`. -/
def gate (subject : Subject) (span : Span) (face : String) : Build FuncId :=
  match subject.get? face with
  | some (.func id) => return id
  | some _ => fail span (.notAGate face)
  | none => fail span (.unknownGate face)

/-- The names of the parameters of the function `callee`. -/
def paramNames (callee : FuncId) : Build (List String) := do
  let function ← Build.function callee
  return function.params.map Param.name

/-- Build an internal function whose parameters are `captured` and then `samples`, and whose body is
lowered in the inner subject.  The result of the body is returned. -/
def define (atom : Ty) (subject : Subject) (captured samples : List String) (span : Span)
    (body : Subject → Site → Build (Option Value)) : Build FuncId := do
  let params := atomParams atom (captured ++ samples)
  let func ← Build.addInternal params atom
  let block ← Build.addBlock func
  let site := ⟨atom, func, block⟩
  let result ← body (innerSubject subject samples params) site
  finish site span result
  return func

/-- Call a function with `count` arguments for its last parameters. -/
def callWith (subject : Subject) (site : Site) (span : Span) (callee : FuncId) (count : Nat)
    (args : Build (List Value)) : Build (Option Value) := do
  let params ← paramNames callee
  if params.length < count then fail span (.tooManyArguments params.length count)
  else
    let first ← (params.take (params.length - count)).mapM (subjectAtom subject site span)
    let last ← args
    emit site (.call callee site.atom (first ++ last))

/-- The trees at the even places of a list of pairs are faces. -/
def checkNames : List Node → Except Error Unit
  | .face _ _ :: _ :: rest => checkNames rest
  | other :: _ :: _ => .error (.lower other.span (.notFace .centis other))
  | _ => .ok ()

/-- The arguments of `%=` are pairs of names and values. -/
def checkPairs (span : Span) (pairs : List Node) : Except Error Unit :=
  if pairs.length % 2 ≠ 0 then .error (.lower span .oddPairs) else checkNames pairs

/-! ## Trees -/

mutual

/-- Lower a canonical tree at `site`, with the faces of `subject` bound.  The result is its operand,
or nothing if all its branches have returned. -/
def lower (node : Node) (subject : Subject) (site : Site) : Build (Option Value) :=
  match node with
  | .num digits span => do
    let value ← Attempt.ofExcept (numeral site.atom digits span)
    return some value
  | .face name span =>
    match subject.get? name with
    | some value => return some value
    | none => fail span (.unboundFace name)
  | .buc _ => return some (.func site.func)
  | .faced _ value _ => lower value subject site
  | .cell _ _ span => fail span (.cellAsAtom node)
  | .pat span => fail span (.notAValue node)
  | .dot span => fail span (.notAValue node)
  | .rune .dottis [left, right] _ => do
    let left ← atomOperand site left.span (lower left subject site)
    let right ← atomOperand site right.span (lower right subject site)
    emit site (.icmpEq site.atom left right)
  | .rune .dotlus [value] _ => do
    let value ← atomOperand site value.span (lower value subject site)
    emit site (.binary .add site.atom value (.const site.atom 1))
  | .rune .tisfas [name, value, body] _ =>
    match name with
    | .face face _ => do
      let value ← operand value.span (lower value subject site)
      lower body (subject.bind face value) site
    | _ => fail name.span (.notFace .tisfas name)
  | .rune .wutcol [test, yes, no] _ => do
    let cond ← operand test.span (lower test subject site)
    if cond.ty? = some .bool then
      let yesBlock ← Build.addBlock site.func
      let noBlock ← Build.addBlock site.func
      Build.terminate site.func site.block (.condBr cond yesBlock noBlock)
      let yesSite := { site with block := yesBlock }
      let result ← lower yes subject yesSite
      finish yesSite yes.span result
      let noSite := { site with block := noBlock }
      let result ← lower no subject noSite
      finish noSite no.span result
      return none
    else fail test.span (.notBoolean test)
  | .rune .barhep [body] span => do
    let captured := capturedFaces subject []
    let trap ← define site.atom subject (captured.map Prod.fst) [] body.span
      fun subject site => lower body subject site
    let args ← captured.mapM fun (_, value) => widen site span value
    emit site (.call trap site.atom args)
  | .rune .bartis [sample, body] _ => do
    let samples ← Attempt.ofExcept (sampleFaces sample)
    let captured := capturedFaces subject samples
    let gate ← define site.atom subject (captured.map Prod.fst) samples body.span
      fun subject site => lower body subject site
    return some (.func gate)
  | .rune .cenhep (target :: args) span =>
    match Head.of target with
    | .here => callWith subject site span site.func args.length (lowerAtoms args subject site)
    | .named name =>
      match Builtin.find? name with
      | some builtin =>
        match builtin.constant, args with
        | some constant, [left] => do
          let left ← atomOperand site left.span (lower left subject site)
          emit site (.binary builtin.op site.atom left (.const site.atom constant))
        | none, [left, right] => do
          let left ← atomOperand site left.span (lower left subject site)
          let right ← atomOperand site right.span (lower right subject site)
          emit site (.binary builtin.op site.atom left right)
        | _, _ => fail span (.builtinArity name builtin.arity args.length)
      | none => do
        let callee ← gate subject target.span name
        callWith subject site span callee args.length (lowerAtoms args subject site)
    | .computed => do
      match ← operand target.span (lower target subject site) with
      | .func callee =>
        callWith subject site span callee args.length (lowerAtoms args subject site)
      | _ => fail target.span (.noGateProduced target)
    | .refused => fail target.span (.notCallable target)
  | .rune .centis (target :: pairs) span => do
    let callee ←
      match Head.of target with
      | .here => pure site.func
      | .named name => gate subject target.span name
      | .computed | .refused => fail target.span (.overrideTarget target)
    Attempt.ofExcept (checkPairs span pairs)
    let params ← paramNames callee
    let args ← params.mapM fun name => lowerNamed pairs name subject site span
    emit site (.call callee site.atom args)
  | .rune rune args span =>
    if rune.isCanonical then fail span (.arity rune args.length)
    else fail span (.notCanonical rune)

/-- Lower trees to atoms, from left to right. -/
def lowerAtoms (nodes : List Node) (subject : Subject) (site : Site) : Build (List Value) :=
  match nodes with
  | [] => return []
  | node :: nodes => do
    let value ← atomOperand site node.span (lower node subject site)
    let values ← lowerAtoms nodes subject site
    return value :: values

/-- The atom for the parameter `name`: from the first pair with this name, or else from the
subject. -/
def lowerNamed (pairs : List Node) (name : String) (subject : Subject) (site : Site)
    (span : Span) : Build Value :=
  match pairs with
  | .face face _ :: value :: rest =>
    if face = name then atomOperand site value.span (lower value subject site)
    else lowerNamed rest name subject site span
  | _ => subjectAtom subject site span name

end

/-- Lower a tree as the body of an exported function, in the empty subject. -/
def lowerEntry (atom : Ty) (name : String) (node : Node) : Build FuncId := do
  let func ← Build.addEntry name atom
  let block ← Build.addBlock func
  let site := ⟨atom, func, block⟩
  let result ← lower node .empty site
  finish site node.span result
  return func

end Lowering

/-- The module of a canonical tree, which has passed `verify`. -/
def Node.toModule (node : Node) (atom : Ty) (entry : String) : Except Error Module :=
  match Lowering.lowerEntry atom entry node Module.empty with
  | (.ok _, module) => do
    module.verify
    return module
  | (.error error, _) => .error error

end Runic
