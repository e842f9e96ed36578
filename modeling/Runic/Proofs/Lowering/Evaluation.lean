import Mathlib.Data.List.Dedup
import Mathlib.Data.List.Sort
import Mathlib.Data.String.Basic
import Runic.Proofs.Lowering.Reading

/-!
# What canonical trees mean

A tree is evaluated in a scope, without any code being made of it.  What comes out is an atom, a
truth value or a gate.  Evaluation reads numerals and samples by itself (`Node.number?` and
`Node.samples?`) and shares with lowering only the trees and the names that are reserved.

* `=/` puts a value into the scope, `?:` evaluates the arm that its test chooses.
* `|=` is a gate: its body, the names of its parameters and the gates that are known in it.  It
  holds no data; the data faces around it are parameters, and whoever calls it fills them in from
  its own scope.  `|-` is such a gate without samples, called at once.
* `%-` calls a gate with arguments for its last parameters, `%=` with arguments by name.  Every
  parameter that is left takes the value of its name in the scope of the caller.
* `$` is the gate that is being executed.

Calls may go on forever, so that evaluation is cut off at a depth of calls: `Halt.exhausted`.
`Halt.stuck` is for trees without a meaning.  `Node.Yields` says that some depth suffices.
-/

namespace Runic

/-- A gate: the names of its parameters, the gates known in its body, and the body. -/
inductive Gate where
  | mk (params : List String) (known : List (String × Gate)) (body : Node)

namespace Gate

/-- The names of the parameters. -/
def params : Gate → List String
  | mk params _ _ => params

/-- The gates known in the body. -/
def known : Gate → List (String × Gate)
  | mk _ known _ => known

/-- The tree that a call of the gate evaluates. -/
def body : Gate → Node
  | mk _ _ body => body

end Gate

/-- What a tree can stand for: an atom, a truth value or a gate. -/
inductive Datum (bits : Nat) where
  | atom (word : BitVec bits)
  | truth (flag : Bool)
  | gate (gate : Gate)

/-- Why there is no result. -/
inductive Halt where
  /-- The depth of calls does not suffice. -/
  | exhausted
  /-- The tree has no meaning. -/
  | stuck
deriving DecidableEq

/-- What the names stand for, the newest in front. -/
abbrev Scope (bits : Nat) : Type := List (String × Datum bits)

variable {bits : Nat}

/-- The atom for a datum: a truth value counts as 0 or 1, and a gate is no atom. -/
def Datum.word : Datum bits → Except Halt (BitVec bits)
  | .atom word => .ok word
  | .truth flag => .ok (if flag then 1 else 0)
  | .gate _ => .error .stuck

/-- The gate that a datum is. -/
def Datum.gate? : Datum bits → Option Gate
  | .gate found => some found
  | .atom _ | .truth _ => none

/-- The gate that the head of a call stands for.  Of `.` this is the gate that is being executed, of
any other tree its value. -/
def headGate (self : Gate) (target : Node) (value : Except Halt (Datum bits)) :
    Except Halt Gate :=
  match target with
  | .dot _ => .ok self
  | _ => do
    match (← value).gate? with
    | some gate => .ok gate
    | none => .error .stuck

namespace Scope

/-- What `name` stands for in the scope. -/
def get (scope : Scope bits) (name : String) : Except Halt (Datum bits) :=
  match scope.lookup name with
  | some datum => .ok datum
  | none => .error .stuck

/-- The atom that `name` stands for in the scope. -/
def word (scope : Scope bits) (name : String) : Except Halt (BitVec bits) := do
  (← scope.get name).word

/-- The name stands for data, not for a gate. -/
def isData (scope : Scope bits) (name : String) : Bool :=
  match scope.lookup name with
  | some datum => datum.gate?.isNone
  | none => false

/-- The names of data that become parameters of a function, in their order.  A slot does not, nor
does a name that a sample hides. -/
def captured (scope : Scope bits) (samples : List String) : List String :=
  let names := (scope.map Prod.fst).dedup.filter fun name =>
    scope.isData name && !isReserved name && !samples.contains name
  names.insertionSort (· ≤ ·)

/-- The gate that `name` stands for, unless a sample hides it. -/
def gate? (scope : Scope bits) (samples : List String) (name : String) : Option Gate :=
  if samples.contains name then none else (scope.lookup name).bind Datum.gate?

/-- The gates of the scope that are known inside a function with these samples. -/
def gates (scope : Scope bits) (samples : List String) : List (String × Gate) :=
  (scope.map Prod.fst).filterMap fun name => (scope.gate? samples name).map (name, ·)

end Scope

/-- The scope of the body of a gate that is called with `args`: the parameters, and the gates known
in it. -/
def Gate.scope (gate : Gate) (args : List (BitVec bits)) : Scope bits :=
  gate.params.zip (args.map .atom) ++ gate.known.map fun (name, gate) => (name, .gate gate)

/-- The gates of arithmetic, which are known without being in the scope. -/
def arithmetic (bits : Nat) : String → Option (List (BitVec bits) → Option (BitVec bits))
  | "dec" => some fun | [a] => some (a - 1) | _ => none
  | "add" => some fun | [a, b] => some (a + b) | _ => none
  | "sub" => some fun | [a, b] => some (a - b) | _ => none
  | "mul" => some fun | [a, b] => some (a * b) | _ => none
  | _ => none

section Evaluation

variable (call : Gate → List (BitVec bits) → Except Halt (BitVec bits)) (self : Gate)

mutual

/-- Evaluate a tree inside a gate.  `call` says what the gates that it calls return. -/
def eval (node : Node) (scope : Scope bits) : Except Halt (Datum bits) :=
  match node with
  | .num digits _ =>
    match Node.number? digits with
    | some number => .ok (.atom (BitVec.ofInt bits number))
    | none => .error .stuck
  | .face name _ => scope.get name
  | .buc _ => .ok (.gate self)
  | .faced _ value _ => eval value scope
  | .rune .dottis [left, right] _ => do
    let left ← (← eval left scope).word
    let right ← (← eval right scope).word
    return .truth (left == right)
  | .rune .dotlus [value] _ => do
    let value ← (← eval value scope).word
    return .atom (value + 1)
  | .rune .tisfas [.face name _, value, body] _ => do
    let value ← eval value scope
    eval body ((name, value) :: scope)
  | .rune .wutcol [test, yes, no] _ => do
    match ← eval test scope with
    | .truth true => eval yes scope
    | .truth false => eval no scope
    | _ => .error .stuck
  | .rune .barhep [body] _ => do
    let params := scope.captured []
    let args ← params.mapM scope.word
    return .atom (← call (.mk params (scope.gates []) body) args)
  | .rune .bartis [sample, body] _ =>
    match sample.samples? with
    | some samples =>
      .ok (.gate (.mk (scope.captured samples ++ samples) (scope.gates samples) body))
    | none => .error .stuck
  | .rune .cenhep (target :: args) _ =>
    match target.face?.bind (arithmetic bits) with
    | some compute => do
      match compute (← evalWords args scope) with
      | some word => return .atom word
      | none => .error .stuck
    | none => do
      let gate ← headGate self target (eval target scope)
      if args.length ≤ gate.params.length then
        let first ← (gate.params.take (gate.params.length - args.length)).mapM scope.word
        let last ← evalWords args scope
        return .atom (← call gate (first ++ last))
      else .error .stuck
  | .rune .centis (target :: pairs) _ => do
    let gate ← headGate self target (eval target scope)
    let args ← gate.params.mapM fun name => evalNamed pairs name scope
    return .atom (← call gate args)
  | _ => .error .stuck

/-- Evaluate trees to atoms, from left to right. -/
def evalWords (nodes : List Node) (scope : Scope bits) : Except Halt (List (BitVec bits)) :=
  match nodes with
  | [] => .ok []
  | node :: nodes => do
    let word ← (← eval node scope).word
    let words ← evalWords nodes scope
    return word :: words

/-- The atom for the parameter `name`: from the first pair of this name, or else from the scope. -/
def evalNamed (pairs : List Node) (name : String) (scope : Scope bits) :
    Except Halt (BitVec bits) :=
  match pairs with
  | .face label _ :: value :: rest =>
    if label = name then do (← eval value scope).word else evalNamed rest name scope
  | _ => scope.word name

end

end Evaluation

/-- What a gate returns if its calls are nested no deeper than `depth`. -/
def Gate.invoke (depth : Nat) (gate : Gate) (args : List (BitVec bits)) :
    Except Halt (BitVec bits) :=
  match depth with
  | 0 => .error .exhausted
  | depth + 1 => do (← eval (Gate.invoke depth) gate gate.body (gate.scope args)).word

/-- A tree as the body of a gate without parameters. -/
def Node.asGate (node : Node) : Gate := .mk [] [] node

/-- The tree stands for the atom `word`, at some depth of calls. -/
def Node.Yields (node : Node) (word : BitVec bits) : Prop :=
  ∃ depth, node.asGate.invoke depth [] = .ok word

end Runic
