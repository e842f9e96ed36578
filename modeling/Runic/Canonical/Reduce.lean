import Runic.Canonical.Weight

/-!
# Canonical form

`reduce` brings a tree into canonical form: it expands a rune for as long as it is short for
something, and then goes on with the arguments.  Expansion comes first, so it sees the arguments
as they were written.

The name that `=/` binds is not an expression and is left alone, except that a name with its mold
becomes the name.
-/

namespace Runic

/-- The name that a binding binds, without the mold it may be written with. -/
def boundName : Node → Node
  | .faced label _ span => .face label span
  | node => node

mutual

/-- The canonical form of a tree: `expand` is applied at the top until the rune is canonical, and
then the arguments are reduced from left to right. -/
def reduce (node : Node) : Except Error Node :=
  match node with
  | .faced label value span => do
    let value ← reduce value
    return .faced label value span
  | .cell head tail span => do
    let head ← reduce head
    let tail ← reduce tail
    return .cell head tail span
  | .rune .tisfas args span =>
    match args with
    | [name, value, body] => do
      let value ← reduce value
      let body ← reduce body
      return .rune .tisfas [boundName name, value, body] span
    | _ => .error (.reduce span (.arity .tisfas 3 args.length))
  | .rune rune args span =>
    if rune.isCanonical then do
      let args ← reduceAll args
      return .rune rune args span
    else
      match _expanded : expand rune args span with
      | .ok expansion => reduce expansion
      | .error error => .error error
  | leaf => .ok leaf
termination_by 2 * node.weight
decreasing_by
  · simp only [Node.weight]; omega
  · simp only [Node.weight]; omega
  · simp only [Node.weight]; omega
  · have := weight_lt_of_mem .tisfas span (show value ∈ [name, value, body] by simp)
    omega
  · have := weight_lt_of_mem .tisfas span (show body ∈ [name, value, body] by simp)
    omega
  · have := weights_lt_weight rune args span
    omega
  · have := weight_expand _expanded
    omega

/-- The canonical forms of `nodes`, from left to right; the first error ends it. -/
def reduceAll (nodes : List Node) : Except Error (List Node) :=
  match nodes with
  | [] => .ok []
  | node :: nodes => do
    let node ← reduce node
    let nodes ← reduceAll nodes
    return node :: nodes
termination_by 2 * weights nodes + 1
decreasing_by
  all_goals simp only [weights]
  · omega
  · have := node.weight_pos; omega

end

end Runic
