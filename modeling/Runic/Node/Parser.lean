import Runic.Node.Cursor

/-!
# Reading trees

A recursive-descent reader for the wide and the tall form.  Any mismatch is fatal.

* An expression (`expr`) is a chain of operands joined by `:` and `=`, grouped to the left.
* An operand (`operand`) is a leaf, a bracketed form or a rune with its arguments.
* A rune followed by `(` takes its arguments in wide form (`wide`), separated by single spaces;
  otherwise it takes them in tall form (`tall`), each behind a gap.
* A jogging list is a list of pairs.  In wide form commas stand between the pairs, in tall form a
  closer ends the list.

The readers call each other along the tokens, and each call has a budget.  `Cursor.budget` is
always enough, because no reader goes more than a few calls deep without taking a token; a reader
whose budget is used up therefore stands at the end of the source, and says so.
-/

namespace Runic

namespace Parse

/-- The error that an expression is due where the source ends. -/
def endOfInput {α : Type} : Parse α := do
  let token ← peek
  fail token.span .endOfInput

/-- The application of `rune` to `args`, from the offset `start` to the end of the token taken
last. -/
def applied (rune : Rune) (args : List Node) (start : Nat) : Parse Node := do
  let span ← spanFrom start
  return .rune rune args span

mutual

/-- A chain of operands, joined by `:` and `=`. -/
def expr : Nat → Parse Node
  | 0 => endOfInput
  | budget + 1 => do
    let start := (← peek).span.start
    let first ← operand budget
    chain budget start first

/-- What may follow the left part of a chain that starts at an offset: a mark of `precedence?` with
an operand behind it, again and again. -/
def chain : Nat → Nat → Node → Parse Node
  | 0, _, _ => endOfInput
  | budget + 1, start, left => do
    let mark ← peek
    match mark.kind with
    | .mark .col =>
      let _ ← bump
      let right ← operand budget
      chain budget start (← applied .tisgal [left, right] start)
    | .mark .tis =>
      let _ ← bump
      let right ← operand budget
      match left with
      | .face name _ => chain budget start (.faced name right (← spanFrom start))
      | _ => fail mark.span .labelNotFace
    | _ => return left

/-- A leaf, a bracketed form or a rune with its arguments. -/
def operand : Nat → Parse Node
  | 0 => endOfInput
  | budget + 1 => do
    let token ← bump
    let start := token.span.start
    match token.kind with
    | .face => gateCall budget start (.face token.text token.span)
    | .mark .buc => gateCall budget start (.buc token.span)
    | .num => return .num token.text token.span
    | .mark .pat => return .pat token.span
    | .mark .dot => return .dot token.span
    | .rune => application budget token
    | .mark .lus =>
      expect (.mark .pal)
      let value ← expr budget
      expect (.mark .par)
      applied .dotlus [value] start
    | .mark .tis =>
      expect (.mark .pal)
      let left ← expr budget
      expect .ace
      let right ← expr budget
      expect (.mark .par)
      applied .dottis [left, right] start
    | .mark .pal =>
      let args ← wideList budget
      applied .cenhep args start
    | .mark .sel =>
      let node ← cons budget
      expect (.mark .ser)
      return node
    | .eof => fail token.span .endOfInput
    | kind => fail token.span (.unexpected kind token.text)

/-- A name or `$`, and if a parenthesis follows the call `%=` it is short for. -/
def gateCall : Nat → Nat → Node → Parse Node
  | 0, _, _ => endOfInput
  | budget + 1, start, target => do
    if (← peek).kind = .mark .pal then
      let _ ← bump
      let pairs ←
        if (← peek).kind = .mark .par then
          let _ ← bump
          pure []
        else callPairs budget
      applied .centis (target :: pairs) start
    else
      return target

/-- Pairs of a call, at least one, up to and including `)`. -/
def callPairs : Nat → Parse (List Node)
  | 0 => endOfInput
  | budget + 1 => do
    let name ← expr budget
    expect .ace
    let value ← expr budget
    if (← peek).kind = .mark .par then
      let _ ← bump
      return [name, value]
    else
      expect (.mark .com)
      expect .ace
      let pairs ← callPairs budget
      return name :: value :: pairs

/-- The items of a bracketed sequence up to but not including `]`. -/
def cons : Nat → Parse Node
  | 0 => endOfInput
  | budget + 1 => do
    let start := (← peek).span.start
    let head ← expr budget
    if (← peek).kind = .mark .ser then
      return head
    else
      expect .ace
      let tail ← cons budget
      return .cell head tail (← spanFrom start)

/-- Expressions with single spaces between them, at least one, up to and including `)`. -/
def wideList : Nat → Parse (List Node)
  | 0 => endOfInput
  | budget + 1 => do
    let node ← expr budget
    if (← peek).kind = .mark .par then
      let _ ← bump
      return [node]
    else
      expect .ace
      let nodes ← wideList budget
      return node :: nodes

/-- The arguments of a rune that was taken, in wide form behind a parenthesis and in tall form
otherwise. -/
def application : Nat → Token → Parse Node
  | 0, _ => endOfInput
  | budget + 1, token => do
    let rune := Rune.ofText token.text
    match rune.signature? with
    | none => Attempt.fail (.unknownRune token.span token.text)
    | some signature =>
      let args ←
        if (← peek).kind = .mark .pal then wide budget rune signature token.span
        else tall budget rune signature token.span
      applied rune args token.span.start

/-- Arguments in wide form.  Only here does their number need a check: a tall form stops by
itself. -/
def wide : Nat → Rune → Signature → Span → Parse (List Node)
  | 0, _, _, _ => endOfInput
  | budget + 1, rune, signature, span => do
    if signature.tail = .arms then fail span (.noWideForm rune)
    else
      expect (.mark .pal)
      let args ←
        if signature.tail = .pairs then wideJogging budget signature
        else if (← peek).kind = .mark .par then
          let _ ← bump
          pure []
        else wideList budget
      if signature.accepts args.length then return args
      else fail span (.arity rune signature args.length)

/-- As many fixed arguments in wide form as asked for, with separators between them. -/
def wideFixed : Nat → Nat → Parse (List Node)
  | _, 0 => return []
  | 0, _ + 1 => endOfInput
  | budget + 1, 1 => return [← expr budget]
  | budget + 1, count + 2 => do
    let node ← expr budget
    expect .ace
    let nodes ← wideFixed budget (count + 1)
    return node :: nodes

/-- Fixed arguments, then pairs if any, then the arguments behind them, up to and including `)`. -/
def wideJogging : Nat → Signature → Parse (List Node)
  | 0, _ => endOfInput
  | budget + 1, signature => do
    let fixed ← wideFixed budget signature.args
    if (← peek).kind = .mark .par then
      let _ ← bump
      return fixed
    else
      if 0 < signature.args then expect .ace
      let pairs ← widePairs budget signature
      return fixed ++ pairs

/-- Pairs with commas between them, at least one, then the arguments behind them if the signature
has any, up to and including `)`. -/
def widePairs : Nat → Signature → Parse (List Node)
  | 0, _ => endOfInput
  | budget + 1, signature => do
    let name ← expr budget
    expect .ace
    let value ← expr budget
    let token ← peek
    if token.kind = .mark .par then
      let _ ← bump
      return [name, value]
    else if token.kind = .mark .com then
      let _ ← bump
      expect .ace
      let rest ← widePairs budget signature
      return name :: value :: rest
    else if token.kind = .ace ∧ 0 < signature.post then
      let _ ← bump
      let rest ← wideList budget
      return name :: value :: rest
    else
      fail token.span (.expectedCommaOrPar token)

/-- The arguments of `rune` in tall form: fixed ones, the tail up to its closer, and the fixed ones
behind it. -/
def tall : Nat → Rune → Signature → Span → Parse (List Node)
  | 0, _, _, _ => endOfInput
  | budget + 1, rune, signature, span => do
    let fixed ← tallFixed budget signature.args
    let items ←
      match signature.tail with
      | .fixed => pure []
      | .pairs | .list => tallUntil budget .tistis rune span
      | .arms => tallUntil budget .hephep rune span
    if signature.tail = .pairs ∧ items.length % 2 ≠ 0 then fail span (.oddPairs rune)
    else
      let post ← tallFixed budget signature.post
      return fixed ++ items ++ post

/-- As many fixed arguments in tall form as asked for, each behind a gap. -/
def tallFixed : Nat → Nat → Parse (List Node)
  | _, 0 => return []
  | 0, _ + 1 => endOfInput
  | budget + 1, count + 1 => do
    expectGap
    let node ← expr budget
    let nodes ← tallFixed budget count
    return node :: nodes

/-- Items, each behind a gap, up to and including the token `closer`. -/
def tallUntil : Nat → Kind → Rune → Span → Parse (List Node)
  | 0, _, _, _ => endOfInput
  | budget + 1, closer, rune, span => do
    if (← peek).kind = .eof then fail span (.unterminated rune closer)
    else
      expectGap
      let token ← peek
      if token.kind = closer then
        let _ ← bump
        return []
      else if token.kind = .eof then fail span (.unterminated rune closer)
      else
        let node ← expr budget
        let nodes ← tallUntil budget closer rune span
        return node :: nodes

end

end Parse

/-- A budget that `expr` cannot use up on the tokens behind a cursor. -/
def Cursor.budget (cursor : Cursor) : Nat := 8 * (cursor.raw.length + 1)

/-- One expression, with `Cursor.budget` to spend. -/
def Parse.expression : Parse Node := fun cursor => expr cursor.budget cursor

/-- One expression with nothing but layout around it, up to the end of the source. -/
def Parse.whole : Parse Node := do
  skipSeparator
  let node ← expression
  skipSeparator
  let token ← peek
  if token.kind = .eof then return node
  else fail token.span (.trailing token.text)

/-- The tree of a source, or the first error of its tokens or its grammar. -/
def parse (source : String) : Except Error Node :=
  match Cursor.ofSource source with
  | .ok cursor => (Parse.whole cursor).1
  | .error error => .error error

end Runic
