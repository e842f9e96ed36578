import Mathlib.Tactic.Common
import Runic.Node.Parser

/-!
# Readers without a budget

A reader has a budget, and each call that it makes has a smaller one.  Here the text of the readers
is written without budgets: `Call.body` says what a call does, for any way to answer the calls that
it makes in turn.  Answers nested to a certain depth (`Call.nested`) let calls be made to that
depth, and leave those beyond it to a function `answer` that is given.

* `Call.within_eq_nested` — **a budget is a depth**: readers with a budget are nested so deep, and
  beyond it they say that the source ends.
-/

namespace Runic.Parse

/-- A call of one of the mutually recursive readers, with its arguments and the type of its
result. -/
inductive Call : Type → Type
  | expr : Call Node
  | chain (start : Nat) (left : Node) : Call Node
  | operand : Call Node
  | gateCall (start : Nat) (target : Node) : Call Node
  | callPairs : Call (List Node)
  | cons : Call Node
  | wideList : Call (List Node)
  | application (token : Token) : Call Node
  | wide (rune : Rune) (signature : Signature) (span : Span) : Call (List Node)
  | wideFixed (count : Nat) : Call (List Node)
  | wideJogging (signature : Signature) : Call (List Node)
  | widePairs (signature : Signature) : Call (List Node)
  | tall (rune : Rune) (signature : Signature) (span : Span) : Call (List Node)
  | tallFixed (count : Nat) : Call (List Node)
  | tallUntil (closer : Kind) (rune : Rune) (span : Span) : Call (List Node)

namespace Call

/-- The text of a reader, with `answer` in the place of the calls that it makes. -/
def body (answer : ∀ {α : Type}, Call α → Parse α) : {α : Type} → Call α → Parse α
  | _, expr => do
    let start := (← peek).span.start
    let first ← answer operand
    answer (chain start first)
  | _, chain start left => do
    let mark ← peek
    match mark.kind with
    | .mark .col =>
      let _ ← bump
      let right ← answer operand
      answer (chain start (← applied .tisgal [left, right] start))
    | .mark .tis =>
      let _ ← bump
      let right ← answer operand
      match left with
      | .face name _ => answer (chain start (.faced name right (← spanFrom start)))
      | _ => fail mark.span .labelNotFace
    | _ => return left
  | _, operand => do
    let token ← bump
    let start := token.span.start
    match token.kind with
    | .face => answer (gateCall start (.face token.text token.span))
    | .mark .buc => answer (gateCall start (.buc token.span))
    | .num => return .num token.text token.span
    | .mark .pat => return .pat token.span
    | .mark .dot => return .dot token.span
    | .rune => answer (application token)
    | .mark .lus =>
      expect (.mark .pal)
      let value ← answer expr
      expect (.mark .par)
      applied .dotlus [value] start
    | .mark .tis =>
      expect (.mark .pal)
      let left ← answer expr
      expect .ace
      let right ← answer expr
      expect (.mark .par)
      applied .dottis [left, right] start
    | .mark .pal =>
      let args ← answer wideList
      applied .cenhep args start
    | .mark .sel =>
      let node ← answer cons
      expect (.mark .ser)
      return node
    | .eof => fail token.span .endOfInput
    | kind => fail token.span (.unexpected kind token.text)
  | _, gateCall start target => do
    if (← peek).kind = .mark .pal then
      let _ ← bump
      let pairs ←
        if (← peek).kind = .mark .par then
          let _ ← bump
          pure []
        else answer callPairs
      applied .centis (target :: pairs) start
    else
      return target
  | _, callPairs => do
    let name ← answer expr
    expect .ace
    let value ← answer expr
    if (← peek).kind = .mark .par then
      let _ ← bump
      return [name, value]
    else
      expect (.mark .com)
      expect .ace
      let pairs ← answer callPairs
      return name :: value :: pairs
  | _, cons => do
    let start := (← peek).span.start
    let head ← answer expr
    if (← peek).kind = .mark .ser then
      return head
    else
      expect .ace
      let tail ← answer cons
      return .cell head tail (← spanFrom start)
  | _, wideList => do
    let node ← answer expr
    if (← peek).kind = .mark .par then
      let _ ← bump
      return [node]
    else
      expect .ace
      let nodes ← answer wideList
      return node :: nodes
  | _, application token => do
    let rune := Rune.ofText token.text
    match rune.signature? with
    | none => Attempt.fail (.unknownRune token.span token.text)
    | some signature =>
      let args ←
        if (← peek).kind = .mark .pal then answer (wide rune signature token.span)
        else answer (tall rune signature token.span)
      applied rune args token.span.start
  | _, wide rune signature span => do
    if signature.tail = .arms then fail span (.noWideForm rune)
    else
      expect (.mark .pal)
      let args ←
        if signature.tail = .pairs then answer (wideJogging signature)
        else if (← peek).kind = .mark .par then
          let _ ← bump
          pure []
        else answer wideList
      if signature.accepts args.length then return args
      else fail span (.arity rune signature args.length)
  | _, wideFixed 0 => return []
  | _, wideFixed 1 => return [← answer expr]
  | _, wideFixed (count + 2) => do
    let node ← answer expr
    expect .ace
    let nodes ← answer (wideFixed (count + 1))
    return node :: nodes
  | _, wideJogging signature => do
    let fixed ← answer (wideFixed signature.args)
    if (← peek).kind = .mark .par then
      let _ ← bump
      return fixed
    else
      if 0 < signature.args then expect .ace
      let pairs ← answer (widePairs signature)
      return fixed ++ pairs
  | _, widePairs signature => do
    let name ← answer expr
    expect .ace
    let value ← answer expr
    let token ← peek
    if token.kind = .mark .par then
      let _ ← bump
      return [name, value]
    else if token.kind = .mark .com then
      let _ ← bump
      expect .ace
      let rest ← answer (widePairs signature)
      return name :: value :: rest
    else if token.kind = .ace ∧ 0 < signature.post then
      let _ ← bump
      let rest ← answer wideList
      return name :: value :: rest
    else
      fail token.span (.expectedCommaOrPar token)
  | _, tall rune signature span => do
    let fixed ← answer (tallFixed signature.args)
    let items ←
      match signature.tail with
      | .fixed => pure []
      | .pairs | .list => answer (tallUntil .tistis rune span)
      | .arms => answer (tallUntil .hephep rune span)
    if signature.tail = .pairs ∧ items.length % 2 ≠ 0 then fail span (.oddPairs rune)
    else
      let post ← answer (tallFixed signature.post)
      return fixed ++ items ++ post
  | _, tallFixed 0 => return []
  | _, tallFixed (count + 1) => do
    expectGap
    let node ← answer expr
    let nodes ← answer (tallFixed count)
    return node :: nodes
  | _, tallUntil closer rune span => do
    if (← peek).kind = .eof then fail span (.unterminated rune closer)
    else
      expectGap
      let token ← peek
      if token.kind = closer then
        let _ ← bump
        return []
      else if token.kind = .eof then fail span (.unterminated rune closer)
      else
        let node ← answer expr
        let nodes ← answer (tallUntil closer rune span)
        return node :: nodes

/-- A call of a reader with the budget `budget`. -/
def within (budget : Nat) : {α : Type} → Call α → Parse α
  | _, expr => Parse.expr budget
  | _, chain start left => Parse.chain budget start left
  | _, operand => Parse.operand budget
  | _, gateCall start target => Parse.gateCall budget start target
  | _, callPairs => Parse.callPairs budget
  | _, cons => Parse.cons budget
  | _, wideList => Parse.wideList budget
  | _, application token => Parse.application budget token
  | _, wide rune signature span => Parse.wide budget rune signature span
  | _, wideFixed count => Parse.wideFixed budget count
  | _, wideJogging signature => Parse.wideJogging budget signature
  | _, widePairs signature => Parse.widePairs budget signature
  | _, tall rune signature span => Parse.tall budget rune signature span
  | _, tallFixed count => Parse.tallFixed budget count
  | _, tallUntil closer rune span => Parse.tallUntil budget closer rune span

/-- The answers to calls that may be nested `depth` deep.  A call beyond that is answered by
`answer`. -/
def nested (answer : ∀ {α : Type}, Call α → Parse α) : Nat → {α : Type} → Call α → Parse α
  | 0, _, call => answer call
  | depth + 1, _, call => body (fun call => nested answer depth call) call

/-- A reader with the budget `budget + 1` is `body` with readers of the budget `budget` to call. -/
lemma within_succ (budget : Nat) {α : Type} (call : Call α) :
    within (budget + 1) call = body (fun call => within budget call) call := by
  cases call with
  | expr => rw [within, Parse.expr]; rfl
  | chain => rw [within, Parse.chain]; rfl
  | operand => rw [within, Parse.operand]; rfl
  | gateCall => rw [within, Parse.gateCall]; rfl
  | callPairs => rw [within, Parse.callPairs]; rfl
  | cons => rw [within, Parse.cons]; rfl
  | wideList => rw [within, Parse.wideList]; rfl
  | application => rw [within, Parse.application]; rfl
  | wide => rw [within, Parse.wide]; rfl
  | wideFixed count => rcases count with _ | _ | count <;> rw [within, Parse.wideFixed] <;> rfl
  | wideJogging => rw [within, Parse.wideJogging]; rfl
  | widePairs => rw [within, Parse.widePairs]; rfl
  | tall => rw [within, Parse.tall]; rfl
  | tallFixed count => rcases count with _ | count <;> rw [within, Parse.tallFixed] <;> rfl
  | tallUntil => rw [within, Parse.tallUntil]; rfl

/-- **A reader with a budget is `nested` to that depth.** -/
lemma within_eq_nested (budget : Nat) {α : Type} (call : Call α) :
    within budget call = nested (fun call => within 0 call) budget call := by
  induction budget generalizing α with
  | zero => rfl
  | succ budget ih =>
      rw [within_succ, nested]
      congr 1
      funext β call
      exact ih call

/-- Nesting to the depth `more + depth` is nesting to `depth`, with calls beyond that answered by
nesting to `more`. -/
lemma nested_add (answer : ∀ {α : Type}, Call α → Parse α) (more depth : Nat) {α : Type}
    (call : Call α) : nested answer (more + depth) call =
      nested (fun call => nested answer more call) depth call := by
  induction depth generalizing α with
  | zero => rfl
  | succ depth ih =>
      rw [← Nat.add_assoc, nested, nested]
      congr 1
      funext β call
      exact ih call

end Call

end Runic.Parse
