import Runic.Attempt
import Runic.Error
import Runic.Token.Lexer

/-!
# Reading tokens

Between the tokens of a source and the grammar stands a cursor.  It shows one token at a time and
folds layout on the way: a run of separators and comments is shown as a single separator, a gap
unless the run is one single space.  So a comment may stand wherever a gap may.

* `fold` joins a token with the layout behind it, or refuses it if it is illegal.
* `Cursor` is the place of a reader in a source.
* `Parse` is the type of the readers; a reader that fails leaves the cursor where it stood, but
  an illegal token on which it failed is gone.
-/

namespace Runic

/-! ## Folding layout -/

/-- Join `first` with the layout that follows it, if it is layout itself.  The second component is
what remains of the tokens; an illegal token is an error at its span. -/
def fold (first : Token) (raw : List Token) : Except Error Token × List Token :=
  match first.kind with
  | .illegal => (.error (.illegal first.span first.text), raw)
  | .ace | .gap | .comment =>
    let run := raw.takeWhile (·.kind.isLayout)
    let kind := if run = [] ∧ first.kind ≠ .comment then first.kind else .gap
    let span := run.foldl (fun span t => span.merge t.span) first.span
    (.ok { first with kind, span }, raw.dropWhile (·.kind.isLayout))
  | _ => (.ok first, raw)

/-! ## Cursors -/

/-- A place in the tokens of a source: one token is shown, and those behind it are not looked at
yet. -/
structure Cursor where
  /-- The token shown. -/
  current : Token
  /-- The tokens behind it, not folded yet. -/
  raw : List Token
  /-- Byte offset behind the token shown before. -/
  prevEnd : Nat
deriving DecidableEq, Repr

/-- A reader of tokens, which keeps its place when it fails. -/
abbrev Parse (α : Type) : Type := Attempt Cursor Error α

namespace Parse

/-- Show the next token, folded by `fold`.  The end of the source stays where it is. -/
def fetch : Parse Unit := fun cursor =>
  match cursor.raw with
  | [] => (.ok (), cursor)
  | first :: raw =>
    match fold first raw with
    | (.ok token, raw) => (.ok (), { cursor with current := token, raw })
    | (.error error, raw) => (.error error, { cursor with raw })

/-- Return the token shown. -/
def peek : Parse Token := fun cursor => (.ok cursor.current, cursor)

/-- Take the token shown and show the next one. -/
def bump : Parse Token := do
  let token ← peek
  Attempt.modify fun cursor => { cursor with prevEnd := token.span.stop }
  fetch
  return token

/-- Fail with `fault` at `span`. -/
def fail {α : Type} (span : Span) (fault : ParseFault) : Parse α :=
  Attempt.fail (.parse span fault)

/-- Take a token of the kind `kind`; any other one is an error at its span. -/
def expect (kind : Kind) : Parse Unit := do
  let token ← peek
  if token.kind = kind then
    let _ ← bump
  else
    fail token.span (.expected kind token)

/-- Take a gap.  A single space in its place has a message of its own. -/
def expectGap : Parse Unit := do
  let token ← peek
  if token.kind = .ace then fail token.span .aceForGap else expect .gap

/-- Take a separator if one is shown.  Behind it there is never another one. -/
def skipSeparator : Parse Unit := do
  let token ← peek
  if token.kind.isSeparator then
    let _ ← bump

/-- The span from the offset `start` to the end of the token taken last. -/
def spanFrom (start : Nat) : Parse Span := fun cursor => (.ok ⟨start, cursor.prevEnd⟩, cursor)

end Parse

namespace Cursor

/-- The cursor that shows the first token of `source`, unless it is illegal. -/
def ofSource (source : String) : Except Error Cursor :=
  match Parse.fetch ⟨.eof 0, lex source, 0⟩ with
  | (.ok (), cursor) => .ok cursor
  | (.error error, _) => .error error

end Cursor

end Runic
