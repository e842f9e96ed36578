import Runic.Glyph
import Runic.Text.Quoted
import Runic.Text.Span

/-!
# Tokens

A token is a kind, the text it was cut from and the place of that text.  `Kind.text` is how a
kind is called in messages and listings, `Token.line` is a token's line in a listing.
-/

namespace Runic

/-- The kinds of tokens. -/
inductive Kind where
  /-- A character that starts no token. -/
  | illegal
  /-- The end of the source. -/
  | eof
  /-- From `::` to the end of the line. -/
  | comment
  /-- One single space. -/
  | ace
  /-- Any other run of spaces and newlines. -/
  | gap
  /-- A glyph that stands alone. -/
  | mark (glyph : Glyph)
  /-- The closer `--`. -/
  | hephep
  /-- The closer `==`. -/
  | tistis
  | rune
  /-- A name. -/
  | face
  /-- A numeral. -/
  | num
deriving DecidableEq, Repr

namespace Kind

/-- How the kind is called in messages and listings. -/
def text : Kind → String
  | illegal => "ILLEGAL"
  | eof => "EOF"
  | comment => "COMMENT"
  | ace => "ACE"
  | gap => "GAP"
  | mark glyph => glyph.text
  | hephep => "--"
  | tistis => "=="
  | rune => "RUNE"
  | face => "FACE"
  | num => "NUM"

/-- A space or a gap. -/
def isSeparator : Kind → Bool
  | ace | gap => true
  | _ => false

/-- A token that only lays out the text: a separator or a comment. -/
def isLayout : Kind → Bool
  | ace | gap | comment => true
  | _ => false

/-- How tightly a mark joins the two expressions around it.  The two marks that do so share one
level, so that a chain of them groups to the left. -/
def precedence? : Kind → Option Nat
  | mark .col | mark .tis => some 2
  | _ => none

/-- The closer that two equal marks form: `--` or `==`. -/
def closer? (first second : Char) : Option Kind :=
  if first = '-' ∧ second = '-' then some hephep
  else if first = '=' ∧ second = '=' then some tistis
  else none

end Kind

/-- A piece of the source: its kind, its text and its place. -/
structure Token where
  kind : Kind
  text : String
  span : Span
deriving DecidableEq, Repr

namespace Token

/-- The end of a source of `size` bytes. -/
def eof (size : Nat) : Token := ⟨.eof, "", ⟨size, size⟩⟩

/-- The line of a token in a listing: its place, its kind and, unless empty, its text. -/
def line (t : Token) : String :=
  let place := s!"{t.span.start}..{t.span.stop} {t.kind.text}"
  if t.text = "" then place else s!"{place} {Text.quoted t.text}"

end Token

end Runic
