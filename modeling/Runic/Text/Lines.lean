import Runic.Text.Span

/-!
# Lines of a report

A report of an error shows an excerpt of the source, and for that the source is cut into lines at
every mandatory break of Unicode, not only at newlines.  A carriage return and a newline together
are one break.  The end of a source is part of its last line, even when that line has a break.

`Span.reportPosition?` is the place of a span in these lines.  An empty source has no lines.
-/

namespace Runic

/-- The character ends a line in the report of an error. -/
def isLineBreak (c : Char) : Bool :=
  c = '\n' || c = '\r' || c = '\x0b' || c = '\x0c' || c = '\u0085' || c = '\u2028' ||
    c = '\u2029'

/-- The characters of each line, its break included. -/
def breakLines : List Char → List (List Char)
  | [] => []
  | '\r' :: '\n' :: cs => ['\r', '\n'] :: breakLines cs
  | c :: cs =>
    if isLineBreak c then [c] :: breakLines cs
    else
      match breakLines cs with
      | [] => [[c]]
      | line :: lines => (c :: line) :: lines

/-- The place of a character, by its number in the text, when the first line has number `line`. -/
def positionInLines (line index : Nat) : List (List Char) → Option Position
  | [] => none
  | [_] => some ⟨line, index + 1⟩
  | cs :: rest =>
    if index < cs.length then some ⟨line, index + 1⟩
    else positionInLines (line + 1) (index - cs.length) rest

/-- Line and column at which the report of an error puts the start of a span.  An empty source has
no lines. -/
def Span.reportPosition? (span : Span) (source : String) : Option Position :=
  positionInLines 1 (Span.charRange source span).start (breakLines source.toList)

end Runic
