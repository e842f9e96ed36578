/-!
# Places in a source text

A `Span` is a half-open range of byte offsets into a source text, counted in its UTF-8 form.
Tokens and tree nodes carry one, so that every failure can point back at its cause.

* `Span.merge` is the smallest span over two.
* `Span.position` is the line and column a span starts at.
* `Span.charRange` is the same place counted in characters from the beginning of the text; it is
  never empty, so that an excerpt always has something to underline.

Offsets past the end of the text count as its end.
-/

namespace Runic

/-- The number of bytes that a list of characters takes in UTF-8. -/
def byteLength : List Char → Nat
  | [] => 0
  | c :: cs => c.utf8Size + byteLength cs

/-- A half-open range of byte offsets in the UTF-8 form of a source. -/
structure Span where
  start : Nat
  stop : Nat
deriving DecidableEq, Repr, Inhabited

/-- A place in a text as a reader counts it, line and column both from one. -/
structure Position where
  line : Nat
  column : Nat
deriving DecidableEq, Repr

namespace Position

/-- The first character of a text. -/
def first : Position := ⟨1, 1⟩

/-- The place after the character `c` at `p`.  Only a newline ends a line. -/
def advance (p : Position) (c : Char) : Position :=
  if c = '\n' then ⟨p.line + 1, 1⟩ else ⟨p.line, p.column + 1⟩

/-- The place behind the characters `cs`, which start a text. -/
def after (cs : List Char) : Position := cs.foldl advance first

/-- Written `line:column`. -/
def text (p : Position) : String := s!"{p.line}:{p.column}"

end Position

namespace Span

/-- The smallest span that covers `a` and `b`. -/
def merge (a b : Span) : Span := ⟨min a.start b.start, max a.stop b.stop⟩

/-- The characters that lie wholly or partly in the first `bytes` bytes. -/
def charsWithin : Nat → List Char → List Char
  | _, [] => []
  | 0, _ :: _ => []
  | bytes + 1, c :: cs => c :: charsWithin (bytes + 1 - c.utf8Size) cs

/-- Line and column of the start of a span: the place behind the characters in front of it. -/
def position (span : Span) (source : String) : Position :=
  Position.after (charsWithin span.start source.toList)

/-- Byte offset at which each character starts, when the first starts at `offset`. -/
def charOffsets (offset : Nat) : List Char → List Nat
  | [] => []
  | c :: cs => offset :: charOffsets (offset + c.utf8Size) cs

/-- How many characters of the source start before a byte offset. -/
def charIndex (source : String) (offset : Nat) : Nat :=
  ((charOffsets 0 source.toList).takeWhile (· < offset)).length

/-- The span counted in characters instead of bytes, widened to at least one of them. -/
def charRange (source : String) (span : Span) : Span :=
  let start := charIndex source span.start
  ⟨start, max (charIndex source span.stop) (start + 1)⟩

end Span

end Runic
