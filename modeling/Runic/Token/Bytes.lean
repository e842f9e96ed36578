import Runic.Token.Lexer

/-!
# Cutting a source into tokens, byte by byte

`scan` cuts tokens off a list of characters.  Here the same tokens are cut off the UTF-8 bytes of
the source, with an index that goes up byte by byte: a token is told by the byte at the index and
the one behind it, whether they are characters of their own or parts of longer ones, and the text of
a token is the slice of the source between two indices.  A slice exists only if both of its ends lie
between characters, so a lexer that got the index wrong would fail.

* `slice?` is the part of a text between two byte offsets.
* `ByteLexer` is the state of a lexer that cuts tokens off bytes; `ByteLexer.nextToken` and
  `ByteLexer.next?` do what `Lexer.nextToken` and `Lexer.next?` do, and `none` says that a slice did
  not exist.
-/

namespace Runic

/-! ## Slices -/

/-- The byte belongs to a character in UTF-8 and is not its first one. -/
def isContinuation (byte : UInt8) : Bool := 0x80 ≤ byte && byte < 0xC0

/-- The byte offset lies between two characters of `source`, or at one of its ends. -/
def isCharBoundary (source : String) (offset : Nat) : Bool :=
  match source.toUTF8[offset]? with
  | some byte => !isContinuation byte
  | none => offset = source.toUTF8.size

/-- The text between two byte offsets, if `isCharBoundary` holds of both. -/
def slice? (source : String) (start stop : Nat) : Option String :=
  if start ≤ stop && isCharBoundary source start && isCharBoundary source stop then
    String.fromUTF8? (source.toUTF8.extract start stop)
  else none

/-! ## One token -/

/-- A lexer over the bytes of a source, with the byte offset up to which tokens are cut. -/
structure ByteLexer where
  source : String
  /-- Byte offset of what remains. -/
  index : Nat
  /-- The end of the source was given out. -/
  finished : Bool
deriving DecidableEq, Repr

namespace ByteLexer

/-- The lexer before the first token of `source`. -/
def ofSource (source : String) : ByteLexer := ⟨source, 0, false⟩

/-- The byte at the index, read as a character.  Only for an ASCII character is it the character
that stands there. -/
def peek? (lexer : ByteLexer) : Option Char := lexer.source.toUTF8[lexer.index]?.map Char.ofUInt8

/-- The byte behind the index, read as a character. -/
def peekNext? (lexer : ByteLexer) : Option Char :=
  lexer.source.toUTF8[lexer.index + 1]?.map Char.ofUInt8

/-- Move the index over `width` bytes. -/
def advance (lexer : ByteLexer) (width : Nat) : ByteLexer :=
  { lexer with index := lexer.index + width }

theorem index_lt_of_peek? {lexer : ByteLexer} {c : Char} (h : lexer.peek? = some c) :
    lexer.index < lexer.source.toUTF8.size := by
  rcases Nat.lt_or_ge lexer.index lexer.source.toUTF8.size with hlt | hge
  · exact hlt
  · rw [peek?, getElem?_neg lexer.source.toUTF8 lexer.index (Nat.not_lt.2 hge)] at h
    cases h

/-- Go over bytes as long as they satisfy `part`. -/
def consumeWhile (part : Char → Bool) (lexer : ByteLexer) : ByteLexer :=
  match _h : lexer.peek? with
  | some c => if part c then consumeWhile part (lexer.advance 1) else lexer
  | none => lexer
termination_by lexer.source.toUTF8.size - lexer.index
decreasing_by
  have hlt := index_lt_of_peek? _h
  simp only [advance]
  omega

/-- The token from the offset `start` to the index, with what is left to cut.  It is `none` if these
are no character boundaries. -/
def token? (lexer : ByteLexer) (kind : Kind) (start : Nat) : Option (Token × ByteLexer) := do
  let text ← slice? lexer.source start lexer.index
  return (⟨kind, text, ⟨start, lexer.index⟩⟩, lexer)

/-- Cut a run of blanks: one space is an ace, and any other run a gap. -/
def separator? (lexer : ByteLexer) : Option (Token × ByteLexer) := do
  let behind := lexer.consumeWhile isBlank
  let text ← slice? lexer.source lexer.index behind.index
  behind.token? (if text = " " then .ace else .gap) lexer.index

/-- Cut a single mark.  A character that is no mark is cut with all of its bytes. -/
def mark? (lexer : ByteLexer) (c : Char) : Option (Token × ByteLexer) :=
  match Glyph.ofChar? c with
  | some glyph => (lexer.advance 1).token? (.mark glyph) lexer.index
  | none => do
    let rest ← slice? lexer.source lexer.index lexer.source.toUTF8.size
    let width := (rest.toList.head?.map Char.utf8Size).getD 1
    (lexer.advance width).token? .illegal lexer.index

/-- Cut a comment, a rune, a closer or a mark, in this order of preference.  The first character `c`
starts no word and no separator. -/
def symbol? (lexer : ByteLexer) (c : Char) : Option (Token × ByteLexer) :=
  match lexer.peekNext? with
  | none => lexer.mark? c
  | some d =>
    if c = ':' ∧ d = ':' then (lexer.consumeWhile (· ≠ '\n')).token? .comment lexer.index
    else if (Rune.ofChars? c d).isSome then (lexer.advance 2).token? .rune lexer.index
    else
      match Kind.closer? c d with
      | some kind => (lexer.advance 2).token? kind lexer.index
      | none => lexer.mark? c

/-- The next token; at the end of the source, that end again and again. -/
def nextToken (lexer : ByteLexer) : Option (Token × ByteLexer) :=
  match lexer.peek? with
  | none => lexer.token? .eof lexer.index
  | some c =>
    if isBlank c then lexer.separator?
    else if isFaceStart c then (lexer.consumeWhile isFacePart).token? .face lexer.index
    else if isNumStart c then (lexer.consumeWhile isNumPart).token? .num lexer.index
    else lexer.symbol? c

/-- The next token, with the end of the source given out once. -/
def next? (lexer : ByteLexer) : Option (Option Token × ByteLexer) := do
  if lexer.finished then
    return (none, lexer)
  else
    let (token, behind) ← lexer.nextToken
    return (some token, { behind with finished := token.kind = .eof })

end ByteLexer

end Runic
