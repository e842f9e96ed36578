import Runic.Rune
import Runic.Token

/-!
# Cutting a source into tokens

One token is cut off the front of the remaining characters at a time, always the longest one of
the class its first character decides.  Cutting never fails: a character that starts no token is
a token of kind `illegal`, and what to do about it is left to the reader of the tokens.

* `scan` cuts one token off a list of characters.
* `Lexer` is the state of a lexer that cuts tokens one by one; `Lexer.nextToken` repeats the end
  of the source forever, while `Lexer.next?` gives it out only once.
* `lex` is the whole list of tokens, the end of the source included.
-/

namespace Runic

/-! ## Character classes -/

/-- The character is part of a separator. -/
def isBlank (c : Char) : Bool := c = ' ' || c = '\n'

/-- A lower-case letter: the first character of a face. -/
def isFaceStart (c : Char) : Bool := 'a' ≤ c && c ≤ 'z'

/-- The character may stand in a face behind its first one. -/
def isFacePart (c : Char) : Bool := c = '-' || isFaceStart c

/-- A decimal digit: the first character of a numeral. -/
def isNumStart (c : Char) : Bool := '0' ≤ c && c ≤ '9'

/-- The character may stand in a numeral behind its first one; dots group its digits. -/
def isNumPart (c : Char) : Bool := c = '.' || isNumStart c

/-! ## One token -/

/-- What one cut gives: a kind, the characters of the token and those that remain. -/
structure Cut where
  kind : Kind
  text : List Char
  rest : List Char
deriving DecidableEq, Repr

/-- Cut the longest front that satisfies `part`. -/
def cutWhile (kind : List Char → Kind) (part : Char → Bool) (cs : List Char) : Cut :=
  ⟨kind (cs.takeWhile part), cs.takeWhile part, cs.dropWhile part⟩

/-- The kind of a run of blanks: one space is an ace, and any other run a gap. -/
def separatorKind (run : List Char) : Kind := if run = [' '] then .ace else .gap

/-- Cut a single mark.  A character that is no mark is illegal. -/
def cutMark (c : Char) (cs : List Char) : Cut :=
  match Glyph.ofChar? c with
  | some glyph => ⟨.mark glyph, [c], cs⟩
  | none => ⟨.illegal, [c], cs⟩

/-- Cut a comment, a rune, a closer or a mark, in this order of preference.  The first character `c`
starts no word and no separator. -/
def cutSymbol (c : Char) : List Char → Cut
  | [] => cutMark c []
  | d :: cs =>
    if c = ':' ∧ d = ':' then cutWhile (fun _ => .comment) (· ≠ '\n') (c :: d :: cs)
    else if (Rune.ofChars? c d).isSome then ⟨.rune, [c, d], cs⟩
    else
      match Kind.closer? c d with
      | some kind => ⟨kind, [c, d], cs⟩
      | none => cutMark c (d :: cs)

/-- Cut one token off the front.  There is nothing to cut only at the end. -/
def scan : List Char → Cut
  | [] => ⟨.eof, [], []⟩
  | c :: cs =>
    if isBlank c then cutWhile separatorKind isBlank (c :: cs)
    else if isFaceStart c then cutWhile (fun _ => .face) isFacePart (c :: cs)
    else if isNumStart c then cutWhile (fun _ => .num) isNumPart (c :: cs)
    else cutSymbol c cs

/-! ## Nothing is lost -/

theorem cutMark_append (c : Char) (cs : List Char) :
    (cutMark c cs).text ++ (cutMark c cs).rest = c :: cs := by
  unfold cutMark
  split <;> rfl

theorem cutWhile_append (kind : List Char → Kind) (part : Char → Bool) (cs : List Char) :
    (cutWhile kind part cs).text ++ (cutWhile kind part cs).rest = cs :=
  List.takeWhile_append_dropWhile

theorem cutSymbol_append (c : Char) (cs : List Char) :
    (cutSymbol c cs).text ++ (cutSymbol c cs).rest = c :: cs := by
  cases cs with
  | nil => exact cutMark_append c []
  | cons d cs =>
    rw [cutSymbol]
    split
    · exact cutWhile_append _ _ _
    · split
      · rfl
      · split
        · rfl
        · exact cutMark_append c (d :: cs)

/-- The text that `scan` cuts and the rest that it leaves are the characters it was given. -/
theorem scan_append (cs : List Char) : (scan cs).text ++ (scan cs).rest = cs := by
  cases cs with
  | nil => rfl
  | cons c cs =>
    rw [scan]
    split
    · exact cutWhile_append _ _ _
    · split
      · exact cutWhile_append _ _ _
      · split
        · exact cutWhile_append _ _ _
        · exact cutSymbol_append c cs

theorem cutMark_text_ne_nil (c : Char) (cs : List Char) : (cutMark c cs).text ≠ [] := by
  unfold cutMark
  split <;> simp

theorem cutWhile_text_ne_nil (kind : List Char → Kind) (part : Char → Bool) (c : Char)
    (cs : List Char) (h : part c = true) : (cutWhile kind part (c :: cs)).text ≠ [] := by
  simp [cutWhile, h]

theorem cutSymbol_text_ne_nil (c : Char) (cs : List Char) : (cutSymbol c cs).text ≠ [] := by
  cases cs with
  | nil => exact cutMark_text_ne_nil c []
  | cons d cs =>
    rw [cutSymbol]
    split
    · next h => exact cutWhile_text_ne_nil _ _ _ _ (by simp [h.1])
    · split
      · simp
      · split
        · simp
        · exact cutMark_text_ne_nil c (d :: cs)

/-- The text that `scan` cuts is not empty, unless there are no characters. -/
theorem scan_text_ne_nil (c : Char) (cs : List Char) : (scan (c :: cs)).text ≠ [] := by
  rw [scan]
  split
  · next h => exact cutWhile_text_ne_nil _ _ _ _ h
  · split
    · next h => exact cutWhile_text_ne_nil _ _ _ _ (by simp [isFacePart, h])
    · split
      · next h => exact cutWhile_text_ne_nil _ _ _ _ (by simp [isNumPart, h])
      · exact cutSymbol_text_ne_nil c cs

/-- The rest that `scan` leaves is shorter, which is why `lexFrom` terminates. -/
theorem scan_rest_lt (c : Char) (cs : List Char) :
    (scan (c :: cs)).rest.length < (c :: cs).length := by
  have whole := congrArg List.length (scan_append (c :: cs))
  have some := List.length_pos_iff.2 (scan_text_ne_nil c cs)
  rw [List.length_append] at whole
  omega

/-! ## All tokens -/

/-- The token of a cut at the byte offset `offset`, with the span of its characters. -/
def Cut.token (cut : Cut) (offset : Nat) : Token :=
  ⟨cut.kind, String.ofList cut.text, ⟨offset, offset + byteLength cut.text⟩⟩

/-- A lexer over the characters of a source, as an iterator: what remains, and whether the end was
given out. -/
structure Lexer where
  /-- Byte offset of the remaining characters. -/
  offset : Nat
  rest : List Char
  /-- The end of the source was given out. -/
  finished : Bool
deriving DecidableEq, Repr

namespace Lexer

/-- The lexer before the first token of `source`. -/
def ofSource (source : String) : Lexer := ⟨0, source.toList, false⟩

/-- The next token; at the end of the source, that end again and again. -/
def nextToken (lexer : Lexer) : Token × Lexer :=
  let cut := scan lexer.rest
  let token := cut.token lexer.offset
  (token, { lexer with offset := token.span.stop, rest := cut.rest })

/-- The next token, with the end of the source given out once. -/
def next? (lexer : Lexer) : Option Token × Lexer :=
  if lexer.finished then (none, lexer)
  else
    let (token, lexer) := lexer.nextToken
    (some token, { lexer with finished := token.kind = .eof })

end Lexer

/-- The tokens of a list of characters that starts at the byte offset `offset`, the last of them the
end. -/
def lexFrom (offset : Nat) : List Char → List Token
  | [] => [.eof offset]
  | c :: cs =>
    let cut := scan (c :: cs)
    cut.token offset :: lexFrom (offset + byteLength cut.text) cut.rest
termination_by cs => cs.length
decreasing_by exact scan_rest_lt c cs

/-- The tokens of a source, the last of them its end. -/
def lex (source : String) : List Token := lexFrom 0 source.toList

end Runic
