/-!
# Glyphs

The printing marks of ASCII that are neither letters nor digits, each under its traditional
name in Hoon.  Runes are pairs of glyphs, and a glyph that is part of no rune is a token of its
own.
-/

namespace Runic

/-- A punctuation mark, by its traditional name. -/
inductive Glyph where
  | bar | bas | buc | cab | cen | col | com | doq
  | dot | fas | gal | gar | hax | hep | kel | ker
  | ket | lus | mic | pal | pam | par | pat | sel
  | ser | sig | soq | tar | tic | tis | wut | zap
deriving DecidableEq, Repr

namespace Glyph

/-- The character that a glyph is written as. -/
def char : Glyph → Char
  | bar => '|'
  | bas => '\x5c'
  | buc => '$'
  | cab => '_'
  | cen => '%'
  | col => ':'
  | com => ','
  | doq => '\x22'
  | dot => '.'
  | fas => '/'
  | gal => '<'
  | gar => '>'
  | hax => '#'
  | hep => '-'
  | kel => '\x7b'
  | ker => '\x7d'
  | ket => '^'
  | lus => '+'
  | mic => ';'
  | pal => '('
  | pam => '&'
  | par => ')'
  | pat => '@'
  | sel => '['
  | ser => ']'
  | sig => '~'
  | soq => '\x27'
  | tar => '*'
  | tic => '\x60'
  | tis => '='
  | wut => '?'
  | zap => '!'

/-- Every glyph once. -/
def all : List Glyph :=
  [bar, bas, buc, cab, cen, col, com, doq, dot, fas, gal, gar, hax, hep, kel, ker,
   ket, lus, mic, pal, pam, par, pat, sel, ser, sig, soq, tar, tic, tis, wut, zap]

/-- The glyph that is written as `c`. -/
def ofChar? (c : Char) : Option Glyph := all.find? (·.char = c)

/-- The glyph as a text of one character. -/
def text (g : Glyph) : String := String.ofList [g.char]

end Glyph

end Runic
