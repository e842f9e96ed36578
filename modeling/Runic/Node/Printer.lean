import Runic.Node

/-!
# Writing trees

A tree is written on one line.  Every application takes its wide form, a call with `%-` its bare
parentheses, so that a program that was read in tall form comes out as its one-line equivalent.

* `Node.chars` is the text as characters, `Node.print` as a string.
* `Signature.layout` arranges the texts of the arguments: a comma stands between two pairs of a
  jogging list and nowhere else.
-/

namespace Runic

/-- Texts with one space between each two. -/
def spaced : List (List Char) → List Char
  | [] => []
  | [text] => text
  | text :: texts => text ++ ' ' :: spaced texts

/-- Neighbours two by two, the last one alone if their number is odd. -/
def inPairs {α : Type} : List α → List (List α)
  | [] => []
  | [a] => [[a]]
  | a :: b :: rest => [a, b] :: inPairs rest

/-- Texts with a comma and a space between each two. -/
def commaSpaced : List (List Char) → List Char
  | [] => []
  | [text] => text
  | text :: texts => text ++ ',' :: ' ' :: commaSpaced texts

namespace Signature

/-- Arrange the texts of arguments around a jogging list of pairs: first the fixed arguments, then
the pairs, then the arguments behind them. -/
def layoutPairs (s : Signature) (texts : List (List Char)) : List Char :=
  let fixed := min s.args texts.length
  let post := max (texts.length - s.post) fixed
  let head := texts.take fixed
  let pairs := (texts.take post).drop fixed
  let space := if head ≠ [] ∧ pairs ≠ [] then [' '] else []
  spaced head ++ space ++ commaSpaced ((inPairs pairs).map spaced) ++
    (texts.drop post).flatMap (' ' :: ·)

/-- Arrange the texts of arguments between the parentheses of a wide form. -/
def layout (s : Signature) (texts : List (List Char)) : List Char :=
  match s.tail with
  | .pairs => s.layoutPairs texts
  | _ => spaced texts

end Signature

/-- Arrange the texts of the arguments of `rune`, as `Signature.layout` does if it has a
signature. -/
def Rune.layout (rune : Rune) (texts : List (List Char)) : List Char :=
  match rune.signature? with
  | some signature => signature.layout texts
  | none => spaced texts

namespace Node

mutual

/-- A tree as characters, in wide form. -/
def chars : Node → List Char
  | buc _ => ['$']
  | pat _ => ['@']
  | dot _ => ['.']
  | face name _ => name.toList
  | faced label value _ => label.toList ++ '=' :: chars value
  | num digits _ => digits.toList
  | cell head tail _ => '[' :: chars head ++ ' ' :: chars tail ++ [']']
  | rune .cenhep args _ => '(' :: spaced (charsAll args) ++ [')']
  | rune r args _ => r.text.toList ++ '(' :: r.layout (charsAll args) ++ [')']

/-- Each tree of a list as characters, by `chars`. -/
def charsAll : List Node → List (List Char)
  | [] => []
  | node :: nodes => chars node :: charsAll nodes

end

/-- A tree on one line, in wide form. -/
def print (node : Node) : String := String.ofList node.chars

end Node

end Runic
