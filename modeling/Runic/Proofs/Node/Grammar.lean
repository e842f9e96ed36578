import Mathlib.Data.List.DropRight
import Runic.Node
import Runic.Proofs.Token.Folding

/-!
# The grammar of trees

The grammar is a relation between phrases and trees, and it mentions neither cursors nor budgets.
A phrase is what remains of a source once its layout is folded (`phrase`); trees are compared
without their places (`Node.bare`).

* `Symbol` — a token as the grammar sees it.
* `Grammar.Expr` — **the phrases of expressions, with their trees**, and beside it one relation
  for each kind of phrase that an expression is made of.

There is one point at which the grammar has to decide.  In `.+  a:b` the `:` could join `a` and
`b`, or the whole of `.+  a` and `b`.  It does the former: a phrase that ends with an argument in
tall form is *loose*, and nothing is joined to the right of a loose phrase.
-/

namespace Runic

/-! ## Trees without places -/

/-- The span that stands for no place. -/
def Span.nowhere : Span := ⟨0, 0⟩

namespace Node

mutual

/-- A tree with all its spans replaced by `Span.nowhere`. -/
@[simp] def bare : Node → Node
  | buc _ => buc .nowhere
  | pat _ => pat .nowhere
  | dot _ => dot .nowhere
  | face name _ => face name .nowhere
  | faced label value _ => faced label (bare value) .nowhere
  | num digits _ => num digits .nowhere
  | rune r args _ => rune r (bareAll args) .nowhere
  | cell head tail _ => cell (bare head) (bare tail) .nowhere

/-- Trees with all their spans replaced by `Span.nowhere`. -/
@[simp] def bareAll : List Node → List Node
  | [] => []
  | node :: nodes => bare node :: bareAll nodes

end

lemma bareAll_eq_map (nodes : List Node) : bareAll nodes = nodes.map bare := by
  induction nodes with
  | nil => rfl
  | cons node nodes ih => rw [bareAll, ih, List.map_cons]

@[simp] lemma bareAll_append (as bs : List Node) :
    bareAll (as ++ bs) = bareAll as ++ bareAll bs := by
  simp [bareAll_eq_map]

@[simp] lemma length_bareAll (nodes : List Node) : (bareAll nodes).length = nodes.length := by
  simp [bareAll_eq_map]

end Node

/-! ## Phrases -/

/-- A token as the grammar sees it: its place does not matter, and its text only where texts
differ. -/
inductive Symbol where
  | face (name : String)
  | num (digits : String)
  | rune (rune : Rune)
  | plain (kind : Kind)
deriving DecidableEq, Repr

namespace Symbol

/-- A single mark. -/
abbrev mark (glyph : Glyph) : Symbol := .plain (.mark glyph)

/-- One single space. -/
abbrev ace : Symbol := .plain .ace

/-- Any other layout. -/
abbrev gap : Symbol := .plain .gap

/-- The end of the source. -/
abbrev eof : Symbol := .plain .eof

/-- The kind of the tokens that the symbol stands for. -/
def kind : Symbol → Kind
  | face _ => .face
  | num _ => .num
  | rune _ => .rune
  | plain kind => kind

@[simp] lemma kind_face (name : String) : (face name).kind = .face := rfl

@[simp] lemma kind_num (digits : String) : (num digits).kind = .num := rfl

@[simp] lemma kind_rune (r : Rune) : (rune r).kind = .rune := rfl

@[simp] lemma kind_plain (kind : Kind) : (plain kind).kind = kind := rfl

end Symbol

/-- The symbol that a token stands for. -/
def Token.symbol (t : Token) : Symbol :=
  match t.kind with
  | .face => .face t.text
  | .num => .num t.text
  | .rune => .rune (Rune.ofText t.text)
  | kind => .plain kind

/-- The symbols of a source, its layout folded, without those that lay out its two ends. -/
def phrase (source : String) : List Symbol :=
  let symbols := ((folded (lex source)).map Token.symbol).dropLast
  (symbols.dropWhile (·.kind.isSeparator)).rdropWhile (·.kind.isSeparator)

/-! ## Derivations -/

/-- The closer of a tail in tall form. -/
def Tail.closer? : Tail → Option Kind
  | .fixed => none
  | .pairs | .list => some .tistis
  | .arms => some .hephep

/-- In tall form the last thing is an argument and not a closer. -/
def Signature.isLoose (s : Signature) : Bool :=
  decide (0 < s.post) || decide (s.tail = .fixed) && decide (0 < s.args)

namespace Grammar

open Runic.Symbol (mark ace gap)

/-- What may stand in front of the parentheses of a call with pairs. -/
inductive Target : Symbol → Node → Prop
  | face (name : String) : Target (.face name) (.face name .nowhere)
  | buc : Target (mark .buc) (.buc .nowhere)

mutual

/-- The grammar: the phrase derives the tree as an expression. -/
inductive Expr : List Symbol → Node → Prop
  | chain {loose : Bool} {ts : List Symbol} {t : Node} : Chain loose ts t → Expr ts t

/-- Operands joined by `:` and `=`, grouped to the left. -/
inductive Chain : Bool → List Symbol → Node → Prop
  | operand {loose : Bool} {ts : List Symbol} {t : Node} : Operand loose ts t → Chain loose ts t
  | col {loose : Bool} {ls rs : List Symbol} {l r : Node} : Chain false ls l →
      Operand loose rs r → Chain loose (ls ++ mark .col :: rs) (.rune .tisgal [l, r] .nowhere)
  | tis {loose : Bool} {ls rs : List Symbol} {name : String} {r : Node} :
      Chain false ls (.face name .nowhere) → Operand loose rs r →
      Chain loose (ls ++ mark .tis :: rs) (.faced name r .nowhere)

/-- The phrase derives the tree as an operand: a leaf, a bracketed form or a rune with its
arguments.  The flag says whether it ends loosely. -/
inductive Operand : Bool → List Symbol → Node → Prop
  | face (name : String) : Operand false [.face name] (.face name .nowhere)
  | num (digits : String) : Operand false [.num digits] (.num digits .nowhere)
  | buc : Operand false [mark .buc] (.buc .nowhere)
  | pat : Operand false [mark .pat] (.pat .nowhere)
  | dot : Operand false [mark .dot] (.dot .nowhere)
  | lus {ts : List Symbol} {t : Node} : Expr ts t →
      Operand false (mark .lus :: mark .pal :: ts ++ [mark .par]) (.rune .dotlus [t] .nowhere)
  | tis {ls rs : List Symbol} {l r : Node} : Expr ls l → Expr rs r →
      Operand false (mark .tis :: mark .pal :: ls ++ ace :: rs ++ [mark .par])
        (.rune .dottis [l, r] .nowhere)
  | pal {ts : List Symbol} {nodes : List Node} : Spaced ts nodes →
      Operand false (mark .pal :: ts ++ [mark .par]) (.rune .cenhep nodes .nowhere)
  | sel {ts : List Symbol} {t : Node} : Cells ts t →
      Operand false (mark .sel :: ts ++ [mark .ser]) t
  | reset {s : Symbol} {t : Node} : Target s t →
      Operand false [s, mark .pal, mark .par] (.rune .centis [t] .nowhere)
  | rewrite {s : Symbol} {t : Node} {ts : List Symbol} {nodes : List Node} : Target s t →
      Pairs ts nodes →
      Operand false (s :: mark .pal :: ts ++ [mark .par]) (.rune .centis (t :: nodes) .nowhere)
  | wide {r : Rune} {s : Signature} {ts : List Symbol} {nodes : List Node} :
      r.signature? = some s → Wide s ts nodes → s.accepts nodes.length = true →
      Operand false (.rune r :: mark .pal :: ts ++ [mark .par]) (.rune r nodes .nowhere)
  | tall {r : Rune} {s : Signature} {ts : List Symbol} {nodes : List Node} :
      r.signature? = some s → Tall s ts nodes →
      Operand s.isLoose (.rune r :: ts) (.rune r nodes .nowhere)

/-- The phrase derives one or more expressions with a space between each two. -/
inductive Spaced : List Symbol → List Node → Prop
  | one {ts : List Symbol} {t : Node} : Expr ts t → Spaced ts [t]
  | more {ts us : List Symbol} {t : Node} {nodes : List Node} : Expr ts t → Spaced us nodes →
      Spaced (ts ++ ace :: us) (t :: nodes)

/-- The phrase derives one or more expressions with a space between each two, as cells that nest to
the right. -/
inductive Cells : List Symbol → Node → Prop
  | one {ts : List Symbol} {t : Node} : Expr ts t → Cells ts t
  | more {ts us : List Symbol} {t u : Node} : Expr ts t → Cells us u →
      Cells (ts ++ ace :: us) (.cell t u .nowhere)

/-- The phrase derives one or more pairs of expressions with a comma and a space between each
two. -/
inductive Pairs : List Symbol → List Node → Prop
  | one {ls rs : List Symbol} {l r : Node} : Expr ls l → Expr rs r →
      Pairs (ls ++ ace :: rs) [l, r]
  | more {ls rs us : List Symbol} {l r : Node} {nodes : List Node} : Expr ls l → Expr rs r →
      Pairs us nodes → Pairs (ls ++ ace :: rs ++ mark .com :: ace :: us) (l :: r :: nodes)

/-- The phrase derives any number of expressions with a space between each two. -/
inductive Args : List Symbol → List Node → Prop
  | none : Args [] []
  | some {ts : List Symbol} {nodes : List Node} : Spaced ts nodes → Args ts nodes

/-- The phrase derives pairs and, if the signature has arguments behind them, possibly more
expressions. -/
inductive Jogging : Signature → List Symbol → List Node → Prop
  | pairs {s : Signature} {ts : List Symbol} {nodes : List Node} : Pairs ts nodes →
      Jogging s ts nodes
  | post {s : Signature} {ts us : List Symbol} {nodes more : List Node} : 0 < s.post →
      Pairs ts nodes → Spaced us more → Jogging s (ts ++ ace :: us) (nodes ++ more)

/-- The phrase derives the arguments of a rune of this signature in wide form, between the
parentheses. -/
inductive Wide : Signature → List Symbol → List Node → Prop
  | args {s : Signature} {ts : List Symbol} {nodes : List Node} :
      s.tail = .fixed ∨ s.tail = .list → Args ts nodes → Wide s ts nodes
  | fixed {s : Signature} {ts : List Symbol} {nodes : List Node} : s.tail = .pairs →
      Args ts nodes → nodes.length = s.args → Wide s ts nodes
  | jogging {s : Signature} {ts us : List Symbol} {nodes more : List Node} : s.tail = .pairs →
      Args ts nodes → nodes.length = s.args → Jogging s us more →
      Wide s (ts ++ (if 0 < s.args then [ace] else []) ++ us) (nodes ++ more)

/-- The phrase derives any number of expressions, each behind a gap. -/
inductive Gapped : List Symbol → List Node → Prop
  | none : Gapped [] []
  | more {ts us : List Symbol} {t : Node} {nodes : List Node} : Expr ts t → Gapped us nodes →
      Gapped (gap :: ts ++ us) (t :: nodes)

/-- The phrase derives the arguments of a rune of this signature in tall form. -/
inductive Tall : Signature → List Symbol → List Node → Prop
  | fixed {s : Signature} {ts vs : List Symbol} {nodes post : List Node} : s.tail = .fixed →
      Gapped ts nodes → nodes.length = s.args → Gapped vs post → post.length = s.post →
      Tall s (ts ++ vs) (nodes ++ post)
  | closed {s : Signature} {closer : Kind} {ts us vs : List Symbol}
      {nodes items post : List Node} : s.tail.closer? = some closer →
      Gapped ts nodes → nodes.length = s.args →
      Gapped us items → (s.tail = .pairs → items.length % 2 = 0) →
      Gapped vs post → post.length = s.post →
      Tall s (ts ++ us ++ gap :: .plain closer :: vs) (nodes ++ items ++ post)

end

lemma Spaced.ne_nil {ts : List Symbol} {nodes : List Node} (h : Spaced ts nodes) :
    nodes ≠ [] := by
  cases h <;> simp

end Grammar

end Runic
