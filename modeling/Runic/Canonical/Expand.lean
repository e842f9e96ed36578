import Runic.Error

/-!
# Expanding runes

Eight runes are canonical: code is made from them directly.  Every other rune that has a meaning
is short for a tree with runes nearer to those eight.  `expand` is the table: it takes one such
rune with its arguments and gives the tree it is short for, which may need expanding in turn.

* Casts and hints are erased, molds are replaced by their default value (`bunt`).
* A value without a name of its own is bound to the reserved slot `^`.  No name that can be
  written starts with `^`, so slots and names never meet.
* `=:` rebinds several names at once: every value is parked in a slot before any name is bound
  (`rebindMany`), so that no value sees a new one.

Nodes that come out of an expansion have the span of the rune, names keep their own.
-/

namespace Runic

/-! ## Canonical runes and reserved slots -/

/-- The runes that lowering knows.  All others are short for these and are removed by `expand`. -/
def Rune.isCanonical : Rune → Bool
  | tisfas | centis | wutcol | dotlus | dottis | cenhep | barhep | bartis => true
  | _ => false

/-- The slot of a value without a name.  No face of a source starts with `^`. -/
def anonymousSlot : String := "^"

/-- The slot in which the new value of `face` is parked, until all the values of a simultaneous
binding are computed. -/
def parkingSlot (face : String) : String := anonymousSlot ++ face

/-- The face starts with `^` and is a slot, so that no source can name it. -/
def isReserved (face : String) : Bool := face.toList.head? = some '^'

/-- The slot `anonymousSlot` as a tree. -/
def anonymous (span : Span) : Node := .face anonymousSlot span

/-! ## Taking arguments apart -/

/-- Apply `f` to exactly one argument; any other number of `args` is an arity error at `span`. -/
def takeOne (rune : Rune) (args : List Node) (span : Span)
    (f : Node → Except Error Node) : Except Error Node :=
  match args with
  | [a] => f a
  | _ => .error (.reduce span (.arity rune 1 args.length))

/-- Apply `f` to exactly two arguments, as `takeOne` does to one. -/
def takeTwo (rune : Rune) (args : List Node) (span : Span)
    (f : Node → Node → Except Error Node) : Except Error Node :=
  match args with
  | [a, b] => f a b
  | _ => .error (.reduce span (.arity rune 2 args.length))

/-- Apply `f` to exactly three arguments, as `takeOne` does to one. -/
def takeThree (rune : Rune) (args : List Node) (span : Span)
    (f : Node → Node → Node → Except Error Node) : Except Error Node :=
  match args with
  | [a, b, c] => f a b c
  | _ => .error (.reduce span (.arity rune 3 args.length))

/-- Apply `f` to exactly four arguments, as `takeOne` does to one. -/
def takeFour (rune : Rune) (args : List Node) (span : Span)
    (f : Node → Node → Node → Node → Except Error Node) : Except Error Node :=
  match args with
  | [a, b, c, d] => f a b c d
  | _ => .error (.reduce span (.arity rune 4 args.length))

/-- The text of a name with the span of the face it was read from. -/
structure Name where
  text : String
  place : Span
deriving DecidableEq, Repr

namespace Name

/-- The name as a face. -/
def node (name : Name) : Node := .face name.text name.place

/-- The slot `parkingSlot` of the name as a face. -/
def slot (name : Name) : Node := .face (parkingSlot name.text) name.place

end Name

/-- The name that an argument of `rune` is: a face, or the label of a name with its mold.  Any other
tree is an error at its span. -/
def expectFace (rune : Rune) (node : Node) : Except Error Name :=
  match node with
  | .face name span => .ok ⟨name, span⟩
  | .faced label _ span => .ok ⟨label, span⟩
  | _ => .error (.reduce node.span (.notFace rune node))

/-- The arm `$`. -/
def expectBucArm (rune : Rune) (arm : Node) : Except Error Unit :=
  match arm with
  | .buc _ => .ok ()
  | _ => .error (.reduce arm.span (.notBucArm rune arm))

/-! ## Parts of the table -/

/-- The default value of a mold: zero for `@` and `$`, and the same labels and cells over the
default values of their parts. -/
def bunt (mold : Node) : Except Error Node :=
  match mold with
  | .pat span | .buc span => .ok (.num "0" span)
  | .faced label value span => do return .faced label (← bunt value) span
  | .cell head tail span => do return .cell (← bunt head) (← bunt tail) span
  | _ => .error (.reduce mold.span (.noDefault mold))

/-- The items as a right-nested cell: `nestCells span a [b, c]` is the cell of `a` with the cell of
`b` and `c`. -/
def nestCells (span : Span) : Node → List Node → Node
  | item, [] => item
  | head, next :: items => .cell head (nestCells span next items) span

/-- A name to be bound by `park` and `unpark`, and its value. -/
structure Binding where
  name : Name
  value : Node
deriving DecidableEq, Repr

/-- Read arguments as names and values in turn.  An odd argument at the end, or a name that is no
face, is an error. -/
def bindings (rune : Rune) : List Node → Except Error (List Binding)
  | name :: value :: rest => do
    let name ← expectFace rune name
    let rest ← bindings rune rest
    return ⟨name, value⟩ :: rest
  | _ => .ok []

/-- Bind the value of every binding under the slot of its name, the first value outermost, around
`body`. -/
def park (span : Span) (bs : List Binding) (body : Node) : Node :=
  bs.foldr (fun b inner => .rune .tisfas [b.name.slot, b.value, inner] span) body

/-- Bind every name to the value in its slot, the first name outermost, around `body`. -/
def unpark (span : Span) (bs : List Binding) (body : Node) : Node :=
  bs.foldr (fun b inner => .rune .tisfas [b.name.node, b.name.slot, inner] span) body

/-- Bind all names of `=:` at once. -/
def rebindMany (args : List Node) (span : Span) : Except Error Node :=
  match args.getLast? with
  | none => .error (.reduce span (.tooFew .tiscol 1))
  | some body =>
    if args.dropLast.length % 2 ≠ 0 then .error (.reduce span .oddPairs)
    else do
      match ← bindings .tiscol args.dropLast with
      | [] => return body
      | [b] => return .rune .tisdot [b.name.node, b.value, body] span
      | bs => return park span bs (unpark span bs body)

/-- Bind the value `pin` in `body`: under the name it is labelled with, or else in the anonymous
slot. -/
def pinned (pin : Node) (body : Node) (span : Span) : Node :=
  match pin with
  | .faced label value place => .rune .tisfas [.face label place, value, body] span
  | _ => .rune .tisfas [anonymous span, pin, body] span

/-! ## The table -/

/-- One expansion of a rune that is not canonical: an application of `rune` as a tree with runes
that are closer to the canonical ones.  It looks at the top of the tree only; `reduce` applies it
until no short rune is left. -/
def expand (rune : Rune) (args : List Node) (span : Span) : Except Error Node :=
  match rune with
  -- tis: the subject
  | .tislus => takeTwo rune args span fun pin body => .ok (pinned pin body span)
  | .tishep => takeTwo rune args span fun body pin => .ok (.rune .tislus [pin, body] span)
  | .tismic => takeThree rune args span fun name body value =>
      .ok (.rune .tisfas [name, value, body] span)
  | .tisbar => takeTwo rune args span fun mold body => do
      match mold with
      | .faced label value place => return pinned (.faced label (← bunt value) place) body span
      | _ => return .rune .tisfas [anonymous span, ← bunt mold, body] span
  | .tisdot | .tistar => takeThree rune args span fun name value body => do
      let name ← expectFace rune name
      return .rune .tisfas [name.node, value, body] span
  | .tiscol => rebindMany args span
  | .tiswut => takeFour rune args span fun name test value body => do
      let name ← expectFace rune name
      return .rune .wutcol [test, .rune .tisdot [name.node, value, body] span, body] span
  -- wut: conditionals
  | .wutdot => takeThree rune args span fun test no yes =>
      .ok (.rune .wutcol [test, yes, no] span)
  -- bar: gates and traps
  | .bartar => takeTwo rune args span fun sample body => .ok (.rune .bartis [sample, body] span)
  | .barsig => takeTwo rune args span fun sample body =>
      .ok (.rune .ketbar [.rune .bartis [sample, body] span] span)
  | .barket =>
      if args.length ≠ 1 then .error (.reduce span .extraArms) else .ok (.rune .barhep args span)
  -- cen: calls
  | .cenlus | .cenket | .cencol => .ok (.rune .cenhep args span)
  | .cendot => takeTwo rune args span fun sample gate => .ok (.rune .cenhep [gate, sample] span)
  | .cencab => .ok (.rune .centis args span)
  | .censig => takeThree rune args span fun arm door sample => do
      expectBucArm rune arm
      return .rune .cenhep [door, sample] span
  | .centar =>
      match args with
      | arm :: door :: pairs => do
        expectBucArm rune arm
        let call := .rune .centis (anonymous span :: pairs) span
        return .rune .tisfas [anonymous span, door, call] span
      | _ => .error (.reduce span (.tooFew rune 2))
  -- col: cells
  | .colhep | .collus | .colket | .coltar =>
      match args with
      | [] => .error (.reduce span (.tooFew rune 1))
      | item :: items => .ok (nestCells span item items)
  | .colcab => takeTwo rune args span fun tail head => .ok (.rune .colhep [head, tail] span)
  -- ket: casts
  | .kethep | .ketlus => takeTwo rune args span fun _ value => .ok value
  | .ketbar | .ketpam | .ketwut | .ketsig => takeOne rune args span fun value => .ok value
  | .kettar => takeOne rune args span fun mold => bunt mold
  | .kettis => takeTwo rune args span fun name value => do
      let name ← expectFace rune name
      return .faced name.text value span
  -- sig: hints
  | .sigpam | .sigbar | .sigcab | .sigbuc | .siggal | .siggar | .sigfas | .sigzap =>
      takeTwo rune args span fun _ body => .ok body
  | .siglus => takeOne rune args span fun body => .ok body
  | .sigwut => takeThree rune args span fun _ _ body => .ok body
  -- zap: debugging toggles
  | .zapcol | .zapdot => takeOne rune args span fun body => .ok body
  | _ => .error (.reduce span (.noExpansion rune))

end Runic
