import Runic.Rune

/-!
# Rune signatures

What may follow a rune: a number of fixed arguments, then what its `Tail` says, then possibly
more fixed arguments.  `Rune.signature?` is the table; a rune without a signature is written like
any other but cannot be read.

* `Signature.accepts` says which argument counts form an application.
-/

namespace Runic

/-- What follows the fixed arguments of a rune. -/
inductive Tail where
  /-- Nothing. -/
  | fixed
  /-- Name/value pairs, closed by `==` in tall form. -/
  | pairs
  /-- Any number of items, closed by `==` in tall form. -/
  | list
  /-- Arms, closed by `--`.  There is no wide form. -/
  | arms
deriving DecidableEq, Repr

/-- The arguments that a rune takes: fixed ones, then its tail, then fixed ones again. -/
structure Signature where
  /-- Arguments before the tail. -/
  args : Nat
  tail : Tail
  /-- Arguments behind the tail. -/
  post : Nat
deriving DecidableEq, Repr

namespace Signature

/-- Exactly `args` arguments. -/
def fixed (args : Nat) : Signature := ⟨args, .fixed, 0⟩

/-- `args` arguments, then pairs, then `post` more. -/
def pairs (args post : Nat) : Signature := ⟨args, .pairs, post⟩

/-- `args` arguments, then a list of items. -/
def list (args : Nat) : Signature := ⟨args, .list, 0⟩

/-- `args` arguments, then arms. -/
def arms (args : Nat) : Signature := ⟨args, .arms, 0⟩

/-- The fewest arguments that an application can have. -/
def least (s : Signature) : Nat := s.args + s.post

/-- An application may have `count` arguments. -/
def accepts (s : Signature) (count : Nat) : Bool :=
  match s.tail with
  | .fixed => count == s.args
  | .pairs => s.least ≤ count && (count - s.least) % 2 == 0
  | .list | .arms => s.args ≤ count

end Signature

/-- The signature of a rune.  A rune of the vocabulary without one cannot be read. -/
def Rune.signature? : Rune → Option Signature
  | .dotket => some (.fixed 2)
  | .dotlus => some (.fixed 1)
  | .dottar => some (.fixed 2)
  | .dottis => some (.fixed 2)
  | .dotwut => some (.fixed 1)
  | .zapgar => some (.fixed 1)
  | .zapgal => some (.fixed 2)
  | .zapcol => some (.fixed 1)
  | .zapdot => some (.fixed 1)
  | .zaptis => some (.fixed 1)
  | .zapwut => some (.fixed 2)
  | .zapzap => none
  | .tislus => some (.fixed 2)
  | .tishep => some (.fixed 2)
  | .tisbar => some (.fixed 2)
  | .tisfas => some (.fixed 3)
  | .tismic => some (.fixed 3)
  | .tisdot => some (.fixed 3)
  | .tiscol => some (.pairs 0 1)
  | .tiswut => some (.fixed 4)
  | .tistar => some (.fixed 3)
  | .tisgar => some (.fixed 2)
  | .tisgal => some (.fixed 2)
  | .tissig => some (.list 0)
  | .tiscom => some (.fixed 2)
  | .tisket => some (.fixed 4)
  | .wutgar => some (.fixed 2)
  | .wutgal => some (.fixed 2)
  | .wutbar => some (.list 0)
  | .wutpam => some (.list 0)
  | .wutzap => some (.fixed 1)
  | .wuttis => some (.fixed 2)
  | .wutcol => some (.fixed 3)
  | .wutdot => some (.fixed 3)
  | .wutpat => some (.fixed 3)
  | .wutket => some (.fixed 3)
  | .wutsig => some (.fixed 3)
  | .wuthep => some (.pairs 1 0)
  | .wutlus => some (.pairs 2 0)
  | .barcab => some (.arms 1)
  | .barcen => some (.arms 0)
  | .barcol => some (.fixed 2)
  | .bardot => some (.fixed 1)
  | .barhep => some (.fixed 1)
  | .barwut => some (.fixed 1)
  | .barket => some (.arms 1)
  | .barsig => some (.fixed 2)
  | .bartis => some (.fixed 2)
  | .bartar => some (.fixed 2)
  | .barpat => some (.arms 0)
  | .luslus => some (.fixed 2)
  | .lusbuc => some (.fixed 2)
  | .lustar => some (.fixed 2)
  | .lusbar => some (.fixed 1)
  | .colhep => some (.fixed 2)
  | .colcab => some (.fixed 2)
  | .collus => some (.fixed 3)
  | .colket => some (.fixed 4)
  | .coltar => some (.list 0)
  | .colsig => some (.list 0)
  | .censig => some (.fixed 3)
  | .cenhep => some (.fixed 2)
  | .cendot => some (.fixed 2)
  | .cenlus => some (.fixed 3)
  | .cenket => some (.fixed 4)
  | .cencol => some (.list 1)
  | .centis => some (.pairs 1 0)
  | .cencab => some (.pairs 1 0)
  | .centar => some (.pairs 2 0)
  | .ketbar => some (.fixed 1)
  | .ketpam => some (.fixed 1)
  | .ketwut => some (.fixed 1)
  | .ketcol => some (.fixed 1)
  | .ketdot => some (.fixed 2)
  | .kethep => some (.fixed 2)
  | .ketlus => some (.fixed 2)
  | .ketsig => some (.fixed 1)
  | .kettar => some (.fixed 1)
  | .kettis => some (.fixed 2)
  | .buccab => some (.fixed 1)
  | .buccen => some (.list 0)
  | .buccol => some (.list 0)
  | .bucwut => some (.list 0)
  | .bucgal => some (.fixed 2)
  | .bucgar => some (.fixed 2)
  | .buchep => some (.fixed 2)
  | .bucpat => some (.fixed 2)
  | .bucket => some (.fixed 2)
  | .bucsig => some (.fixed 2)
  | .buctis => some (.fixed 2)
  | .miccol => some (.list 1)
  | .miclus => some (.fixed 1)
  | .micfas => some (.fixed 1)
  | .mictar => some (.fixed 1)
  | .mictis => some (.list 0)
  | .micmic => some (.fixed 2)
  | .micsig => some (.list 1)
  | .siggar => some (.fixed 2)
  | .sigbar => some (.fixed 2)
  | .sigcab => some (.fixed 2)
  | .sigbuc => some (.fixed 2)
  | .sigcen => some (.fixed 4)
  | .siggal => some (.fixed 2)
  | .siglus => some (.fixed 1)
  | .sigfas => some (.fixed 2)
  | .sigpam => some (.fixed 2)
  | .sigwut => some (.fixed 3)
  | .sigzap => some (.fixed 2)
  | .sigtis => none
  | .other _ => none

end Runic
