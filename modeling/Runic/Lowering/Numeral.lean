import Runic.Error
import Runic.Ir.Basic

/-!
# Numerals

A numeral is read as a decimal number, whatever dots group its digits, and must fit the signed
range of an atom from above.  Numbers are held as signed words of 64 bits, so no numeral exceeds
their range, however wide an atom is.

The digits of a tree that was not read from a source may be any text.  A sign in front of them is
understood; anything else that is no digit is a misfit.
-/

namespace Runic

/-- The number that a list of decimal digits stands for, `value` standing before them. -/
def decimalFrom? (value : Nat) : List Char → Option Nat
  | [] => some value
  | c :: cs => if c.isDigit then decimalFrom? (10 * value + (c.toNat - '0'.toNat)) cs else none

/-- The number that at least one decimal digit stands for. -/
def decimal? : List Char → Option Nat
  | [] => none
  | cs => decimalFrom? 0 cs

/-- The number of decimal digits behind an optional sign. -/
def signedDecimal? : List Char → Option Int
  | '+' :: cs => (decimal? cs).map Int.ofNat
  | '-' :: cs => (decimal? cs).map fun n => -Int.ofNat n
  | cs => (decimal? cs).map Int.ofNat

/-- The least signed word of 64 bits. -/
def leastWord : Int := -Int.ofNat (Nat.pow 2 63)

/-- The greatest number in an atom of `bits` bits, the first of which is the sign.  Atoms of more
than 64 bits hold no more than those of 64. -/
def greatestAtom (bits : Nat) : Int := Int.ofNat (Nat.pow 2 (min bits 64 - 1) - 1)

/-- The number that a numeral stands for in an atom of `bits` bits: the dots are dropped, and the
number has to lie between `leastWord` and `greatestAtom bits`. -/
def numeralValue? (bits : Nat) (digits : String) : Option Int :=
  (signedDecimal? (digits.toList.filter (· ≠ '.'))).filter fun value =>
    leastWord ≤ value ∧ value ≤ greatestAtom bits

/-- A numeral as a constant of the type `atom`, or the error that it does not fit. -/
def numeral (atom : Ir.Ty) (digits : String) (span : Span) : Except Error Ir.Value :=
  match atom with
  | .bool => .error (.lower span .atomsNotIntegers)
  | .int bits =>
    match numeralValue? bits digits with
    | some value => .ok (.const atom value)
    | none => .error (.lower span (.numeralTooLarge digits bits))

end Runic
