/-!
# Identifiers of the text form

A name stands bare in the text if it is made of ASCII letters, digits, dots, underscores and
hyphens, is not empty and does not start with a digit.  Any other name stands between double
quotes.
-/

namespace Runic.Ir

/-- The character may stand in a name without quotes. -/
def isNameChar (c : Char) : Bool := c.isAlphanum || c = '.' || c = '_' || c = '-'

/-- The name can stand without quotes: it is not empty, starts with no digit and has none but
`isNameChar`. -/
def isBareName (name : List Char) : Bool :=
  match name with
  | [] => false
  | first :: _ => !first.isDigit && name.all isNameChar

/-- The name as an identifier, in quotes unless `isBareName`. -/
def quoteName (name : String) : String :=
  if isBareName name.toList then name else "\"" ++ name ++ "\""

end Runic.Ir
