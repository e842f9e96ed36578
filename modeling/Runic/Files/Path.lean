/-!
# Paths

A path is a text that the user gave, its base, and the names below it that were found or made.  The
base is shown as it was given, with whatever dots and slashes it has, and so is every path built
on it.

* `Path.text` is how a path is shown.
* `Path.steps` is how it is followed: one name at a time.
* `Path.parent?`, `Path.fileName?`, `Path.extension?` and `Path.withExtension` go by the text.
  Slashes and dots at the end of a base do not count for them.
-/

namespace Runic

/-- A text as it was given, and the names that a walk has put below it. -/
structure Path where
  base : String
  names : List String := []
deriving DecidableEq, Repr

namespace Path

/-! ## Texts -/

/-- A name can follow the text without a slash between them. -/
def isOpen (text : String) : Bool := text.isEmpty || text.toList.getLast? = some '/'

/-- The text of `name` below `text`, with a slash between them unless there is one. -/
def join (text name : String) : String := if isOpen text then text ++ name else text ++ "/" ++ name

/-- The texts between slashes.  A slash starts a new one in front of those behind it, and any other
character belongs to the first of them. -/
def betweenSlashes (cs : List Char) : List (List Char) :=
  cs.foldr (fun c pieces => if c = '/' then [] :: pieces else pieces.modifyHead (c :: ·)) [[]]

/-- The steps that a text says.  A slash at its end is a step with no name; other empty names are no
steps. -/
def textSteps (text : String) : List String :=
  let pieces := betweenSlashes text.toList
  let last := if text.isEmpty then [] else pieces.getLast?.toList
  (pieces.dropLast.filter (· ≠ []) ++ last).map String.ofList

/-- The characters of a text from its end, without the slashes and dots there that do not change
where it leads. -/
def trimEnd : List Char → List Char
  | ['/'] => ['/']
  | '/' :: cs => trimEnd cs
  | '.' :: '/' :: cs => trimEnd ('/' :: cs)
  | cs => cs

/-- The characters of `text` from its end, trimmed by `trimEnd`. -/
def reversed (text : String) : List Char := trimEnd text.toList.reverse

/-- The text without its last name.  The root and the empty text have no parent. -/
def textParent? (text : String) : Option String :=
  match reversed text with
  | [] | ['/'] => none
  | cs => some (String.ofList (trimEnd (cs.dropWhile (· ≠ '/'))).reverse)

/-- The last name of a text, unless it is `.` or `..` or the text has none. -/
def textFileName? (text : String) : Option String :=
  match String.ofList ((reversed text).takeWhile (· ≠ '/')).reverse with
  | "" | "." | ".." => none
  | name => some name

/-- The stem and the extension of a name, divided by its last dot.  A dot in front divides
nothing. -/
def splitName? (name : String) : Option (String × String) :=
  let cs := name.toList.reverse
  match cs.dropWhile (· ≠ '.') with
  | [] | [_] => none
  | _ :: stem =>
    some (String.ofList stem.reverse, String.ofList (cs.takeWhile (· ≠ '.')).reverse)

/-- The name without its extension; a name without extension is its own stem. -/
def stem (name : String) : String :=
  match splitName? name with
  | some (stem, _) => stem
  | none => name

/-- The name with `extension` instead of its own. -/
def rename (name extension : String) : String := stem name ++ "." ++ extension

/-! ## Paths -/

/-- The path as it is shown, with its names joined below its text. -/
def text (path : Path) : String := path.names.foldl join path.base

/-- The steps of a path: those of its text, then its names. -/
def steps (path : Path) : List String := textSteps path.base ++ path.names

/-- The path of `names` below `base`.  If there are none, the text gets a slash at its end and
stands for a directory. -/
def below (base : String) (names : List String) : Path :=
  if names.isEmpty then ⟨join base "", []⟩ else ⟨base, names⟩

/-- The path without its last name, or what the text says of that if there are no names. -/
def parent? (path : Path) : Option Path :=
  match path.names with
  | [] => (textParent? path.base).map (⟨·, []⟩)
  | [_] => some ⟨String.ofList (reversed path.base).reverse, []⟩
  | names => some ⟨path.base, names.dropLast⟩

/-- The last name of a path, or that of its text if there are no names. -/
def fileName? (path : Path) : Option String :=
  match path.names.getLast? with
  | some name => some name
  | none => textFileName? path.base

/-- The extension of the last name of a path. -/
def extension? (path : Path) : Option String :=
  (path.fileName?.bind splitName?).map Prod.snd

/-- The last of the names below a text, with another extension.  The old extension goes first and
leaves its dot; if that makes two dots they are the way up, which takes no extension. -/
def renameLast (name extension : String) : String :=
  if stem name = "." then ".." else rename name extension

/-- The path with `extension` instead of its own.  A path without a last name stays as it is. -/
def withExtension (path : Path) (extension : String) : Path :=
  match path.names.getLast? with
  | some name => ⟨path.base, path.names.dropLast ++ [renameLast name extension]⟩
  | none =>
    match textFileName? path.base with
    | some name =>
      let above := String.ofList ((reversed path.base).dropWhile (· ≠ '/')).reverse
      ⟨above ++ rename name extension, []⟩
    | none => path

end Path

end Runic
