import Runic.Error
import Runic.Text.Lines

/-!
# Diagnostics

An error that has a place in the source, made ready to be shown.

* `Diagnostic.headline` is one line that any editor can jump to.
* `Diagnostic.summary` says in a few lines what a drawing of the diagnostic shows: a title, the
  place and, for some errors, what could help.  How such a drawing looks is left to the host of the
  command.
-/

namespace Runic

/-- An error with the span it is about, and what is shown with it. -/
structure Diagnostic where
  stage : String
  message : String
  span : Span
  help : Option String
deriving DecidableEq, Repr

/-- What could help against an error, for the errors that have such a hint. -/
def Error.help? : Error → Option String
  | unknownRune _ _ => some "this rune has no grammar entry in hoonc"
  | reduce _ _ => some "only runes with a known rewrite can be compiled"
  | _ => none

namespace Diagnostic

/-- The diagnostic of an error, if it has a place in the source. -/
def ofError? (error : Error) : Option Diagnostic :=
  error.span?.map fun span => ⟨error.stage, error.message, span, error.help?⟩

/-- Place and cause on one line: the file, line and column of the start of the span, and the
message. -/
def headline (diagnostic : Diagnostic) (file source : String) : String :=
  let position := diagnostic.span.position source
  s!"{file}:{position.text}: {diagnostic.stage} error: {diagnostic.message}"

/-- What a drawing of the diagnostic shows: the stage in its title, the place where the excerpt of
the source begins, and the help under it.  An empty source has no place to show. -/
def summary (diagnostic : Diagnostic) (file source : String) : List String :=
  let place := (diagnostic.span.reportPosition? source).map fun position =>
    s!"report at: {file}:{position.text}"
  let help := diagnostic.help.map fun help => s!"report help: {help}"
  s!"report: Error: {diagnostic.stage} error" :: (place.toList ++ help.toList)

end Diagnostic

end Runic
