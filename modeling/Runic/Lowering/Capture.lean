import Runic.Canonical.Expand
import Runic.Lowering.Subject

/-!
# Parameters of traps and gates

A trap or a gate becomes a function of its own.  It takes the data of the subject as parameters,
in the order of the faces, and a gate takes its samples behind them.

* `capturedFaces` are the faces taken.  A slot is not among them, since nothing inside can name
  it, nor is a face that a sample hides.
* `sampleFaces` are the samples a gate declares: `a=@`, or cells of such.
* `innerSubject` is the subject inside.
-/

namespace Runic

open Ir (Value Param Ty)

/-- The data faces of `subject` that a function with these samples takes over as parameters: those
that are no slots and that no sample hides. -/
def capturedFaces (subject : Subject) (samples : List String) : List (String × Value) :=
  subject.dataFaces.filter fun (face, _) => !isReserved face && !samples.contains face

/-- The samples that `mold` declares, behind those declared `before` it.  A face declared twice is
an error at the second one. -/
def sampleFacesFrom (before : List String) (mold : Node) : Except Error (List String) :=
  match mold with
  | .faced face value span =>
    match value with
    | .pat _ =>
      if before.contains face then .error (.lower span (.duplicateSample face))
      else .ok (before ++ [face])
    | _ => .error (.lower value.span (.sampleType value))
  | .cell head tail _ => do
    let before ← sampleFacesFrom before head
    sampleFacesFrom before tail
  | _ => .error (.lower mold.span (.sampleMold mold))

/-- The samples that `mold` declares, from left to right. -/
def sampleFaces (mold : Node) : Except Error (List String) := sampleFacesFrom [] mold

/-- Parameters of the type `atom`, called `names`. -/
def atomParams (atom : Ty) (names : List String) : List Param := names.map (⟨·, atom⟩)

/-- The subject inside a function: the functions known outside unless a sample hides them, and the
parameters. -/
def innerSubject (outer : Subject) (samples : List String) (params : List Param) : Subject :=
  let known := outer.functionFaces.filter fun (face, _) => !samples.contains face
  let functions := known.foldl (fun subject (face, value) => subject.bind face value) .empty
  params.foldl (fun subject param => subject.bind param.name param.value) functions

end Runic
