import Runic.Ir.Basic

/-!
# The subject

Code is made under a subject, which says what value each face stands for.  A subject is a finite
map kept in the order of its faces, so two subjects that say the same are equal, and whatever is
made from all faces of a subject does not depend on the order in which they were bound.

Binding a face gives a new subject and leaves the old one as it is; both branches of a conditional
start from the same one.
-/

namespace Runic

open Ir (Value)

/-- Bind `face` in an ordered list of bindings, in place of an earlier binding of it. -/
def bindOrdered (face : String) (value : Value) :
    List (String × Value) → List (String × Value)
  | [] => [(face, value)]
  | (other, kept) :: rest =>
    if face < other then (face, value) :: (other, kept) :: rest
    else if face = other then (face, value) :: rest
    else (other, kept) :: bindOrdered face value rest

/-- A binding of `bindOrdered face value bs` is the new one or one of `bs`. -/
theorem mem_bindOrdered {face : String} {value : Value} {bs : List (String × Value)}
    {b : String × Value} (h : b ∈ bindOrdered face value bs) : b = (face, value) ∨ b ∈ bs := by
  induction bs with
  | nil => simpa [bindOrdered] using h
  | cons first rest ih =>
    obtain ⟨other, kept⟩ := first
    simp only [bindOrdered] at h
    split at h
    · simpa using h
    · split at h
      · rcases List.mem_cons.1 h with h | h
        · exact .inl h
        · exact .inr (List.mem_cons_of_mem _ h)
      · rcases List.mem_cons.1 h with h | h
        · exact .inr (h ▸ List.mem_cons_self ..)
        · rcases ih h with h | h
          · exact .inl h
          · exact .inr (List.mem_cons_of_mem _ h)

/-- The list `bindOrdered face value bs` is ordered by its faces if `bs` is. -/
theorem bindOrdered_pairwise {face : String} {value : Value} {bs : List (String × Value)}
    (h : bs.Pairwise fun a b => a.1 < b.1) :
    (bindOrdered face value bs).Pairwise fun a b => a.1 < b.1 := by
  induction bs with
  | nil => simp [bindOrdered]
  | cons first rest ih =>
    obtain ⟨other, kept⟩ := first
    obtain ⟨below, ordered⟩ := List.pairwise_cons.1 h
    simp only [bindOrdered]
    split
    · next lt =>
      refine List.pairwise_cons.2 ⟨?_, h⟩
      intro b hb
      rcases List.mem_cons.1 hb with rfl | hb
      · exact lt
      · exact String.lt_trans lt (below b hb)
    · next notLt =>
      split
      · next same =>
        subst same
        exact List.pairwise_cons.2 ⟨below, ordered⟩
      · next differ =>
        have gt : other < face := by
          refine Decidable.byContradiction fun notGt => differ ?_
          exact String.le_antisymm (String.not_lt.1 notGt) (String.not_lt.1 notLt)
        refine List.pairwise_cons.2 ⟨?_, ih ordered⟩
        intro b hb
        rcases mem_bindOrdered hb with rfl | hb
        · exact gt
        · exact below b hb

/-- What each face stands for, while a tree is lowered. -/
structure Subject where
  /-- The faces with their values, in the order of the faces. -/
  bindings : List (String × Value)
  ordered : bindings.Pairwise fun a b => a.1 < b.1
deriving DecidableEq

namespace Subject

/-- The subject in which no face is bound. -/
def empty : Subject := ⟨[], .nil⟩

/-- The value of `face`, if it is bound. -/
def get? (subject : Subject) (face : String) : Option Value := subject.bindings.lookup face

/-- Bind `face` to `value`, in place of an earlier binding of it. -/
def bind (subject : Subject) (face : String) (value : Value) : Subject :=
  ⟨bindOrdered face value subject.bindings, bindOrdered_pairwise subject.ordered⟩

/-- The bindings to values at run time, in the order of their faces. -/
def dataFaces (subject : Subject) : List (String × Value) :=
  subject.bindings.filter fun (_, value) => value.func?.isNone

/-- The bindings to functions, in the order of their faces. -/
def functionFaces (subject : Subject) : List (String × Value) :=
  subject.bindings.filter fun (_, value) => value.func?.isSome

end Subject

end Runic
