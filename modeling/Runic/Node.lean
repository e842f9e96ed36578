import Runic.Rune.Signature
import Runic.Text.Span

/-!
# Trees

One type of tree serves what is read from a source and what remains of it in canonical form: the
two differ only in the runes that appear.  Every node carries the span it was read from, or the
span of the node that it was made from.
-/

namespace Runic

/-- An expression, with the span it was read from at every node. -/
inductive Node where
  /-- `$`: the mold of anything, or as a value the function it stands in. -/
  | buc (span : Span)
  /-- `@`: the mold of atoms. -/
  | pat (span : Span)
  /-- `.`: the whole subject. -/
  | dot (span : Span)
  /-- A name. -/
  | face (name : String) (span : Span)
  /-- `name=value`: a labelled value, or a name with its mold. -/
  | faced (face : String) (value : Node) (span : Span)
  /-- A numeral, with its grouping dots. -/
  | num (digits : String) (span : Span)
  /-- A rune applied to arguments. -/
  | rune (rune : Rune) (args : List Node) (span : Span)
  /-- A pair; longer sequences nest to the right. -/
  | cell (head tail : Node) (span : Span)
deriving Repr, Inhabited

namespace Node

/-- The span of the node itself, its parts included. -/
def span : Node → Span
  | buc span | pat span | dot span | face _ span | faced _ _ span | num _ span | rune _ _ span
  | cell _ _ span => span

/-- The name of a bare face. -/
def face? : Node → Option String
  | face name _ => some name
  | _ => none

/-- Induction over trees, with one case for each form.  The case of `rune` has the hypothesis for
every argument. -/
@[elab_as_elim] theorem induction {motive : Node → Prop} (buc : ∀ span, motive (.buc span))
    (pat : ∀ span, motive (.pat span)) (dot : ∀ span, motive (.dot span))
    (face : ∀ name span, motive (.face name span))
    (faced : ∀ label value span, motive value → motive (.faced label value span))
    (num : ∀ digits span, motive (.num digits span))
    (rune : ∀ r args span, (∀ arg ∈ args, motive arg) → motive (.rune r args span))
    (cell : ∀ head tail span, motive head → motive tail → motive (.cell head tail span))
    (node : Node) : motive node :=
  @Node.rec motive (fun nodes => ∀ arg ∈ nodes, motive arg) buc pat dot face faced num rune cell
    (fun _ absent => nomatch absent)
    (fun _ _ first others => List.forall_mem_cons.2 ⟨first, others⟩) node

/-! ## Equality

Two trees are equal if they have the same shape, texts and spans. -/

mutual

/-- Two trees are equal, spans included.  The instance of `DecidableEq` rests on it. -/
def same : Node → Node → Bool
  | buc s, buc t | pat s, pat t | dot s, dot t => s = t
  | face m s, face n t | num m s, num n t => m = n && s = t
  | faced m a s, faced n b t => m = n && same a b && s = t
  | rune q as s, rune r bs t => q = r && sameAll as bs && s = t
  | cell a c s, cell b d t => same a b && same c d && s = t
  | _, _ => false

/-- Two lists of trees are equal, as `same` says of each pair. -/
def sameAll : List Node → List Node → Bool
  | [], [] => true
  | a :: as, b :: bs => same a b && sameAll as bs
  | _, _ => false

end

mutual

theorem same_iff : ∀ a b : Node, same a b = true ↔ a = b
  | buc _, b => by cases b <;> simp [same]
  | pat _, b => by cases b <;> simp [same]
  | dot _, b => by cases b <;> simp [same]
  | face _ _, b => by cases b <;> simp [same]
  | num _ _, b => by cases b <;> simp [same]
  | faced _ a _, b => by
    cases b with
    | faced _ b _ => simp [same, same_iff a b, and_assoc]
    | _ => simp [same]
  | rune _ as _, b => by
    cases b with
    | rune _ bs _ => simp [same, sameAll_iff as bs, and_assoc]
    | _ => simp [same]
  | cell a c _, b => by
    cases b with
    | cell b d _ => simp [same, same_iff a b, same_iff c d, and_assoc]
    | _ => simp [same]

theorem sameAll_iff : ∀ as bs : List Node, sameAll as bs = true ↔ as = bs
  | [], bs => by cases bs <;> simp [sameAll]
  | a :: as, bs => by
    cases bs with
    | nil => simp [sameAll]
    | cons b bs => simp [sameAll, same_iff a b, sameAll_iff as bs]

end

instance : DecidableEq Node := fun a b => decidable_of_iff _ (same_iff a b)

end Node

end Runic
