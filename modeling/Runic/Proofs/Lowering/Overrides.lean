import Runic.Proofs.Attempt
import Runic.Proofs.Lookup
import Runic.Proofs.Lowering.Derivation

/-!
# Calls by name

`%=` calls a function with pairs of a name and a value.  The pairs are not what is lowered: the
parameters of the function are, one after the other, each from the first pair of its name
(`override?`) or else from the subject.

* `callee?` — the function that is called, which the pairs have no say in.
* `lower_overriding_congr` — two lists of pairs that say the same of the parameters have the same
  code.
* `lower_centis_unordered` — **so the order of pairs does not matter, nor do those that are never
  looked up**.
-/

namespace Runic

open Ir

/-- The name and the value of a binding, as two arguments of a call. -/
def Binding.nodes (b : Binding) : List Node := [b.name.node, b.value]

/-- The text of the name of a binding, with its value. -/
def Binding.entry (b : Binding) : String × Node := (b.name.text, b.value)

/-- The value of the first binding with the name `name`. -/
def override? (bs : List Binding) (name : String) : Option Node :=
  (bs.map Binding.entry).lookup name

/-- A call by names, with `bs` as its pairs and possibly half a pair behind them. -/
def overriding (target : Node) (bs : List Binding) (half : Option Node) (span : Span) : Node :=
  .rune .centis (target :: (bs.flatMap Binding.nodes ++ half.toList)) span

namespace Lowering

variable {σ : Subject} {site : Site} {span : Span}

/-- The function that a call by names calls, if its head is known without lowering it. -/
def callee? (σ : Subject) (site : Site) (target : Node) : Option FuncId :=
  match Head.of target with
  | .here => some site.func
  | .named name => (σ.get? name).bind Value.func?
  | .computed | .refused => none

/-- The function that is called is in the module, and `name` is one of its parameters. -/
def CalleeTakes (m : Module) (σ : Subject) (site : Site) (target : Node) (name : String) : Prop :=
  ∃ callee F, callee? σ site target = some callee ∧ m.functions[callee]? = some F ∧
    name ∈ F.params.map Param.name

/-! ## Pairs -/

lemma length_nodes (bs : List Binding) : (bs.flatMap Binding.nodes).length = 2 * bs.length := by
  induction bs with
  | nil => rfl
  | cons b bs ih =>
      rw [List.flatMap_cons, List.length_append, ih, List.length_cons]
      simp only [Binding.nodes, List.length_cons, List.length_nil]
      omega

lemma checkNames_nodes (bs : List Binding) : checkNames (bs.flatMap Binding.nodes) = .ok () := by
  induction bs with
  | nil => rfl
  | cons b bs ih => exact ih

/-- Pairs whose names are faces pass `checkPairs`, unless half a pair is behind them. -/
lemma checkPairs_nodes (bs : List Binding) (half : Option Node) :
    checkPairs span (bs.flatMap Binding.nodes ++ half.toList) =
      if half.isSome then .error (.lower span .oddPairs) else .ok () := by
  rw [checkPairs, List.length_append, length_nodes]
  cases half with
  | none => simpa using checkNames_nodes bs
  | some node => simp

/-- The argument for `name` is the value of the first pair of this name, or else the atom of the
subject. -/
lemma lowerNamed_nodes (bs : List Binding) (half : Option Node) (name : String) :
    lowerNamed (bs.flatMap Binding.nodes ++ half.toList) name σ site span =
      (override? bs name).elim (subjectAtom σ site span name) fun value =>
        atomOperand site value.span (lower value σ site) := by
  induction bs with
  | nil => cases half <;> simp [lowerNamed, override?]
  | cons b bs ih =>
      rw [override?, List.map_cons, Binding.entry, lookup_cons_if, List.flatMap_cons,
        Binding.nodes, Name.node]
      simp only [List.cons_append, List.nil_append, lowerNamed, eq_comm]
      split
      · rfl
      · exact ih

/-! ## Calls -/

/-- Call the function `callee` by names: each parameter from the pairs, or else from the subject. -/
def callNamed (pairs : List Node) (σ : Subject) (site : Site) (span : Span) (callee : FuncId) :
    Build (Option Value) := do
  Attempt.ofExcept (checkPairs span pairs)
  let params ← paramNames callee
  let args ← params.mapM fun name => lowerNamed pairs name σ site span
  emit site (.call callee site.atom args)

/-- A call by names finds its callee by the head, and is `callNamed` from there. -/
lemma lower_centis (target : Node) (pairs : List Node) (span : Span) (σ : Subject) (site : Site) :
    lower (.rune .centis (target :: pairs) span) σ site =
      match Head.of target with
      | .here => callNamed pairs σ site span site.func
      | .named name => gate σ target.span name >>= callNamed pairs σ site span
      | .computed | .refused => fail target.span (.overrideTarget target) := by
  rw [lower]
  cases Head.of target <;> rfl

/-- The loops `mapM f` and `mapM g` are equal if `f` and `g` are on the names. -/
lemma mapM_congr {names : List String} {f g : String → Build Value}
    (h : ∀ name ∈ names, f name = g name) : names.mapM f = names.mapM g := by
  induction names with
  | nil => rfl
  | cons name names ih =>
      rw [List.forall_mem_cons] at h
      rw [List.mapM_cons, List.mapM_cons, h.1, ih h.2]

/-- If two lists of pairs have the same overrides for all parameters of the callee, the calls are
equal. -/
lemma callNamed_congr {m : Module} {callee : FuncId} {bs bs' : List Binding} (half : Option Node)
    (h : ∀ F, m.functions[callee]? = some F → ∀ name ∈ F.params.map Param.name,
      override? bs name = override? bs' name) :
    callNamed (bs.flatMap Binding.nodes ++ half.toList) σ site span callee m =
      callNamed (bs'.flatMap Binding.nodes ++ half.toList) σ site span callee m := by
  rw [callNamed, callNamed, checkPairs_nodes, checkPairs_nodes]
  cases half with
  | some node => rfl
  | none =>
      simp only [Option.isSome_none, Bool.false_eq_true, if_false, Attempt.bind_apply,
        Attempt.ofExcept, Attempt.pure_apply]
      rcases hrun : paramNames callee m with ⟨outcome, m'⟩
      cases outcome with
      | error e => rfl
      | ok names =>
          obtain ⟨F, hF, rfl, rfl⟩ := paramNames_eq_ok.1 hrun
          have hargs : ∀ name ∈ F.params.map Param.name,
              lowerNamed (bs.flatMap Binding.nodes ++ Option.toList none) name σ site span =
                lowerNamed (bs'.flatMap Binding.nodes ++ Option.toList none) name σ site span := by
            intro name hname
            rw [lowerNamed_nodes, lowerNamed_nodes, h F hF name hname]
          simp only [mapM_congr hargs]

/-- **If two lists of pairs have the same overrides for all parameters of the callee, then the calls
are lowered to the same code.** -/
theorem lower_overriding_congr {m : Module} {target : Node} {bs bs' : List Binding}
    (half : Option Node)
    (h : ∀ name, CalleeTakes m σ site target name → override? bs name = override? bs' name) :
    lower (overriding target bs half span) σ site m =
      lower (overriding target bs' half span) σ site m := by
  have hcall : ∀ callee, callee? σ site target = some callee →
      callNamed (bs.flatMap Binding.nodes ++ half.toList) σ site span callee m =
        callNamed (bs'.flatMap Binding.nodes ++ half.toList) σ site span callee m :=
    fun callee hcallee => callNamed_congr half fun F hF name hname =>
      h name ⟨callee, F, hcallee, hF, hname⟩
  rw [overriding, overriding, lower_centis, lower_centis]
  cases hhead : Head.of target with
  | here => exact hcall site.func (by rw [callee?, hhead])
  | named name =>
      dsimp only
      rw [Attempt.bind_apply, Attempt.bind_apply]
      rcases hgate : gate σ target.span name m with ⟨outcome, m'⟩
      cases outcome with
      | error e => rfl
      | ok callee =>
          obtain ⟨hget, rfl⟩ := gate_eq_ok.1 hgate
          exact hcall callee (by simp [callee?, hhead, hget, Value.func?])
  | computed => rfl
  | refused => rfl

end Lowering

/-- **The pairs of a call by name have no order.**  In any state of a module, under any subject and
at any place, the outcome of `%=` (the value or the error, and the module) stays the same if pairs
with names of their own change places; and if a pair is left out whose name stands in a pair before
it, or is no parameter of the function that is called, whatever its value is. -/
theorem lower_centis_unordered (m : Module) (σ : Subject) (site : Site) (target : Node)
    (half : Option Node) (span : Span) :
    (∀ bs bs' : List Binding, bs.Perm bs' → (bs.map (·.name.text)).Nodup →
      Lowering.lower (overriding target bs half span) σ site m =
        Lowering.lower (overriding target bs' half span) σ site m) ∧
    ∀ (before after : List Binding) (b : Binding),
      b.name.text ∈ before.map (·.name.text) ∨
        ¬ Lowering.CalleeTakes m σ site target b.name.text →
      Lowering.lower (overriding target (before ++ b :: after) half span) σ site m =
        Lowering.lower (overriding target (before ++ after) half span) σ site m := by
  constructor
  · intro bs bs' hperm hnodup
    refine Lowering.lower_overriding_congr half fun name _ => ?_
    refine lookup_perm (hperm.map _) ?_ name
    rwa [List.map_map]
  · intro before after b hidle
    refine Lowering.lower_overriding_congr half fun name htakes => ?_
    rw [override?, override?, List.map_append, List.map_append, List.lookup_append,
      List.lookup_append, List.map_cons, Binding.entry, lookup_cons_if]
    split
    · next hname =>
        rw [hname] at htakes
        obtain ⟨c, hc, hsame⟩ := List.mem_map.1 (hidle.resolve_right (not_not_intro htakes))
        -- the pair is not reached: one before it has the name
        have hfound : (before.map Binding.entry).lookup name ≠ none := by
          intro hnone
          rw [List.lookup_eq_none_iff] at hnone
          simpa [Binding.entry, hname, hsame] using hnone _ (List.mem_map_of_mem hc)
        obtain ⟨value, hvalue⟩ := Option.ne_none_iff_exists'.1 hfound
        rw [hvalue]
        rfl
    · rfl

/-- A module with a function for a loop of two variables. -/
def loopModule : Module :=
  (Module.withEntry "main" (.int 8)).withInternal (atomParams (.int 8) ["acc", "n"]) (.int 8)

/-- The subject in the function of `loopModule`. -/
def loopSubject : Subject :=
  innerSubject .empty [] (atomParams (.int 8) ["acc", "n"])

/-- The pairs of `$(zzz [n n], acc (mul acc n), n +(n))`. -/
def loopPairs : List Binding :=
  let s : Span := ⟨0, 0⟩
  let n := Node.face "n" s
  [⟨⟨"zzz", s⟩, .cell n n s⟩,
    ⟨⟨"acc", s⟩, .rune .cenhep [.face "mul" s, .face "acc" s, n] s⟩,
    ⟨⟨"n", s⟩, .rune .dotlus [n] s⟩]

/-- The outcome of lowering a call of the loop with the pairs `bs`. -/
def loopOutcome (bs : List Binding) : Except Error (Option Value) × Module :=
  Lowering.lower (overriding (.buc ⟨0, 0⟩) bs none ⟨0, 0⟩) loopSubject ⟨.int 8, 1, 0⟩ loopModule

theorem lower_centis_unordered_loop :
    (∃ v m, loopOutcome loopPairs = (.ok (some v), m)) ∧
      loopOutcome (loopPairs ++ [⟨⟨"acc", ⟨0, 0⟩⟩, .dot ⟨0, 0⟩⟩]) = loopOutcome loopPairs ∧
      loopOutcome loopPairs = loopOutcome loopPairs.tail ∧
      loopOutcome loopPairs.tail = loopOutcome loopPairs.tail.reverse := by
  have hrun : (loopOutcome loopPairs).1.toOption.any Option.isSome = true := by decide +kernel
  obtain ⟨r, m, hlower, hsome⟩ := exists_of_any_outcome hrun
  obtain ⟨v, rfl⟩ := Option.isSome_iff_exists.1 hsome
  obtain ⟨hperm, hidle⟩ :=
    lower_centis_unordered loopModule loopSubject ⟨.int 8, 1, 0⟩ (.buc ⟨0, 0⟩) none ⟨0, 0⟩
  refine ⟨⟨v, m, hlower⟩, ?_, ?_, ?_⟩
  · exact hidle loopPairs [] _ (.inl (by decide))
  · refine hidle [] loopPairs.tail ⟨⟨"zzz", ⟨0, 0⟩⟩, _⟩ (.inr ?_)
    rintro ⟨callee, F, hcallee, hF, hname⟩
    cases hcallee
    cases hF
    revert hname
    decide
  · exact hperm _ _ (List.reverse_perm _).symm (by decide)

end Runic
