import Runic.Proofs.Canonical.Words
import Runic.Proofs.Ir.Runs
import Runic.Proofs.Lowering.Branching
import Runic.Proofs.Lowering.Reading
import Runic.Proofs.Lowering.Widening

/-!
# Constants of compiled code

A numeral may have any number of digits and dots, and an atom is narrow.  This file says which
numerals are numbers of an atom, and follows those numbers into the code.

* `decimalValue` — the number that the digits of a numeral stand for in base ten.
* `numeral_eq_ok_iff` — **a numeral is lowered exactly if its number fits**, and to that number.
* `Lowering.Admits` — a property of everything that lowering uses as an operand;
  `Lowers.operands` — then every operand of the code has it.
* `numerals_fit` — no constant of a compiled module is negative or too large for an atom.
-/

namespace Runic

open Ir

/-! ## Numerals -/

/-- The number that a numeral of a source stands for, without its dots. -/
def decimalValue (digits : String) : Nat := decimalOf (digits.toList.filter (· ≠ '.'))

lemma isDigit_of_isNumStart {c : Char} (h : isNumStart c = true) : c.isDigit = true := by
  simpa [isNumStart, Char.isDigit, Char.le_def] using h

/-- A numeral without its dots has digits only, and at least one of them. -/
lemma exists_digits {digits : String} (h : isNumText digits = true) :
    ∃ c cs, digits.toList.filter (· ≠ '.') = c :: cs ∧ ∀ d ∈ c :: cs, d.isDigit = true := by
  obtain ⟨c, cs, hcs, hstart, hpart⟩ := exists_cons_of_word h
  have hdot : c ≠ '.' := by
    rintro rfl
    cases hstart
  refine ⟨c, cs.filter (· ≠ '.'), by simp [hcs, hdot], ?_⟩
  intro d hd
  have hmem : d ∈ (c :: cs).filter (· ≠ '.') := by simpa [hdot] using hd
  obtain ⟨hmem, hne⟩ := List.mem_filter.1 hmem
  have hclass := hpart d hmem
  rw [isNumPart, Bool.or_eq_true] at hclass
  exact isDigit_of_isNumStart (hclass.resolve_left (by simpa using hne))

/-- A numeral has no sign in front of it, so `Node.number?` is its `decimalValue`. -/
lemma number?_eq {digits : String} (h : isNumText digits = true) :
    Node.number? digits = some (decimalValue digits : Int) := by
  obtain ⟨c, cs, hcs, hdigits⟩ := exists_digits h
  have hsign : unsigned (c :: cs) = (false, c :: cs) := by
    have hc := hdigits c List.mem_cons_self
    have hminus : c ≠ '-' := by
      rintro rfl
      cases hc
    have hplus : c ≠ '+' := by
      rintro rfl
      cases hc
    simp [unsigned, hminus, hplus]
  rw [Node.number?, decimalValue, hcs, hsign]
  exact if_pos ⟨List.cons_ne_nil c cs, List.all_eq_true.2 hdigits⟩

/-- The value of a numeral in an atom of `bits` bits is its `decimalValue`, if that is not too
large. -/
lemma numeralValue?_eq {digits : String} (h : isNumText digits = true) (bits : Nat) :
    numeralValue? bits digits =
      if (decimalValue digits : Int) ≤ greatestAtom bits then some (decimalValue digits : Int)
      else none := by
  have hleast : leastWord ≤ (decimalValue digits : Int) :=
    Int.le_trans (by decide) (Int.natCast_nonneg _)
  rw [numeralValue?_eq_filter, number?_eq h]
  simp [Option.filter, hleast]

/-- **A numeral is lowered exactly if its `decimalValue` is below two to the power of `w - 1`**, and
to a constant of that value. -/
lemma numeral_eq_ok_iff {digits : String} (h : isNumText digits = true) {w : Nat} (hw : w ≤ 64)
    {span : Span} {v : Value} :
    numeral (.int w) digits span = .ok v ↔
      decimalValue digits ≤ 2 ^ (w - 1) - 1 ∧ v = .const (.int w) (decimalValue digits) := by
  have hgreatest : greatestAtom w = ((2 ^ (w - 1) - 1 : Nat) : Int) := by
    rw [greatestAtom, Nat.min_eq_left hw]
    rfl
  rw [numeral, numeralValue?_eq h, hgreatest]
  by_cases hle : decimalValue digits ≤ 2 ^ (w - 1) - 1
  · rw [if_pos (Int.ofNat_le.2 hle)]
    simp [hle, eq_comm]
  · rw [if_neg (mt Int.ofNat_le.1 hle)]
    simp [hle]

/-! ## Operands -/

namespace Ir

/-- The operands of all instructions of a block and of its terminator. -/
def Block.operands (B : Block) : List Value :=
  B.insts.flatMap (fun inst => inst.operation.operands) ++
    B.terminator.toList.flatMap Terminator.operands

namespace Function

/-- The operands in all blocks of a function. -/
def operands (F : Function) : List Value := F.blocks.flatMap Block.operands

variable {F : Function} {block : BlockId} {B : Block}

lemma operands_push (op : Operation) (hB : F.blocks[block]? = some B) (ho : B.terminator = none) :
    (F.push block op).operands.Perm (op.operands ++ F.operands) :=
  perm_flatMap_modify op.operands hB (by simp [Block.operands, ho])

lemma operands_close (t : Terminator) (hB : F.blocks[block]? = some B) (ho : B.terminator = none) :
    (F.close block t).operands.Perm (t.operands ++ F.operands) :=
  perm_flatMap_modify t.operands hB (by simp [Block.operands, ho])

@[simp] lemma operands_open : F.open.operands = F.operands := by
  simp [operands, Function.open, Block.operands, Block.empty]

end Function

end Ir

namespace Lowering

/-- The property `P` holds of every operand that lowering makes with the type `atom`, if all
numerals in the tree are numerals of a source. -/
structure Admits (P : Value → Prop) (atom : Ty) : Prop where
  param : ∀ ty name, P (.param ty name)
  inst : ∀ ty id, P (.inst ty id)
  func : ∀ id, P (.func id)
  one : P (.const atom 1)
  num : ∀ {digits span v}, isNumText digits = true → numeral atom digits span = .ok v → P v

/-- The property `P` holds of every operand in the module. -/
def Uses (P : Value → Prop) (m : Module) : Prop := ∀ F ∈ m.functions, ∀ v ∈ F.operands, P v

/-- The trees among the sources of a call have worded nodes only. -/
def Source.IsWorded : Source → Prop
  | .tree node => node.All Node.IsWorded
  | .face _ _ => True

section Steps

variable {P : Value → Prop} {m m' : Module} {site : Site} {σ : Subject}

lemma uses_append {op : Operation} {v : Value} (hP : Admits P site.atom) (h : Uses P m)
    (happ : Build.append site.func site.block op m = (.ok v, m'))
    (hop : ∀ a ∈ op.operands, P a) : Uses P m' ∧ P v := by
  obtain ⟨F, B, hF, hB, ho, rfl, rfl⟩ := Build.append_eq_ok.1 happ
  refine ⟨forall_mem_put h hF fun hFP a ha => ?_, hP.inst _ _⟩
  rcases List.mem_append.1 ((Function.operands_push op hB ho).mem_iff.1 ha) with ha | ha
  · exact hop a ha
  · exact hFP a ha

lemma uses_terminate {t : Terminator} (h : Uses P m)
    (hterm : Build.terminate site.func site.block t m = (.ok (), m'))
    (ht : ∀ a ∈ t.operands, P a) : Uses P m' := by
  obtain ⟨F, B, hF, hB, ho, rfl⟩ := Build.terminate_eq_ok.1 hterm
  refine forall_mem_put h hF fun hFP a ha => ?_
  rcases List.mem_append.1 ((Function.operands_close t hB ho).mem_iff.1 ha) with ha | ha
  · exact ht a ha
  · exact hFP a ha

lemma uses_widen {span : Span} {v a : Value} (hP : Admits P site.atom) (h : Uses P m) (hv : P v)
    (hwiden : widen site span v m = (.ok a, m')) : Uses P m' ∧ P a := by
  rcases widen_eq_ok.1 hwiden with ⟨-, happ⟩ | ⟨-, -, rfl, rfl⟩
  · exact uses_append hP h happ (by simpa [Operation.operands] using hv)
  · exact ⟨h, hv⟩

lemma uses_finish {span : Span} {r : Option Value} (hP : Admits P site.atom) (h : Uses P m)
    (hr : ∀ v ∈ r, P v) (hfin : finish site span r m = (.ok (), m')) : Uses P m' := by
  rcases finish_eq_ok.1 hfin with ⟨-, rfl⟩ | ⟨v, a, m₁, rfl, hwiden, hterm⟩
  · exact h
  · obtain ⟨h₁, ha⟩ := uses_widen hP h (hr v rfl) hwiden
    exact uses_terminate h₁ hterm (by simpa [Terminator.operands] using ha)

lemma uses_withInternal (h : Uses P m) (params : List Param) (ret : Ty) :
    Uses P (m.withInternal params ret) := by
  intro F hF
  rcases List.mem_append.1 hF with hF | hF
  · exact h F hF
  · rw [List.mem_singleton.1 hF]
    exact List.forall_mem_nil _

/-- The property `P` holds of all that the faces in `innerSubject` stand for: parameters and
functions. -/
lemma admits_innerSubject (hP : Admits P site.atom) (samples names : List String) :
    ∀ face v, (innerSubject σ samples (atomParams site.atom names)).get? face = some v → P v := by
  intro face v hv
  rw [get?_innerSubject] at hv
  split at hv
  · cases hv
    exact hP.param _ _
  · obtain ⟨-, hfunc⟩ := Option.filter_eq_some_iff.1 hv
    cases v with
    | func id => exact hP.func id
    | _ => simp [Value.func?] at hfunc

/-- The only constant that a built-in gate has is one. -/
lemma builtin_constant {name : String} {builtin : Builtin} {constant : Int}
    (known : Builtin.find? name = some builtin) (implicit : builtin.constant = some constant) :
    constant = 1 := by
  have hall : ∀ b ∈ Builtin.all, ∀ c ∈ b.constant, c = 1 := by decide
  exact hall builtin (List.mem_of_find?_eq_some known) constant implicit

lemma Source.isWorded_named {span : Span} {name : String} {pairs : List Node}
    (h : ∀ n ∈ pairs, n.All Node.IsWorded) : (Source.named span name pairs).IsWorded := by
  fun_induction Source.named span name pairs with
  | case1 labelSpan value rest => exact h value (by simp)
  | case2 label labelSpan value rest hne ih => exact ih fun n hn => h n (by simp [hn])
  | case3 pairs hnot => trivial

lemma Source.isWorded_faces (span : Span) (names : List String) :
    ∀ s ∈ names.map (Source.face · span), s.IsWorded :=
  List.forall_mem_map.2 fun _ _ => trivial

lemma Source.isWorded_positional {span : Span} {params : List String} {args : List Node}
    (h : ∀ n ∈ args, n.All Node.IsWorded) :
    ∀ s ∈ Source.positional span params args, s.IsWorded :=
  List.forall_mem_append.2 ⟨Source.isWorded_faces span _, List.forall_mem_map.2 h⟩

end Steps

mutual

/-- **Lowering a worded tree uses only operands with the property `P`**, if it holds of all that the
faces of the subject stand for. -/
theorem Lowers.operands {P : Value → Prop} {node : Node} {σ : Subject} {site : Site}
    {m m' : Module} {r : Option Value} (hP : Admits P site.atom) (hn : node.All Node.IsWorded)
    (hσ : ∀ face v, σ.get? face = some v → P v) (h : Uses P m) :
    Lowers node σ site m r m' → Uses P m' ∧ ∀ v ∈ r, P v
  | .num value => by
      refine ⟨h, ?_⟩
      rintro _ ⟨⟩
      exact hP.num (Node.all_num.1 hn) value
  | .face bound => by
      refine ⟨h, ?_⟩
      rintro _ ⟨⟩
      exact hσ _ _ bound
  | .buc => by
      refine ⟨h, ?_⟩
      rintro _ ⟨⟩
      exact hP.func _
  | .faced body => body.operands hP (Node.all_faced.1 hn).2 hσ h
  | .dottis args app => by
      obtain ⟨-, hargs⟩ := Node.all_rune.1 hn
      obtain ⟨h₁, ha⟩ := args.operands hP (by simpa [Source.IsWorded] using hargs) hσ h
      obtain ⟨h₂, hv⟩ := uses_append hP h₁ app (by simpa [Operation.operands] using ha)
      exact ⟨h₂, by simpa using hv⟩
  | .dotlus args app => by
      obtain ⟨-, hargs⟩ := Node.all_rune.1 hn
      obtain ⟨h₁, ha⟩ := args.operands hP (by simpa [Source.IsWorded] using hargs) hσ h
      obtain ⟨h₂, hv⟩ := uses_append hP h₁ app (by simpa [Operation.operands, hP.one] using ha)
      exact ⟨h₂, by simpa using hv⟩
  | .unary known implicit args app => by
      obtain ⟨-, hargs⟩ := List.forall_mem_cons.1 (Node.all_rune.1 hn).2
      obtain rfl := builtin_constant known implicit
      obtain ⟨h₁, ha⟩ := args.operands hP (by simpa [Source.IsWorded] using hargs) hσ h
      obtain ⟨h₂, hv⟩ := uses_append hP h₁ app (by simpa [Operation.operands, hP.one] using ha)
      exact ⟨h₂, by simpa using hv⟩
  | .binary _ _ args app => by
      obtain ⟨-, hargs⟩ := List.forall_mem_cons.1 (Node.all_rune.1 hn).2
      obtain ⟨h₁, ha⟩ := args.operands hP (by simpa [Source.IsWorded] using hargs) hσ h
      obtain ⟨h₂, hv⟩ := uses_append hP h₁ app (by simpa [Operation.operands] using ha)
      exact ⟨h₂, by simpa using hv⟩
  | .tisfas bound rest => by
      obtain ⟨-, hargs⟩ := Node.all_rune.1 hn
      simp only [List.forall_mem_cons] at hargs
      obtain ⟨-, hvalue, hbody, -⟩ := hargs
      obtain ⟨h₁, hv⟩ := bound.operands hP hvalue hσ h
      refine rest.operands hP hbody (fun other v hbound => ?_) h₁
      rw [Subject.get?_bind] at hbound
      split at hbound
      · cases hbound
        exact hv _ rfl
      · exact hσ _ _ hbound
  | .wutcol condition _ func branch then_ else_ => by
      obtain ⟨-, hargs⟩ := Node.all_rune.1 hn
      simp only [List.forall_mem_cons] at hargs
      obtain ⟨htest, hyes, hno, -⟩ := hargs
      obtain ⟨h₁, hcond⟩ := condition.operands hP htest hσ h
      have hopen : Uses P (Module.put _ site.func (Function.open (Function.open _))) :=
        forall_mem_put h₁ func fun hF => by simpa using hF
      have h₂ := uses_terminate hopen branch (List.forall_mem_singleton.2 (hcond _ rfl))
      have h₃ := then_.operands (by exact hP) hyes hσ h₂
      exact ⟨else_.operands (by exact hP) hno hσ h₃, by simp⟩
  | .barhep trap args app => by
      obtain ⟨-, hargs⟩ := Node.all_rune.1 hn
      have h₁ := trap.operands (by exact hP) (List.forall_mem_singleton.1 hargs)
        (admits_innerSubject hP _ _) (uses_withInternal h _ _)
      obtain ⟨h₂, ha⟩ := args.operands hP (Source.isWorded_faces _ _) hσ h₁
      obtain ⟨h₃, hv⟩ := uses_append hP h₂ app ha
      exact ⟨h₃, by simpa using hv⟩
  | .bartis _ gate => by
      obtain ⟨-, hargs⟩ := List.forall_mem_cons.1 (Node.all_rune.1 hn).2
      have h₁ := gate.operands (by exact hP) (List.forall_mem_singleton.1 hargs)
        (admits_innerSubject hP _ _) (uses_withInternal h _ _)
      exact ⟨h₁, by simpa using hP.func _⟩
  | .cenhep _ head _ _ sources app => by
      obtain ⟨htarget, hargs⟩ := List.forall_mem_cons.1 (Node.all_rune.1 hn).2
      have h₁ := head.operands hP htarget hσ h
      obtain ⟨h₂, ha⟩ := sources.operands hP (Source.isWorded_positional hargs) hσ h₁
      obtain ⟨h₃, hv⟩ := uses_append hP h₂ app ha
      exact ⟨h₃, by simpa using hv⟩
  | .centis _ _ _ _ sources app => by
      obtain ⟨-, hpairs⟩ := List.forall_mem_cons.1 (Node.all_rune.1 hn).2
      obtain ⟨h₁, ha⟩ := sources.operands hP
        (List.forall_mem_map.2 fun _ _ => Source.isWorded_named hpairs) hσ h
      obtain ⟨h₂, hv⟩ := uses_append hP h₁ app ha
      exact ⟨h₂, by simpa using hv⟩

theorem LowersArgs.operands {P : Value → Prop} {sources : List Source} {σ : Subject} {site : Site}
    {m m' : Module} {as : List Value} (hP : Admits P site.atom) (hs : ∀ s ∈ sources, s.IsWorded)
    (hσ : ∀ face v, σ.get? face = some v → P v) (h : Uses P m) :
    LowersArgs sources σ site m as m' → Uses P m' ∧ ∀ a ∈ as, P a
  | .nil => ⟨h, by simp⟩
  | .tree value atom others => by
      obtain ⟨hnode, hs⟩ := List.forall_mem_cons.1 hs
      obtain ⟨h₁, hv⟩ := value.operands hP hnode hσ h
      obtain ⟨h₂, ha⟩ := uses_widen hP h₁ (hv _ rfl) atom
      obtain ⟨h₃, has⟩ := others.operands hP hs hσ h₂
      exact ⟨h₃, List.forall_mem_cons.2 ⟨ha, has⟩⟩
  | .face bound atom others => by
      obtain ⟨-, hs⟩ := List.forall_mem_cons.1 hs
      obtain ⟨h₁, ha⟩ := uses_widen hP h (hσ _ _ bound) atom
      obtain ⟨h₂, has⟩ := others.operands hP hs hσ h₁
      exact ⟨h₂, List.forall_mem_cons.2 ⟨ha, has⟩⟩

theorem LowersBody.operands {P : Value → Prop} {node : Node} {σ : Subject} {site : Site}
    {m m' : Module} (hP : Admits P site.atom) (hn : node.All Node.IsWorded)
    (hσ : ∀ face v, σ.get? face = some v → P v) (h : Uses P m) :
    LowersBody node σ site m m' → Uses P m'
  | .mk body fin => by
      obtain ⟨h₁, hr⟩ := body.operands hP hn hσ h
      exact uses_finish hP h₁ hr fin

theorem LowersCallee.operands {P : Value → Prop} {target : Node} {σ : Subject} {site : Site}
    {m m' : Module} {callee : FuncId} (hP : Admits P site.atom) (hn : target.All Node.IsWorded)
    (hσ : ∀ face v, σ.get? face = some v → P v) (h : Uses P m) :
    LowersCallee target σ site m callee m' → Uses P m'
  | .here _ | .named _ => h
  | .computed value => (value.operands hP hn hσ h).1

end

end Lowering

/-! ## Compiled modules -/

/-- If the value is a constant, it has the type of atoms, and its number is not negative and fits
that type. -/
def Ir.Value.InRange (bits : Nat) (v : Value) : Prop :=
  ∀ ty n, v = .const ty n → ty = .int bits ∧ 0 ≤ n ∧ n < 2 ^ (bits - 1)

lemma le_of_mem_atomWidths {w : Nat} (hw : w ∈ atomWidths) : w ≤ 64 := by
  have hall : ∀ w ∈ atomWidths, w ≤ 64 := by decide
  exact hall w hw

lemma admits_inRange {w : Nat} (hw : w ∈ atomWidths) :
    Lowering.Admits (Value.InRange w) (.int w) where
  param _ _ _ _ h := by cases h
  inst _ _ _ _ h := by cases h
  func _ _ _ h := by cases h
  one := by
    rintro _ _ ⟨⟩
    have hall : ∀ w ∈ atomWidths, (1 : Int) < 2 ^ (w - 1) := by decide
    exact ⟨rfl, by decide, hall w hw⟩
  num := by
    intro digits span v hdigits hv
    obtain ⟨hle, rfl⟩ := (numeral_eq_ok_iff hdigits (le_of_mem_atomWidths hw)).1 hv
    rintro _ _ ⟨⟩
    have hlt : decimalValue digits < 2 ^ (w - 1) :=
      Nat.lt_of_le_of_lt hle (Nat.sub_lt (Nat.two_pow_pos _) Nat.one_pos)
    exact ⟨rfl, Int.natCast_nonneg _, by exact_mod_cast hlt⟩

/-- The module of a worded tree uses only operands with a property that `Admits` holds of. -/
lemma uses_of_toModule {P : Value → Prop} {atom : Ty} {entry : String} {node : Node} {m : Module}
    (hP : Lowering.Admits P atom) (hn : node.All Node.IsWorded)
    (h : node.toModule atom entry = .ok m) : Lowering.Uses P m := by
  obtain ⟨body, -⟩ := Lowering.lowersBody_of_toModule h
  refine body.operands (by exact hP) hn (fun face v hv => ?_) ?_
  · rw [Subject.get?_empty] at hv
    cases hv
  · exact List.forall_mem_singleton.2 (List.forall_mem_nil _)

/-- If a source compiles, its canonical form is worded, and the artifact is that of its module. -/
lemma exists_isOf_of_compile {w : Nat} (hw : w ∈ atomWidths) {source entry : String} {a : Artifact}
    (h : compile source ⟨w, entry⟩ = .ok a) :
    ∃ m, a.IsOf (.int w) entry m ∧ a.canonical.All Node.IsWorded := by
  rw [compile_eq_assemble hw] at h
  obtain ⟨canonical, hcanonical, h⟩ := bind_eq_ok.1 h
  obtain ⟨node, hnode, hreduce⟩ := bind_eq_ok.1 hcanonical
  obtain ⟨m, hm, h⟩ := bind_eq_ok.1 h
  obtain ⟨ir, hrender, rfl⟩ := bind_pure_eq_ok.1 h
  have hlegible := isLegible_of_parse hnode
  have hworded : node.All Node.IsWorded :=
    fun k hk => Node.isWorded_of_isWellFormed (hlegible k hk)
  exact ⟨m, ⟨hm, hrender, rfl⟩, worded_of_reduce hworded (sealed_of_isLegible hlegible) hreduce⟩

/-- **Numerals and constants fit the atom.**  A numeral, however long and however grouped by dots,
is lowered exactly if the number that its digits stand for is at most the greatest signed number of
an atom, and then to that number.  So every constant of a compiled module is of the type of atoms,
not negative and below `2 ^ (w - 1)`. -/
theorem numerals_fit {w : Nat} (hw : w ∈ atomWidths) :
    (∀ digits span v, isNumText digits = true →
      (numeral (.int w) digits span = .ok v ↔
        decimalValue digits ≤ 2 ^ (w - 1) - 1 ∧ v = .const (.int w) (decimalValue digits))) ∧
    ∀ source entry a, compile source ⟨w, entry⟩ = .ok a →
      ∃ m, a.IsOf (.int w) entry m ∧ ∀ F ∈ m.functions, ∀ ty n, .const ty n ∈ F.operands →
        ty = .int w ∧ 0 ≤ n ∧ n < 2 ^ (w - 1) := by
  refine ⟨fun digits span v h => numeral_eq_ok_iff h (le_of_mem_atomWidths hw),
    fun source entry a h => ?_⟩
  obtain ⟨m, hm, hworded⟩ := exists_isOf_of_compile hw h
  refine ⟨m, hm, fun F hF ty n hmem => ?_⟩
  exact uses_of_toModule (admits_inRange hw) hworded hm.module F hF _ hmem ty n rfl

/-- The greatest numeral of eight bits, written with leading zeros and dots wherever they may
stand, and the next one. -/
theorem numerals_fit_byte : 8 ∈ atomWidths ∧
    numeral (.int 8) "001..2.7." ⟨0, 9⟩ = .ok (.const (.int 8) 127) ∧
    (∀ v, numeral (.int 8) "128" ⟨0, 3⟩ ≠ .ok v) ∧
    ∃ a m, compile "=/(a 1.27 (dec a))" ⟨8, "main"⟩ = .ok a ∧ a.IsOf (.int 8) "main" m ∧
      ∀ F ∈ m.functions, ∀ ty n, .const ty n ∈ F.operands →
        ty = .int 8 ∧ 0 ≤ n ∧ n < 2 ^ (8 - 1) := by
  have h8 : 8 ∈ atomWidths := by decide
  obtain ⟨hnumeral, hcompile⟩ := numerals_fit h8
  refine ⟨h8, (hnumeral _ _ _ (by decide)).2 (by decide), fun v hv => ?_, ?_⟩
  · exact absurd ((hnumeral _ _ _ (by decide)).1 hv).1 (by decide)
  · have hrun : (compile "=/(a 1.27 (dec a))" ⟨8, "main"⟩).toOption.any (fun _ => true) = true := by
      decide +kernel
    obtain ⟨a, ha, -⟩ := exists_of_any_toOption hrun
    obtain ⟨m, hm⟩ := hcompile _ _ a ha
    exact ⟨a, m, ha, hm⟩

end Runic
