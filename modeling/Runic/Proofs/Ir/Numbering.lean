import Mathlib.Data.List.Nodup
import Runic.Proofs.Ir.Runs
import Runic.Proofs.Ir.Typing
import Runic.Proofs.Lookup
import Runic.Proofs.Text.Slice

/-!
# Numbers in the text of a module

Ids are given in the order of creation, across blocks that are filled in any order, and refusals
leave holes among them.  The numbers in the text do not depend on this: labels and results share one
counter that runs from top to bottom.

* `Module.verify_eq_ok_iff` — what `Module.verify` asks of a module.
* `Function.map_number` — **what `Function.numbering` lists is numbered from zero on**, if no id was
  given twice.
* `writtenNumber?` — the number that a line of text introduces, read off its characters.
* `Value.written`, `Operation.written`, `Terminator.written`, `Block.written` — the lines of a block
  in full, given the number of every label and of every instruction.
* `render_numbers` — for every module that is built by some run: the numbers in its text are those
  from zero on, and the operands of every instruction, return and branch are printed with the
  numbers of the lines that they refer to.
-/

namespace Runic.Ir

/-! ## Complete modules -/

/-- The function has blocks, all of them are closed, branches go to blocks of the function and calls
to functions of the module. -/
structure Function.IsComplete (m : Module) (F : Function) : Prop where
  hasBlock : F.blocks ≠ []
  closed : ∀ B ∈ F.blocks, B.terminator ≠ none
  targets : ∀ B ∈ F.blocks, ∀ cond yes no, B.terminator = some (.condBr cond yes no) →
    yes < F.blocks.length ∧ no < F.blocks.length
  callees : ∀ B ∈ F.blocks, ∀ inst ∈ B.insts, ∀ callee ret args,
    inst.operation = .call callee ret args → callee < m.functions.length

lemma Inst.fault?_eq_none {m : Module} {inst : Inst} : inst.fault? m = none ↔
    ∀ callee ret args, inst.operation = .call callee ret args → callee < m.functions.length := by
  unfold fault?
  cases inst.operation <;> simp

lemma Function.terminatorFault?_eq_none {F : Function} {B : Block} {index : Nat} :
    F.terminatorFault? B index = none ↔ B.terminator ≠ none ∧
      ∀ cond yes no, B.terminator = some (.condBr cond yes no) →
        yes < F.blocks.length ∧ no < F.blocks.length := by
  unfold terminatorFault?
  cases B.terminator with
  | none => simp
  | some t => cases t <;> simp

lemma Function.fault?_eq_none {m : Module} {F : Function} :
    F.fault? m = none ↔ F.IsComplete m := by
  unfold fault?
  by_cases hne : F.blocks = []
  · rw [if_pos hne]
    constructor
    · rintro ⟨⟩
    · exact fun h => absurd hne h.hasBlock
  rw [if_neg hne, List.findSome?_eq_none_iff]
  constructor
  · intro h
    have hblock : ∀ B ∈ F.blocks, ∃ index, F.terminatorFault? B index = none ∧
        ∀ inst ∈ B.insts, inst.fault? m = none := by
      intro B hB
      obtain ⟨index, hindex⟩ := List.mem_iff_getElem?.1 hB
      have hor := h _ (List.mk_mem_zipIdx_iff_getElem?.2 hindex)
      rw [Option.or_eq_none_iff, List.findSome?_eq_none_iff] at hor
      exact ⟨index, hor⟩
    refine ⟨hne, fun B hB => ?_, fun B hB => ?_, fun B hB inst hinst => ?_⟩
    · obtain ⟨index, hterm, -⟩ := hblock B hB
      exact (terminatorFault?_eq_none.1 hterm).1
    · obtain ⟨index, hterm, -⟩ := hblock B hB
      exact (terminatorFault?_eq_none.1 hterm).2
    · obtain ⟨index, -, hinsts⟩ := hblock B hB
      exact Inst.fault?_eq_none.1 (hinsts inst hinst)
  · rintro h ⟨B, index⟩ hmem
    have hB := List.mem_of_getElem? (List.mk_mem_zipIdx_iff_getElem?.1 hmem)
    rw [Option.or_eq_none_iff, List.findSome?_eq_none_iff]
    exact ⟨terminatorFault?_eq_none.2 ⟨h.closed B hB, h.targets B hB⟩,
      fun inst hinst => Inst.fault?_eq_none.2 (h.callees B hB inst hinst)⟩

/-- **A module passes `verify` exactly if all its functions are complete.** -/
lemma Module.verify_eq_ok_iff {m : Module} :
    m.verify = .ok () ↔ ∀ F ∈ m.functions, F.IsComplete m := by
  have hfault : m.fault? = none ↔ ∀ F ∈ m.functions, F.IsComplete m := by
    simp only [fault?, List.findSome?_eq_none_iff, Function.fault?_eq_none]
  rw [← hfault, verify]
  cases m.fault? <;> simp

/-- A module has a text exactly if it passes `verify`, and then the texts of its functions with
blank lines between them. -/
lemma Module.render_eq_ok_iff {m : Module} {text : String} : m.render = .ok text ↔
    m.verify = .ok () ∧ text = "\n".intercalate (m.functions.map fun F => F.text m) := by
  unfold render
  cases m.verify with
  | error e => simp [bind, Except.bind]
  | ok _ => simp [bind, Except.bind, pure, Except.pure, eq_comm]

/-! ## Counting -/

/-- What is numbered in the block `B` with the id `b`, in the order of the lines. -/
def Block.items (B : Block) (b : BlockId) : List Numbered :=
  .label b :: B.insts.map fun inst => .result inst.id

/-- What is numbered in some blocks, the first of which has the id `start`. -/
def itemsFrom (start : BlockId) (blocks : List Block) : List Numbered :=
  (blocks.zipIdx start).flatMap fun p => p.1.items p.2

lemma itemsFrom_cons (start : BlockId) (B : Block) (blocks : List Block) :
    itemsFrom start (B :: blocks) = B.items start ++ itemsFrom (start + 1) blocks := rfl

lemma result_mem_itemsFrom {start : BlockId} {blocks : List Block} {id : InstId} :
    .result id ∈ itemsFrom start blocks ↔ id ∈ blocks.flatMap fun B => B.insts.map Inst.id := by
  induction blocks generalizing start with
  | nil => simp [itemsFrom]
  | cons B blocks ih => simp [itemsFrom_cons, Block.items, ih]

lemma le_of_label_mem {start : BlockId} {blocks : List Block} {b : BlockId}
    (h : .label b ∈ itemsFrom start blocks) : start ≤ b := by
  induction blocks generalizing start with
  | nil => simp [itemsFrom] at h
  | cons B blocks ih =>
      rw [itemsFrom_cons, List.mem_append] at h
      rcases h with h | h
      · have hb : b = start := by simpa [Block.items] using h
        exact Nat.le_of_eq hb.symm
      · exact Nat.le_of_succ_le (ih h)

/-- If no two instructions have the same id, then nothing is listed twice by `itemsFrom`. -/
lemma nodup_itemsFrom (start : BlockId) {blocks : List Block}
    (h : (blocks.flatMap fun B => B.insts.map Inst.id).Nodup) :
    (itemsFrom start blocks).Nodup := by
  induction blocks generalizing start with
  | nil => exact List.nodup_nil
  | cons B blocks ih =>
      rw [List.flatMap_cons, List.nodup_append] at h
      obtain ⟨hB, hblocks, hapart⟩ := h
      rw [itemsFrom_cons, List.nodup_append]
      refine ⟨?_, ih (start + 1) hblocks, ?_⟩
      · rw [Block.items, List.nodup_cons]
        refine ⟨by simp, ?_⟩
        have hmap : (B.insts.map Inst.id).map Numbered.result =
            B.insts.map fun inst => Numbered.result inst.id := List.map_map
        rw [← hmap]
        exact hB.map fun _ _ hne => by simpa using hne
      · rintro item hitem other hother rfl
        rcases List.mem_cons.1 hitem with rfl | hitem
        · exact absurd (le_of_label_mem hother) (Nat.not_succ_le_self start)
        · obtain ⟨inst, hinst, rfl⟩ := List.mem_map.1 hitem
          exact hapart inst.id (List.mem_map_of_mem hinst) inst.id
            (result_mem_itemsFrom.1 hother) rfl

namespace Function

variable {F : Function}

lemma numbering_eq : F.numbering = itemsFrom 0 F.blocks := rfl

lemma length_numbering : F.numbering.length = F.blocks.length + F.ids.length := by
  have hlength : ∀ (start : BlockId) (blocks : List Block), (itemsFrom start blocks).length =
      blocks.length + (blocks.flatMap fun B => B.insts.map Inst.id).length := by
    intro start blocks
    induction blocks generalizing start with
    | nil => rfl
    | cons B blocks ih =>
        rw [itemsFrom_cons, List.length_append, ih, List.flatMap_cons, List.length_append]
        simp only [Block.items, List.length_cons, List.length_map]
        omega
  exact hlength 0 F.blocks

lemma mem_numbering_of_mem_ids {id : InstId} (h : id ∈ F.ids) : .result id ∈ F.numbering :=
  result_mem_itemsFrom.2 h

/-- The place of an item in `numbering` is its number, if no id was given twice. -/
lemma number_eq (hids : F.ids.Nodup) {item : Numbered} {n : Nat}
    (h : F.numbering[n]? = some item) : F.number item = n := by
  have hkeys : (F.numbering.zipIdx.reverse.map Prod.fst).Nodup := by
    rw [List.map_reverse, List.nodup_reverse, List.zipIdx_map_fst]
    exact nodup_itemsFrom 0 hids
  have hlookup : F.number? item = some n := by
    rw [number?, lookup_eq_some_iff_mem hkeys, List.mem_reverse, List.mk_mem_zipIdx_iff_getElem?]
    exact h
  rw [number, hlookup]
  rfl

/-- **The items of `numbering` have the numbers from zero on**, if no two instructions have the same
id. -/
lemma map_number (hids : F.ids.Nodup) :
    F.numbering.map F.number = List.range (F.blocks.length + F.ids.length) := by
  rw [← length_numbering]
  refine List.ext_getElem (by simp) fun n hn _ => ?_
  rw [List.getElem_map, List.getElem_range]
  exact number_eq hids (List.getElem?_eq_getElem (by simpa using hn))

/-- What is in `numbering` is referred to by its number. -/
lemma numberText_eq {item : Numbered} (h : item ∈ F.numbering) :
    F.numberText item = "%" ++ toString (F.number item) := by
  obtain ⟨n, hn⟩ := Option.isSome_iff_exists.1 (number?_isSome h)
  rw [numberText, number, hn]
  rfl

/-- An id that no instruction of the function has is printed as `undef`. -/
lemma numberText_of_notMem {id : InstId} (h : id ∉ F.ids) :
    F.numberText (.result id) = "undef" := by
  have hnone : F.number? (.result id) = none := by
    rw [number?, List.lookup_eq_none_iff]
    rintro ⟨item, n⟩ hitem
    rw [List.mem_reverse, List.mk_mem_zipIdx_iff_getElem?] at hitem
    refine bne_iff_ne.2 fun hsame => h ?_
    obtain rfl : .result id = item := hsame
    exact result_mem_itemsFrom.1 (List.mem_of_getElem? hitem)
  rw [numberText, hnone]

end Function

/-! ## Reading numbers off the text -/

/-- The number that the digits at the front of `cs` write. -/
def leadingNumber (cs : List Char) : Nat := Nat.ofDigitChars 10 (cs.takeWhile Char.isDigit) 0

/-- The number that a line of text introduces: seven is introduced by the label `7:`, and by a
result, behind `%7 = `. -/
def writtenNumber? (line : String) : Option Nat :=
  match line.toList with
  | '\t' :: '%' :: cs =>
    if [' ', '=', ' '] <+: cs.dropWhile Char.isDigit then some (leadingNumber cs) else none
  | cs => if cs.dropWhile Char.isDigit = [':'] then some (leadingNumber cs) else none

lemma leadingNumber_toDigits (n : Nat) {rest : List Char}
    (h : ∀ c ∈ rest.head?, c.isDigit = false) :
    leadingNumber (Nat.toDigits 10 n ++ rest) = n ∧
      (Nat.toDigits 10 n ++ rest).dropWhile Char.isDigit = rest := by
  have hdigits : ∀ c ∈ Nat.toDigits 10 n, c.isDigit = true :=
    fun c hc => Nat.isDigit_of_mem_toDigits (by decide) (by decide) hc
  rw [leadingNumber, takeWhile_append_of_stop hdigits h]
  exact ⟨Nat.ofDigitChars_toDigits (by decide) (by decide), dropWhile_append_of_stop hdigits h⟩

lemma Line.toList_label (n : Nat) : (label n).text.toList = Nat.toDigits 10 n ++ [':'] := by
  have htext : (label n).text = toString n ++ ":" := rfl
  rw [htext, String.toList_append, Nat.toString_eq_repr, Nat.toList_repr]
  rfl

lemma Line.toList_result (n : Nat) (text : String) : (result n text).text.toList =
    '\t' :: '%' :: (Nat.toDigits 10 n ++ ([' ', '=', ' '] ++ text.toList)) := by
  have htext : (result n text).text = "\t%" ++ toString n ++ " = " ++ text := rfl
  simp only [htext, String.toList_append, Nat.toString_eq_repr, Nat.toList_repr, List.append_assoc]
  rfl

lemma writtenNumber?_label (n : Nat) : writtenNumber? (Line.label n).text = some n := by
  have hcolon : ∀ c ∈ [':'].head?, c.isDigit = false := by simp
  obtain ⟨hnumber, hrest⟩ := leadingNumber_toDigits n hcolon
  rw [writtenNumber?, Line.toList_label]
  split
  · next cs heq =>
      have htab : '\t' ∈ Nat.toDigits 10 n ++ [':'] := by simp [heq]
      rcases List.mem_append.1 htab with htab | htab
      · cases Nat.isDigit_of_mem_toDigits (by decide) (by decide) htab
      · simp at htab
  · rw [hnumber, if_pos hrest]

lemma writtenNumber?_result (n : Nat) (text : String) :
    writtenNumber? (Line.result n text).text = some n := by
  have hblank : ∀ c ∈ ([' ', '=', ' '] ++ text.toList).head?, c.isDigit = false := by simp
  obtain ⟨hnumber, hrest⟩ := leadingNumber_toDigits n hblank
  rw [writtenNumber?, Line.toList_result]
  simp only [hnumber, hrest, List.prefix_append, if_true]

lemma Terminator.exists_letter (m : Module) (F : Function) (t : Terminator) :
    ∃ c cs, (t.text m F).toList = c :: cs ∧ c ≠ '%' := by
  cases t with
  | ret value =>
      have htext : Terminator.text m F (.ret value) = "ret " ++ value.typedText m F := rfl
      rw [htext, String.toList_append]
      exact ⟨'r', _, rfl, by decide⟩
  | condBr cond yes no =>
      have htext : Terminator.text m F (.condBr cond yes no) = "br " ++ cond.typedText m F ++
          ", label " ++ F.numberText (.label yes) ++ ", label " ++ F.numberText (.label no) := rfl
      simp only [htext, String.toList_append, List.append_assoc]
      exact ⟨'b', _, rfl, by decide⟩

/-- The line of a terminator starts with a letter and introduces no number. -/
lemma writtenNumber?_terminator (m : Module) (F : Function) (t : Terminator) :
    writtenNumber? (Line.terminator (t.text m F)).text = none := by
  obtain ⟨c, cs, htext, hne⟩ := t.exists_letter m F
  have hline : (Line.terminator (t.text m F)).text.toList = '\t' :: c :: cs := by
    rw [Line.text, String.toList_append, htext]
    rfl
  rw [writtenNumber?, hline]
  split
  · next heq => exact absurd (List.cons.inj (List.cons.inj heq).2).1 hne
  · simp

/-! ## Lines -/

namespace Block

variable (m : Module) (F : Function) (B : Block) (b : BlockId)

/-- The numbers that the lines of a block introduce are those of `Block.items`. -/
lemma numbers_lines : (B.lines m F b).filterMap Line.number? = (B.items b).map F.number := by
  have hclose : (B.terminator.toList.map fun t =>
      Line.terminator (t.text m F)).filterMap Line.number? = [] := by
    cases B.terminator <;> rfl
  have hlabel : (Line.label (F.number (.label b))).number? = some (F.number (.label b)) := rfl
  rw [lines, List.cons_append, List.filterMap_cons_some hlabel, List.filterMap_append, hclose,
    List.append_nil, List.filterMap_map, items, List.map_cons, List.map_map,
    ← List.filterMap_eq_map]
  rfl

/-- For every line of a block, `writtenNumber?` reads off its text the number that it introduces. -/
lemma writtenNumber?_lines : ∀ line ∈ B.lines m F b, writtenNumber? line.text = line.number? := by
  intro line hline
  rw [lines, List.cons_append, List.mem_cons, List.mem_append] at hline
  rcases hline with rfl | hline | hline
  · exact writtenNumber?_label _
  · obtain ⟨inst, -, rfl⟩ := List.mem_map.1 hline
    exact writtenNumber?_result _ _
  · obtain ⟨t, -, rfl⟩ := List.mem_map.1 hline
    exact writtenNumber?_terminator m F t

end Block

namespace Function

variable (m : Module) (F : Function)

/-- The numbers that the lines of some blocks introduce are those of `itemsFrom`. -/
lemma numbers_linesFrom (start : BlockId) (blocks : List Block) :
    (F.linesFrom m start blocks).filterMap Line.number? =
      (itemsFrom start blocks).map F.number := by
  fun_induction linesFrom m F start blocks with
  | case1 start => rfl
  | case2 start B =>
      rw [B.numbers_lines, itemsFrom_cons]
      exact (congrArg _ (List.append_nil _)).symm
  | case3 start B blocks hne ih =>
      rw [List.filterMap_append, B.numbers_lines, List.filterMap_cons_none rfl, ih, itemsFrom_cons,
        List.map_append]

lemma writtenNumber?_linesFrom (start : BlockId) (blocks : List Block) :
    ∀ line ∈ F.linesFrom m start blocks, writtenNumber? line.text = line.number? := by
  fun_induction linesFrom m F start blocks with
  | case1 start => exact List.forall_mem_nil _
  | case2 start B => exact B.writtenNumber?_lines m F start
  | case3 start B blocks hne ih =>
      exact List.forall_mem_append.2
        ⟨B.writtenNumber?_lines m F start, List.forall_mem_cons.2 ⟨by decide, ih⟩⟩

end Function

/-! ## The lines in full -/

section

variable (m : Module) (ids : List InstId) (label : BlockId → Nat) (result : InstId → Nat)

/-- An operand, in a function that has instructions with the ids `ids`: an instruction is known by
its number `result id`, and one of another function is not known. -/
def Value.written : Value → String
  | .const _ number => toString number
  | .param _ name => "%" ++ quoteName name
  | .inst _ id => if id ∈ ids then "%" ++ toString (result id) else "undef"
  | .func id => (m.functions[id]?.map Function.symbol).getD "undef"

/-- An operand behind its type.  Only a function has none and is a pointer. -/
def Value.writtenTyped (v : Value) : String :=
  v.ty?.elim "ptr" Ty.text ++ " " ++ v.written m ids result

/-- What stands behind the `=` on the line of an instruction. -/
def Operation.written : Operation → String
  | .binary op ty lhs rhs => op.text ++ " " ++ ty.text ++ " " ++ lhs.written m ids result ++ ", " ++
      rhs.written m ids result
  | .icmpEq ty lhs rhs => "icmp eq " ++ ty.text ++ " " ++ lhs.written m ids result ++ ", " ++
      rhs.written m ids result
  | .zext value ty => "zext " ++ value.writtenTyped m ids result ++ " to " ++ ty.text
  | .call callee ret args => "call " ++ ret.text ++ " " ++
      (m.functions[callee]?.map Function.symbol).getD "" ++ "(" ++
        ", ".intercalate (args.map (·.writtenTyped m ids result)) ++ ")"

/-- The end of a block: what is returned, or the labels of the blocks that it branches to. -/
def Terminator.written : Terminator → String
  | .ret value => "ret " ++ value.writtenTyped m ids result
  | .condBr cond yes no => "br " ++ cond.writtenTyped m ids result ++
      ", label %" ++ toString (label yes) ++ ", label %" ++ toString (label no)

/-- The lines of the block with the id `b`. -/
def Block.written (B : Block) (b : BlockId) : List String :=
  (toString (label b) ++ ":") ::
    (B.insts.map fun inst =>
      "\t%" ++ toString (result inst.id) ++ " = " ++ inst.operation.written m ids result) ++
    B.terminator.toList.map fun t => "\t" ++ t.written m ids label result

end

section

variable {m : Module} {F : Function}

lemma Value.text_eq_written (v : Value) :
    v.text m F = v.written m F.ids fun id => F.number (.result id) := by
  cases v with
  | const ty number => rfl
  | param ty name => rfl
  | inst ty id =>
      rw [Value.text, Value.written]
      split
      · next hid => exact Function.numberText_eq (Function.mem_numbering_of_mem_ids hid)
      · next hid => exact Function.numberText_of_notMem hid
  | func id =>
      rw [Value.text, Value.written, Module.symbolText]
      cases m.functions[id]? <;> rfl

lemma Value.typedText_eq_written (v : Value) :
    v.typedText m F = v.writtenTyped m F.ids fun id => F.number (.result id) := by
  rw [Value.typedText, Value.writtenTyped, Value.text_eq_written]
  cases v.ty? <;> rfl

/-- The text of an operation is `written` with the numbers of the function: its operands are printed
with the numbers of their instructions. -/
lemma Operation.text_eq_written (op : Operation) :
    op.text m F = op.written m F.ids fun id => F.number (.result id) := by
  cases op with
  | binary op ty lhs rhs | icmpEq ty lhs rhs =>
      rw [Operation.text, Operation.written, Value.text_eq_written, Value.text_eq_written]
      rfl
  | zext value ty =>
      rw [Operation.text, Operation.written, Value.typedText_eq_written]
      rfl
  | call callee ret args =>
      rw [Operation.text, Operation.written, funext Value.typedText_eq_written]
      rfl

/-- So is the text of a terminator whose targets exist: its branches go to labels by their
numbers. -/
lemma Terminator.text_eq_written {t : Terminator}
    (htargets : ∀ cond yes no, t = .condBr cond yes no →
      yes < F.blocks.length ∧ no < F.blocks.length) :
    t.text m F = t.written m F.ids (fun b => F.number (.label b))
      fun id => F.number (.result id) := by
  cases t with
  | ret value =>
      rw [Terminator.text, Terminator.written, Value.typedText_eq_written]
      rfl
  | condBr cond yes no =>
      obtain ⟨hyes, hno⟩ := htargets cond yes no rfl
      have hlabel : ∀ front number : String,
          front ++ ", label " ++ ("%" ++ number) = front ++ ", label %" ++ number := by
        intro front number
        have hfront : front ++ ", label " ++ "%" = front ++ ", label %" := String.append_assoc
        rw [← String.append_assoc, hfront]
      rw [Terminator.text, Terminator.written, Value.typedText_eq_written,
        Function.numberText_eq (Function.mem_numbering_label hyes),
        Function.numberText_eq (Function.mem_numbering_label hno), ← hlabel, ← hlabel]
      rfl

lemma Block.text_lines {B : Block} (h : F.IsComplete m) (hB : B ∈ F.blocks) (b : BlockId) :
    (B.lines m F b).map Line.text = B.written m F.ids (fun b => F.number (.label b))
      (fun id => F.number (.result id)) b := by
  have hinsts : ∀ inst ∈ B.insts,
      (Line.result (F.number (.result inst.id)) (inst.operation.text m F)).text =
        "\t%" ++ toString (F.number (.result inst.id)) ++ " = " ++
          inst.operation.written m F.ids fun id => F.number (.result id) := by
    intro inst _
    rw [Operation.text_eq_written]
    rfl
  have hclose : ∀ t ∈ B.terminator.toList, (Line.terminator (t.text m F)).text =
      "\t" ++ t.written m F.ids (fun b => F.number (.label b))
        fun id => F.number (.result id) := by
    intro t ht
    rw [Option.mem_toList] at ht
    rw [Terminator.text_eq_written fun cond yes no hterm => h.targets B hB cond yes no (hterm ▸ ht)]
    rfl
  rw [Block.lines, Block.written, List.map_append, List.map_cons, List.map_map, List.map_map]
  exact congrArg₂ _ (congrArg _ (List.map_congr_left hinsts)) (List.map_congr_left hclose)

end

namespace Function

/-- Blocks and instructions have the numbers `label` and `result` in the text of a function. -/
structure Numbers (m : Module) (F : Function) (label : BlockId → Nat) (result : InstId → Nat) :
    Prop where
  /-- Read from top to bottom, the numbers that lines introduce are those from zero on. -/
  inOrder : ((F.lines m).map Line.text).filterMap writtenNumber? =
    List.range (F.blocks.length + F.ids.length)
  /-- Every line with its operands: labels and results stand behind their numbers, and operands and
  branches refer to instructions and blocks by the same numbers. -/
  lines : (F.lines m).map Line.text = [""].intercalate
    (F.blocks.zipIdx.map fun p => p.1.written m F.ids label result p.2)

variable {m : Module} {F : Function}

/-- The lines of some blocks of a complete function are those of `Block.written`, with blank lines
between the blocks. -/
lemma text_linesFrom (h : F.IsComplete m) (start : BlockId) {blocks : List Block}
    (hblocks : ∀ B ∈ blocks, B ∈ F.blocks) :
    (F.linesFrom m start blocks).map Line.text = [""].intercalate
      ((blocks.zipIdx start).map fun p => p.1.written m F.ids (fun b => F.number (.label b))
        (fun id => F.number (.result id)) p.2) := by
  fun_induction linesFrom m F start blocks with
  | case1 start => rfl
  | case2 start B =>
      rw [Block.text_lines h (hblocks B (by simp))]
      simp
  | case3 start B blocks hne ih =>
      rw [List.forall_mem_cons] at hblocks
      obtain ⟨C, blocks, rfl⟩ := List.exists_cons_of_ne_nil hne
      have hblank : Line.blank.text = "" := rfl
      rw [List.map_append, List.map_cons, ih hblocks.2, Block.text_lines h hblocks.1, hblank]
      simp [List.intercalate]

/-- **The lines of a complete function are numbered as `Function.Numbers` says**, if no two
instructions have the same id. -/
lemma numbers_of_isComplete (hids : F.ids.Nodup) (h : F.IsComplete m) :
    F.Numbers m (fun b => F.number (.label b)) (fun id => F.number (.result id)) where
  inOrder := by
    rw [List.filterMap_map, ← map_number hids, numbering_eq, ← numbers_linesFrom m F 0 F.blocks]
    exact List.filterMap_congr (writtenNumber?_linesFrom m F 0 F.blocks)
  lines := text_linesFrom h 0 fun _ hB => hB

end Function

/-! ## Built modules -/

/-- **Numbers in the text of a built module.** A module has a text exactly if it passes
`Module.verify`, that is if every function has a block, every block a terminator, every branch goes
to blocks of its function and every call to a function of the module.  The labels and results in the
text of a function are numbered from zero on, from top to bottom.  Every operand of an instruction,
of a return and of a branch that refers to an instruction of the function is printed with the number
of that instruction, and every branch names its blocks by their numbers, whatever the order in which
blocks and instructions were made. -/
theorem render_numbers (changes : List Change) :
    let m := Module.empty.after changes
    ((∃ text, m.render = .ok text) ↔ m.verify = .ok ()) ∧
      (m.verify = .ok () ↔ ∀ F ∈ m.functions, F.IsComplete m) ∧
      ∀ text, m.render = .ok text →
        text = "\n".intercalate (m.functions.map fun F =>
          String.join ((F.header :: (F.lines m).map Line.text ++ ["\x7d"]).map (· ++ "\n"))) ∧
        ∀ F ∈ m.functions, ∃ label result, F.Numbers m label result := by
  intro m
  refine ⟨⟨?_, ?_⟩, Module.verify_eq_ok_iff, ?_⟩
  · rintro ⟨text, h⟩
    exact (Module.render_eq_ok_iff.1 h).1
  · exact fun h => ⟨_, Module.render_eq_ok_iff.2 ⟨h, rfl⟩⟩
  · intro text h
    obtain ⟨hverify, htext⟩ := Module.render_eq_ok_iff.1 h
    refine ⟨htext, fun F hF => ⟨_, _, F.numbers_of_isComplete ?_ ?_⟩⟩
    · exact ((Module.ordered_empty.after changes).functions F hF).distinct
    · exact Module.verify_eq_ok_iff.1 hverify F hF

/-- The last block is filled first, an id is lost to a block that is not there, and instructions
refer to others above them, in other blocks and in their own. -/
def crossedRun : List Change :=
  let number := fun n => .const (.int 32) n
  let result := fun id => .inst (.int 32) id
  [.addEntry "main" (.int 32), .addInternal [⟨"x", .int 32⟩] (.int 32), .addBlock 0, .addBlock 0,
    .addBlock 0, .addBlock 1,
    .append 0 2 (.call 1 (.int 32) [number 5]), .append 0 7 (.zext (number 0) (.int 32)),
    .append 0 0 (.icmpEq (.int 32) (number 1) (number 2)),
    .append 0 2 (.binary .add (.int 32) (result 0) (result 0)),
    .append 0 1 (.zext (.inst .bool 2) (.int 32)),
    .terminate 0 2 (.ret (result 3)), .terminate 0 1 (.ret (result 4)),
    .terminate 0 0 (.condBr (.inst .bool 2) 1 2),
    .append 1 0 (.binary .mul (.int 32) (.param (.int 32) "x") (number 2)),
    .append 1 0 (.binary .sub (.int 32) (result 0) (.param (.int 32) "x")),
    .terminate 1 0 (.ret (result 1))]

theorem render_numbers_crossed :
    let m := Module.empty.after crossedRun
    let text := "define i32 @main() \x7b\n0:\n\t%1 = icmp eq i32 1, 2\n" ++
      "\tbr i1 %1, label %2, label %4\n\n" ++
      "2:\n\t%3 = zext i1 %1 to i32\n\tret i32 %3\n\n" ++
      "4:\n\t%5 = call i32 @0(i32 5)\n\t%6 = add i32 %5, %5\n\tret i32 %6\n\x7d\n\n" ++
      "define private i32 @0(i32 %x) \x7b\n0:\n\t%1 = mul i32 %x, 2\n\t%2 = sub i32 %1, %x\n" ++
      "\tret i32 %2\n\x7d\n"
    m.functions.map Function.ids = [[2, 4, 0, 3], [0, 1]] ∧ m.render = .ok text ∧
      ∀ F ∈ m.functions, ∃ label result, F.Numbers m label result := by
  intro m text
  have hrun : m.render = .ok text := by decide +kernel
  obtain ⟨-, -, hnumbers⟩ := render_numbers crossedRun
  exact ⟨by decide +kernel, hrun, (hnumbers text hrun).2⟩

end Runic.Ir
