import Mathlib.Data.List.Nodup
import Runic.Proofs.Ir.Growth

/-!
# Runs of the builder

A module may be built by any operations in any order, with ids and operands that mean nothing, and
whoever builds it may go on after a refusal.  This file says what holds of every module that comes
about like that.

* `Change` — an operation of the builder with its arguments, and `Module.after` a run of such.
* `Change.Effect` — **all that an operation can do to a module**, whether it is refused or not.
* `Module.Ordered` — what every operation keeps: internal functions have the numbers from zero on,
  and no id is given twice.
* `run_from_empty` — all of it together, for runs from the beginning.

An id is used up before the block is looked at.  So a refusal may leave a hole among the ids, and
that is all it leaves.
-/

namespace Runic.Ir

/-! ## Operations -/

/-- An operation of the builder, with any ids and operands, be it accepted or refused. -/
inductive Change where
  | addEntry (name : String) (ret : Ty)
  | addInternal (params : List Param) (ret : Ty)
  | addBlock (func : FuncId)
  | append (func : FuncId) (block : BlockId) (operation : Operation)
  | terminate (func : FuncId) (block : BlockId) (terminator : Terminator)
deriving DecidableEq, Repr

namespace Change

/-- Do the operation as `Build` does, and forget its result. -/
def run : Change → Build Unit
  | addEntry name ret => do let _ ← Build.addEntry name ret
  | addInternal params ret => do let _ ← Build.addInternal params ret
  | addBlock func => do let _ ← Build.addBlock func
  | append func block operation => do let _ ← Build.append func block operation
  | terminate func block terminator => Build.terminate func block terminator

/-- The function that the operation addresses, if it is there already. -/
def func? : Change → Option FuncId
  | addEntry _ _ | addInternal _ _ => none
  | addBlock func | append func _ _ | terminate func _ _ => some func

end Change

/-- The module after `changes`, each done to what the one before it left, be it refused or not. -/
def Module.after (m : Module) (changes : List Change) : Module :=
  changes.foldl (fun m change => (change.run m).2) m

lemma Module.after_append (m : Module) (cs ds : List Change) :
    m.after (cs ++ ds) = (m.after cs).after ds := List.foldl_append

/-- The function with the next id used up by a refused operation. -/
def Function.skip (F : Function) : Function := { F with nextInst := F.nextInst + 1 }

/-- What an operation does to the module `m`, with which outcome: the table of all cases. -/
inductive Change.Effect (m : Module) : Change → Except Error Unit → Module → Prop
  | entry {name : String} {ret : Ty} : Effect m (.addEntry name ret) (.ok ())
      { m with functions := m.functions ++ [.declare (.entry name) [] ret] }
  | internal {params : List Param} {ret : Ty} : Effect m (.addInternal params ret) (.ok ())
      ⟨m.functions ++ [.declare (.internal m.nextInternal) params ret], m.nextInternal + 1⟩
  | opened {func : FuncId} {F : Function} (found : m.functions[func]? = some F) :
      Effect m (.addBlock func) (.ok ()) (m.put func F.open)
  | appended {func : FuncId} {block : BlockId} {op : Operation} {F : Function} {B : Block}
      (found : m.functions[func]? = some F) (foundBlock : F.blocks[block]? = some B)
      (isOpen : B.terminator = none) :
      Effect m (.append func block op) (.ok ()) (m.put func (F.push block op))
  | closed {func : FuncId} {block : BlockId} {t : Terminator} {F : Function} {B : Block}
      (found : m.functions[func]? = some F) (foundBlock : F.blocks[block]? = some B)
      (isOpen : B.terminator = none) :
      Effect m (.terminate func block t) (.ok ()) (m.put func (F.close block t))
  | refused {change : Change} {e : Error} : Effect m change (.error e) m
  | spent {func : FuncId} {block : BlockId} {op : Operation} {F : Function} {e : Error}
      (found : m.functions[func]? = some F) :
      Effect m (.append func block op) (.error e) (m.put func F.skip)

/-- Putting a function of the module back in its place changes nothing. -/
lemma Module.put_self {m : Module} {func : FuncId} {F : Function}
    (hF : m.functions[func]? = some F) : m.put func F = m := by
  obtain ⟨hlt, rfl⟩ := List.getElem?_eq_some_iff.1 hF
  rw [Module.put, List.set_getElem_self]

lemma Build.append_error {func : FuncId} {block : BlockId} {op : Operation} {m m' : Module}
    {e : Error} (h : Build.append func block op m = (.error e, m')) :
    m' = m ∨ ∃ F, m.functions[func]? = some F ∧ m' = m.put func F.skip := by
  unfold Build.append Build.onFunction at h
  split at h
  · cases h
    exact .inl rfl
  · next F hF =>
      unfold Function.append at h
      dsimp only at h
      split at h
      · cases h
        exact .inr ⟨F, hF, rfl⟩
      · cases h

lemma Build.terminate_error {func : FuncId} {block : BlockId} {t : Terminator} {m m' : Module}
    {e : Error} (h : Build.terminate func block t m = (.error e, m')) : m' = m := by
  unfold Build.terminate Build.onFunction at h
  split at h
  · cases h
    rfl
  · next F hF =>
      simp only [Function.terminate] at h
      split at h
      · cases h
        exact Module.put_self hF
      · cases h

lemma Build.addBlock_error {func : FuncId} {m m' : Module} {e : Error}
    (h : Build.addBlock func m = (.error e, m')) : m' = m := by
  unfold Build.addBlock Build.onFunction at h
  split at h <;> cases h
  rfl

/-- **The table `Effect` has all that an operation can do.** -/
theorem Change.effect (change : Change) (m : Module) :
    change.Effect m (change.run m).1 (change.run m).2 := by
  cases change with
  | addEntry name ret => exact .entry
  | addInternal params ret => exact .internal
  | addBlock func =>
      rw [run, Attempt.bind_apply]
      rcases h : Build.addBlock func m with ⟨e | b, m'⟩
      · rw [Build.addBlock_error h]
        exact .refused
      · obtain ⟨F, hF, -, rfl⟩ := Build.addBlock_eq_ok.1 h
        exact .opened hF
  | append func block op =>
      rw [run, Attempt.bind_apply]
      rcases h : Build.append func block op m with ⟨e | v, m'⟩
      · rcases Build.append_error h with rfl | ⟨F, hF, rfl⟩
        · exact .refused
        · exact .spent hF
      · obtain ⟨F, B, hF, hB, ho, -, rfl⟩ := Build.append_eq_ok.1 h
        exact .appended hF hB ho
  | terminate func block t =>
      rw [run]
      rcases h : Build.terminate func block t m with ⟨e | _, m'⟩
      · rw [Build.terminate_error h]
        exact .refused
      · obtain ⟨F, B, hF, hB, ho, rfl⟩ := Build.terminate_eq_ok.1 h
        exact .closed hF hB ho

/-! ## What stays -/

/-- Declaring a function behind the others grows the module. -/
lemma Module.grows_declare (m : Module) (F : Function) (next : Nat) :
    m.Grows ⟨m.functions ++ [F], next⟩ := by
  intro f G hG
  have hlt : f < m.functions.length := (List.getElem?_eq_some_iff.1 hG).1
  exact ⟨G, (List.getElem?_append_left hlt).trans hG, .refl G⟩

namespace Change.Effect

variable {m m' : Module} {change : Change} {outcome : Except Error Unit}

/-- Every operation grows the module, so it takes nothing back and leaves closed blocks as they
are. -/
lemma grows (h : change.Effect m outcome m') : m.Grows m' := by
  cases h with
  | entry => exact m.grows_declare _ _
  | internal => exact m.grows_declare _ _
  | @opened func F found => exact Module.grows_put found F.grows_open
  | appended found foundBlock isOpen =>
      exact Module.grows_put found (Function.grows_push foundBlock isOpen)
  | closed found foundBlock isOpen =>
      exact Module.grows_put found (Function.grows_close foundBlock isOpen)
  | refused => exact .refl m
  | spent found =>
      exact Module.grows_put found ⟨rfl, rfl, rfl, Nat.le_succ _, fun _ B hB => ⟨B, hB, .refl B⟩⟩

end Change.Effect

lemma Module.grows_after (m : Module) (changes : List Change) : m.Grows (m.after changes) := by
  induction changes generalizing m with
  | nil => exact .refl m
  | cons change changes ih => exact (change.effect m).grows.trans (ih _)

/-! ## Numbers and ids -/

/-- The number in the linkage of an internal function. -/
def Linkage.number? : Linkage → Option Nat
  | entry _ => none
  | internal number => some number

/-- The ids of the instructions of a function, block by block. -/
def Function.ids (F : Function) : List InstId := F.blocks.flatMap fun B => B.insts.map Inst.id

/-- The ids in every block increase, no id is given twice, and all are below the next one. -/
structure Function.Ordered (F : Function) : Prop where
  increasing : ∀ B ∈ F.blocks, (B.insts.map Inst.id).Pairwise (· < ·)
  distinct : F.ids.Nodup
  below : ∀ id ∈ F.ids, id < F.nextInst

/-- Internal functions have the numbers from zero on in the order of their declaration, and every
function is `Ordered`. -/
structure Module.Ordered (m : Module) : Prop where
  internals : (m.functions.map Function.linkage).filterMap Linkage.number? =
    List.range m.nextInternal
  functions : ∀ F ∈ m.functions, F.Ordered

/-- If one entry of a list is changed so that `g` gives `added` more of it, then the whole list has
`added` more under `flatMap`, up to the order. -/
lemma perm_flatMap_modify {α β : Type} {f : α → α} {g : α → List β} (added : List β) {as : List α}
    {i : Nat} {a : α} (ha : as[i]? = some a) (hf : g (f a) = g a ++ added) :
    ((as.modify i f).flatMap g).Perm (added ++ as.flatMap g) := by
  induction as generalizing i with
  | nil => cases ha
  | cons first as ih =>
      cases i with
      | zero =>
          obtain rfl := Option.some.inj ha
          rw [List.modify_zero_cons, List.flatMap_cons, List.flatMap_cons, hf, ← List.append_assoc]
          exact List.perm_append_comm.append_right _
      | succ i =>
          rw [List.modify_succ_cons, List.flatMap_cons, List.flatMap_cons]
          exact ((ih ha).append_left (g first)).trans (List.perm_append_comm_assoc _ _ _)

namespace Function

variable {F F' : Function} {block : BlockId} {B : Block}

lemma mem_ids {id : InstId} : id ∈ F.ids ↔ ∃ B ∈ F.blocks, ∃ inst ∈ B.insts, inst.id = id := by
  simp [ids]

lemma ids_push {op : Operation} (hB : F.blocks[block]? = some B) :
    (F.push block op).ids.Perm (F.nextInst :: F.ids) :=
  perm_flatMap_modify [F.nextInst] hB (by simp)

lemma ids_close {t : Terminator} (hB : F.blocks[block]? = some B) :
    (F.close block t).ids.Perm F.ids :=
  perm_flatMap_modify [] hB (by simp)

lemma ids_open : F.open.ids = F.ids := by
  simp [ids, Function.open, Block.empty]

lemma ordered_declare (linkage : Linkage) (params : List Param) (ret : Ty) :
    (declare linkage params ret).Ordered :=
  ⟨List.forall_mem_nil _, List.nodup_nil, List.forall_mem_nil _⟩

/-- A function with the same ids, and no more instructions in any block, is ordered if the other one
is and the next id is not lower. -/
lemma Ordered.same (h : F.Ordered) (hids : F'.ids.Perm F.ids) (hnext : F.nextInst ≤ F'.nextInst)
    (hinsts : ∀ B' ∈ F'.blocks, B'.insts = [] ∨ ∃ B ∈ F.blocks, B'.insts = B.insts) :
    F'.Ordered where
  increasing := by
    intro B' hB'
    rcases hinsts B' hB' with hnone | ⟨B, hB, hsame⟩
    · rw [hnone]
      exact .nil
    · rw [hsame]
      exact h.increasing B hB
  distinct := hids.nodup_iff.2 h.distinct
  below := fun id hid => Nat.lt_of_lt_of_le (h.below id (hids.mem_iff.1 hid)) hnext

lemma Ordered.open (h : F.Ordered) : F.open.Ordered := by
  refine h.same (.of_eq ids_open) (Nat.le_refl _) fun B hB => ?_
  rcases List.mem_append.1 hB with hB | hB
  · exact .inr ⟨B, hB, rfl⟩
  · rw [List.mem_singleton.1 hB]
    exact .inl rfl

lemma Ordered.skip (h : F.Ordered) : F.skip.Ordered :=
  h.same (.refl _) (Nat.le_succ _) fun B hB => .inr ⟨B, hB, rfl⟩

lemma Ordered.close {t : Terminator} (h : F.Ordered) (hB : F.blocks[block]? = some B) :
    (F.close block t).Ordered := by
  refine h.same (ids_close hB) (Nat.le_refl _) fun C hC => ?_
  obtain ⟨b, hb⟩ := List.mem_iff_getElem?.1 hC
  by_cases hblock : b = block
  · subst hblock
    rw [close_block hB, Option.some.injEq] at hb
    exact .inr ⟨B, List.mem_of_getElem? hB, by rw [← hb]⟩
  · rw [close_block_ne hblock] at hb
    exact .inr ⟨C, List.mem_of_getElem? hb, rfl⟩

/-- Pushing an operation keeps a function ordered, since the next id is larger than all that were
given. -/
lemma Ordered.push {op : Operation} (h : F.Ordered) (hB : F.blocks[block]? = some B) :
    (F.push block op).Ordered where
  increasing := by
    intro C hC
    obtain ⟨b, hb⟩ := List.mem_iff_getElem?.1 hC
    by_cases hblock : b = block
    · subst hblock
      rw [push_block hB, Option.some.injEq] at hb
      subst hb
      rw [List.map_append, List.pairwise_append]
      refine ⟨h.increasing B (List.mem_of_getElem? hB), List.pairwise_singleton _ _, ?_⟩
      intro id hid next hnext
      obtain rfl := List.mem_singleton.1 hnext
      obtain ⟨inst, hinst, rfl⟩ := List.mem_map.1 hid
      exact h.below _ (mem_ids.2 ⟨B, List.mem_of_getElem? hB, inst, hinst, rfl⟩)
    · rw [push_block_ne hblock] at hb
      exact h.increasing C (List.mem_of_getElem? hb)
  distinct := by
    rw [(ids_push hB).nodup_iff, List.nodup_cons]
    exact ⟨fun hmem => Nat.lt_irrefl _ (h.below _ hmem), h.distinct⟩
  below := by
    intro id hid
    rcases List.mem_cons.1 ((ids_push hB).mem_iff.1 hid) with rfl | hid
    · exact Nat.lt_succ_self _
    · exact Nat.lt_succ_of_lt (h.below id hid)

end Function

namespace Module

variable {m m' : Module} {func : FuncId} {F F' : Function}

lemma ordered_empty : Module.empty.Ordered := ⟨rfl, List.forall_mem_nil _⟩

lemma Ordered.put (h : m.Ordered) (hF : m.functions[func]? = some F)
    (hlinkage : F'.linkage = F.linkage) (hF' : F.Ordered → F'.Ordered) :
    (m.put func F').Ordered where
  internals := by
    rw [map_linkage_put hF hlinkage]
    exact h.internals
  functions := by
    intro G hG
    rcases List.mem_or_eq_of_mem_set hG with hG | rfl
    · exact h.functions G hG
    · exact hF' (h.functions F (List.mem_of_getElem? hF))

/-- Declaring a function keeps a module ordered, if an internal one has the number that comes
next. -/
lemma Ordered.declare (h : m.Ordered) {next : Nat} (linkage : Linkage) (params : List Param)
    (ret : Ty) (hnext : List.range m.nextInternal ++ linkage.number?.toList = List.range next) :
    Ordered ⟨m.functions ++ [.declare linkage params ret], next⟩ where
  internals := by
    rw [← hnext, ← h.internals, List.map_append, List.filterMap_append]
    cases linkage <;> rfl
  functions :=
    List.forall_mem_append.2 ⟨h.functions,
      List.forall_mem_singleton.2 (Function.ordered_declare linkage params ret)⟩

end Module

/-- **Every operation keeps a module ordered.** -/
lemma Change.Effect.ordered {m m' : Module} {change : Change} {outcome : Except Error Unit}
    (h : change.Effect m outcome m') (hm : m.Ordered) : m'.Ordered := by
  cases h with
  | @entry name ret => exact hm.declare (.entry name) [] ret (List.append_nil _)
  | @internal params ret =>
      exact hm.declare (.internal m.nextInternal) params ret List.range_succ.symm
  | opened found => exact hm.put found rfl .open
  | appended found foundBlock _ => exact hm.put found rfl (·.push foundBlock)
  | closed found foundBlock _ => exact hm.put found rfl (·.close foundBlock)
  | refused => exact hm
  | spent found => exact hm.put found rfl .skip

lemma Module.Ordered.after {m : Module} (h : m.Ordered) (changes : List Change) :
    (m.after changes).Ordered := by
  induction changes generalizing m with
  | nil => exact h
  | cons change changes ih => exact ih ((change.effect m).ordered h)

/-! ## Refusals -/

/-- The module `m'` is `m`, except that the operation may have used up an id of the function that it
addresses. -/
def Change.Spares (change : Change) (m m' : Module) : Prop :=
  m' = m ∨ ∃ func F, change.func? = some func ∧ m.functions[func]? = some F ∧
    m' = m.put func { F with nextInst := F.nextInst + 1 }

lemma Change.Effect.spares {m m' : Module} {change : Change} {e : Error}
    (h : change.Effect m (.error e) m') : change.Spares m m' := by
  cases h with
  | refused => exact .inl rfl
  | @spent func _ _ F _ found => exact .inr ⟨func, F, rfl, found, rfl⟩

/-! ## Runs from the beginning -/

/-- **What holds after every run of the builder.**  Internal functions are numbered from zero on,
and ids are in order and never given twice.  A block that is closed stays as it is, whatever comes
next.  An operation that is refused leaves everything as it was, except that it may use up one
id. -/
theorem run_from_empty (changes : List Change) :
    (Module.empty.after changes).Ordered ∧
      (∀ (more : List Change) (func : FuncId) (F : Function) (block : BlockId) (B : Block),
        (Module.empty.after changes).functions[func]? = some F → F.blocks[block]? = some B →
        B.terminator ≠ none →
        ∃ F', (Module.empty.after (changes ++ more)).functions[func]? = some F' ∧
          F'.blocks[block]? = some B) ∧
      ∀ (change : Change) (e : Error) (m' : Module),
        change.run (Module.empty.after changes) = (.error e, m') →
        change.Spares (Module.empty.after changes) m' := by
  refine ⟨Module.ordered_empty.after changes, ?_, ?_⟩
  · intro more func F block B hF hB hclosed
    obtain ⟨F', hF', hgrows⟩ := Module.grows_after _ more func F hF
    obtain ⟨B', hB', hblock⟩ := hgrows.blocks block B hB
    rw [Module.after_append]
    exact ⟨F', hF', hblock.closed hclosed ▸ hB'⟩
  · intro change e m' hrun
    have heffect := change.effect (Module.empty.after changes)
    rw [hrun] at heffect
    exact heffect.spares

/-- A run with a refusal in the middle: there is no block 7, and the id 1 is used up. -/
def holedRun : List Change :=
  let one := .const (.int 32) 1
  [.addEntry "main" (.int 32), .addInternal [⟨"n", .int 32⟩] (.int 32), .addBlock 0,
    .append 0 0 (.binary .add (.int 32) one one), .append 0 7 (.icmpEq (.int 32) one one),
    .append 0 0 (.call 1 (.int 32) [.inst (.int 32) 0]), .terminate 0 0 (.ret (.inst (.int 32) 2)),
    .addInternal [] .bool]

/-- Once the block is closed, one more operation on it is refused, and the block stays as it is. -/
theorem run_from_empty_holed :
    let m := Module.empty.after holedRun
    let late := .append 0 0 (.zext (.inst .bool 1) (.int 32))
    (m.functions.map Function.ids = [[0, 2], [], []] ∧ m.Ordered) ∧
      ((Change.run late m).1 = .error (.ir .terminated) ∧
        Change.Spares late m (Change.run late m).2) ∧
      ∃ F B F', m.functions[0]? = some F ∧ F.blocks[0]? = some B ∧ B.terminator ≠ none ∧
        (Module.empty.after (holedRun ++ [late])).functions[0]? = some F' ∧
        F'.blocks[0]? = some B := by
  intro m late
  obtain ⟨hordered, hclosed, hrefused⟩ := run_from_empty holedRun
  refine ⟨⟨rfl, hordered⟩, ⟨rfl, hrefused late (.ir .terminated) _ rfl⟩, ?_⟩
  obtain ⟨F', hF', hB⟩ := hclosed [late] 0 _ 0 _ rfl rfl (by simp)
  exact ⟨_, _, F', rfl, rfl, by simp, hF', hB⟩

end Runic.Ir
