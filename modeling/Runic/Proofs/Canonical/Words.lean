import Runic.Proofs.Canonical.Arity
import Runic.Proofs.Canonical.Slots

/-!
# Texts through reduction

What a tree that was read is reduced to has texts that no source can have, but only the names of
slots.  So its nodes are well-formed or slots (`Node.IsWritten`), and it is known how its text is
read.

* `Node.IsWorded` — of a node: its text is a word, or the name of a slot.
* `Expansion.worded` — an expansion of worded trees is worded.
* `isWritten_of_reduce` — **so is every reduced tree**, and its runes take their arguments.
-/

namespace Runic

namespace Node

/-- The text of the node, if it has one, is a word of the lexer or the name of a slot. -/
def IsWorded : Node → Prop
  | face name span => isFaceText name = true ∨ (face name span).IsSlot
  | faced label _ _ => isFaceText label = true
  | num digits _ => isNumText digits = true
  | buc _ | pat _ | dot _ | rune _ _ _ | cell _ _ _ => True

section

variable {name digits label : String} {value head tail : Node} {r : Rune} {args : List Node}
  {span : Span}

@[simp] lemma isWorded_faced : (faced label value span).IsWorded ↔ isFaceText label = true :=
  Iff.rfl

@[simp] lemma isWorded_num : (num digits span).IsWorded ↔ isNumText digits = true := Iff.rfl

@[simp] lemma isWorded_cell : (cell head tail span).IsWorded := trivial

@[simp] lemma isWorded_rune : (rune r args span).IsWorded := trivial

/-- A face that is a word of the lexer is worded. -/
lemma isWorded_face (h : isFaceText name = true) : (face name span).IsWorded := .inl h

lemma isWorded_anonymous : (anonymous span).IsWorded := .inr (.inl rfl)

/-- The slot of a name that is a word is worded. -/
lemma isWorded_slot {name : Name} (h : isFaceText name.text = true) : name.slot.IsWorded :=
  .inr (.inr ⟨name.text, h, rfl⟩)

lemma isWorded_of_isWellFormed {n : Node} (h : n.isWellFormed = true) : n.IsWorded := by
  cases n with
  | face name span => exact .inl h
  | faced label value span => exact h
  | num digits span => exact h
  | _ => trivial

/-- A node whose text is worded and whose rune takes its arguments is written. -/
lemma isWritten_of_isWorded {n : Node} {empties : Span → Prop} (h : n.IsWorded)
    (happlied : Applied empties n) : n.IsWritten := by
  cases n with
  | face name span => exact h
  | faced label value span => exact .inl h
  | num digits span => exact .inl h
  | rune r args span =>
      refine .inl ?_
      simpa [isWellFormed, Rune.takes, List.length_pos_iff] using happlied.1
  | _ => exact .inl rfl

end

end Node

open Node

/-- A well-formed node other than an empty `:*` has a rune that takes its arguments. -/
lemma applied_of_isWellFormed {n : Node} (h : n.isWellFormed = true) {empties : Span → Prop}
    (hempty : ∀ span, n = .rune .coltar [] span → empties span) : Applied empties n := by
  cases n with
  | rune r args span =>
      refine ⟨?_, ?_⟩
      · simpa [isWellFormed, Rune.takes, List.length_pos_iff] using h
      · rintro rfl rfl
        exact hempty span rfl
  | _ => trivial

/-! ## Expansions -/

section

variable {r : Rune} {args : List Node} {span : Span}

/-- The name of a slot is reserved. -/
lemma isReserved_of_isSlot {name : String} (h : (face name span).IsSlot) :
    isReserved name = true := by
  rcases h with rfl | ⟨word, -, rfl⟩
  · rfl
  · simp [isReserved, parkingSlot, anonymousSlot]

/-- A name that `expectFace` finds is a word: a slot would have to be bound around it. -/
lemma isFaceText_of_expectFace {tree : Node} {name : Name} (h : expectFace r tree = .ok name)
    (ht : tree.All IsWorded) (hs : Sealed [] tree) : isFaceText name.text = true := by
  unfold expectFace at h
  split at h <;> cases h
  · rcases all_face.1 ht with hword | hslot
    · exact hword
    · exact absurd (isReserved_of_isSlot hslot) (by simp [hs.isReserved_face])
  · exact (all_faced.1 ht).1

lemma worded_bunt {mold value : Node} (h : bunt mold = .ok value) (hm : mold.All IsWorded) :
    value.All IsWorded := by
  fun_induction bunt mold generalizing value with
  | case1 | case2 =>
      cases h
      exact all_num.2 rfl
  | case3 label mold span ih =>
      obtain ⟨value, hvalue, rfl⟩ := bind_pure_eq_ok.1 h
      rw [all_faced] at hm ⊢
      exact ⟨hm.1, ih hvalue hm.2⟩
  | case4 head tail span ihHead ihTail =>
      obtain ⟨head', hhead, h⟩ := bind_eq_ok.1 h
      obtain ⟨tail', htail, rfl⟩ := bind_pure_eq_ok.1 h
      rw [all_cell] at hm ⊢
      exact ⟨trivial, ihHead hhead hm.2.1, ihTail htail hm.2.2⟩
  | case5 => cases h

lemma worded_nestCells {items : List Node} {item : Node}
    (hitems : ∀ n ∈ item :: items, n.All IsWorded) :
    (nestCells span item items).All IsWorded := by
  induction items generalizing item with
  | nil => exact hitems item (by simp)
  | cons next items ih =>
      rw [List.forall_mem_cons] at hitems
      exact all_cell.2 ⟨trivial, hitems.1, ih hitems.2⟩

lemma worded_tisfas {name value body : Node} (hname : name.All IsWorded)
    (hvalue : value.All IsWorded) (hbody : body.All IsWorded) :
    (rune .tisfas [name, value, body] span).All IsWorded :=
  all_rune.2 ⟨trivial, by simp [hname, hvalue, hbody]⟩

lemma worded_pinned {pin body : Node} (hpin : pin.All IsWorded) (hbody : body.All IsWorded) :
    (pinned pin body span).All IsWorded := by
  unfold pinned
  split
  · rw [all_faced] at hpin
    exact worded_tisfas (all_face.2 (isWorded_face hpin.1)) hpin.2 hbody
  · exact worded_tisfas (all_face.2 isWorded_anonymous) hpin hbody

/-- The names of `bindings` are words, and their values are worded. -/
lemma worded_bindings {nodes : List Node} {bs : List Binding} (h : bindings r nodes = .ok bs)
    (hnodes : ∀ n ∈ nodes, n.All IsWorded ∧ Sealed [] n) :
    ∀ b ∈ bs, isFaceText b.name.text = true ∧ b.value.All IsWorded := by
  fun_induction bindings r nodes generalizing bs with
  | case1 tree value rest ih =>
      obtain ⟨name, hname, h⟩ := bind_eq_ok.1 h
      obtain ⟨cs, hcs, rfl⟩ := bind_pure_eq_ok.1 h
      simp only [List.forall_mem_cons] at hnodes ⊢
      exact ⟨⟨isFaceText_of_expectFace hname hnodes.1.1 hnodes.1.2, hnodes.2.1.1⟩,
        ih hcs hnodes.2.2⟩
  | case2 =>
      cases h
      simp

lemma worded_unpark {bs : List Binding} {body : Node}
    (hbs : ∀ b ∈ bs, isFaceText b.name.text = true ∧ b.value.All IsWorded)
    (hbody : body.All IsWorded) : (unpark span bs body).All IsWorded := by
  induction bs with
  | nil => exact hbody
  | cons b bs ih =>
      rw [List.forall_mem_cons] at hbs
      exact worded_tisfas (all_face.2 (isWorded_face hbs.1.1)) (all_face.2 (isWorded_slot hbs.1.1))
        (ih hbs.2)

lemma worded_park {bs : List Binding} {body : Node}
    (hbs : ∀ b ∈ bs, isFaceText b.name.text = true ∧ b.value.All IsWorded)
    (hbody : body.All IsWorded) : (park span bs body).All IsWorded := by
  induction bs with
  | nil => exact hbody
  | cons b bs ih =>
      rw [List.forall_mem_cons] at hbs
      exact worded_tisfas (all_face.2 (isWorded_slot hbs.1.1)) hbs.1.2 (ih hbs.2)

/-- **An expansion brings in no texts but the names of slots and the default value `0`.** -/
lemma Expansion.worded {node : Node} (h : Expansion r args span node)
    (hargs : ∀ arg ∈ args, arg.All IsWorded ∧ Sealed [] arg) : node.All IsWorded := by
  cases h with
  | tislus => exact worded_pinned (hargs _ (by simp)).1 (hargs _ (by simp)).1
  | tisbarFaced default =>
      have hmold := all_faced.1 (hargs _ List.mem_cons_self).1
      refine worded_pinned (all_faced.2 ⟨hmold.1, ?_⟩) (hargs _ (by simp)).1
      exact worded_bunt default hmold.2
  | tisbar default =>
      have hvalue := worded_bunt default (hargs _ List.mem_cons_self).1
      exact worded_tisfas (all_face.2 isWorded_anonymous) hvalue (hargs _ (by simp)).1
  | rebind rune face | tiscolOne face | tiswut face =>
      have hname := isFaceText_of_expectFace face (hargs _ List.mem_cons_self).1
        (hargs _ List.mem_cons_self).2
      have hface : ∀ place, (Node.face _ place).IsWorded := fun _ => isWorded_face hname
      simp_all [Name.node]
  | tiscol names =>
      rw [List.forall_mem_append] at hargs
      have hbs := worded_bindings names hargs.1
      exact worded_park hbs (worded_unpark hbs (hargs.2 _ (by simp)).1)
  | cells => exact worded_nestCells fun n hn => (hargs n hn).1
  | erased rune last => exact (hargs _ (List.mem_of_getLast? last)).1
  | kettar default => exact worded_bunt default (hargs _ (by simp)).1
  | kettis face =>
      have hname := isFaceText_of_expectFace face (hargs _ List.mem_cons_self).1
        (hargs _ List.mem_cons_self).2
      exact all_faced.2 ⟨hname, (hargs _ (by simp)).1⟩
  | @centar arm door pairs span =>
      simp only [List.forall_mem_cons] at hargs
      have hslot : (anonymous span).All IsWorded := all_face.2 isWorded_anonymous
      have hcall : (Node.rune .centis (anonymous span :: pairs) span).All IsWorded :=
        all_rune.2 ⟨trivial, List.forall_mem_cons.2 ⟨hslot, fun pair hpair =>
          (hargs.2.2 pair hpair).1⟩⟩
      exact worded_tisfas hslot hargs.2.1.1 hcall
  | _ => simp_all

end

/-! ## Reduction -/

lemma worded_boundName {name : Node} (h : name.All IsWorded) : (boundName name).All IsWorded := by
  unfold boundName
  split
  · exact all_face.2 (isWorded_face (all_faced.1 h).1)
  · exact h

/-- **The canonical form of a worded tree is worded**: reduction brings in no texts but the names of
slots and the default value `0`. -/
theorem worded_of_reduce {n m : Node} {slots : List String} (hn : n.All IsWorded)
    (hs : Sealed slots n) (h : reduce n = .ok m) : m.All IsWorded := by
  induction n using reduction generalizing slots m with
  | buc | pat | dot | face | num =>
      simp only [reduce_buc, reduce_pat, reduce_dot, reduce_face, reduce_num] at h
      cases h
      exact hn
  | faced label value span ih =>
      rw [reduce_faced] at h
      obtain ⟨value', hvalue, rfl⟩ := bind_pure_eq_ok.1 h
      rw [all_faced] at hn ⊢
      exact ⟨hn.1, ih hn.2 hs.value hvalue⟩
  | cell head tail span ihHead ihTail =>
      rw [reduce_cell] at h
      obtain ⟨head', hhead, h⟩ := bind_eq_ok.1 h
      obtain ⟨tail', htail, rfl⟩ := bind_pure_eq_ok.1 h
      rw [all_cell] at hn ⊢
      cases hs with
      | cell hs hs' => exact ⟨trivial, ihHead hn.2.1 hs hhead, ihTail hn.2.2 hs' htail⟩
  | tisfas name value body span ihValue ihBody =>
      rw [reduce_tisfas] at h
      obtain ⟨value', hvalue, h⟩ := bind_eq_ok.1 h
      obtain ⟨body', hbody, rfl⟩ := bind_pure_eq_ok.1 h
      obtain ⟨-, hargs⟩ := all_rune.1 hn
      simp only [List.forall_mem_cons] at hargs
      -- what the body may read depends on how the name is bound
      obtain ⟨slots', hsv, hsb⟩ : ∃ slots', Sealed slots value ∧ Sealed slots' body := by
        cases hs with
        | bind hs hs' => exact ⟨_, hs, hs'⟩
        | apart hs => exact ⟨[], (hs value (by simp)).of_nil, hs body (by simp)⟩
      exact worded_tisfas (worded_boundName hargs.1) (ihValue hargs.2.1 hsv hvalue)
        (ihBody hargs.2.2.1 hsb hbody)
  | odd args span hlength =>
      rw [reduce_odd hlength] at h
      cases h
  | canonical r args span hr hc ih =>
      rw [reduce_canonical hr hc] at h
      obtain ⟨args', hargs', rfl⟩ := bind_pure_eq_ok.1 h
      obtain ⟨-, hargs⟩ := all_rune.1 hn
      refine all_rune.2 ⟨trivial, fun arg' harg' => ?_⟩
      obtain ⟨arg, harg, hreduce⟩ := exists_of_mem_mapM hargs' harg'
      exact ih arg harg (hargs arg harg) (hs.operand hr arg harg) hreduce
  | short r args span hr ih =>
      rw [reduce_short hr] at h
      obtain ⟨node, hnode, h⟩ := bind_eq_ok.1 h
      have hsealed := hs.inside (by rintro rfl; cases hr) (by rintro rfl; cases hr)
      have hexpansion := expansion_of_expand hnode
      refine ih node hnode (hexpansion.worded fun arg harg => ?_) (hexpansion.sealed hsealed) h
      exact ⟨(all_rune.1 hn).2 arg harg, hsealed arg harg⟩

/-- **Every node of the canonical form of a legible tree is written**: it is well-formed or a
slot. -/
theorem isWritten_of_reduce {n m : Node} (hn : n.IsLegible) (h : reduce n = .ok m) :
    ∀ k ∈ m.subtrees, k.IsWritten := by
  have hworded : n.All IsWorded := fun k hk => isWorded_of_isWellFormed (hn k hk)
  have happlied : n.All (Applied fun _ => True) := fun k hk =>
    applied_of_isWellFormed (hn k hk) fun _ _ => trivial
  intro k hk
  exact isWritten_of_isWorded (worded_of_reduce hworded (sealed_of_isLegible hn) h k hk)
    (applied_of_reduce happlied h k hk)

end Runic
