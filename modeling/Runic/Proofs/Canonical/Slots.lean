import Runic.Proofs.Canonical.Rules
import Runic.Proofs.Node.Parsed

/-!
# Slots are bound where they are used

Expansions bind reserved faces, nest in each other and repeat their arguments.  Still a slot is only
ever read in the body of the `=/` that binds it, and no trap or gate lies between: values are parked
and fetched again at once, and `%*` calls its slot right away.

* `Sealed` — every slot that a tree reads is bound in the tree or among the given ones, with no
  trap or gate in between.
* `sealed_of_isLegible` — a tree that was read names no slot at all.
* `Expansion.sealed` — expansions of trees that need no slots need none.
* `sealed_of_reduce` — **nor does what a source is reduced to**.
-/

namespace Runic

/-- Every slot that the tree reads is one of `slots`, or is bound on the way to it with no trap and
no gate in between.  No label is a slot. -/
inductive Sealed : List String → Node → Prop
  | buc {slots span} : Sealed slots (.buc span)
  | pat {slots span} : Sealed slots (.pat span)
  | dot {slots span} : Sealed slots (.dot span)
  | num {slots digits span} : Sealed slots (.num digits span)
  | face {slots name span} (h : isReserved name = true → name ∈ slots) :
      Sealed slots (.face name span)
  | faced {slots label value span} (hlabel : isReserved label = false)
      (hvalue : Sealed slots value) : Sealed slots (.faced label value span)
  | cell {slots head tail span} (hhead : Sealed slots head) (htail : Sealed slots tail) :
      Sealed slots (.cell head tail span)
  | bind {slots name place value body span} (hvalue : Sealed slots value)
      (hbody : Sealed (name :: slots) body) :
      Sealed slots (.rune .tisfas [.face name place, value, body] span)
  | call {slots target pairs span} (htarget : Sealed slots target)
      (hpairs : ∀ pair ∈ pairs, Sealed [] pair) :
      Sealed slots (.rune .centis (target :: pairs) span)
  | apart {slots r args span} (hargs : ∀ arg ∈ args, Sealed [] arg) :
      Sealed slots (.rune r args span)

namespace Sealed

variable {slots slots' : List String} {r : Rune} {args : List Node} {span : Span}

/-- If a tree is sealed for `slots`, then it is for any list that contains them. -/
lemma mono {n : Node} (h : Sealed slots n) (hsub : slots ⊆ slots') : Sealed slots' n := by
  induction h generalizing slots' with
  | buc => exact .buc
  | pat => exact .pat
  | dot => exact .dot
  | num => exact .num
  | face h => exact .face fun hr => hsub (h hr)
  | faced h _ ih => exact .faced h (ih hsub)
  | cell _ _ ihHead ihTail => exact .cell (ihHead hsub) (ihTail hsub)
  | bind _ _ ihValue ihBody =>
      exact .bind (ihValue hsub) (ihBody (List.cons_subset_cons _ hsub))
  | call _ pairs ih _ => exact .call (ih hsub) pairs
  | apart args _ => exact .apart args

lemma of_nil {n : Node} (h : Sealed [] n) : Sealed slots n := h.mono (List.nil_subset _)

/-! ## Inversion -/

lemma isReserved_label {label : String} {value : Node}
    (h : Sealed slots (.faced label value span)) : isReserved label = false := by
  cases h with
  | faced h _ => exact h

lemma isReserved_face {name : String} (h : Sealed [] (.face name span)) :
    isReserved name = false := by
  cases h with
  | face h =>
      rw [Bool.eq_false_iff]
      exact fun hr => absurd (h hr) List.not_mem_nil

lemma value {label : String} {value : Node} (h : Sealed slots (.faced label value span)) :
    Sealed slots value := by
  cases h with
  | faced _ hvalue => exact hvalue

/-- In a sealed binding the value is sealed for the same slots, and the body also for the name. -/
lemma bound {name : String} {place : Span} {value body : Node}
    (h : Sealed slots (.rune .tisfas [.face name place, value, body] span)) :
    Sealed slots value ∧ Sealed (name :: slots) body := by
  cases h with
  | bind hvalue hbody => exact ⟨hvalue, hbody⟩
  | apart hargs => exact ⟨(hargs _ (by simp)).of_nil, (hargs _ (by simp)).of_nil⟩

/-- The arguments of a sealed application, other than of `=/`, are sealed for the same slots. -/
lemma operand (h : Sealed slots (.rune r args span)) (hr : r ≠ .tisfas) :
    ∀ arg ∈ args, Sealed slots arg := by
  cases h with
  | bind => exact absurd rfl hr
  | call target pairs =>
      exact List.forall_mem_cons.2 ⟨target, fun pair hpair => (pairs pair hpair).of_nil⟩
  | apart hargs => exact fun arg harg => (hargs arg harg).of_nil

/-- The arguments of a trap, of a gate and of a rune that is not canonical are sealed for no slots
at all. -/
lemma inside (h : Sealed slots (.rune r args span)) (hbind : r ≠ .tisfas) (hcall : r ≠ .centis) :
    ∀ arg ∈ args, Sealed [] arg := by
  cases h with
  | bind => exact absurd rfl hbind
  | call => exact absurd rfl hcall
  | apart hargs => exact hargs

end Sealed

/-! ## Trees that were read -/

lemma isReserved_of_isFaceText {text : String} (h : isFaceText text = true) :
    isReserved text = false := by
  obtain ⟨c, cs, htext, hstart, -⟩ := exists_cons_of_word h
  have hc : c ≠ '^' := by
    rintro rfl
    cases hstart
  simp [isReserved, htext, hc]

/-- A legible tree reads no slots, since no face of it starts with `^`. -/
lemma sealed_of_isLegible {n : Node} (h : n.IsLegible) : Sealed [] n := by
  induction n using Node.induction with
  | buc => exact .buc
  | pat => exact .pat
  | dot => exact .dot
  | num => exact .num
  | face name span =>
      have hname := isReserved_of_isFaceText (Node.isLegible_face.1 h)
      exact .face fun hr => by simp [hname] at hr
  | faced label value span ih =>
      obtain ⟨hlabel, hvalue⟩ := Node.isLegible_faced.1 h
      exact .faced (isReserved_of_isFaceText hlabel) (ih hvalue)
  | cell head tail span ihHead ihTail =>
      obtain ⟨hhead, htail⟩ := Node.isLegible_cell.1 h
      exact .cell (ihHead hhead) (ihTail htail)
  | rune r args span ih =>
      exact .apart fun arg harg => ih arg harg ((Node.isLegible_rune.1 h).2 arg harg)

/-! ## Expansions -/

section

variable {slots : List String} {r : Rune} {args : List Node} {span : Span}

/-- A name that `expectFace` finds in a tree without slots is no slot. -/
lemma isReserved_of_expectFace {tree : Node} {name : Name} (h : expectFace r tree = .ok name)
    (ht : Sealed [] tree) : isReserved name.text = false := by
  unfold expectFace at h
  split at h <;> cases h
  · exact ht.isReserved_face
  · exact ht.isReserved_label

lemma sealed_bunt {mold value : Node} (h : bunt mold = .ok value) (hm : Sealed [] mold) :
    Sealed [] value := by
  fun_induction bunt mold generalizing value with
  | case1 | case2 =>
      cases h
      exact .num
  | case3 label mold span ih =>
      obtain ⟨value, hvalue, rfl⟩ := bind_pure_eq_ok.1 h
      exact .faced hm.isReserved_label (ih hvalue hm.value)
  | case4 head tail span ihHead ihTail =>
      obtain ⟨head', hhead, h⟩ := bind_eq_ok.1 h
      obtain ⟨tail', htail, rfl⟩ := bind_pure_eq_ok.1 h
      cases hm with
      | cell hm hm' => exact .cell (ihHead hhead hm) (ihTail htail hm')
  | case5 => cases h

lemma sealed_nestCells {items : List Node} {item : Node} (hitem : Sealed slots item)
    (hitems : ∀ n ∈ items, Sealed slots n) : Sealed slots (nestCells span item items) := by
  induction items generalizing item with
  | nil => exact hitem
  | cons next items ih =>
      rw [List.forall_mem_cons] at hitems
      exact .cell hitem (ih hitems.1 hitems.2)

lemma sealed_pinned {pin body : Node} (hpin : Sealed [] pin) (hbody : Sealed [] body) :
    Sealed [] (pinned pin body span) := by
  unfold pinned
  split
  · exact .bind hpin.value hbody.of_nil
  · exact .bind hpin hbody.of_nil

/-- The tree `unpark span bs body` reads the parking slots of `bs`. -/
lemma sealed_unpark {bs : List Binding} {body : Node}
    (hbs : ∀ b ∈ bs, parkingSlot b.name.text ∈ slots) (hbody : Sealed [] body) :
    Sealed slots (unpark span bs body) := by
  induction bs generalizing slots with
  | nil => exact hbody.of_nil
  | cons b bs ih =>
      rw [List.forall_mem_cons] at hbs
      refine .bind (.face fun _ => hbs.1) (ih fun c hc => ?_)
      exact List.mem_cons_of_mem _ (hbs.2 c hc)

/-- The tree `park span bs inner` binds the parking slots of `bs`, so that `inner` may read them. -/
lemma sealed_park {bs : List Binding} {inner : Node} (hbs : ∀ b ∈ bs, Sealed [] b.value)
    (hinner : ∀ slots', slots ⊆ slots' → (∀ b ∈ bs, parkingSlot b.name.text ∈ slots') →
      Sealed slots' inner) : Sealed slots (park span bs inner) := by
  induction bs generalizing slots with
  | nil => exact hinner slots (List.Subset.refl _) (by simp)
  | cons b bs ih =>
      rw [List.forall_mem_cons] at hbs
      refine .bind hbs.1.of_nil (ih hbs.2 fun slots' hsub hslots => ?_)
      rw [List.cons_subset] at hsub
      exact hinner slots' hsub.2 (List.forall_mem_cons.2 ⟨hsub.1, hslots⟩)

lemma sealed_tisdot {tree value body : Node} {name : Name} (h : expectFace r tree = .ok name)
    (htree : Sealed [] tree) (hvalue : Sealed [] value) (hbody : Sealed [] body) :
    Sealed [] (.rune .tisdot [name.node, value, body] span) := by
  have hname : Sealed [] name.node :=
    .face fun hr => by simp [isReserved_of_expectFace h htree] at hr
  exact .apart (by simp [hname, hvalue, hbody])

/-- **An expansion binds the slots that it reads**, if its arguments read none. -/
lemma Expansion.sealed {node : Node} (h : Expansion r args span node)
    (hargs : ∀ arg ∈ args, Sealed [] arg) : Sealed [] node := by
  cases h with
  | tislus => exact sealed_pinned (hargs _ (by simp)) (hargs _ (by simp))
  | tishep | tismic | wutdot | bartar | barket | cendot | colcab =>
      refine .apart fun arg harg => hargs arg ?_
      simp only [List.mem_cons, List.not_mem_nil, or_false] at harg ⊢
      tauto
  | tisbarFaced default =>
      have hmold := hargs _ List.mem_cons_self
      refine sealed_pinned (.faced hmold.isReserved_label ?_) (hargs _ (by simp))
      exact sealed_bunt default hmold.value
  | tisbar default =>
      have hvalue := sealed_bunt default (hargs _ List.mem_cons_self)
      exact .bind hvalue (hargs _ (by simp)).of_nil
  | rebind => exact .bind (hargs _ (by simp)) (hargs _ (by simp)).of_nil
  | tiscolNone => exact hargs _ (by simp)
  | tiscolOne face =>
      simp only [List.forall_mem_cons] at hargs
      exact sealed_tisdot face hargs.1 hargs.2.1 hargs.2.2.1
  | tiscol names =>
      rw [List.forall_mem_append] at hargs
      refine sealed_park (fun b hb => hargs.1 _ (value_mem_of_bindings names hb)) ?_
      exact fun slots' _ hslots => sealed_unpark hslots (hargs.2 _ (by simp))
  | tiswut face =>
      simp only [List.forall_mem_cons] at hargs
      refine .apart ?_
      simp only [List.forall_mem_cons]
      exact ⟨hargs.2.1, sealed_tisdot face hargs.1 hargs.2.2.1 hargs.2.2.2.1, hargs.2.2.2⟩
  | barsig => exact .apart (by simpa using Sealed.apart hargs)
  | call | cencab => exact .apart hargs
  | censig => exact .apart fun arg harg => hargs arg (List.mem_cons_of_mem _ harg)
  | centar =>
      simp only [List.forall_mem_cons] at hargs
      exact .bind hargs.2.1 (.call (.face fun _ => List.mem_cons_self) hargs.2.2)
  | cells =>
      rw [List.forall_mem_cons] at hargs
      exact sealed_nestCells hargs.1 hargs.2
  | erased rune last => exact hargs _ (List.mem_of_getLast? last)
  | kettar default => exact sealed_bunt default (hargs _ (by simp))
  | kettis face =>
      have hname := isReserved_of_expectFace face (hargs _ List.mem_cons_self)
      exact .faced hname (hargs _ (by simp))

end

/-! ## Reduction -/

lemma sealed_boundName {name : Node} (h : Sealed [] name) : Sealed [] (boundName name) := by
  cases name with
  | faced label mold span =>
      exact .face fun hr => by simp [h.isReserved_label] at hr
  | _ => exact h

/-- **If a tree is sealed for `slots`, then so is its canonical form.** -/
theorem sealed_of_reduce {n m : Node} {slots : List String} (hn : Sealed slots n)
    (h : reduce n = .ok m) : Sealed slots m := by
  induction n using reduction generalizing slots m with
  | buc | pat | dot | face | num =>
      simp only [reduce_buc, reduce_pat, reduce_dot, reduce_face, reduce_num] at h
      cases h
      exact hn
  | faced label value span ih =>
      rw [reduce_faced] at h
      obtain ⟨value', hvalue, rfl⟩ := bind_pure_eq_ok.1 h
      exact .faced hn.isReserved_label (ih hn.value hvalue)
  | cell head tail span ihHead ihTail =>
      rw [reduce_cell] at h
      obtain ⟨head', hhead, h⟩ := bind_eq_ok.1 h
      obtain ⟨tail', htail, rfl⟩ := bind_pure_eq_ok.1 h
      cases hn with
      | cell hn hn' => exact .cell (ihHead hn hhead) (ihTail hn' htail)
  | tisfas name value body span ihValue ihBody =>
      rw [reduce_tisfas] at h
      obtain ⟨value', hvalue, h⟩ := bind_eq_ok.1 h
      obtain ⟨body', hbody, rfl⟩ := bind_pure_eq_ok.1 h
      cases hn with
      | bind hn hn' => exact .bind (ihValue hn hvalue) (ihBody hn' hbody)
      | apart hargs =>
          simp only [List.forall_mem_cons] at hargs
          refine .apart ?_
          simp only [List.forall_mem_cons]
          exact ⟨sealed_boundName hargs.1, ihValue hargs.2.1 hvalue, ihBody hargs.2.2.1 hbody,
            hargs.2.2.2⟩
  | odd args span hlength =>
      rw [reduce_odd hlength] at h
      cases h
  | canonical r args span hr hc ih =>
      rw [reduce_canonical hr hc] at h
      obtain ⟨args', hargs', rfl⟩ := bind_pure_eq_ok.1 h
      cases hn with
      | bind => exact absurd rfl hr
      | call htarget hpairs =>
          cases mapM_eq_ok.1 hargs' with
          | cons hfirst hothers =>
              refine .call (ih _ List.mem_cons_self htarget hfirst) fun pair' hpair' => ?_
              obtain ⟨pair, hpair, hreduce⟩ := exists_of_mem_mapM (mapM_eq_ok.2 hothers) hpair'
              exact ih pair (List.mem_cons_of_mem _ hpair) (hpairs pair hpair) hreduce
      | apart hargs =>
          refine .apart fun arg' harg' => ?_
          obtain ⟨arg, harg, hreduce⟩ := exists_of_mem_mapM hargs' harg'
          exact ih arg harg (hargs arg harg) hreduce
  | short r args span hr ih =>
      rw [reduce_short hr] at h
      obtain ⟨node, hnode, h⟩ := bind_eq_ok.1 h
      have hargs := hn.inside (by rintro rfl; cases hr) (by rintro rfl; cases hr)
      exact (ih node hnode ((expansion_of_expand hnode).sealed hargs) h).of_nil

end Runic
