import Runic.Proofs.Canonical.Rules
import Runic.Proofs.Node.Parts

/-!
# Places through reduction

Reduction brings in no places of its own: what comes out of an expansion stands where the rune
stood, or where one of its arguments did.

* `Node.Stands` — all nodes of a tree stand at certain places.
* `Expansion.stands` — an expansion stands where its rune and its arguments do.
* `stands_of_reduce` — **so does a reduced tree**, and `blames_reduce` says it of the fault if there
  is none.
-/

namespace Runic

/-- The predicate `places` holds of the span of every node of the tree. -/
def Node.Stands (places : Span → Prop) (n : Node) : Prop := n.All fun k => places k.span

section

variable {places : Span → Prop} {r : Rune} {args : List Node} {span : Span}

namespace Node

@[simp] lemma stands_buc : (buc span).Stands places ↔ places span := all_buc

@[simp] lemma stands_pat : (pat span).Stands places ↔ places span := all_pat

@[simp] lemma stands_dot : (dot span).Stands places ↔ places span := all_dot

@[simp] lemma stands_face {name : String} : (face name span).Stands places ↔ places span := all_face

@[simp] lemma stands_num {digits : String} :
    (num digits span).Stands places ↔ places span := all_num

@[simp] lemma stands_faced {label : String} {value : Node} :
    (faced label value span).Stands places ↔ places span ∧ value.Stands places := all_faced

@[simp] lemma stands_cell {head tail : Node} :
    (cell head tail span).Stands places ↔
      places span ∧ head.Stands places ∧ tail.Stands places := all_cell

@[simp] lemma stands_rune :
    (rune r args span).Stands places ↔ places span ∧ ∀ arg ∈ args, arg.Stands places := all_rune

lemma Stands.root {n : Node} (h : n.Stands places) : places n.span := h n n.mem_subtrees

end Node

/-! ## Expansions -/

lemma stands_of_expectFace {tree : Node} {name : Name} (h : expectFace r tree = .ok name)
    (ht : tree.Stands places) : places name.place := by
  unfold expectFace at h
  split at h <;> cases h
  · exact ht.root
  · exact ht.root

lemma stands_bunt {mold value : Node} (h : bunt mold = .ok value) (hm : mold.Stands places) :
    value.Stands places := by
  fun_induction bunt mold generalizing value with
  | case1 | case2 =>
      cases h
      simpa using hm
  | case3 label mold span ih =>
      obtain ⟨value, hvalue, rfl⟩ := bind_pure_eq_ok.1 h
      rw [Node.stands_faced] at hm ⊢
      exact ⟨hm.1, ih hvalue hm.2⟩
  | case4 head tail span ihHead ihTail =>
      obtain ⟨head', hhead, h⟩ := bind_eq_ok.1 h
      obtain ⟨tail', htail, rfl⟩ := bind_pure_eq_ok.1 h
      rw [Node.stands_cell] at hm ⊢
      exact ⟨hm.1, ihHead hhead hm.2.1, ihTail htail hm.2.2⟩
  | case5 => cases h

lemma stands_nestCells {items : List Node} {item : Node} (hspan : places span)
    (hitems : ∀ n ∈ item :: items, n.Stands places) :
    (nestCells span item items).Stands places := by
  induction items generalizing item with
  | nil => exact hitems item (by simp)
  | cons next items ih =>
      rw [List.forall_mem_cons] at hitems
      exact Node.stands_cell.2 ⟨hspan, hitems.1, ih hitems.2⟩

lemma stands_pinned {pin body : Node} (hspan : places span) (hpin : pin.Stands places)
    (hbody : body.Stands places) : (pinned pin body span).Stands places := by
  unfold pinned
  split
  · simp_all
  · simp_all [anonymous]

/-- The names and values of `bindings` stand at `places` if the nodes do. -/
lemma stands_bindings {nodes : List Node} {bs : List Binding} (h : bindings r nodes = .ok bs)
    (hnodes : ∀ n ∈ nodes, n.Stands places) :
    ∀ b ∈ bs, places b.name.place ∧ b.value.Stands places := by
  fun_induction bindings r nodes generalizing bs with
  | case1 tree value rest ih =>
      obtain ⟨name, hname, h⟩ := bind_eq_ok.1 h
      obtain ⟨cs, hcs, rfl⟩ := bind_pure_eq_ok.1 h
      simp only [List.forall_mem_cons] at hnodes ⊢
      exact ⟨⟨stands_of_expectFace hname hnodes.1, hnodes.2.1⟩, ih hcs hnodes.2.2⟩
  | case2 =>
      cases h
      simp

lemma stands_unpark {bs : List Binding} {body : Node} (hspan : places span)
    (hbs : ∀ b ∈ bs, places b.name.place ∧ b.value.Stands places) (hbody : body.Stands places) :
    (unpark span bs body).Stands places := by
  induction bs with
  | nil => exact hbody
  | cons b bs ih =>
      rw [List.forall_mem_cons] at hbs
      have hrest := ih hbs.2
      exact Node.stands_rune.2 ⟨hspan, by simp_all [unpark, Name.node, Name.slot]⟩

lemma stands_park {bs : List Binding} {body : Node} (hspan : places span)
    (hbs : ∀ b ∈ bs, places b.name.place ∧ b.value.Stands places) (hbody : body.Stands places) :
    (park span bs body).Stands places := by
  induction bs with
  | nil => exact hbody
  | cons b bs ih =>
      rw [List.forall_mem_cons] at hbs
      have hrest := ih hbs.2
      exact Node.stands_rune.2 ⟨hspan, by simp_all [park, Name.slot]⟩

/-- **An expansion stands at `places` if its application and its arguments do**: it brings in no
span of its own. -/
lemma Expansion.stands {node : Node} (h : Expansion r args span node) (hspan : places span)
    (hargs : ∀ arg ∈ args, arg.Stands places) : node.Stands places := by
  cases h with
  | tislus => exact stands_pinned hspan (hargs _ (by simp)) (hargs _ (by simp))
  | tisbarFaced default =>
      obtain ⟨hplace, hmold⟩ := Node.stands_faced.1 (hargs _ List.mem_cons_self)
      refine stands_pinned hspan (Node.stands_faced.2 ⟨hplace, ?_⟩) (hargs _ (by simp))
      exact stands_bunt default hmold
  | tisbar default =>
      have hvalue := stands_bunt default (hargs _ List.mem_cons_self)
      simp_all [anonymous]
  | rebind rune face =>
      have hname := stands_of_expectFace face (hargs _ List.mem_cons_self)
      simp_all [Name.node]
  | tiscolOne face | tiswut face =>
      have hname := stands_of_expectFace face (hargs _ List.mem_cons_self)
      simp_all [Name.node]
  | tiscol names =>
      rw [List.forall_mem_append] at hargs
      have hbs := stands_bindings names hargs.1
      exact stands_park hspan hbs (stands_unpark hspan hbs (hargs.2 _ (by simp)))
  | cells => exact stands_nestCells hspan hargs
  | erased rune last => exact hargs _ (List.mem_of_getLast? last)
  | kettar default => exact stands_bunt default (hargs _ (by simp))
  | centar => simp_all [anonymous]
  | _ => simp_all

/-! ## Reduction -/

lemma stands_boundName {name : Node} (h : name.Stands places) : (boundName name).Stands places := by
  unfold boundName
  split
  · exact Node.stands_face.2 (Node.stands_faced.1 h).1
  · exact h

/-- **If all nodes of a tree stand at `places`, then so do those of its canonical form.** -/
theorem stands_of_reduce {n m : Node} (hn : n.Stands places) (h : reduce n = .ok m) :
    m.Stands places := by
  induction n using reduction generalizing m with
  | buc | pat | dot | face | num =>
      simp only [reduce_buc, reduce_pat, reduce_dot, reduce_face, reduce_num] at h
      cases h
      exact hn
  | faced label value span ih =>
      rw [reduce_faced] at h
      obtain ⟨value', hvalue, rfl⟩ := bind_pure_eq_ok.1 h
      rw [Node.stands_faced] at hn ⊢
      exact ⟨hn.1, ih hn.2 hvalue⟩
  | cell head tail span ihHead ihTail =>
      rw [reduce_cell] at h
      obtain ⟨head', hhead, h⟩ := bind_eq_ok.1 h
      obtain ⟨tail', htail, rfl⟩ := bind_pure_eq_ok.1 h
      rw [Node.stands_cell] at hn ⊢
      exact ⟨hn.1, ihHead hn.2.1 hhead, ihTail hn.2.2 htail⟩
  | tisfas name value body span ihValue ihBody =>
      rw [reduce_tisfas] at h
      obtain ⟨value', hvalue, h⟩ := bind_eq_ok.1 h
      obtain ⟨body', hbody, rfl⟩ := bind_pure_eq_ok.1 h
      obtain ⟨hspan, hargs⟩ := Node.stands_rune.1 hn
      have hname' := stands_boundName (hargs name (by simp))
      have hvalue' := ihValue (hargs value (by simp)) hvalue
      have hbody' := ihBody (hargs body (by simp)) hbody
      exact Node.stands_rune.2 ⟨hspan, by simp [hname', hvalue', hbody']⟩
  | odd args span hlength =>
      rw [reduce_odd hlength] at h
      cases h
  | canonical r args span hr hc ih =>
      rw [reduce_canonical hr hc] at h
      obtain ⟨args', hargs', rfl⟩ := bind_pure_eq_ok.1 h
      obtain ⟨hspan, hargs⟩ := Node.stands_rune.1 hn
      refine Node.stands_rune.2 ⟨hspan, fun arg' harg' => ?_⟩
      obtain ⟨arg, harg, hreduce⟩ := exists_of_mem_mapM hargs' harg'
      exact ih arg harg (hargs arg harg) hreduce
  | short r args span hr ih =>
      rw [reduce_short hr] at h
      obtain ⟨node, hnode, h⟩ := bind_eq_ok.1 h
      obtain ⟨hspan, hargs⟩ := Node.stands_rune.1 hn
      exact ih node hnode ((expansion_of_expand hnode).stands hspan hargs) h

/-! ## Faults -/

/-- An error of `x` is one of reduction, with a span at `places`. -/
def Blames {α : Type} (places : Span → Prop) (x : Except Error α) : Prop :=
  ∀ e, x = .error e → ∃ span fault, e = .reduce span fault ∧ places span

namespace Blames

variable {α β : Type}

lemma ok {a : α} : Blames places (.ok a) := by
  intro e h
  cases h

lemma fault {fault : ReduceFault} (h : places span) :
    Blames places (.error (.reduce span fault) : Except Error α) := by
  rintro e ⟨⟩
  exact ⟨span, fault, rfl, h⟩

lemma bind {x : Except Error α} {f : α → Except Error β} (hx : Blames places x)
    (hf : ∀ a, x = .ok a → Blames places (f a)) : Blames places (x >>= f) := by
  intro e h
  rcases bind_eq_error.1 h with h | ⟨a, ha, h⟩
  · exact hx e h
  · exact hf a ha e h

lemma map {x : Except Error α} {f : α → β} (hx : Blames places x) :
    Blames places (do let a ← x; pure (f a)) :=
  hx.bind fun _ _ => ok

end Blames

lemma blames_takeOne {f : Node → Except Error Node} (hspan : places span)
    (hargs : ∀ arg ∈ args, arg.Stands places) (hf : ∀ a, a.Stands places → Blames places (f a)) :
    Blames places (takeOne r args span f) := by
  unfold takeOne
  split
  · exact hf _ (hargs _ (by simp))
  · exact .fault hspan

lemma blames_takeTwo {f : Node → Node → Except Error Node} (hspan : places span)
    (hargs : ∀ arg ∈ args, arg.Stands places)
    (hf : ∀ a b, a.Stands places → b.Stands places → Blames places (f a b)) :
    Blames places (takeTwo r args span f) := by
  unfold takeTwo
  split
  · exact hf _ _ (hargs _ (by simp)) (hargs _ (by simp))
  · exact .fault hspan

lemma blames_takeThree {f : Node → Node → Node → Except Error Node} (hspan : places span)
    (hargs : ∀ arg ∈ args, arg.Stands places)
    (hf : ∀ a b c, a.Stands places → b.Stands places → c.Stands places →
      Blames places (f a b c)) : Blames places (takeThree r args span f) := by
  unfold takeThree
  split
  · exact hf _ _ _ (hargs _ (by simp)) (hargs _ (by simp)) (hargs _ (by simp))
  · exact .fault hspan

lemma blames_takeFour {f : Node → Node → Node → Node → Except Error Node} (hspan : places span)
    (hargs : ∀ arg ∈ args, arg.Stands places)
    (hf : ∀ a b c d, a.Stands places → b.Stands places → c.Stands places → d.Stands places →
      Blames places (f a b c d)) : Blames places (takeFour r args span f) := by
  unfold takeFour
  split
  · exact hf _ _ _ _ (hargs _ (by simp)) (hargs _ (by simp)) (hargs _ (by simp)) (hargs _ (by simp))
  · exact .fault hspan

lemma blames_expectFace {tree : Node} (h : tree.Stands places) :
    Blames places (expectFace r tree) := by
  unfold expectFace
  split
  · exact .ok
  · exact .ok
  · exact .fault h.root

lemma blames_expectBucArm {arm : Node} (h : arm.Stands places) :
    Blames places (expectBucArm r arm) := by
  unfold expectBucArm
  split
  · exact .ok
  · exact .fault h.root

lemma blames_bunt {mold : Node} (h : mold.Stands places) : Blames places (bunt mold) := by
  fun_induction bunt mold with
  | case1 | case2 => exact .ok
  | case3 label value span ih => exact (ih (Node.stands_faced.1 h).2).map
  | case4 head tail span ihHead ihTail =>
      obtain ⟨-, hhead, htail⟩ := Node.stands_cell.1 h
      exact (ihHead hhead).bind fun _ _ => (ihTail htail).map
  | case5 => exact .fault h.root

lemma blames_bindings {nodes : List Node} (h : ∀ n ∈ nodes, n.Stands places) :
    Blames places (bindings r nodes) := by
  fun_induction bindings r nodes with
  | case1 name value rest ih =>
      simp only [List.forall_mem_cons] at h
      exact (blames_expectFace h.1).bind fun _ _ => (ih h.2.2).map
  | case2 => exact .ok

lemma blames_rebindMany (hspan : places span) (hargs : ∀ arg ∈ args, arg.Stands places) :
    Blames places (rebindMany args span) := by
  unfold rebindMany
  split
  · exact .fault hspan
  · split
    · exact .fault hspan
    · refine (blames_bindings fun n hn => hargs n (List.dropLast_subset _ hn)).bind fun bs _ => ?_
      split <;> exact .ok

/-- An error of `expand` has the span of the application or of a node of its arguments. -/
lemma blames_expand (hspan : places span) (hargs : ∀ arg ∈ args, arg.Stands places) :
    Blames places (expand r args span) := by
  cases r
  case ketbar | ketpam | ketwut | ketsig | siglus | zapcol | zapdot =>
    exact blames_takeOne hspan hargs fun _ _ => .ok
  case kettar => exact blames_takeOne hspan hargs fun _ hmold => blames_bunt hmold
  case tislus | tishep | bartar | barsig | cendot | colcab | kethep | ketlus | sigpam | sigbar
      | sigcab | sigbuc | siggal | siggar | sigfas | sigzap =>
    exact blames_takeTwo hspan hargs fun _ _ _ _ => .ok
  case kettis =>
    exact blames_takeTwo hspan hargs fun _ _ hname _ => (blames_expectFace hname).map
  case tisbar =>
    refine blames_takeTwo hspan hargs fun mold _ hmold _ => ?_
    split
    · exact (blames_bunt (Node.stands_faced.1 hmold).2).map
    · exact (blames_bunt hmold).map
  case tismic | wutdot | sigwut => exact blames_takeThree hspan hargs fun _ _ _ _ _ _ => .ok
  case tisdot | tistar =>
    exact blames_takeThree hspan hargs fun _ _ _ hname _ _ => (blames_expectFace hname).map
  case censig =>
    exact blames_takeThree hspan hargs fun _ _ _ harm _ _ => (blames_expectBucArm harm).map
  case tiswut =>
    exact blames_takeFour hspan hargs fun _ _ _ _ hname _ _ _ => (blames_expectFace hname).map
  case tiscol => exact blames_rebindMany hspan hargs
  case barket =>
    simp only [expand]
    split
    · exact .fault hspan
    · exact .ok
  case centar =>
    simp only [expand]
    split
    · exact (blames_expectBucArm (hargs _ (by simp))).map
    · exact .fault hspan
  case colhep | collus | colket | coltar =>
    simp only [expand]
    split
    · exact .fault hspan
    · exact .ok
  case cenlus | cenket | cencol | cencab => exact .ok
  all_goals exact .fault hspan

/-- **An error of `reduce` is one of reduction, with the span of a node of the tree.** -/
theorem blames_reduce {n : Node} (hn : n.Stands places) : Blames places (reduce n) := by
  induction n using reduction with
  | buc | pat | dot | face | num =>
      simp only [reduce_buc, reduce_pat, reduce_dot, reduce_face, reduce_num]
      exact .ok
  | faced label value span ih =>
      rw [reduce_faced]
      exact (ih (Node.stands_faced.1 hn).2).map
  | cell head tail span ihHead ihTail =>
      rw [reduce_cell]
      obtain ⟨-, hhead, htail⟩ := Node.stands_cell.1 hn
      exact (ihHead hhead).bind fun _ _ => (ihTail htail).map
  | tisfas name value body span ihValue ihBody =>
      rw [reduce_tisfas]
      obtain ⟨-, hargs⟩ := Node.stands_rune.1 hn
      exact (ihValue (hargs value (by simp))).bind fun _ _ => (ihBody (hargs body (by simp))).map
  | odd args span hlength =>
      rw [reduce_odd hlength]
      exact .fault hn.root
  | canonical r args span hr hc ih =>
      rw [reduce_canonical hr hc]
      obtain ⟨-, hargs⟩ := Node.stands_rune.1 hn
      refine Blames.map fun e h => ?_
      obtain ⟨arg, harg, h⟩ := exists_of_mapM_eq_error h
      exact ih arg harg (hargs arg harg) e h
  | short r args span hr ih =>
      rw [reduce_short hr]
      obtain ⟨hspan, hargs⟩ := Node.stands_rune.1 hn
      refine (blames_expand hspan hargs).bind fun node hnode => ?_
      exact ih node hnode ((expansion_of_expand hnode).stands hspan hargs)

end

end Runic
