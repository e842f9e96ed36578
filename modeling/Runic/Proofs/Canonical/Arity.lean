import Runic.Proofs.Canonical.Rules
import Runic.Proofs.Node.Parts
import Runic.Rune.Signature

/-!
# Argument counts through reduction

The table of expansions takes the arguments of a rune apart once more, and complains if there are
too few or too many.  It agrees with the signatures: where every rune has a number of arguments
that its signature accepts, the only complaint is about `:*` without items, which the signature
accepts and which is short for nothing.

* `Rune.takes` — the rune can have so many arguments.
* `Applied` — of a node: its rune takes its arguments, and `:*` has items or stands where it may.
* `Expansion.applied` — an expansion keeps this, and brings no `:*` of its own.
* `applied_of_reduce`, `reduce_miscount` — **so does reduction, and it miscounts nothing but `:*`.**
-/

namespace Runic

/-- The rune can have so many arguments: its signature accepts them, or it is `%-`, which is written
in parentheses with any number of arguments but none. -/
def Rune.takes (r : Rune) (count : Nat) : Bool :=
  decide (r = .cenhep ∧ 0 < count) || r.signature?.any fun s => s.accepts count

/-- The error is one of reduction about a number of arguments. -/
def Error.isMiscount : Error → Bool
  | .reduce _ (.arity _ _ _) | .reduce _ (.tooFew _ _) | .reduce _ .oddPairs => true
  | _ => false

/-- The node is not a rune, or the rune takes its arguments; `:*` has items, unless it stands in one
of the given places. -/
def Applied (empties : Span → Prop) : Node → Prop
  | .rune r args span => r.takes args.length = true ∧ (r = .coltar → args = [] → empties span)
  | _ => True

variable {empties : Span → Prop} {r : Rune} {args : List Node} {span : Span} {e : Error}

/-! ## Errors that are no miscounts -/

lemma expectFace_eq_error {node : Node} (h : expectFace r node = .error e) :
    e.isMiscount = false := by
  unfold expectFace at h
  split at h <;> cases h
  rfl

lemma expectBucArm_eq_error {arm : Node} (h : expectBucArm r arm = .error e) :
    e.isMiscount = false := by
  unfold expectBucArm at h
  split at h <;> cases h
  rfl

lemma bunt_eq_error {mold : Node} (h : bunt mold = .error e) : e.isMiscount = false := by
  fun_induction bunt mold with
  | case1 | case2 => cases h
  | case3 label value span ih => exact ih (bind_pure_eq_error.1 h)
  | case4 head tail span ihHead ihTail =>
      rcases bind_eq_error.1 h with h | ⟨_, -, h⟩
      · exact ihHead h
      · exact ihTail (bind_pure_eq_error.1 h)
  | case5 =>
      cases h
      rfl

lemma bindings_eq_error {nodes : List Node} (h : bindings r nodes = .error e) :
    e.isMiscount = false := by
  fun_induction bindings r nodes with
  | case1 name value rest ih =>
      rcases bind_eq_error.1 h with h | ⟨_, -, h⟩
      · exact expectFace_eq_error h
      · exact ih (bind_pure_eq_error.1 h)
  | case2 => cases h

/-! ## Errors of the table -/

/-- A rune with the signature `.fixed count` takes exactly `count` arguments.  The exception `%-`
takes any number from one on. -/
lemma eq_of_takes {count found : Nat} (hr : r.signature? = some (.fixed count)) (hc : r ≠ .cenhep)
    (h : r.takes found = true) : found = count := by
  simpa [Rune.takes, hr, hc, Signature.accepts, Signature.fixed] using h

/-- `=:` finds its pairs, if its signature accepts them. -/
lemma rebindMany_eq_error (h : rebindMany args span = .error e)
    (ht : Rune.tiscol.takes args.length = true) : e.isMiscount = false := by
  obtain ⟨hpos, heven⟩ : 1 ≤ args.length ∧ (args.length - 1) % 2 = 0 := by
    simpa [Rune.takes, Rune.signature?, Signature.accepts, Signature.pairs, Signature.least]
      using ht
  unfold rebindMany at h
  split at h
  · next hnone =>
      rw [List.getLast?_eq_none_iff] at hnone
      simp [hnone] at hpos
  · rw [if_neg (by simpa using heven)] at h
    rcases bind_eq_error.1 h with h | ⟨bs, -, h⟩
    · exact bindings_eq_error h
    · split at h <;> cases h

/-- **Where the signature accepts the arguments, the table does**, `:*` without items apart. -/
lemma expand_miscount (h : expand r args span = .error e) (ht : r.takes args.length = true)
    (hm : e.isMiscount = true) :
    r = .coltar ∧ args = [] ∧ e = .reduce span (.tooFew .coltar 1) := by
  cases r
  case ketbar | ketpam | ketwut | ketsig | siglus | zapcol | zapdot =>
    obtain ⟨a, rfl⟩ := List.length_eq_one_iff.1 (eq_of_takes rfl (by decide) ht)
    cases h
  case kettar =>
    obtain ⟨a, rfl⟩ := List.length_eq_one_iff.1 (eq_of_takes rfl (by decide) ht)
    exact absurd hm (by simp [bunt_eq_error h])
  case tislus | tishep | bartar | barsig | cendot | colcab | kethep | ketlus | sigpam | sigbar
      | sigcab | sigbuc | siggal | siggar | sigfas | sigzap | colhep =>
    obtain ⟨a, b, rfl⟩ := List.length_eq_two.1 (eq_of_takes rfl (by decide) ht)
    cases h
  case kettis =>
    obtain ⟨a, b, rfl⟩ := List.length_eq_two.1 (eq_of_takes rfl (by decide) ht)
    exact absurd hm (by simp [expectFace_eq_error (bind_pure_eq_error.1 h)])
  case tisbar =>
    obtain ⟨a, b, rfl⟩ := List.length_eq_two.1 (eq_of_takes rfl (by decide) ht)
    simp only [expand, takeTwo] at h
    split at h
    · exact absurd hm (by simp [bunt_eq_error (bind_pure_eq_error.1 h)])
    · exact absurd hm (by simp [bunt_eq_error (bind_pure_eq_error.1 h)])
  case tismic | wutdot | sigwut | collus =>
    obtain ⟨a, b, c, rfl⟩ := List.length_eq_three.1 (eq_of_takes rfl (by decide) ht)
    cases h
  case tisdot | tistar =>
    obtain ⟨a, b, c, rfl⟩ := List.length_eq_three.1 (eq_of_takes rfl (by decide) ht)
    exact absurd hm (by simp [expectFace_eq_error (bind_pure_eq_error.1 h)])
  case censig =>
    obtain ⟨a, b, c, rfl⟩ := List.length_eq_three.1 (eq_of_takes rfl (by decide) ht)
    exact absurd hm (by simp [expectBucArm_eq_error (bind_pure_eq_error.1 h)])
  case tiswut =>
    obtain ⟨a, b, c, d, rfl⟩ := List.length_eq_four.1 (eq_of_takes rfl (by decide) ht)
    exact absurd hm (by simp [expectFace_eq_error (bind_pure_eq_error.1 h)])
  case colket =>
    obtain ⟨a, b, c, d, rfl⟩ := List.length_eq_four.1 (eq_of_takes rfl (by decide) ht)
    cases h
  case tiscol => exact absurd hm (by simp [rebindMany_eq_error h ht])
  case centar =>
    simp only [expand] at h
    split at h
    · exact absurd hm (by simp [expectBucArm_eq_error (bind_pure_eq_error.1 h)])
    · next hargs =>
        rcases args with _ | ⟨a, _ | ⟨b, rest⟩⟩
        · cases ht
        · cases ht
        · exact absurd rfl (hargs a b rest)
  case coltar =>
    simp only [expand] at h
    split at h
    · cases h
      exact ⟨rfl, rfl, rfl⟩
    · cases h
  case barket =>
    simp only [expand] at h
    split at h <;> cases h
    cases hm
  case cenlus | cenket | cencol | cencab => cases h
  all_goals
    simp only [expand] at h
    cases h
    cases hm

/-! ## Expansions -/

lemma all_applied (ht : r.takes args.length = true) (hr : r ≠ .coltar)
    (hargs : ∀ arg ∈ args, arg.All (Applied empties)) :
    (Node.rune r args span).All (Applied empties) :=
  Node.all_rune.2 ⟨⟨ht, fun h => absurd h hr⟩, hargs⟩

lemma applied_face (name : String) : (Node.face name span).All (Applied empties) :=
  Node.all_face.2 trivial

lemma applied_tisfas {name value body : Node} (hname : name.All (Applied empties))
    (hvalue : value.All (Applied empties)) (hbody : body.All (Applied empties)) :
    (Node.rune .tisfas [name, value, body] span).All (Applied empties) :=
  all_applied rfl (by decide) (by simp [hname, hvalue, hbody])

/-- No node of a default value is an application, so `Applied` holds of all of them. -/
lemma applied_bunt {mold value : Node} (h : bunt mold = .ok value) :
    value.All (Applied empties) := by
  fun_induction bunt mold generalizing value with
  | case1 | case2 =>
      cases h
      simp [Applied]
  | case3 label mold span ih =>
      obtain ⟨value, hvalue, rfl⟩ := bind_pure_eq_ok.1 h
      exact Node.all_faced.2 ⟨trivial, ih hvalue⟩
  | case4 head tail span ihHead ihTail =>
      obtain ⟨head', hhead, h⟩ := bind_eq_ok.1 h
      obtain ⟨tail', htail, rfl⟩ := bind_pure_eq_ok.1 h
      exact Node.all_cell.2 ⟨trivial, ihHead hhead, ihTail htail⟩
  | case5 => cases h

lemma applied_nestCells {items : List Node} {item : Node} (hitem : item.All (Applied empties))
    (hitems : ∀ n ∈ items, n.All (Applied empties)) :
    (nestCells span item items).All (Applied empties) := by
  induction items generalizing item with
  | nil => exact hitem
  | cons next items ih =>
      rw [List.forall_mem_cons] at hitems
      exact Node.all_cell.2 ⟨trivial, hitem, ih hitems.1 hitems.2⟩

lemma applied_pinned {pin body : Node} (hpin : pin.All (Applied empties))
    (hbody : body.All (Applied empties)) : (pinned pin body span).All (Applied empties) := by
  unfold pinned
  split
  · exact applied_tisfas (applied_face _) (Node.all_faced.1 hpin).2 hbody
  · exact applied_tisfas (applied_face _) hpin hbody

lemma applied_unpark {bs : List Binding} {body : Node} (hbody : body.All (Applied empties)) :
    (unpark span bs body).All (Applied empties) := by
  induction bs with
  | nil => exact hbody
  | cons b bs ih => exact applied_tisfas (applied_face _) (applied_face _) ih

lemma applied_park {bs : List Binding} {body : Node}
    (hbs : ∀ b ∈ bs, b.value.All (Applied empties)) (hbody : body.All (Applied empties)) :
    (park span bs body).All (Applied empties) := by
  induction bs with
  | nil => exact hbody
  | cons b bs ih =>
      rw [List.forall_mem_cons] at hbs
      exact applied_tisfas (applied_face _) hbs.1 (ih hbs.2)

/-- What `%+`, `%^` and `%:` take as arguments, `%-` takes too. -/
lemma takes_cenhep (hr : r = .cenlus ∨ r = .cenket ∨ r = .cencol)
    (h : r.takes args.length = true) : Rune.cenhep.takes args.length = true := by
  rcases hr with rfl | rfl | rfl <;>
    simp [Rune.takes, Rune.signature?, Signature.accepts, Signature.fixed,
      Signature.list] at h ⊢ <;>
    omega

/-- `%*` has one argument more than the `%=` it is short for. -/
lemma takes_centis {a b c : Node} (h : Rune.centar.takes (a :: b :: args).length = true) :
    Rune.centis.takes (c :: args).length = true := by
  simpa [Rune.takes, Rune.signature?, Signature.accepts, Signature.pairs, Signature.least] using h

/-- **An expansion of a rune that takes its arguments has no other runes**, and a `:*` without items
comes from an argument. -/
lemma Expansion.applied {node : Node} (h : Expansion r args span node)
    (ht : r.takes args.length = true) (hargs : ∀ arg ∈ args, arg.All (Applied empties)) :
    node.All (Applied empties) := by
  cases h with
  | tislus => exact applied_pinned (hargs _ (by simp)) (hargs _ (by simp))
  | tishep | tismic | wutdot | bartar | barket | cendot | colcab =>
      refine all_applied rfl (by decide) fun arg harg => hargs arg ?_
      simp only [List.mem_cons, List.not_mem_nil, or_false] at harg ⊢
      tauto
  | tisbarFaced default =>
      exact applied_pinned (Node.all_faced.2 ⟨trivial, applied_bunt default⟩) (hargs _ (by simp))
  | tisbar default =>
      exact applied_tisfas (applied_face _) (applied_bunt default) (hargs _ (by simp))
  | rebind =>
      exact applied_tisfas (applied_face _) (hargs _ (by simp)) (hargs _ (by simp))
  | tiscolOne =>
      simp only [List.forall_mem_cons] at hargs
      exact all_applied rfl (by decide) (by simp [Name.node, Applied, hargs])
  | tiscolNone => exact hargs _ (by simp)
  | tiscol names =>
      rw [List.forall_mem_append] at hargs
      refine applied_park (fun b hb => ?_) (applied_unpark (hargs.2 _ (by simp)))
      exact hargs.1 _ (value_mem_of_bindings names hb)
  | @tiswut tree test value body span name =>
      simp only [List.forall_mem_cons] at hargs
      have hchange : (Node.rune .tisdot [name.node, value, body] span).All (Applied empties) :=
        all_applied rfl (by decide) (by simp [Name.node, Applied, hargs])
      exact all_applied rfl (by decide) (by simp [hchange, hargs])
  | @barsig sample body span =>
      have hgate : (Node.rune .bartis [sample, body] span).All (Applied empties) :=
        all_applied rfl (by decide) hargs
      exact all_applied rfl (by decide) (by simpa using hgate)
  -- a longer call keeps its arguments, so it is here that its signature matters
  | call rune => exact all_applied (takes_cenhep rune ht) (by decide) hargs
  | cencab => exact all_applied ht (by decide) hargs
  | censig =>
      refine all_applied rfl (by decide) fun arg harg => hargs arg ?_
      exact List.mem_cons_of_mem _ harg
  | @centar arm door pairs span =>
      simp only [List.forall_mem_cons] at hargs
      have hcall : (Node.rune .centis (anonymous span :: pairs) span).All (Applied empties) :=
        all_applied (takes_centis ht) (by decide) (by simpa [anonymous, Applied] using hargs.2.2)
      exact applied_tisfas (applied_face _) hargs.2.1 hcall
  | cells =>
      rw [List.forall_mem_cons] at hargs
      exact applied_nestCells hargs.1 hargs.2
  | erased rune last => exact hargs _ (List.mem_of_getLast? last)
  | kettar default => exact applied_bunt default
  | kettis => exact Node.all_faced.2 ⟨trivial, hargs _ (by simp)⟩

/-! ## Reduction -/

lemma applied_boundName {name : Node} (h : name.All (Applied empties)) :
    (boundName name).All (Applied empties) := by
  cases name <;> first | exact h | exact applied_face _

/-- **If every application in a tree takes its arguments, then so does every one in its canonical
form.** -/
theorem applied_of_reduce {n m : Node} (hn : n.All (Applied empties)) (h : reduce n = .ok m) :
    m.All (Applied empties) := by
  induction n using reduction generalizing m with
  | buc | pat | dot | face | num =>
      simp only [reduce_buc, reduce_pat, reduce_dot, reduce_face, reduce_num] at h
      cases h
      exact hn
  | faced label value span ih =>
      rw [reduce_faced] at h
      obtain ⟨value', hvalue, rfl⟩ := bind_pure_eq_ok.1 h
      exact Node.all_faced.2 ⟨trivial, ih (Node.all_faced.1 hn).2 hvalue⟩
  | cell head tail span ihHead ihTail =>
      rw [reduce_cell] at h
      obtain ⟨head', hhead, h⟩ := bind_eq_ok.1 h
      obtain ⟨tail', htail, rfl⟩ := bind_pure_eq_ok.1 h
      obtain ⟨-, hn⟩ := Node.all_cell.1 hn
      exact Node.all_cell.2 ⟨trivial, ihHead hn.1 hhead, ihTail hn.2 htail⟩
  | tisfas name value body span ihValue ihBody =>
      rw [reduce_tisfas] at h
      obtain ⟨value', hvalue, h⟩ := bind_eq_ok.1 h
      obtain ⟨body', hbody, rfl⟩ := bind_pure_eq_ok.1 h
      obtain ⟨-, hargs⟩ := Node.all_rune.1 hn
      exact applied_tisfas (applied_boundName (hargs name (by simp)))
        (ihValue (hargs value (by simp)) hvalue) (ihBody (hargs body (by simp)) hbody)
  | odd args span hlength =>
      rw [reduce_odd hlength] at h
      cases h
  | canonical r args span hr hc ih =>
      rw [reduce_canonical hr hc] at h
      obtain ⟨args', hargs', rfl⟩ := bind_pure_eq_ok.1 h
      obtain ⟨⟨htakes, -⟩, hargs⟩ := Node.all_rune.1 hn
      rw [(mapM_eq_ok.1 hargs').length_eq] at htakes
      refine all_applied htakes (by rintro rfl; cases hc) fun arg' harg' => ?_
      obtain ⟨arg, harg, hreduce⟩ := exists_of_mem_mapM hargs' harg'
      exact ih arg harg (hargs arg harg) hreduce
  | short r args span hr ih =>
      rw [reduce_short hr] at h
      obtain ⟨node, hnode, h⟩ := bind_eq_ok.1 h
      obtain ⟨⟨htakes, -⟩, hargs⟩ := Node.all_rune.1 hn
      exact ih node hnode ((expansion_of_expand hnode).applied htakes hargs) h

/-- **Reduction miscounts nothing but `:*` without items.** -/
theorem reduce_miscount {n : Node} (hn : n.All (Applied empties)) (h : reduce n = .error e)
    (hm : e.isMiscount = true) : ∃ span, e = .reduce span (.tooFew .coltar 1) ∧ empties span := by
  induction n using reduction with
  | buc | pat | dot | face | num => simp at h
  | faced label value span ih =>
      rw [reduce_faced] at h
      exact ih (Node.all_faced.1 hn).2 (bind_pure_eq_error.1 h)
  | cell head tail span ihHead ihTail =>
      rw [reduce_cell] at h
      obtain ⟨-, hn⟩ := Node.all_cell.1 hn
      rcases bind_eq_error.1 h with h | ⟨_, -, h⟩
      · exact ihHead hn.1 h
      · exact ihTail hn.2 (bind_pure_eq_error.1 h)
  | tisfas name value body span ihValue ihBody =>
      rw [reduce_tisfas] at h
      obtain ⟨-, hargs⟩ := Node.all_rune.1 hn
      rcases bind_eq_error.1 h with h | ⟨_, -, h⟩
      · exact ihValue (hargs value (by simp)) h
      · exact ihBody (hargs body (by simp)) (bind_pure_eq_error.1 h)
  | odd args span hlength =>
      obtain ⟨⟨htakes, -⟩, -⟩ := Node.all_rune.1 hn
      exact absurd (eq_of_takes rfl (by decide) htakes) hlength
  | canonical r args span hr hc ih =>
      rw [reduce_canonical hr hc] at h
      obtain ⟨-, hargs⟩ := Node.all_rune.1 hn
      obtain ⟨arg, harg, h⟩ := exists_of_mapM_eq_error (bind_pure_eq_error.1 h)
      exact ih arg harg (hargs arg harg) h
  | short r args span hr ih =>
      rw [reduce_short hr] at h
      obtain ⟨⟨htakes, hempty⟩, hargs⟩ := Node.all_rune.1 hn
      rcases bind_eq_error.1 h with h | ⟨node, hnode, h⟩
      · obtain ⟨rfl, rfl, rfl⟩ := expand_miscount h htakes hm
        exact ⟨span, rfl, hempty rfl rfl⟩
      · exact ih node hnode ((expansion_of_expand hnode).applied htakes hargs) h

end Runic
