import Runic.Proofs.Canonical.Rules

/-!
# Reduction comes to an end

An expansion may be larger than what it replaces, may have one of its arguments twice, and may need
expanding in turn.  Still no way through a tree goes on for ever, along its parts and along what
they are short for: every step on it loses weight.

* `Node.LeadsTo` — one step of such a way.
* `length_lt_weight` — **a way is shorter than the tree at its start is heavy**.
* `reduceWithin` — reduction that gives up when its calls are nested too deeply.
* `reduce_returns` — there is no endless way, and calls as deep as the weight of a tree suffice for
  its reduction.
-/

namespace Runic

/-! ## Ways through a tree -/

/-- A call of `reduce` on the first tree may call `reduce` on the second, which is a part of the
first or its expansion. -/
inductive Node.LeadsTo : Node → Node → Prop
  | value {label : String} {value : Node} {span : Span} : LeadsTo (.faced label value span) value
  | head {head tail : Node} {span : Span} : LeadsTo (.cell head tail span) head
  | tail {head tail : Node} {span : Span} : LeadsTo (.cell head tail span) tail
  | arg {r : Rune} {args : List Node} {arg : Node} {span : Span} (mem : arg ∈ args) :
      LeadsTo (.rune r args span) arg
  | expansion {r : Rune} {args : List Node} {span : Span} {n : Node}
      (expands : expand r args span = .ok n) : LeadsTo (.rune r args span) n

namespace Node.LeadsTo

/-- **A tree that `reduce` goes on with is lighter than the one before.** -/
lemma weight_lt {n m : Node} (h : n.LeadsTo m) : m.weight < n.weight := by
  cases h with
  | value => simp only [weight]; omega
  | head => simp only [weight]; omega
  | tail => simp only [weight]; omega
  | arg mem => exact weight_lt_of_mem _ _ mem
  | expansion expands => exact weight_expand expands

/-- A chain of such calls from `n` has fewer steps than `n.weight`. -/
lemma length_lt_weight {n : Node} {way : List Node} (h : List.IsChain LeadsTo (n :: way)) :
    way.length < n.weight := by
  induction way generalizing n with
  | nil => exact n.weight_pos
  | cons m way ih =>
      obtain ⟨hstep, hrest⟩ := List.isChain_cons_cons.1 h
      have hless := hstep.weight_lt
      have hlength := ih hrest
      rw [List.length_cons]
      omega

/-- Along an endless chain of calls the weight would fall by one with every step. -/
lemma weight_add_le {way : Nat → Node} (h : ∀ i, (way i).LeadsTo (way (i + 1))) (i : Nat) :
    (way i).weight + i ≤ (way 0).weight := by
  induction i with
  | zero => exact Nat.le_refl _
  | succ i ih =>
      have hless := (h i).weight_lt
      omega

end Node.LeadsTo

/-! ## Nested calls -/

/-- The outcome `x`, reached within the depth. -/
def settled {α : Type} (x : Except Error α) : ExceptT Error Option α := .mk (some x)

/-- The function `reduce` with nested calls limited to a depth.  It has no outcome if the limit is
reached. -/
def reduceWithin : Nat → Node → ExceptT Error Option Node
  | 0, _ => .mk none
  | depth + 1, .faced label value span => do
    let value ← reduceWithin depth value
    return .faced label value span
  | depth + 1, .cell head tail span => do
    let head ← reduceWithin depth head
    let tail ← reduceWithin depth tail
    return .cell head tail span
  | depth + 1, .rune .tisfas [name, value, body] span => do
    let value ← reduceWithin depth value
    let body ← reduceWithin depth body
    return .rune .tisfas [boundName name, value, body] span
  | depth + 1, .rune r args span =>
    if r = .tisfas then settled (.error (.reduce span (.arity .tisfas 3 args.length)))
    else if r.isCanonical then do
      let args ← args.mapM (reduceWithin depth)
      return .rune r args span
    else do
      let expansion ← settled (expand r args span)
      reduceWithin depth expansion
  | _ + 1, leaf => return leaf

lemma settled_bind {α β : Type} (x : Except Error α) (f : α → Except Error β) :
    (settled x >>= fun a => settled (f a)) = settled (x >>= f) := by
  cases x <;> rfl

lemma settled_mapM {α β : Type} (f : α → Except Error β) {g : α → ExceptT Error Option β}
    {as : List α} (h : ∀ a ∈ as, g a = settled (f a)) : as.mapM g = settled (as.mapM f) := by
  induction as with
  | nil => rfl
  | cons a as ih =>
      rw [List.forall_mem_cons] at h
      rw [List.mapM_cons, List.mapM_cons, h.1, ih h.2, ← settled_bind]
      refine bind_congr fun b => ?_
      rw [← settled_bind]
      rfl

/-- **The depth `n.weight` suffices**: within it `reduceWithin` has the outcome of `reduce`. -/
lemma reduceWithin_eq {depth : Nat} {n : Node} (h : n.weight ≤ depth) :
    reduceWithin depth n = settled (reduce n) := by
  induction depth generalizing n with
  | zero => exact absurd n.weight_pos (by omega)
  | succ depth ih =>
      have hnext : ∀ {m : Node}, n.LeadsTo m → reduceWithin depth m = settled (reduce m) :=
        fun hstep => ih (by have := hstep.weight_lt; omega)
      cases n with
      | buc | pat | dot | face | num =>
          simp only [reduceWithin, reduce_buc, reduce_pat, reduce_dot, reduce_face, reduce_num]
          rfl
      | faced label value span =>
          rw [reduceWithin, reduce_faced, hnext .value, ← settled_bind]
          rfl
      | cell head tail span =>
          rw [reduceWithin, reduce_cell, hnext .head, hnext .tail, ← settled_bind]
          refine bind_congr fun head => ?_
          rw [← settled_bind]
          rfl
      | rune r args span =>
          have hargs : ∀ arg ∈ args, reduceWithin depth arg = settled (reduce arg) :=
            fun arg harg => hnext (.arg harg)
          by_cases hthree : r = .tisfas ∧ args.length = 3
          · obtain ⟨rfl, hlength⟩ := hthree
            obtain ⟨name, value, body, rfl⟩ := List.length_eq_three.1 hlength
            rw [reduceWithin, reduce_tisfas, hargs value (by simp), hargs body (by simp),
              ← settled_bind]
            refine bind_congr fun value => ?_
            rw [← settled_bind]
            rfl
          · rw [reduceWithin]
            · split_ifs with hr hc
              · subst hr
                rw [reduce_odd fun hlength => hthree ⟨rfl, hlength⟩]
              · rw [reduce_canonical hr hc, settled_mapM reduce hargs, ← settled_bind]
                rfl
              · rw [reduce_short (by simpa using hc)]
                cases hexpand : expand r args span with
                | ok expansion => exact hnext (.expansion hexpand)
                | error e => rfl
            · rintro name value body rfl rfl
              exact hthree ⟨rfl, rfl⟩

/-- **Reduction returns**, on every tree.  There is no endless way through a tree and what its parts
are short for: a way has fewer steps than its first tree is heavy.  So calls need not be nested more
deeply than that for reduction to have its outcome. -/
theorem reduce_returns :
    (¬ ∃ way : Nat → Node, ∀ i, (way i).LeadsTo (way (i + 1))) ∧
      (∀ (n : Node) (way : List Node), List.IsChain Node.LeadsTo (n :: way) →
        way.length < n.weight) ∧
      ∀ (n : Node) (depth : Nat), n.weight ≤ depth →
        (reduceWithin depth n).run = some (reduce n) := by
  refine ⟨?_, fun n way => Node.LeadsTo.length_lt_weight, fun n depth => reduceWithin_eq⟩
  rintro ⟨way, hway⟩
  have hlight := Node.LeadsTo.weight_add_le hway (way 0).weight
  have hpos := (way (way 0).weight).weight_pos
  omega

/-- A way through `=?(a b 1 a)`: to the `?:` that it is short for, to the `=.` in that, to the `=/`
that this is short for, and to what is in there.  Calls for it are nested one deeper than it has
steps. -/
theorem reduce_returns_tiswut :
    let a := .face "a" ⟨0, 0⟩
    let one := .num "1" ⟨0, 0⟩
    let n := .rune .tiswut [a, .face "b" ⟨0, 0⟩, one, a] ⟨0, 0⟩
    let change := .rune .tisdot [a, one, a] ⟨0, 0⟩
    let way := [.rune .wutcol [.face "b" ⟨0, 0⟩, change, a] ⟨0, 0⟩, change,
      .rune .tisfas [a, one, a] ⟨0, 0⟩, a]
    List.IsChain Node.LeadsTo (n :: way) ∧ way.length < n.weight ∧
      (reduceWithin 4 n).run = none ∧ (reduceWithin 5 n).run.isSome = true ∧
      (reduceWithin n.weight n).run = some (reduce n) := by
  intro a one n change way
  have hway : List.IsChain Node.LeadsTo (n :: way) :=
    .cons_cons (.expansion rfl) <| .cons_cons (.arg (by simp)) <| .cons_cons (.expansion rfl) <|
      .cons_cons (.arg (by simp)) (.singleton a)
  obtain ⟨-, hlength, hreturns⟩ := reduce_returns
  exact ⟨hway, hlength n way hway, rfl, rfl, hreturns n n.weight (Nat.le_refl _)⟩

end Runic
