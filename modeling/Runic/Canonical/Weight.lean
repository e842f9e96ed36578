import Runic.Attempt
import Runic.Canonical.Expand

/-!
# The weight of a tree

Expanding runes comes to an end, although an expansion may be larger than what it replaces and
may even repeat an argument.  The reason is a weight: a node weighs one more than its parts, and
a rune that is short for something weighs its arguments more than once.  `Rune.scale` says how
often, and `weight_expand` that an expansion is always lighter.
-/

namespace Runic

/-- The factor of a rune in `Node.weight`.  A short rune counts its arguments several times, since
its expansion repeats them or wraps them. -/
def Rune.scale (rune : Rune) : Nat :=
  if rune.isCanonical then 1
  else
    match rune with
    | tishep | tiscol | tiswut | barsig | colcab => 3
    | _ => 2

mutual

/-- The measure by which `reduce` terminates: every node counts for one, and an application
multiplies by `Rune.scale`. -/
def Node.weight : Node → Nat
  | .buc _ | .pat _ | .dot _ | .face _ _ | .num _ _ => 1
  | .faced _ value _ => 1 + value.weight
  | .cell head tail _ => 1 + head.weight + tail.weight
  | .rune rune args _ => rune.scale * (1 + weights args)

/-- The sum of the weights of `nodes`. -/
def weights : List Node → Nat
  | [] => 0
  | node :: nodes => node.weight + weights nodes

end

/-- The factor of a rune is not zero, so arguments are counted at least once. -/
theorem Rune.scale_pos (rune : Rune) : 0 < rune.scale := by
  unfold scale
  split
  · decide
  · split <;> decide

/-- A tree has positive weight. -/
theorem Node.weight_pos (node : Node) : 0 < node.weight := by
  cases node with
  | rune rune args span =>
    simp only [weight]
    exact Nat.mul_pos rune.scale_pos (by omega)
  | _ => simp only [weight]; omega

/-- An application weighs more than its arguments together, so `reduceAll` may recurse on them. -/
theorem weights_lt_weight (rune : Rune) (args : List Node) (span : Span) :
    weights args < (Node.rune rune args span).weight := by
  have scale := rune.scale_pos
  simp only [Node.weight]
  calc weights args < 1 + weights args := by omega
    _ ≤ rune.scale * (1 + weights args) := Nat.le_mul_of_pos_left _ scale

/-- The function `weights` is additive over `++`. -/
theorem weights_append (as bs : List Node) : weights (as ++ bs) = weights as + weights bs := by
  induction as with
  | nil => simp [weights]
  | cons a as ih => simp only [List.cons_append, weights, ih]; omega

/-! ## Parts of expansions -/

/-- A default value given by `bunt` weighs as much as the mold. -/
theorem weight_bunt {mold value : Node} (h : bunt mold = .ok value) :
    value.weight = mold.weight := by
  fun_induction bunt mold generalizing value with
  | case1 span => cases h; rfl
  | case2 span => cases h; rfl
  | case3 label inner span ih =>
    obtain ⟨v, hi, rfl⟩ := bind_pure_eq_ok.1 h
    simp only [Node.weight, ih hi]
  | case4 head tail span ihHead ihTail =>
    obtain ⟨u, hh, h⟩ := bind_eq_ok.1 h
    obtain ⟨v, ht, rfl⟩ := bind_pure_eq_ok.1 h
    simp only [Node.weight, ihHead hh, ihTail ht]
  | case5 => cases h

/-- The cell `nestCells span item items` weighs as much as its items, and one more for each item but
the last. -/
theorem weight_nestCells (span : Span) (item : Node) (items : List Node) :
    (nestCells span item items).weight = item.weight + weights items + items.length := by
  induction items generalizing item with
  | nil => simp [nestCells, weights]
  | cons next items ih =>
    simp only [nestCells, Node.weight, ih, weights, List.length_cons]
    omega

/-- The length of a list is at most its `weights`. -/
theorem length_le_weights (nodes : List Node) : nodes.length ≤ weights nodes := by
  induction nodes with
  | nil => simp [weights]
  | cons node nodes ih =>
    have := node.weight_pos
    simp only [List.length_cons, weights]
    omega

/-- The sum of the weights of the values of `bs`, and one for each name. -/
def bindingWeights : List Binding → Nat
  | [] => 0
  | b :: bs => 1 + b.value.weight + bindingWeights bs

/-- The weight of an application of `=/`, with the factor one of a canonical rune. -/
theorem weight_tisfas (name value body : Node) (span : Span) :
    (Node.rune .tisfas [name, value, body] span).weight =
      1 + name.weight + value.weight + body.weight := by
  simp only [Node.weight, weights, Rune.scale, Rune.isCanonical, if_true]
  omega

/-- The tree `park span bs inner` weighs `bindingWeights bs` more than `inner`, and one more for
each binding. -/
theorem weight_park (span : Span) (bs : List Binding) (inner : Node) :
    (park span bs inner).weight = inner.weight + bindingWeights bs + bs.length := by
  induction bs with
  | nil => simp [park, bindingWeights]
  | cons b bs ih =>
    simp only [park, List.foldr_cons] at ih ⊢
    rw [weight_tisfas, ih]
    simp only [Name.slot, Node.weight, bindingWeights, List.length_cons]
    omega

/-- The tree `unpark span bs body` weighs three more than `body` for each binding: the binding, its
name and its slot. -/
theorem weight_unpark (span : Span) (bs : List Binding) (body : Node) :
    (unpark span bs body).weight = body.weight + 3 * bs.length := by
  induction bs with
  | nil => simp [unpark]
  | cons b bs ih =>
    simp only [unpark, List.foldr_cons] at ih ⊢
    rw [weight_tisfas, ih]
    simp only [Name.node, Name.slot, Node.weight, List.length_cons]
    omega

/-- Every binding counts for at least two in `bindingWeights`. -/
theorem length_le_bindingWeights (bs : List Binding) : 2 * bs.length ≤ bindingWeights bs := by
  induction bs with
  | nil => simp [bindingWeights]
  | cons b bs ih =>
    have := b.value.weight_pos
    simp only [List.length_cons, bindingWeights]
    omega

/-- The bindings read from `nodes` weigh at most as much as `nodes`. -/
theorem bindingWeights_le {rune : Rune} {nodes : List Node} {bs : List Binding}
    (h : bindings rune nodes = .ok bs) : bindingWeights bs ≤ weights nodes := by
  fun_induction bindings rune nodes generalizing bs with
  | case1 name value rest ih =>
    obtain ⟨n, hn, h⟩ := bind_eq_ok.1 h
    obtain ⟨cs, hr, rfl⟩ := bind_pure_eq_ok.1 h
    have named := name.weight_pos
    have others := ih hr
    simp only [bindingWeights, weights]
    omega
  | case2 => cases h; simp [bindingWeights]

/-! ## Expansions are lighter -/

theorem takeOne_eq_ok {rune : Rune} {args : List Node} {span : Span} {node : Node}
    {f : Node → Except Error Node} :
    takeOne rune args span f = .ok node ↔ ∃ a, args = [a] ∧ f a = .ok node := by
  unfold takeOne
  split
  · exact ⟨fun h => ⟨_, rfl, h⟩, by rintro ⟨_, e, h⟩; cases e; exact h⟩
  · next other =>
    constructor
    · intro h; cases h
    · rintro ⟨a, rfl, -⟩; exact absurd rfl (other a)

theorem takeTwo_eq_ok {rune : Rune} {args : List Node} {span : Span} {node : Node}
    {f : Node → Node → Except Error Node} :
    takeTwo rune args span f = .ok node ↔ ∃ a b, args = [a, b] ∧ f a b = .ok node := by
  unfold takeTwo
  split
  · exact ⟨fun h => ⟨_, _, rfl, h⟩, by rintro ⟨_, _, e, h⟩; cases e; exact h⟩
  · next other =>
    constructor
    · intro h; cases h
    · rintro ⟨a, b, rfl, -⟩; exact absurd rfl (other a b)

theorem takeThree_eq_ok {rune : Rune} {args : List Node} {span : Span} {node : Node}
    {f : Node → Node → Node → Except Error Node} :
    takeThree rune args span f = .ok node ↔
      ∃ a b c, args = [a, b, c] ∧ f a b c = .ok node := by
  unfold takeThree
  split
  · exact ⟨fun h => ⟨_, _, _, rfl, h⟩, by rintro ⟨_, _, _, e, h⟩; cases e; exact h⟩
  · next other =>
    constructor
    · intro h; cases h
    · rintro ⟨a, b, c, rfl, -⟩; exact absurd rfl (other a b c)

theorem takeFour_eq_ok {rune : Rune} {args : List Node} {span : Span} {node : Node}
    {f : Node → Node → Node → Node → Except Error Node} :
    takeFour rune args span f = .ok node ↔
      ∃ a b c d, args = [a, b, c, d] ∧ f a b c d = .ok node := by
  unfold takeFour
  split
  · exact ⟨fun h => ⟨_, _, _, _, rfl, h⟩, by rintro ⟨_, _, _, _, e, h⟩; cases e; exact h⟩
  · next other =>
    constructor
    · intro h; cases h
    · rintro ⟨a, b, c, d, rfl, -⟩; exact absurd rfl (other a b c d)

/-- The tree `pinned pin body span` weighs at most two more than `pin` and `body`. -/
theorem weight_pinned (pin body : Node) (span : Span) :
    (pinned pin body span).weight ≤ 2 + pin.weight + body.weight := by
  unfold pinned
  split
  · rw [weight_tisfas]; simp only [Node.weight]; omega
  · rw [weight_tisfas]; simp only [anonymous, Node.weight]; omega

/-- The expansion of a simultaneous binding by `rebindMany` weighs less than three times the
application without its factor. -/
theorem weight_rebindMany {args : List Node} {span : Span} {node : Node}
    (h : rebindMany args span = .ok node) : node.weight < 3 * (1 + weights args) := by
  unfold rebindMany at h
  split at h
  · cases h
  · next body last =>
    obtain ⟨init, rfl⟩ := List.getLast?_eq_some_iff.1 last
    rw [List.dropLast_concat] at h
    have whole : weights (init ++ [body]) = weights init + body.weight := by
      simp [weights_append, weights]
    split at h
    · cases h
    · obtain ⟨bs, hb, h⟩ := bind_eq_ok.1 h
      have bound := bindingWeights_le hb
      split at h
      · cases h; omega
      · next b =>
        cases h
        simp only [bindingWeights] at bound
        simp [Node.weight, weights, Name.node, Rune.scale, Rune.isCanonical]
        omega
      · cases h
        have count := length_le_bindingWeights bs
        rw [weight_park, weight_unpark]
        omega

/-- A member of `nodes` weighs at most `weights nodes`. -/
theorem weight_le_weights {node : Node} {nodes : List Node} (h : node ∈ nodes) :
    node.weight ≤ weights nodes := by
  induction nodes with
  | nil => cases h
  | cons first nodes ih =>
    simp only [weights]
    rcases List.mem_cons.1 h with rfl | h
    · omega
    · have := ih h; omega

/-- An argument weighs less than the application, so `reduce` may recurse on it. -/
theorem weight_lt_of_mem {node : Node} {args : List Node} (rune : Rune) (span : Span)
    (h : node ∈ args) : node.weight < (Node.rune rune args span).weight :=
  Nat.lt_of_le_of_lt (weight_le_weights h) (weights_lt_weight rune args span)

/-- An application of a canonical rune weighs less than one of a short rune whose arguments weigh as
much or more. -/
theorem weight_canonical_lt {core rune : Rune} {fewer args : List Node} {place span : Span}
    (canonical : core.isCanonical = true) (short : rune.isCanonical = false)
    (le : weights fewer ≤ weights args) :
    (Node.rune core fewer place).weight < (Node.rune rune args span).weight := by
  have one : core.scale = 1 := by simp [Rune.scale, canonical]
  have two : 2 ≤ rune.scale := by
    unfold Rune.scale
    rw [short]
    simp only [Bool.false_eq_true, if_false]
    split <;> decide
  have more := Nat.mul_le_mul_right (1 + weights args) two
  simp only [Node.weight, one]
  omega

/-- **The tree that `expand` gives weighs less than the application it expands**, so `reduce` may
recurse on it. -/
theorem weight_expand {rune : Rune} {args : List Node} {span : Span} {node : Node}
    (h : expand rune args span = .ok node) :
    node.weight < (Node.rune rune args span).weight := by
  cases rune
  -- the subject
  case tislus =>
    obtain ⟨pin, body, rfl, hf⟩ := takeTwo_eq_ok.1 h
    cases hf
    have pins := weight_pinned pin body span
    have := pin.weight_pos
    simp [Node.weight, weights, Rune.scale, Rune.isCanonical]
    omega
  case tishep =>
    obtain ⟨body, pin, rfl, hf⟩ := takeTwo_eq_ok.1 h
    cases hf
    simp [Node.weight, weights, Rune.scale, Rune.isCanonical]
    omega
  case tismic =>
    obtain ⟨name, body, value, rfl, hf⟩ := takeThree_eq_ok.1 h
    cases hf
    exact weight_canonical_lt rfl rfl (by simp only [weights]; omega)
  case tisbar =>
    obtain ⟨mold, body, rfl, hf⟩ := takeTwo_eq_ok.1 h
    have := mold.weight_pos
    have := body.weight_pos
    split at hf
    · next label value place =>
      obtain ⟨default, hb, rfl⟩ := bind_pure_eq_ok.1 hf
      have pins := weight_pinned (.faced label default place) body span
      have same := weight_bunt hb
      simp [Node.weight, weights, Rune.scale, Rune.isCanonical] at pins ⊢
      omega
    · obtain ⟨default, hb, rfl⟩ := bind_pure_eq_ok.1 hf
      have same := weight_bunt hb
      simp [Node.weight, weights, anonymous, Rune.scale, Rune.isCanonical]
      omega
  case tisdot | tistar =>
    obtain ⟨name, value, body, rfl, hf⟩ := takeThree_eq_ok.1 h
    obtain ⟨n, -, rfl⟩ := bind_pure_eq_ok.1 hf
    have := name.weight_pos
    exact weight_canonical_lt rfl rfl (by simp only [weights, Name.node, Node.weight]; omega)
  case tiscol =>
    have := weight_rebindMany h
    simpa [Node.weight, Rune.scale, Rune.isCanonical] using this
  case tiswut =>
    obtain ⟨name, test, value, body, rfl, hf⟩ := takeFour_eq_ok.1 h
    obtain ⟨n, -, rfl⟩ := bind_pure_eq_ok.1 hf
    have := name.weight_pos
    simp [Node.weight, weights, Name.node, Rune.scale, Rune.isCanonical]
    omega
  -- conditionals, gates and traps
  case wutdot =>
    obtain ⟨test, no, yes, rfl, hf⟩ := takeThree_eq_ok.1 h
    cases hf
    exact weight_canonical_lt rfl rfl (by simp only [weights]; omega)
  case bartar =>
    obtain ⟨sample, body, rfl, hf⟩ := takeTwo_eq_ok.1 h
    cases hf
    exact weight_canonical_lt rfl rfl (Nat.le_refl _)
  case barsig =>
    obtain ⟨sample, body, rfl, hf⟩ := takeTwo_eq_ok.1 h
    cases hf
    have := sample.weight_pos
    have := body.weight_pos
    simp [Node.weight, weights, Rune.scale, Rune.isCanonical]
    omega
  case barket =>
    simp only [expand] at h
    split at h
    · cases h
    · cases h
      exact weight_canonical_lt rfl rfl (Nat.le_refl _)
  -- calls
  case cenlus | cenket | cencol | cencab =>
    cases h
    exact weight_canonical_lt rfl rfl (Nat.le_refl _)
  case cendot =>
    obtain ⟨sample, gate, rfl, hf⟩ := takeTwo_eq_ok.1 h
    cases hf
    exact weight_canonical_lt rfl rfl (by simp only [weights]; omega)
  case censig =>
    obtain ⟨arm, door, sample, rfl, hf⟩ := takeThree_eq_ok.1 h
    obtain ⟨-, -, rfl⟩ := bind_pure_eq_ok.1 hf
    exact weight_canonical_lt rfl rfl (by simp only [weights]; omega)
  case centar =>
    simp only [expand] at h
    split at h
    · next arm door pairs =>
      obtain ⟨-, -, rfl⟩ := bind_pure_eq_ok.1 h
      have := arm.weight_pos
      have := door.weight_pos
      simp [Node.weight, weights, anonymous, Rune.scale, Rune.isCanonical]
      omega
    · cases h
  -- cells
  case colhep | collus | colket | coltar =>
    simp only [expand] at h
    split at h
    · cases h
    · next item items =>
      cases h
      have := length_le_weights items
      rw [weight_nestCells]
      simp [Node.weight, weights, Rune.scale, Rune.isCanonical]
      omega
  case colcab =>
    obtain ⟨tail, head, rfl, hf⟩ := takeTwo_eq_ok.1 h
    cases hf
    simp [Node.weight, weights, Rune.scale, Rune.isCanonical]
    omega
  -- casts, hints and toggles
  case ketbar | ketpam | ketwut | ketsig | siglus | zapcol | zapdot =>
    obtain ⟨value, rfl, hf⟩ := takeOne_eq_ok.1 h
    cases hf
    exact weight_lt_of_mem _ _ (by simp)
  case kethep | ketlus | sigpam | sigbar | sigcab | sigbuc | siggal | siggar | sigfas | sigzap =>
    obtain ⟨hint, value, rfl, hf⟩ := takeTwo_eq_ok.1 h
    cases hf
    exact weight_lt_of_mem _ _ (by simp)
  case sigwut =>
    obtain ⟨level, hint, value, rfl, hf⟩ := takeThree_eq_ok.1 h
    cases hf
    exact weight_lt_of_mem _ _ (by simp)
  case kettar =>
    obtain ⟨mold, rfl, hf⟩ := takeOne_eq_ok.1 h
    rw [weight_bunt hf]
    exact weight_lt_of_mem _ _ (by simp)
  case kettis =>
    obtain ⟨name, value, rfl, hf⟩ := takeTwo_eq_ok.1 h
    obtain ⟨n, -, rfl⟩ := bind_pure_eq_ok.1 hf
    have := name.weight_pos
    simp [Node.weight, weights, Rune.scale, Rune.isCanonical]
    omega
  all_goals simp [expand] at h

end Runic
