import Mathlib.Data.List.Forall2
import Mathlib.Tactic.Common
import Runic.Canonical.Reduce
import Runic.Proofs.Attempt

/-!
# Reduction, rule by rule

`expand` is a table with one entry for each rune, and `reduce` goes from entry to entry.  What is
proved of either is an induction, and this file says once what its cases are.

* `Expansion` — the trees that a rune can be short for, one rule for each shape.
* `reduction` — an induction that follows `reduce`: what holds of a tree if it holds of the trees
  that are reduced on its behalf holds of every tree.
* `reduce_faced`, `reduce_cell`, `reduce_tisfas`, `reduce_canonical`, `reduce_short` — the steps
  of `reduce`, one for each case of the induction.
-/

namespace Runic

/-! ## Expansions -/

/-- The rune is erased by `expand`, which leaves its last argument. -/
def Rune.isErased : Rune → Bool
  | ketbar | ketpam | ketwut | ketsig | siglus | zapcol | zapdot | kethep | ketlus | sigpam
  | sigbar | sigcab | sigbuc | siggal | siggar | sigfas | sigzap | sigwut => true
  | _ => false

/-- The table of expansions as a relation: `Expansion rune args span node` says that `node` is what
the application stands for. -/
inductive Expansion : Rune → List Node → Span → Node → Prop
  | tislus {pin body span} : Expansion .tislus [pin, body] span (pinned pin body span)
  | tishep {body pin span} : Expansion .tishep [body, pin] span (.rune .tislus [pin, body] span)
  | tismic {name body value span} :
      Expansion .tismic [name, body, value] span (.rune .tisfas [name, value, body] span)
  | tisbarFaced {label mold place body span value} (default : bunt mold = .ok value) :
      Expansion .tisbar [.faced label mold place, body] span
        (pinned (.faced label value place) body span)
  | tisbar {mold body span value} (default : bunt mold = .ok value) :
      Expansion .tisbar [mold, body] span (.rune .tisfas [anonymous span, value, body] span)
  | rebind {r tree value body span name} (rune : r = .tisdot ∨ r = .tistar)
      (face : expectFace r tree = .ok name) :
      Expansion r [tree, value, body] span (.rune .tisfas [name.node, value, body] span)
  | tiscolNone {body span} : Expansion .tiscol [body] span body
  | tiscolOne {tree value body span name} (face : expectFace .tiscol tree = .ok name) :
      Expansion .tiscol [tree, value, body] span (.rune .tisdot [name.node, value, body] span)
  | tiscol {pairs body span bs} (names : bindings .tiscol pairs = .ok bs) :
      Expansion .tiscol (pairs ++ [body]) span (park span bs (unpark span bs body))
  | tiswut {tree test value body span name} (face : expectFace .tiswut tree = .ok name) :
      Expansion .tiswut [tree, test, value, body] span
        (.rune .wutcol [test, .rune .tisdot [name.node, value, body] span, body] span)
  | wutdot {test no yes span} :
      Expansion .wutdot [test, no, yes] span (.rune .wutcol [test, yes, no] span)
  | bartar {sample body span} :
      Expansion .bartar [sample, body] span (.rune .bartis [sample, body] span)
  | barsig {sample body span} : Expansion .barsig [sample, body] span
      (.rune .ketbar [.rune .bartis [sample, body] span] span)
  | barket {body span} : Expansion .barket [body] span (.rune .barhep [body] span)
  | call {r args span} (rune : r = .cenlus ∨ r = .cenket ∨ r = .cencol) :
      Expansion r args span (.rune .cenhep args span)
  | cendot {sample gate span} :
      Expansion .cendot [sample, gate] span (.rune .cenhep [gate, sample] span)
  | cencab {args span} : Expansion .cencab args span (.rune .centis args span)
  | censig {arm door sample span} (buc : expectBucArm .censig arm = .ok ()) :
      Expansion .censig [arm, door, sample] span (.rune .cenhep [door, sample] span)
  | centar {arm door pairs span} (buc : expectBucArm .centar arm = .ok ()) :
      Expansion .centar (arm :: door :: pairs) span
        (.rune .tisfas
          [anonymous span, door, .rune .centis (anonymous span :: pairs) span] span)
  | cells {r item items span}
      (rune : r = .colhep ∨ r = .collus ∨ r = .colket ∨ r = .coltar) :
      Expansion r (item :: items) span (nestCells span item items)
  | colcab {tail head span} :
      Expansion .colcab [tail, head] span (.rune .colhep [head, tail] span)
  | erased {r args span value} (rune : r.isErased = true) (last : args.getLast? = some value) :
      Expansion r args span value
  | kettar {mold span value} (default : bunt mold = .ok value) :
      Expansion .kettar [mold] span value
  | kettis {tree value span name} (face : expectFace .kettis tree = .ok name) :
      Expansion .kettis [tree, value] span (.faced name.text value span)

/-- From a list of names and values, `bindings` makes half as many bindings. -/
lemma length_bindings {r : Rune} {nodes : List Node} {bs : List Binding}
    (h : bindings r nodes = .ok bs) : bs.length = nodes.length / 2 := by
  fun_induction bindings r nodes generalizing bs with
  | case1 tree value rest ih =>
      obtain ⟨name, -, h⟩ := bind_eq_ok.1 h
      obtain ⟨cs, hr, rfl⟩ := bind_pure_eq_ok.1 h
      simp only [List.length_cons, ih hr]
      omega
  | case2 nodes hpairs =>
      cases h
      rcases nodes with _ | ⟨a, _ | ⟨b, rest⟩⟩
      · simp
      · simp
      · exact absurd rfl (hpairs a b rest)

/-- The value of a binding is one of the nodes that `bindings` was given. -/
lemma value_mem_of_bindings {r : Rune} {nodes : List Node} {bs : List Binding} {b : Binding}
    (h : bindings r nodes = .ok bs) (hb : b ∈ bs) : b.value ∈ nodes := by
  fun_induction bindings r nodes generalizing bs with
  | case1 tree value rest ih =>
      obtain ⟨name, -, h⟩ := bind_eq_ok.1 h
      obtain ⟨cs, hcs, rfl⟩ := bind_pure_eq_ok.1 h
      rcases List.mem_cons.1 hb with rfl | hb
      · simp
      · simp [ih hcs hb]
  | case2 =>
      cases h
      cases hb

/-- `=:` with no pair is its body, with one pair a binding, and with more all of them at once. -/
lemma expansion_of_rebindMany {args : List Node} {span : Span} {node : Node}
    (h : rebindMany args span = .ok node) : Expansion .tiscol args span node := by
  unfold rebindMany at h
  split at h
  · cases h
  · next body last =>
      obtain ⟨pairs, rfl⟩ := List.getLast?_eq_some_iff.1 last
      rw [List.dropLast_concat] at h
      split at h
      · cases h
      · next even =>
          obtain ⟨bs, hb, h⟩ := bind_eq_ok.1 h
          have hlength := length_bindings hb
          split at h
          · cases h
            obtain rfl : pairs = [] := by
              rw [← List.length_eq_zero_iff]
              simp only [List.length_nil] at hlength
              omega
            exact .tiscolNone
          · next b =>
              cases h
              simp only [List.length_singleton] at hlength
              obtain ⟨tree, value, rfl⟩ := List.length_eq_two.1 (by omega : pairs.length = 2)
              obtain ⟨name, hname, h⟩ := bind_eq_ok.1 hb
              cases h
              exact .tiscolOne hname
          · cases h
            exact .tiscol hb

/-- **Whatever `expand` gives is in the table `Expansion`.** -/
theorem expansion_of_expand {r : Rune} {args : List Node} {span : Span} {node : Node}
    (h : expand r args span = .ok node) : Expansion r args span node := by
  cases r
  -- the subject
  case tislus =>
    obtain ⟨pin, body, rfl, hf⟩ := takeTwo_eq_ok.1 h
    cases hf
    exact .tislus
  case tishep =>
    obtain ⟨body, pin, rfl, hf⟩ := takeTwo_eq_ok.1 h
    cases hf
    exact .tishep
  case tismic =>
    obtain ⟨name, body, value, rfl, hf⟩ := takeThree_eq_ok.1 h
    cases hf
    exact .tismic
  case tisbar =>
    obtain ⟨mold, body, rfl, hf⟩ := takeTwo_eq_ok.1 h
    split at hf
    · obtain ⟨value, hb, rfl⟩ := bind_pure_eq_ok.1 hf
      exact .tisbarFaced hb
    · obtain ⟨value, hb, rfl⟩ := bind_pure_eq_ok.1 hf
      exact .tisbar hb
  case tisdot | tistar =>
    obtain ⟨tree, value, body, rfl, hf⟩ := takeThree_eq_ok.1 h
    obtain ⟨name, hname, rfl⟩ := bind_pure_eq_ok.1 hf
    exact .rebind (by simp) hname
  case tiscol => exact expansion_of_rebindMany h
  case tiswut =>
    obtain ⟨tree, test, value, body, rfl, hf⟩ := takeFour_eq_ok.1 h
    obtain ⟨name, hname, rfl⟩ := bind_pure_eq_ok.1 hf
    exact .tiswut hname
  -- conditionals, gates and traps
  case wutdot =>
    obtain ⟨test, no, yes, rfl, hf⟩ := takeThree_eq_ok.1 h
    cases hf
    exact .wutdot
  case bartar =>
    obtain ⟨sample, body, rfl, hf⟩ := takeTwo_eq_ok.1 h
    cases hf
    exact .bartar
  case barsig =>
    obtain ⟨sample, body, rfl, hf⟩ := takeTwo_eq_ok.1 h
    cases hf
    exact .barsig
  case barket =>
    simp only [expand] at h
    split at h
    · cases h
    · next one =>
        cases h
        obtain ⟨body, rfl⟩ := List.length_eq_one_iff.1 (not_not.1 one)
        exact .barket
  -- calls
  case cenlus | cenket | cencol =>
    cases h
    exact .call (by simp)
  case cendot =>
    obtain ⟨sample, gate, rfl, hf⟩ := takeTwo_eq_ok.1 h
    cases hf
    exact .cendot
  case cencab =>
    cases h
    exact .cencab
  case censig =>
    obtain ⟨arm, door, sample, rfl, hf⟩ := takeThree_eq_ok.1 h
    obtain ⟨⟨⟩, hbuc, rfl⟩ := bind_pure_eq_ok.1 hf
    exact .censig hbuc
  case centar =>
    simp only [expand] at h
    split at h
    · obtain ⟨⟨⟩, hbuc, rfl⟩ := bind_pure_eq_ok.1 h
      exact .centar hbuc
    · cases h
  -- cells
  case colhep | collus | colket | coltar =>
    simp only [expand] at h
    split at h
    · cases h
    · cases h
      exact .cells (by simp)
  case colcab =>
    obtain ⟨tail, head, rfl, hf⟩ := takeTwo_eq_ok.1 h
    cases hf
    exact .colcab
  -- casts, hints and toggles
  case ketbar | ketpam | ketwut | ketsig | siglus | zapcol | zapdot =>
    obtain ⟨value, rfl, hf⟩ := takeOne_eq_ok.1 h
    cases hf
    exact .erased rfl rfl
  case kethep | ketlus | sigpam | sigbar | sigcab | sigbuc | siggal | siggar | sigfas | sigzap =>
    obtain ⟨hint, value, rfl, hf⟩ := takeTwo_eq_ok.1 h
    cases hf
    exact .erased rfl rfl
  case sigwut =>
    obtain ⟨level, hint, value, rfl, hf⟩ := takeThree_eq_ok.1 h
    cases hf
    exact .erased rfl rfl
  case kettar =>
    obtain ⟨mold, rfl, hf⟩ := takeOne_eq_ok.1 h
    exact .kettar hf
  case kettis =>
    obtain ⟨tree, value, rfl, hf⟩ := takeTwo_eq_ok.1 h
    obtain ⟨name, hname, rfl⟩ := bind_pure_eq_ok.1 hf
    exact .kettis hname
  all_goals simp [expand] at h

/-! ## The steps of reduction -/

/-- Induction along `reduce`: the case of an application has the hypothesis for its arguments if the
rune is canonical, and otherwise for the tree that `expand` gives. -/
@[elab_as_elim] theorem reduction {motive : Node → Prop} (buc : ∀ span, motive (.buc span))
    (pat : ∀ span, motive (.pat span)) (dot : ∀ span, motive (.dot span))
    (face : ∀ name span, motive (.face name span))
    (num : ∀ digits span, motive (.num digits span))
    (faced : ∀ label value span, motive value → motive (.faced label value span))
    (cell : ∀ head tail span, motive head → motive tail → motive (.cell head tail span))
    (tisfas : ∀ name value body span, motive value → motive body →
      motive (.rune .tisfas [name, value, body] span))
    (odd : ∀ args span, args.length ≠ 3 → motive (.rune .tisfas args span))
    (canonical : ∀ r args span, r ≠ .tisfas → r.isCanonical = true →
      (∀ arg ∈ args, motive arg) → motive (.rune r args span))
    (short : ∀ r args span, r.isCanonical = false →
      (∀ node, expand r args span = .ok node → motive node) → motive (.rune r args span))
    (node : Node) : motive node := by
  refine reduce.induct motive (fun nodes => ∀ n ∈ nodes, motive n) faced cell
    (fun span name value body => tisfas name value body span) ?_ canonical ?_ ?_ ?_
    (fun _ absent => nomatch absent)
    (fun _ _ first others => List.forall_mem_cons.2 ⟨first, others⟩) node
  · intro args span hargs
    refine odd args span fun hlength => ?_
    obtain ⟨name, value, body, rfl⟩ := List.length_eq_three.1 hlength
    exact hargs name value body rfl
  · intro r args span _ hr expansion hexpand ih
    refine short r args span (by simpa using hr) fun node hnode => ?_
    rw [hexpand, Except.ok.injEq] at hnode
    exact hnode ▸ ih
  · intro r args span _ hr error hexpand
    refine short r args span (by simpa using hr) fun node hnode => ?_
    rw [hexpand] at hnode
    cases hnode
  · intro leaf hfaced hcell _ hrune
    cases leaf with
    | buc span => exact buc span
    | pat span => exact pat span
    | dot span => exact dot span
    | face name span => exact face name span
    | num digits span => exact num digits span
    | faced label value span => exact absurd rfl (hfaced label value span)
    | cell head tail span => exact absurd rfl (hcell head tail span)
    | rune r args span => exact absurd rfl (hrune r args span)

@[simp] lemma reduce_buc (span : Span) : reduce (.buc span) = .ok (.buc span) := by
  simp [reduce]

@[simp] lemma reduce_pat (span : Span) : reduce (.pat span) = .ok (.pat span) := by
  simp [reduce]

@[simp] lemma reduce_dot (span : Span) : reduce (.dot span) = .ok (.dot span) := by
  simp [reduce]

@[simp] lemma reduce_face (name : String) (span : Span) :
    reduce (.face name span) = .ok (.face name span) := by
  simp [reduce]

@[simp] lemma reduce_num (digits : String) (span : Span) :
    reduce (.num digits span) = .ok (.num digits span) := by
  simp [reduce]

lemma reduce_faced (label : String) (value : Node) (span : Span) :
    reduce (.faced label value span) = do
      let value ← reduce value
      return .faced label value span := by
  rw [reduce]

lemma reduce_cell (head tail : Node) (span : Span) :
    reduce (.cell head tail span) = do
      let head ← reduce head
      let tail ← reduce tail
      return .cell head tail span := by
  rw [reduce]

lemma reduce_tisfas (name value body : Node) (span : Span) :
    reduce (.rune .tisfas [name, value, body] span) = do
      let value ← reduce value
      let body ← reduce body
      return .rune .tisfas [boundName name, value, body] span := by
  rw [reduce]

lemma reduce_odd {args : List Node} (h : args.length ≠ 3) (span : Span) :
    reduce (.rune .tisfas args span) = .error (.reduce span (.arity .tisfas 3 args.length)) := by
  rw [reduce]
  rintro name value body rfl
  exact h rfl

lemma reduceAll_eq_mapM (nodes : List Node) : reduceAll nodes = nodes.mapM reduce := by
  induction nodes with
  | nil => simp [reduceAll, pure, Except.pure]
  | cons node nodes ih => rw [reduceAll, ih, List.mapM_cons]

lemma reduce_canonical {r : Rune} (hr : r ≠ .tisfas) (hc : r.isCanonical = true)
    (args : List Node) (span : Span) :
    reduce (.rune r args span) = do
      let args ← args.mapM reduce
      return .rune r args span := by
  rw [reduce, if_pos hc, reduceAll_eq_mapM]
  exact hr

lemma reduce_short {r : Rune} (hr : r.isCanonical = false) (args : List Node) (span : Span) :
    reduce (.rune r args span) = expand r args span >>= reduce := by
  rw [reduce, if_neg (by simp [hr])]
  · split
    · next h => rw [h]; rfl
    · next h => rw [h]; rfl
  · rintro rfl
    cases hr

/-- The loop `as.mapM f` succeeds with `bs` exactly if `f` succeeds on every element of `as` with
that of `bs`. -/
lemma mapM_eq_ok {ε α β : Type} {f : α → Except ε β} {as : List α} {bs : List β} :
    as.mapM f = .ok bs ↔ List.Forall₂ (fun a b => f a = .ok b) as bs := by
  induction as generalizing bs with
  | nil => simp [pure, Except.pure, eq_comm]
  | cons a as ih =>
      rw [List.mapM_cons, bind_eq_ok, List.forall₂_cons_left_iff]
      constructor
      · rintro ⟨b, hb, h⟩
        obtain ⟨cs, hcs, rfl⟩ := bind_pure_eq_ok.1 h
        exact ⟨b, cs, hb, ih.1 hcs, rfl⟩
      · rintro ⟨b, cs, hb, hcs, rfl⟩
        exact ⟨b, hb, bind_pure_eq_ok.2 ⟨cs, ih.2 hcs, rfl⟩⟩

/-- An element of the result of `mapM` is the result of an element of the list. -/
lemma exists_of_mem_mapM {ε α β : Type} {f : α → Except ε β} {as : List α} {bs : List β} {b : β}
    (h : as.mapM f = .ok bs) (hb : b ∈ bs) : ∃ a ∈ as, f a = .ok b := by
  induction mapM_eq_ok.1 h with
  | nil => cases hb
  | cons hfirst hothers ih =>
      rcases List.mem_cons.1 hb with rfl | hb
      · exact ⟨_, List.mem_cons_self, hfirst⟩
      · obtain ⟨a, ha, hf⟩ := ih (mapM_eq_ok.2 hothers) hb
        exact ⟨a, List.mem_cons_of_mem _ ha, hf⟩

/-- If `mapM` fails, then it does with the error of an element. -/
lemma exists_of_mapM_eq_error {ε α β : Type} {f : α → Except ε β} {as : List α} {e : ε}
    (h : as.mapM f = .error e) : ∃ a ∈ as, f a = .error e := by
  induction as with
  | nil => simp [pure, Except.pure] at h
  | cons a as ih =>
      rw [List.mapM_cons, bind_eq_error] at h
      rcases h with ha | ⟨b, -, h⟩
      · exact ⟨a, List.mem_cons_self, ha⟩
      · obtain ⟨c, hc, hfail⟩ := ih (bind_pure_eq_error.1 h)
        exact ⟨c, List.mem_cons_of_mem _ hc, hfail⟩

end Runic
