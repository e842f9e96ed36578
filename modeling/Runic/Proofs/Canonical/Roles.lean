import Runic.Proofs.Canonical.NormalForm

/-!
# What an argument is to its rune

A rune is expanded before its arguments are reduced, so it sees them as they were written.  But it
looks at few of them: most are passed on and reduced later.  `Rune.role` says what each argument is
to its rune, and `Likeness.As` when two trees are the same in a role.

* `Likeness` — which outcomes of reduction count as the same: equal ones, or those that differ in
  places and in the reason of a failure.
* `reduces_rune` — **reduction respects roles**: a rune with arguments that are the same in their
  roles is reduced to the same.
-/

namespace Runic

/-! ## Roles -/

/-- What an argument is to its rune: how `expand` and `reduce` look at it. -/
inductive Role where
  /-- An expression, which is reduced. -/
  | value
  /-- An expression whose label is the name that it is bound to. -/
  | pin
  /-- A name, which may have a mold. -/
  | name
  /-- The name of a binding, which is kept if it is none. -/
  | binder
  /-- A mold, which stands for its default value. -/
  | mold
  /-- The name of an arm. -/
  | arm
  /-- Nothing: it is never looked at. -/
  | dropped
  /-- A part of something that is kept as it is. -/
  | kept
  /-- A part of something that is refused: it only shows in the reason. -/
  | refused
deriving DecidableEq, Repr

/-- The role of the argument number `index` among `count` arguments of a rune. -/
def Rune.role (r : Rune) (count index : Nat) : Role :=
  match r, index with
  | .tisfas, 0 | .tismic, 0 => .binder
  | .tisdot, 0 | .tistar, 0 | .tiswut, 0 | .kettis, 0 => .name
  | .tiscol, _ => if index % 2 = 0 ∧ index + 2 < count then .name else .value
  | .tislus, 0 | .tishep, 1 => .pin
  | .tisbar, 0 | .kettar, 0 => .mold
  | .censig, 0 | .centar, 0 => .arm
  | .kethep, 0 | .ketlus, 0 | .sigpam, 0 | .sigbar, 0 | .sigcab, 0 | .sigbuc, 0 | .siggal, 0
  | .siggar, 0 | .sigfas, 0 | .sigzap, 0 | .sigwut, 0 | .sigwut, 1 => .dropped
  | _, _ => .value

/-! ## Likeness -/

/-- Which places, trees and errors count as the same.  Trees that are put together alike from parts
that count as the same count as the same too. -/
structure Likeness where
  place : Span → Span → Prop
  tree : Node → Node → Prop
  error : Error → Error → Prop
  place_refl : ∀ s, place s s
  tree_refl : ∀ n, tree n n
  error_refl : ∀ e, error e e
  fault : ∀ {s t} (f : ReduceFault), place s t → error (.reduce s f) (.reduce t f)
  face : ∀ {s t} (name : String), place s t → tree (.face name s) (.face name t)
  faced : ∀ {s t a b} (label : String), place s t → tree a b →
    tree (.faced label a s) (.faced label b t)
  cell : ∀ {s t a b c d}, place s t → tree a b → tree c d → tree (.cell a c s) (.cell b d t)
  rune : ∀ {s t as bs} (r : Rune), place s t → List.Forall₂ tree as bs →
    tree (.rune r as s) (.rune r bs t)

namespace Likeness

/-- Two outcomes agree: they are successes with results related by `R`, or failures with errors that
count as the same. -/
inductive Agree (L : Likeness) {α β : Type} (R : α → β → Prop) :
    Except Error α → Except Error β → Prop
  | ok {a b} (related : R a b) : Agree L R (.ok a) (.ok b)
  | error {e e'} (like : L.error e e') : Agree L R (.error e) (.error e')

/-- The canonical forms of two trees count as the same, or both trees fail alike. -/
def Reduces (L : Likeness) (a b : Node) : Prop := L.Agree L.tree (reduce a) (reduce b)

/-- Two names have the same text, at places that count as the same. -/
def Names (L : Likeness) (m n : Name) : Prop := m.text = n.text ∧ L.place m.place n.place

/-- Two trees are the same as values that are bound under their labels: they have the same label and
values that reduce alike, or no label and reduce alike. -/
inductive Pins (L : Likeness) : Node → Node → Prop
  | plain {a b} (left : a.isFaced = false) (right : b.isFaced = false) (value : L.Reduces a b) :
      Pins L a b
  | faced {label a b s t} (place : L.place s t) (value : L.Reduces a b) :
      Pins L (.faced label a s) (.faced label b t)

/-- Two trees are the same in a role: what `expand` and `reduce` make of a tree in this role
agrees. -/
def As (L : Likeness) : Role → Node → Node → Prop
  | .value, a, b => L.Reduces a b
  | .pin, a, b => L.Pins a b
  | .name, a, b => ∀ r, L.Agree L.Names (expectFace r a) (expectFace r b)
  | .binder, a, b => L.tree (boundName a) (boundName b)
  | .mold, a, b => L.Agree L.Pins (bunt a) (bunt b)
  | .arm, a, b => ∀ r, L.Agree (fun _ _ => True) (expectBucArm r a) (expectBucArm r b)
  | .dropped, _, _ => True
  | .kept, a, b => L.tree a b
  | .refused, a, b => ∀ (s : Span) (f : Node → ReduceFault),
      L.error (.reduce s (f a)) (.reduce s (f b))

/-- The trees of two lists are the same in their roles, which are given by the index. -/
inductive Args (L : Likeness) : (Nat → Role) → List Node → List Node → Prop
  | nil {role} : Args L role [] []
  | cons {role a b as bs} (first : L.As (role 0) a b)
      (others : Args L (fun index => role (index + 1)) as bs) : Args L role (a :: as) (b :: bs)

variable {L : Likeness} {s t : Span} {a b c d : Node} {as bs : List Node}

namespace Agree

variable {α β γ δ : Type} {R : α → β → Prop} {S : γ → δ → Prop}

lemma bind {x : Except Error α} {y : Except Error β} {f : α → Except Error γ}
    {g : β → Except Error δ} (h : L.Agree R x y) (hf : ∀ a b, R a b → L.Agree S (f a) (g b)) :
    L.Agree S (x >>= f) (y >>= g) := by
  cases h with
  | ok related => exact hf _ _ related
  | error like => exact .error like

lemma imp {R' : α → β → Prop} {x : Except Error α} {y : Except Error β} (h : L.Agree R x y)
    (himp : ∀ a b, R a b → R' a b) : L.Agree R' x y := by
  cases h with
  | ok related => exact .ok (himp _ _ related)
  | error like => exact .error like

lemma refl {R : α → α → Prop} (hR : ∀ a, R a a) (x : Except Error α) : L.Agree R x x := by
  cases x with
  | ok a => exact .ok (hR a)
  | error e => exact .error (L.error_refl e)

lemma mapM {f : α → Except Error γ} {g : β → Except Error δ} {as : List α} {bs : List β}
    (h : List.Forall₂ (fun a b => L.Agree S (f a) (g b)) as bs) :
    L.Agree (List.Forall₂ S) (as.mapM f) (bs.mapM g) := by
  induction h with
  | nil => exact .ok .nil
  | cons hfirst _ ih =>
      rw [List.mapM_cons, List.mapM_cons]
      exact hfirst.bind fun _ _ hr => ih.bind fun _ _ hrs => .ok (.cons hr hrs)

end Agree

lemma Reduces.refl (n : Node) : L.Reduces n n := Agree.refl L.tree_refl _

/-! ## Putting trees together -/

lemma reduces_face (name : String) (hs : L.place s t) :
    L.Reduces (.face name s) (.face name t) := by
  rw [Reduces, reduce_face, reduce_face]
  exact .ok (L.face name hs)

lemma reduces_faced (label : String) (hs : L.place s t) (h : L.Reduces a b) :
    L.Reduces (.faced label a s) (.faced label b t) := by
  rw [Reduces, reduce_faced, reduce_faced]
  exact h.bind fun _ _ hr => .ok (L.faced label hs hr)

lemma reduces_cell (hs : L.place s t) (h : L.Reduces a b) (h' : L.Reduces c d) :
    L.Reduces (.cell a c s) (.cell b d t) := by
  rw [Reduces, reduce_cell, reduce_cell]
  exact h.bind fun _ _ hr => h'.bind fun _ _ hr' => .ok (L.cell hs hr hr')

lemma reduces_tisfas {name name' : Node} (hs : L.place s t)
    (hname : L.tree (boundName name) (boundName name')) (h : L.Reduces a b) (h' : L.Reduces c d) :
    L.Reduces (.rune .tisfas [name, a, c] s) (.rune .tisfas [name', b, d] t) := by
  rw [Reduces, reduce_tisfas, reduce_tisfas]
  refine h.bind fun _ _ hr => h'.bind fun _ _ hr' => .ok (L.rune .tisfas hs ?_)
  exact .cons hname (.cons hr (.cons hr' .nil))

lemma reduces_canonical {r : Rune} (hr : r ≠ .tisfas) (hc : r.isCanonical = true)
    (hs : L.place s t) (h : List.Forall₂ L.Reduces as bs) :
    L.Reduces (.rune r as s) (.rune r bs t) := by
  rw [Reduces, reduce_canonical hr hc, reduce_canonical hr hc]
  exact (Agree.mapM h).bind fun _ _ hrs => .ok (L.rune r hs hrs)

lemma reduces_short {r : Rune} (hr : r.isCanonical = false)
    (h : L.Agree L.Reduces (expand r as s) (expand r bs t)) :
    L.Reduces (.rune r as s) (.rune r bs t) := by
  rw [Reduces, reduce_short hr, reduce_short hr]
  exact h.bind fun _ _ hr => hr

/-- Two trees that are the same as pins reduce alike. -/
lemma Pins.reduces (h : L.Pins a b) : L.Reduces a b := by
  cases h with
  | plain _ _ value => exact value
  | faced place value => exact reduces_faced _ place value

lemma reduces_pinned (hs : L.place s t) (h : L.Pins a b) (h' : L.Reduces c d) :
    L.Reduces (pinned a c s) (pinned b d t) := by
  cases h with
  | plain left right value =>
      have hslot : ∀ {n body : Node} {span : Span}, n.isFaced = false →
          pinned n body span = .rune .tisfas [anonymous span, n, body] span := by
        intro n body span hn
        cases n <;> first | rfl | cases hn
      rw [hslot left, hslot right]
      exact reduces_tisfas hs (L.face _ hs) value h'
  | faced place value => exact reduces_tisfas hs (L.face _ place) value h'

lemma reduces_nestCells (hs : L.place s t) (h : L.Reduces a b)
    (h' : List.Forall₂ L.Reduces as bs) : L.Reduces (nestCells s a as) (nestCells t b bs) := by
  induction h' generalizing a b with
  | nil => exact h
  | cons hfirst _ ih => exact reduces_cell hs h (ih hfirst)

/-! ## Pairs of `=:` -/

/-- Two bindings have the same name, and values that reduce alike. -/
def Binds (L : Likeness) (b c : Binding) : Prop := L.Names b.name c.name ∧ L.Reduces b.value c.value

variable {cs ds : List Binding}

lemma reduces_unpark (hs : L.place s t) (h : List.Forall₂ L.Binds cs ds) (h' : L.Reduces a b) :
    L.Reduces (unpark s cs a) (unpark t ds b) := by
  induction h with
  | nil => exact h'
  | cons hfirst _ ih =>
      obtain ⟨⟨htext, hplace⟩, -⟩ := hfirst
      simp only [unpark, List.foldr_cons, Name.node, Name.slot, htext] at ih ⊢
      exact reduces_tisfas hs (L.face _ hplace) (reduces_face _ hplace) ih

lemma reduces_park (hs : L.place s t) (h : List.Forall₂ L.Binds cs ds) (h' : L.Reduces a b) :
    L.Reduces (park s cs a) (park t ds b) := by
  induction h with
  | nil => exact h'
  | cons hfirst _ ih =>
      obtain ⟨⟨htext, hplace⟩, hvalue⟩ := hfirst
      simp only [park, List.foldr_cons, Name.slot, htext] at ih ⊢
      exact reduces_tisfas hs (L.face _ hplace) hvalue ih

/-! ## Arguments -/

lemma Pins.refl (n : Node) : L.Pins n n := by
  cases n with
  | faced label value span => exact .faced (L.place_refl span) (.refl value)
  | _ => exact .plain rfl rfl (.refl _)

lemma As.refl (ρ : Role) (n : Node) : L.As ρ n n := by
  cases ρ with
  | value => exact Reduces.refl n
  | pin => exact Pins.refl n
  | name => exact fun r => Agree.refl (fun name => ⟨rfl, L.place_refl _⟩) _
  | binder => exact L.tree_refl _
  | mold => exact Agree.refl Pins.refl _
  | arm => exact fun r => Agree.refl (fun _ => trivial) _
  | dropped => exact trivial
  | kept => exact L.tree_refl n
  | refused => exact fun _ _ => L.error_refl _

namespace Args

variable {role : Nat → Role}

lemma refl (as : List Node) : L.Args role as as := by
  induction as generalizing role with
  | nil => exact .nil
  | cons a as ih => exact .cons (As.refl _ a) ih

lemma length_eq (h : L.Args role as bs) : as.length = bs.length := by
  induction h with
  | nil => rfl
  | cons _ _ ih => rw [List.length_cons, List.length_cons, ih]

/-- If all roles are values, then the arguments of two lists reduce alike one by one. -/
lemma values (h : L.Args role as bs) (hrole : ∀ index, role index = .value) :
    List.Forall₂ L.Reduces as bs := by
  induction h with
  | nil => exact .nil
  | @cons role a b as bs first _ ih =>
      rw [hrole 0] at first
      exact .cons first (ih fun index => hrole (index + 1))

/-- If a list with a last argument is the same in its roles as another one, then that one has a last
argument too, and both parts are the same in their roles. -/
lemma exists_concat {a : Node} (h : L.Args role (as ++ [a]) bs) :
    ∃ bs' b, bs = bs' ++ [b] ∧ L.Args role as bs' ∧ L.As (role as.length) a b := by
  induction as generalizing role bs with
  | nil =>
      obtain _ | ⟨first, others⟩ := h
      cases others
      exact ⟨[], _, rfl, .nil, first⟩
  | cons c as ih =>
      obtain _ | ⟨first, others⟩ := h
      obtain ⟨bs', b, rfl, hbs, hlast⟩ := ih others
      exact ⟨_ :: bs', b, rfl, .cons first hbs, hlast⟩

end Args

/-! ## Expansions -/

section

variable {r : Rune} {role : Nat → Role} {R : Node → Node → Prop}

lemma agree_takeOne {f g : Node → Except Error Node} (hs : L.place s t) (h : L.Args role as bs)
    (hf : ∀ {a a'}, L.As (role 0) a a' → L.Agree R (f a) (g a')) :
    L.Agree R (takeOne r as s f) (takeOne r bs t g) := by
  have hlength := h.length_eq
  rcases h with _ | ⟨h₀, _ | ⟨h₁, h⟩⟩
  · exact .error (L.fault _ hs)
  · exact hf h₀
  · rw [takeOne, takeOne, hlength]
    · exact .error (L.fault _ hs)
    all_goals simp

lemma agree_takeTwo {f g : Node → Node → Except Error Node} (hs : L.place s t)
    (h : L.Args role as bs)
    (hf : ∀ {a a' b b'}, L.As (role 0) a a' → L.As (role 1) b b' → L.Agree R (f a b) (g a' b')) :
    L.Agree R (takeTwo r as s f) (takeTwo r bs t g) := by
  have hlength := h.length_eq
  rcases h with _ | ⟨h₀, _ | ⟨h₁, _ | ⟨h₂, h⟩⟩⟩
  · exact .error (L.fault _ hs)
  · exact .error (L.fault _ hs)
  · exact hf h₀ h₁
  · rw [takeTwo, takeTwo, hlength]
    · exact .error (L.fault _ hs)
    all_goals simp

lemma agree_takeThree {f g : Node → Node → Node → Except Error Node} (hs : L.place s t)
    (h : L.Args role as bs)
    (hf : ∀ {a a' b b' c c'}, L.As (role 0) a a' → L.As (role 1) b b' → L.As (role 2) c c' →
      L.Agree R (f a b c) (g a' b' c')) :
    L.Agree R (takeThree r as s f) (takeThree r bs t g) := by
  have hlength := h.length_eq
  rcases h with _ | ⟨h₀, _ | ⟨h₁, _ | ⟨h₂, _ | ⟨h₃, h⟩⟩⟩⟩
  · exact .error (L.fault _ hs)
  · exact .error (L.fault _ hs)
  · exact .error (L.fault _ hs)
  · exact hf h₀ h₁ h₂
  · rw [takeThree, takeThree, hlength]
    · exact .error (L.fault _ hs)
    all_goals simp

lemma agree_takeFour {f g : Node → Node → Node → Node → Except Error Node} (hs : L.place s t)
    (h : L.Args role as bs)
    (hf : ∀ {a a' b b' c c' d d'}, L.As (role 0) a a' → L.As (role 1) b b' →
      L.As (role 2) c c' → L.As (role 3) d d' → L.Agree R (f a b c d) (g a' b' c' d')) :
    L.Agree R (takeFour r as s f) (takeFour r bs t g) := by
  have hlength := h.length_eq
  rcases h with _ | ⟨h₀, _ | ⟨h₁, _ | ⟨h₂, _ | ⟨h₃, _ | ⟨h₄, h⟩⟩⟩⟩⟩
  · exact .error (L.fault _ hs)
  · exact .error (L.fault _ hs)
  · exact .error (L.fault _ hs)
  · exact .error (L.fault _ hs)
  · exact hf h₀ h₁ h₂ h₃
  · rw [takeFour, takeFour, hlength]
    · exact .error (L.fault _ hs)
    all_goals simp

end

/-- The expansion of `=|` pins the default value of its mold, which has the label of the mold. -/
lemma expand_tisbar (mold body : Node) (span : Span) : expand .tisbar [mold, body] span =
    bunt mold >>= fun value => .ok (pinned value body span) := by
  cases mold with
  | faced label value place => cases h : bunt value <;> simp [expand, takeTwo, bunt, h] <;> rfl
  | cell head tail place =>
      cases h : bunt head <;> cases h' : bunt tail <;> simp [expand, takeTwo, bunt, h, h'] <;> rfl
  | _ => rfl

/-- An application of `=.` to a name reduces as one of `=/` does. -/
lemma reduce_tisdot (name : Name) (value body : Node) (span : Span) :
    reduce (.rune .tisdot [name.node, value, body] span) =
      reduce (.rune .tisfas [name.node, value, body] span) := by
  rw [reduce_short rfl]
  rfl

lemma reduces_bound {m n : Name} (hs : L.place s t) (hname : L.Names m n) (h : L.Reduces a b)
    (h' : L.Reduces c d) :
    L.Reduces (.rune .tisfas [m.node, a, c] s) (.rune .tisfas [n.node, b, d] t) := by
  obtain ⟨htext, hplace⟩ := hname
  rw [Name.node, Name.node, htext]
  exact reduces_tisfas hs (L.face _ hplace) h h'

lemma reduces_rebound {m n : Name} (hs : L.place s t) (hname : L.Names m n) (h : L.Reduces a b)
    (h' : L.Reduces c d) :
    L.Reduces (.rune .tisdot [m.node, a, c] s) (.rune .tisdot [n.node, b, d] t) := by
  rw [Reduces, reduce_tisdot, reduce_tisdot]
  exact reduces_bound hs hname h h'

/-- Two lists of names and values in turn, with the same names and values that reduce alike, make
bindings that agree. -/
lemma agree_bindings {role : Nat → Role} (r : Rune) (h : L.Args role as bs)
    (hrole : ∀ index, index < as.length → role index = if index % 2 = 0 then .name else .value) :
    L.Agree (List.Forall₂ L.Binds) (bindings r as) (bindings r bs) := by
  fun_induction bindings r as generalizing role bs with
  | case1 name value rest ih =>
      obtain _ | ⟨hname, _ | ⟨hvalue, hrest⟩⟩ := h
      have hrole₀ : role 0 = .name := hrole 0 (by simp)
      have hrole₁ : role (0 + 1) = .value := hrole 1 (by simp)
      simp only [hrole₀] at hname
      simp only [hrole₁] at hvalue
      refine (hname r).bind fun m n hnames => ?_
      refine (ih hrest fun index hindex => ?_).bind fun _ _ hbinds => ?_
      · rw [← Nat.add_mod_right index 2]
        exact hrole (index + 2) (by simpa using hindex)
      · exact .ok (.cons ⟨hnames, hvalue⟩ hbinds)
  | case2 as hpairs =>
      have hlength := h.length_eq
      rcases as with _ | ⟨a, _ | ⟨b, rest⟩⟩
      · cases h
        exact .ok .nil
      · obtain _ | ⟨-, _ | _⟩ := h
        exact .ok .nil
      · exact absurd rfl (hpairs a b rest)

/-- `=:` binds the same names to the same values. -/
lemma agree_rebindMany (hs : L.place s t) (h : L.Args (Rune.role .tiscol as.length) as bs) :
    L.Agree L.Reduces (rebindMany as s) (rebindMany bs t) := by
  rcases List.eq_nil_or_concat as with rfl | ⟨pairs, body, rfl⟩
  · cases h
    exact .error (L.fault _ hs)
  rw [List.concat_eq_append] at h ⊢
  obtain ⟨pairs', body', rfl, hpairs, hbody⟩ := h.exists_concat
  have hlength := hpairs.length_eq
  have hlast : Rune.role .tiscol (pairs ++ [body]).length pairs.length = .value := by
    simp [Rune.role]
  rw [hlast] at hbody
  simp only [rebindMany, List.getLast?_concat, List.dropLast_concat, ← hlength]
  split
  · exact .error (L.fault _ hs)
  · next heven =>
      have hroles : ∀ index, index < pairs.length →
          Rune.role .tiscol (pairs ++ [body]).length index =
            if index % 2 = 0 then .name else .value := by
        intro index hindex
        simp only [Rune.role, List.length_append, List.length_singleton]
        split <;> split <;> first | rfl | omega
      refine (agree_bindings .tiscol hpairs hroles).bind fun cs ds hbinds => ?_
      obtain _ | ⟨⟨hname, hvalue⟩, _ | ⟨hsecond, hothers⟩⟩ := hbinds
      · exact .ok hbody
      · exact .ok (reduces_rebound hs hname hvalue hbody)
      · exact .ok (reduces_park hs (.cons ⟨hname, hvalue⟩ (.cons hsecond hothers))
          (reduces_unpark hs (.cons ⟨hname, hvalue⟩ (.cons hsecond hothers)) hbody))

/-- Every argument of a canonical rune other than `=/` has the role of a value. -/
lemma role_canonical {r : Rune} (hr : r ≠ .tisfas) (hc : r.isCanonical = true)
    (count index : Nat) : r.role count index = .value := by
  cases r <;> first | exact absurd rfl hr | rfl | cases hc

/-- **The function `expand` looks at its arguments only in their roles**: on arguments that are the
same in their roles it gives trees that reduce alike, or fails alike. -/
theorem agree_expand {r : Rune} (hs : L.place s t) (h : L.Args (r.role as.length) as bs) :
    L.Agree L.Reduces (expand r as s) (expand r bs t) := by
  have hlength := h.length_eq
  have hvalues : (∀ index, r.role as.length index = .value) → List.Forall₂ L.Reduces as bs :=
    h.values
  cases r
  -- the subject
  case tislus => exact agree_takeTwo hs h fun hpin hbody => .ok (reduces_pinned hs hpin hbody)
  case tishep =>
    refine agree_takeTwo hs h fun hbody hpin => .ok ?_
    exact reduces_short rfl (.ok (reduces_pinned hs hpin hbody))
  case tismic =>
    refine agree_takeThree hs h fun hname hbody hvalue => .ok ?_
    exact reduces_tisfas hs hname hvalue hbody
  case tisbar =>
    refine agree_takeTwo hs h fun {mold mold' body body'} hmold hbody => ?_
    have hagree : L.Agree L.Reduces (expand .tisbar [mold, body] s)
        (expand .tisbar [mold', body'] t) := by
      rw [expand_tisbar, expand_tisbar]
      exact hmold.bind fun _ _ hpins => .ok (reduces_pinned hs hpins hbody)
    exact hagree
  case tisdot | tistar =>
    refine agree_takeThree hs h fun hname hvalue hbody => ?_
    exact (hname _).bind fun _ _ hnames => .ok (reduces_bound hs hnames hvalue hbody)
  case tiscol => exact agree_rebindMany hs h
  case tiswut =>
    refine agree_takeFour hs h fun hname htest hvalue hbody => ?_
    refine (hname _).bind fun _ _ hnames => .ok (reduces_canonical (by simp) rfl hs ?_)
    exact .cons htest (.cons (reduces_rebound hs hnames hvalue hbody) (.cons hbody .nil))
  -- conditionals, gates and traps
  case wutdot =>
    refine agree_takeThree hs h fun htest hno hyes => .ok (reduces_canonical (by simp) rfl hs ?_)
    exact .cons htest (.cons hyes (.cons hno .nil))
  case bartar =>
    refine agree_takeTwo hs h fun hsample hbody => .ok (reduces_canonical (by simp) rfl hs ?_)
    exact .cons hsample (.cons hbody .nil)
  case barsig =>
    refine agree_takeTwo hs h fun hsample hbody => .ok (reduces_short rfl (.ok ?_))
    exact reduces_canonical (by simp) rfl hs (.cons hsample (.cons hbody .nil))
  case barket =>
    simp only [expand, hlength]
    split
    · exact .error (L.fault _ hs)
    · exact .ok (reduces_canonical (by simp) rfl hs (hvalues fun _ => rfl))
  -- calls
  case cenlus | cenket | cencol | cencab =>
    exact .ok (reduces_canonical (by simp) rfl hs (hvalues fun _ => rfl))
  case cendot =>
    refine agree_takeTwo hs h fun hsample hgate => .ok (reduces_canonical (by simp) rfl hs ?_)
    exact .cons hgate (.cons hsample .nil)
  case censig =>
    refine agree_takeThree hs h fun harm hdoor hsample => ?_
    refine (harm _).bind fun _ _ _ => .ok (reduces_canonical (by simp) rfl hs ?_)
    exact .cons hdoor (.cons hsample .nil)
  case centar =>
    obtain _ | ⟨harm, _ | ⟨hdoor, hpairs⟩⟩ := h
    · exact .error (L.fault _ hs)
    · exact .error (L.fault _ hs)
    · refine (harm _).bind fun _ _ _ => .ok (reduces_tisfas hs (L.face _ hs) hdoor ?_)
      refine reduces_canonical (by simp) rfl hs (.cons ?_ (hpairs.values fun _ => rfl))
      exact reduces_face _ hs
  -- cells
  case colhep | collus | colket | coltar =>
    obtain _ | ⟨hfirst, hothers⟩ := hvalues fun _ => rfl
    · exact .error (L.fault _ hs)
    · exact .ok (reduces_nestCells hs hfirst hothers)
  case colcab =>
    refine agree_takeTwo hs h fun htail hhead => .ok (reduces_short rfl (.ok ?_))
    exact reduces_cell hs hhead htail
  -- casts, hints and toggles
  case ketbar | ketpam | ketwut | ketsig | siglus | zapcol | zapdot =>
    exact agree_takeOne hs h .ok
  case kethep | ketlus | sigpam | sigbar | sigcab | sigbuc | siggal | siggar | sigfas | sigzap =>
    exact agree_takeTwo hs h fun _ hvalue => .ok hvalue
  case sigwut => exact agree_takeThree hs h fun _ _ hvalue => .ok hvalue
  case kettar => exact agree_takeOne hs h fun hmold => hmold.imp fun _ _ => Pins.reduces
  case kettis =>
    refine agree_takeTwo hs h fun hname hvalue => (hname _).bind fun m n hnames => ?_
    obtain ⟨htext, -⟩ := hnames
    rw [htext]
    exact .ok (reduces_faced _ hs hvalue)
  all_goals exact .error (L.fault _ hs)

/-- **Reduction respects roles**: two applications of one rune to arguments that are the same in
their roles have canonical forms that count as the same, or fail alike. -/
theorem reduces_rune {r : Rune} (hs : L.place s t) (h : L.Args (r.role as.length) as bs) :
    L.Reduces (.rune r as s) (.rune r bs t) := by
  have hlength := h.length_eq
  by_cases hr : r = .tisfas
  · subst hr
    by_cases hthree : as.length = 3
    · rcases h with _ | ⟨hname, _ | ⟨hvalue, _ | ⟨hbody, _ | ⟨hother, h⟩⟩⟩⟩
      case cons.cons.cons.nil => exact reduces_tisfas hs hname hvalue hbody
      all_goals simp at hthree
    · rw [Reduces, reduce_odd hthree, reduce_odd (hlength ▸ hthree), hlength]
      exact .error (L.fault _ hs)
  · cases hc : r.isCanonical with
    | false => exact reduces_short hc (agree_expand hs h)
    | true => exact reduces_canonical hr hc hs (h.values (role_canonical hr hc _))

end Likeness

end Runic
