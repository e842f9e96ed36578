import Runic.Proofs.Canonical.Roles
import Runic.Proofs.Node.Grammar

/-!
# Trees with a hole

What stands in the hole of a tree can be exchanged for something else without a trace if the two are
the same in the role that the hole has.

* `Context` — a tree with a hole, `Context.role` the role of the hole in it.
* `as_plug` — **trees that are the same in the role of the hole can be exchanged there**.
* `reduce_plug_erased` — **so hints, casts and toggles are transparent**: they can be left out
  wherever an expression is due.
* `reduce_plug_label` — **and a label may be written as a rune**, except where it is looked at.
-/

namespace Runic

/-- A tree with one hole. -/
inductive Context where
  | hole
  | faced (label : String) (inner : Context) (span : Span)
  | left (inner : Context) (tail : Node) (span : Span)
  | right (head : Node) (inner : Context) (span : Span)
  | rune (rune : Rune) (before : List Node) (inner : Context) (after : List Node) (span : Span)
deriving Repr

namespace Role

/-- The role of the value under a label, if the labelled tree has the given role. -/
def inFaced : Role → Role
  | value | pin => value
  | mold => mold
  | kept => kept
  | name | binder | dropped => dropped
  | arm | refused => refused

/-- The role of a part of a cell or of an application, if the whole has the role `whole`:
`inExpression` if the whole is reduced, and `inMold` if its default value is taken. -/
def within (whole inExpression inMold : Role) : Role :=
  match whole with
  | value | pin => inExpression
  | mold => inMold
  | binder | kept => kept
  | dropped => dropped
  | name | arm | refused => refused

end Role

namespace Context

/-- The tree that a context is with `n` in its hole. -/
def plug : Context → Node → Node
  | hole, n => n
  | faced label inner span, n => .faced label (inner.plug n) span
  | left inner tail span, n => .cell (inner.plug n) tail span
  | right head inner span, n => .cell head (inner.plug n) span
  | rune r before inner after span, n => .rune r (before ++ inner.plug n :: after) span

/-- The roles of the hole, or of the part that has it, as an argument of each rune around it, the
outermost first. -/
def path : Context → List Role
  | hole => []
  | faced _ inner _ | left inner _ _ | right _ inner _ => inner.path
  | rune r before inner after _ =>
    r.role (before.length + (after.length + 1)) before.length :: inner.path

/-- The role of the hole, if the whole tree has the role `ρ`. -/
def role : Context → Role → Role
  | hole, ρ => ρ
  | faced _ inner _, ρ => inner.role ρ.inFaced
  | left inner _ _, ρ | right _ inner _, ρ => inner.role (ρ.within .value .mold)
  | rune r before inner after _, ρ =>
    inner.role (ρ.within (r.role (before.length + (after.length + 1)) before.length) .refused)

end Context

/-! ## Exchanging parts -/

namespace Likeness

variable {L : Likeness} {a b : Node} {span : Span} {ρ : Role}

lemma as_faced (label : String) (h : L.As ρ.inFaced a b) :
    L.As ρ (.faced label a span) (.faced label b span) := by
  have hplace := L.place_refl span
  cases ρ with
  | value => exact reduces_faced label hplace h
  | pin => exact .faced hplace h
  | name => exact fun r => .ok ⟨rfl, hplace⟩
  | binder => exact L.tree_refl _
  | mold => exact Agree.bind h fun _ _ hpins => .ok (.faced hplace hpins.reduces)
  | arm => exact fun r => .error (h span fun n => .notBucArm r (.faced label n span))
  | dropped => exact trivial
  | kept => exact L.faced label hplace h
  | refused => exact fun s f => h s fun n => f (.faced label n span)

/-- Whatever a part of a cell or of an application is, the whole is no name and no arm.  So if two
parts are the same in the role that `within` gives, then the wholes are the same in the role `ρ`. -/
lemma as_within (around : Node → Node) {inExpression inMold : Role}
    (h : L.As (ρ.within inExpression inMold) a b)
    (hname : ∀ r n, expectFace r (around n) = .error (.reduce span (.notFace r (around n))))
    (harm : ∀ r n, expectBucArm r (around n) = .error (.reduce span (.notBucArm r (around n))))
    (hbinder : ∀ n, boundName (around n) = around n) (hpin : ∀ n, (around n).isFaced = false)
    (hvalue : L.As inExpression a b → L.Reduces (around a) (around b))
    (hmold : L.As inMold a b → L.As .mold (around a) (around b))
    (hkept : L.tree a b → L.tree (around a) (around b)) :
    L.As ρ (around a) (around b) := by
  cases ρ with
  | value => exact hvalue h
  | pin => exact .plain (hpin a) (hpin b) (hvalue h)
  | name =>
      intro r
      rw [hname, hname]
      exact .error (h span fun n => .notFace r (around n))
  | binder =>
      rw [As, hbinder, hbinder]
      exact hkept h
  | mold => exact hmold h
  | arm =>
      intro r
      rw [harm, harm]
      exact .error (h span fun n => .notBucArm r (around n))
  | dropped => exact trivial
  | kept => exact hkept h
  | refused => exact fun s f => h s fun n => f (around n)

/-- Two cells are the same as molds if their parts are. -/
lemma as_mold_cell {c d : Node} (h : L.As .mold a b) (h' : L.As .mold c d) :
    L.As .mold (.cell a c span) (.cell b d span) := by
  refine Agree.bind h fun _ _ hhead => Agree.bind h' fun _ _ htail => .ok (.plain rfl rfl ?_)
  exact reduces_cell (L.place_refl span) hhead.reduces htail.reduces

lemma as_left (tail : Node) (h : L.As (ρ.within .value .mold) a b) :
    L.As ρ (.cell a tail span) (.cell b tail span) :=
  as_within (.cell · tail span) h (fun _ _ => rfl) (fun _ _ => rfl) (fun _ => rfl) (fun _ => rfl)
    (fun h => reduces_cell (L.place_refl span) h (.refl tail))
    (fun h => as_mold_cell h (.refl _ tail))
    (fun h => L.cell (L.place_refl span) h (L.tree_refl tail))

lemma as_right (head : Node) (h : L.As (ρ.within .value .mold) a b) :
    L.As ρ (.cell head a span) (.cell head b span) :=
  as_within (.cell head · span) h (fun _ _ => rfl) (fun _ _ => rfl) (fun _ => rfl) (fun _ => rfl)
    (fun h => reduces_cell (L.place_refl span) (.refl head) h)
    (fun h => as_mold_cell (.refl _ head) h)
    (fun h => L.cell (L.place_refl span) (L.tree_refl head) h)

/-- Two lists of arguments are the same if one argument is the same in its role and the others are
equal. -/
lemma Args.single {role : Nat → Role} {before after : List Node}
    (h : L.As (role before.length) a b) :
    L.Args role (before ++ a :: after) (before ++ b :: after) := by
  induction before generalizing role with
  | nil => exact .cons h (.refl after)
  | cons first before ih => exact .cons (.refl _ first) (ih h)

lemma as_rune (r : Rune) (before after : List Node)
    (h : L.As (ρ.within (r.role (before.length + (after.length + 1)) before.length) .refused) a b) :
    L.As ρ (.rune r (before ++ a :: after) span) (.rune r (before ++ b :: after) span) := by
  have hplace := L.place_refl span
  refine as_within (fun n => .rune r (before ++ n :: after) span) h (fun _ _ => rfl)
    (fun _ _ => rfl) (fun _ => rfl) (fun _ => rfl) (fun h => ?_) (fun h => ?_) (fun h => ?_)
  · refine reduces_rune hplace (.single ?_)
    rwa [List.length_append, List.length_cons]
  · exact .error (h span fun n => .noDefault (.rune r (before ++ n :: after) span))
  · refine L.rune r hplace (List.rel_append ?_ (.cons h ?_))
    · exact List.forall₂_same.2 fun n _ => L.tree_refl n
    · exact List.forall₂_same.2 fun n _ => L.tree_refl n

/-- **Two trees that are the same in the role of the hole can be exchanged there.** -/
theorem as_plug (C : Context) (h : L.As (C.role ρ) a b) : L.As ρ (C.plug a) (C.plug b) := by
  induction C generalizing ρ with
  | hole => exact h
  | faced label inner span ih => exact as_faced label (ih h)
  | left inner tail span ih => exact as_left tail (ih h)
  | right head inner span ih => exact as_right head (ih h)
  | rune r before inner after span ih => exact as_rune r before after (ih h)

end Likeness

/-! ## Erased runes -/

/-- For a rune that is erased by reduction, the number of hints in front of the argument that it
leaves. -/
def Rune.hints? : Rune → Option Nat
  | ketbar | ketpam | ketwut | ketsig | siglus | zapcol | zapdot => some 0
  | kethep | ketlus | sigpam | sigbar | sigcab | sigbuc | siggal | siggar | sigfas
  | sigzap => some 1
  | sigwut => some 2
  | _ => none

/-- An application of an erased rune has the canonical form of its last argument.  Its hints are not
reduced. -/
lemma reduce_erased {r : Rune} {hints : List Node} (h : r.hints? = some hints.length) (e : Node)
    (span : Span) : reduce (.rune r (hints ++ [e]) span) = reduce e := by
  have hexpand : expand r (hints ++ [e]) span = .ok e := by
    rcases hints with _ | ⟨first, _ | ⟨second, _ | ⟨third, rest⟩⟩⟩
    all_goals cases r <;> first | rfl | cases h
  have hcanonical : r.isCanonical = false := by
    cases r <;> first | rfl | cases h
  rw [reduce_short hcanonical, hexpand]
  rfl

/-- The likeness under which only equal outcomes count as the same. -/
def Likeness.exact : Likeness where
  place s t := s = t
  tree a b := a = b
  error e e' := e = e'
  place_refl _ := rfl
  tree_refl _ := rfl
  error_refl _ := rfl
  fault f h := by rw [h]
  face name h := by rw [h]
  faced label h h' := by rw [h, h']
  cell h h' h'' := by rw [h, h', h'']
  rune r h h' := by
    rw [List.forall₂_eq_eq_eq] at h'
    rw [h, h']

lemma Likeness.eq_of_agree {α : Type} {x y : Except Error α} (h : exact.Agree Eq x y) : x = y := by
  cases h with
  | ok related => exact congrArg _ related
  | error like => exact congrArg _ like

namespace Role

/-- A tree `e` in this role is passed on as it is.  A value to be pinned is passed on, unless it has
a label. -/
def passes (e : Node) : Role → Bool
  | value | dropped => true
  | pin => !e.isFaced
  | _ => false

variable {e : Node} {ρ inExpression inMold : Role}

lemma passes_inFaced (h : ρ.passes e = true) : ρ.inFaced.passes e = true := by
  cases ρ <;> first | rfl | cases h

lemma passes_within (h : ρ.passes e = true) (hinner : inExpression.passes e = true) :
    (ρ.within inExpression inMold).passes e = true := by
  cases ρ <;> first | exact hinner | rfl | cases h

end Role

/-- If `e` is passed on in all the roles on the way to the hole of `C`, then also in the role of the
hole. -/
lemma Context.passes_role {e : Node} {ρ : Role} (C : Context) (hρ : ρ.passes e = true)
    (hC : ∀ ρ ∈ C.path, ρ.passes e = true) : (C.role ρ).passes e = true := by
  induction C generalizing ρ with
  | hole => exact hρ
  | faced label inner span ih => exact ih (Role.passes_inFaced hρ) hC
  | left inner tail span ih => exact ih (Role.passes_within hρ rfl) hC
  | right head inner span ih => exact ih (Role.passes_within hρ rfl) hC
  | rune r before inner after span ih =>
      obtain ⟨hown, hinner⟩ := List.forall_mem_cons.1 hC
      exact ih (Role.passes_within hρ hown) hinner

/-- **Hints, casts and toggles are transparent**: a tree has the same canonical form, or the same
error, without them. -/
theorem reduce_plug_erased {r : Rune} {e : Node} (C : Context) (hints : List Node)
    (hr : r.hints? = some hints.length) (hC : ∀ ρ ∈ C.path, ρ.passes e = true) (span : Span) :
    reduce (C.plug (.rune r (hints ++ [e]) span)) = reduce (C.plug e) := by
  have hreduces : Likeness.exact.Reduces (.rune r (hints ++ [e]) span) e := by
    unfold Likeness.Reduces
    rw [reduce_erased hr]
    exact .refl (fun _ => rfl) _
  have hpasses := C.passes_role (ρ := .value) rfl hC
  have hplug : Likeness.exact.As (C.role .value) (.rune r (hints ++ [e]) span) e := by
    cases hrole : C.role .value with
    | value => exact hreduces
    -- a rune has no label to be bound under, so neither may the value have one
    | pin => exact .plain rfl (by simpa [hrole, Role.passes] using hpasses) hreduces
    | dropped => exact trivial
    | name | binder | mold | arm | kept | refused => simp [hrole, Role.passes] at hpasses
  exact Likeness.eq_of_agree (Likeness.as_plug C (ρ := .value) hplug)

/-- `=:(y 1, x =?(x =(x y) 2 [x □]) x)`.  The hole is there twice in the canonical form, each time
under other names. -/
def rebindingContext : Context :=
  let x := .face "x" .nowhere
  let y := .face "y" .nowhere
  let test := .rune .dottis [x, y] .nowhere
  .rune .tiscol [y, .num "1" .nowhere, x]
    (.rune .tiswut [x, test, .num "2" .nowhere] (.right x .hole .nowhere) [] .nowhere) [x] .nowhere

/-- The hints here have no canonical form and are erased all the same. -/
theorem reduce_plug_erased_rebinding :
    let crash := .rune .zapzap [] .nowhere
    let e := .faced "z" (.rune .collus [.face "x" .nowhere, .pat .nowhere, .buc .nowhere] .nowhere)
      .nowhere
    (reduce crash).toOption = none ∧ (reduce (rebindingContext.plug e)).toOption.isSome = true ∧
      reduce (rebindingContext.plug (.rune .sigwut [crash, crash, e] .nowhere)) =
        reduce (rebindingContext.plug e) :=
  ⟨by decide +kernel, by decide +kernel,
    reduce_plug_erased rebindingContext [_, _] rfl (by decide) .nowhere⟩

/-! ## Labels -/

/-- The likeness under which outcomes count as the same if they differ only in spans or in the
reason of a failure. -/
def Likeness.loose : Likeness where
  place _ _ := True
  tree a b := a.bare = b.bare
  error _ _ := True
  place_refl _ := trivial
  tree_refl _ := rfl
  error_refl _ := trivial
  fault _ _ := trivial
  face _ _ := rfl
  faced label _ h := by simp only [Node.bare, h]
  cell _ h h' := by simp only [Node.bare, h, h']
  rune r _ h := by
    have hargs : List.Forall₂ (· = ·) (List.map Node.bare _) (List.map Node.bare _) :=
      List.forall₂_map_left_iff.2 (List.forall₂_map_right_iff.2 h)
    rw [List.forall₂_eq_eq_eq] at hargs
    simp only [Node.bare, Node.bareAll_eq_map, hargs]

lemma Likeness.bare_eq_of_agree {x y : Except Error Node}
    (h : loose.Agree (fun a b => a.bare = b.bare) x y) :
    x.toOption.map Node.bare = y.toOption.map Node.bare := by
  cases h with
  | ok related => exact congrArg some related
  | error _ => rfl

/-- In this role a label is told from the rune `^=` that stands for it. -/
def Role.tells : Role → Bool
  | pin | name | binder | mold | kept => true
  | _ => false

/-- **A label may be written as the rune `^=`**, in every hole whose role does not tell the two
apart: the canonical form is the same up to spans, and there is none in the same cases. -/
theorem reduce_plug_label (C : Context) (hC : (C.role .value).tells = false) (label : String)
    (value : Node) (place span span' : Span) :
    (reduce (C.plug (.rune .kettis [.face label place, value] span))).toOption.map Node.bare =
      (reduce (C.plug (.faced label value span'))).toOption.map Node.bare := by
  have hreduces : Likeness.loose.Reduces (.rune .kettis [.face label place, value] span)
      (.faced label value span') := by
    unfold Likeness.Reduces
    rw [reduce_short rfl]
    exact Likeness.reduces_faced label trivial (.refl value)
  have hplug : Likeness.loose.As (C.role .value) (.rune .kettis [.face label place, value] span)
      (.faced label value span') := by
    cases hrole : C.role .value with
    | value => exact hreduces
    -- neither is `$`, and the two complaints count as the same
    | arm => exact fun r => .error trivial
    | dropped => exact trivial
    | refused => exact fun s f => trivial
    | pin | name | binder | mold | kept => simp [hrole, Role.tells] at hC
  exact Likeness.bare_eq_of_agree (Likeness.as_plug C (ρ := .value) hplug)

/-- A label that is written as a rune, in a simultaneous binding that repeats it. -/
theorem reduce_plug_label_rebinding :
    let value := .rune .collus [.face "x" .nowhere, .pat .nowhere, .buc .nowhere] .nowhere
    (reduce (rebindingContext.plug (.faced "z" value .nowhere))).toOption.isSome = true ∧
      (reduce (rebindingContext.plug
        (.rune .kettis [.face "z" .nowhere, value] .nowhere))).toOption.map Node.bare =
      (reduce (rebindingContext.plug (.faced "z" value .nowhere))).toOption.map Node.bare :=
  ⟨by decide +kernel, reduce_plug_label rebindingContext rfl "z" _ .nowhere .nowhere .nowhere⟩

/-- One tree for each role in which a label is looked at: `=.(□ 8 a)`, `=+(□ a)`, `=/(□ 8 a)`,
`=|(□ a)` and `=/([□ @] 8 a)`. -/
def tellingContexts : List Context :=
  let a := .face "a" .nowhere
  let eight := .num "8" .nowhere
  [.rune .tisdot [] .hole [eight, a] .nowhere, .rune .tislus [] .hole [a] .nowhere,
    .rune .tisfas [] .hole [eight, a] .nowhere, .rune .tisbar [] .hole [a] .nowhere,
    .rune .tisfas [] (.left .hole (.pat .nowhere) .nowhere) [eight, a] .nowhere]

/-- In none of these contexts, one for each role that `tells`, does the rune give what the label
gives. -/
theorem label_rune_told_apart :
    tellingContexts.all (fun C =>
      (reduce (C.plug
        (.rune .kettis [.face "a" .nowhere, .pat .nowhere] .nowhere))).toOption.map Node.bare ≠
      (reduce (C.plug (.faced "a" (.pat .nowhere) .nowhere))).toOption.map Node.bare) = true := by
  decide +kernel

end Runic
