import Mathlib.Data.Fin.Tuple.Basic
import Mathlib.Data.List.Nodup
import Runic.Proofs.Lowering.Bare
import Runic.Proofs.Lowering.Rebinding
import Runic.Proofs.Text.ByteOrder

/-!
# Snapshots of the subject

Subjects are made from one another: a face is bound in any subject that is there, and what was there
stays.  They form a tree, and each of them has a path of bindings that leads to it.  What a subject
says and in which order it lists its faces depends on the last binding of each face on its path, and
on nothing else.

* `History` — subjects made one after the other, with their paths.
* `get?_snapshot` — **a face stands for what its last binding on the path says.**
* `Subject.ext_get?` — subjects that say the same are equal.
* `echoes_bindEach` — so bindings of different faces to leaves may be put in any order.
-/

namespace Runic

open Ir

/-! ## Subjects as maps -/

namespace Subject

variable {σ τ : Subject}

/-- Two subjects that give the same value for every face are equal, since their bindings are in
order. -/
lemma ext_get? (h : ∀ face, σ.get? face = τ.get? face) : σ = τ := by
  have hperm : σ.bindings.Perm τ.bindings := by
    refine (List.perm_ext_iff_of_nodup σ.nodup_faces.of_map τ.nodup_faces.of_map).2 ?_
    rintro ⟨face, v⟩
    rw [mem_bindings, mem_bindings, h]
  have hbindings : σ.bindings = τ.bindings := by
    refine hperm.eq_of_pairwise (fun a b _ _ hab hba => ?_) σ.ordered τ.ordered
    exact absurd (String.lt_trans hab hba) (String.lt_irrefl _)
  cases σ
  cases τ
  cases hbindings
  rfl

/-- Binding two different faces gives the same subject in either order. -/
lemma bind_comm {face other : String} (h : face ≠ other) (σ : Subject) (v w : Value) :
    (σ.bind face v).bind other w = (σ.bind other w).bind face v := by
  refine ext_get? fun asked => ?_
  simp only [get?_bind]
  by_cases hface : asked = face
  · subst hface
    simp [h]
  · simp [hface]

end Subject

/-! ## Paths -/

/-- The value of the last binding of `face` on a path. -/
def lastBound (path : List (String × Value)) (face : String) : Option Value :=
  path.reverse.lookup face

lemma lastBound_concat (path : List (String × Value)) (face other : String) (v : Value) :
    lastBound (path ++ [(face, v)]) other =
      if other = face then some v else lastBound path other := by
  rw [lastBound, List.reverse_append, List.reverse_singleton, List.singleton_append, lookup_cons_if]
  rfl

/-- Subjects made one after the other, beginning with the empty one.  Each step binds a face in one
of the `n + 1` subjects that are there. -/
inductive History : Nat → Type
  | start : History 0
  | bind {n : Nat} (earlier : History n) (base : Fin (n + 1)) (face : String) (value : Value) :
      History (n + 1)

namespace History

variable {n : Nat}

/-- The subjects of a history, in the order in which they were made. -/
def snapshot : {n : Nat} → History n → Fin (n + 1) → Subject
  | _, start => fun _ => .empty
  | _, bind earlier base face value =>
    Fin.snoc (α := fun _ => Subject) earlier.snapshot ((earlier.snapshot base).bind face value)

/-- The bindings on the path from the empty subject to each of them, the first one first. -/
def path : {n : Nat} → History n → Fin (n + 1) → List (String × Value)
  | _, start => fun _ => []
  | _, bind earlier base face value =>
    Fin.snoc (α := fun _ => List (String × Value)) earlier.path
      (earlier.path base ++ [(face, value)])

/-- **In every subject of a history, a face stands for what its last binding on the path says.** -/
lemma get?_snapshot (h : History n) (i : Fin (n + 1)) (face : String) :
    (h.snapshot i).get? face = lastBound (h.path i) face := by
  induction h with
  | start => rfl
  | bind earlier base bound v ih =>
      rw [snapshot, path]
      -- the subject that was just made, or one that was there before
      cases i using Fin.lastCases with
      | last => rw [Fin.snoc_last, Fin.snoc_last, Subject.get?_bind, ih, lastBound_concat]
      | cast i => rw [Fin.snoc_castSucc, Fin.snoc_castSucc, ih]

end History

/-! ## Listings -/

/-- The entries are the faces whose last binding on the path is to a wanted value, with that value,
in the order of the bytes of the faces. -/
structure Lists (path : List (String × Value)) (wanted : Value → Prop)
    (entries : List (String × Value)) : Prop where
  ordered : entries.Pairwise fun a b => a.1.toUTF8.data.toList < b.1.toUTF8.data.toList
  mem_iff : ∀ face v, (face, v) ∈ entries ↔ lastBound path face = some v ∧ wanted v

lemma lists_filter {σ : Subject} {path : List (String × Value)} {wanted : Value → Prop}
    (h : ∀ face, σ.get? face = lastBound path face) {keep : Value → Bool}
    (hkeep : ∀ v, keep v = true ↔ wanted v) :
    Lists path wanted (σ.bindings.filter fun b => keep b.2) where
  ordered := (σ.ordered.filter _).imp Utf8.utf8_lt_of_lt
  mem_iff face v := by rw [List.mem_filter, Subject.mem_bindings, h, hkeep]

/-! ## Leaves -/

namespace Node

/-- The tree has no parts but the values of labels. -/
def isLeaf : Node → Bool
  | buc _ | pat _ | dot _ | face _ _ | num _ _ => true
  | faced _ value _ => value.isLeaf
  | rune _ _ _ | cell _ _ _ => false

/-- The face that a leaf is, under its labels. -/
def leafFace? : Node → Option String
  | face name _ => some name
  | faced _ value _ => value.leafFace?
  | _ => none

end Node

namespace Lowering

/-- Lowering a leaf gives an operand or an error without building anything. -/
lemma exists_operand_leaf {value : Node} (h : value.isLeaf = true) (σ : Subject) (site : Site)
    (span : Span) : ∃ r, operand span (lower value σ site) = Attempt.ofExcept r := by
  induction value using Node.induction with
  | buc place => exact ⟨.ok (.func site.func), by rw [lower]; rfl⟩
  | pat place | dot place => exact ⟨.error _, by rw [lower]; rfl⟩
  | face name place =>
      rw [lower]
      cases σ.get? name with
      | none => exact ⟨.error _, rfl⟩
      | some v => exact ⟨.ok v, rfl⟩
  | num digits place =>
      rw [lower]
      cases numeral site.atom digits place with
      | error e => exact ⟨.error e, rfl⟩
      | ok v => exact ⟨.ok v, rfl⟩
  | faced label value place ih =>
      rw [lower]
      exact ih h
  | rune r args place => cases h
  | cell head tail place => cases h

/-- Lowering a leaf does not depend on faces that it does not mention. -/
lemma lower_leaf_bind {value : Node} {face : String} (h : value.isLeaf = true)
    (hface : value.leafFace? ≠ some face) (σ : Subject) (v : Value) (site : Site) :
    lower value (σ.bind face v) site = lower value σ site := by
  induction value using Node.induction with
  | buc place | pat place | dot place | num digits place => rw [lower, lower]
  | face name place =>
      have hne : name ≠ face := fun heq => hface (congrArg some heq)
      rw [lower, lower, Subject.get?_bind, if_neg hne]
  | faced label value place ih =>
      rw [lower, lower]
      exact ih h hface
  | rune r args place => cases h
  | cell head tail place => cases h

end Lowering

/-! ## Bindings in any order -/

/-- The tree that binds every name of `bs` to its value, the first name outermost, around `body`. -/
def bindEach (bs : List Binding) (body : Node) : Node :=
  bs.foldr (fun b inner => .rune .tisfas [b.name.node, b.value, inner] .nowhere) body

/-- The bindings have different names, and their values are leaves that mention none of these
names. -/
structure Unentangled (bs : List Binding) : Prop where
  distinct : (bs.map (·.name.text)).Nodup
  leaves : ∀ b ∈ bs, b.value.isLeaf = true
  apart : ∀ b ∈ bs, ∀ c ∈ bs, b.value.leafFace? ≠ some c.name.text

namespace Unentangled

variable {b : Binding} {bs cs : List Binding}

lemma of_cons (h : Unentangled (b :: bs)) : Unentangled bs where
  distinct := (List.nodup_cons.1 h.distinct).2
  leaves := (List.forall_mem_cons.1 h.leaves).2
  apart c hc d hd := h.apart c (List.mem_cons_of_mem b hc) d (List.mem_cons_of_mem b hd)

lemma perm (h : Unentangled bs) (hperm : bs.Perm cs) : Unentangled cs where
  distinct := (hperm.map _).nodup_iff.1 h.distinct
  leaves c hc := h.leaves c (hperm.mem_iff.2 hc)
  apart c hc d hd := h.apart c (hperm.mem_iff.2 hc) d (hperm.mem_iff.2 hd)

end Unentangled

namespace Lowering

variable {site : Site} {body : Node} {bs cs : List Binding}

lemma lower_bindEach_cons (b : Binding) (bs : List Binding) (body : Node) (σ : Subject) :
    lower (bindEach (b :: bs) body) σ site =
      operand b.value.span (lower b.value σ site) >>= fun v =>
        lower (bindEach bs body) (σ.bind b.name.text v) site :=
  lower_bound

/-- Two outcomes that need no state may be asked for in either order, up to which error comes
first. -/
lemma Echoes.swap {α β γ : Type} (r : Except Error α) (s : Except Error β)
    (f : α → β → Build γ) :
    Echoes (do let a ← Attempt.ofExcept r; let b ← Attempt.ofExcept s; f a b)
      (do let b ← Attempt.ofExcept s; let a ← Attempt.ofExcept r; f a b) := by
  cases r <;> cases s <;> exact fun m => ⟨rfl, rfl⟩

/-- Two unentangled bindings in front may be exchanged. -/
lemma echoes_bindEach_swap {b c : Binding} (h : Unentangled (b :: c :: bs)) (σ : Subject) :
    Echoes (lower (bindEach (b :: c :: bs) body) σ site)
      (lower (bindEach (c :: b :: bs) body) σ site) := by
  have hb : b ∈ b :: c :: bs := by simp
  have hc : c ∈ b :: c :: bs := by simp
  have hne : b.name.text ≠ c.name.text := by
    intro heq
    simpa [heq] using h.distinct
  obtain ⟨r, hr⟩ := exists_operand_leaf (h.leaves b hb) σ site b.value.span
  obtain ⟨s, hs⟩ := exists_operand_leaf (h.leaves c hc) σ site c.value.span
  simp only [lower_bindEach_cons, lower_leaf_bind (h.leaves c hc) (h.apart c hc b hb),
    lower_leaf_bind (h.leaves b hb) (h.apart b hb c hc), hr, hs, σ.bind_comm hne]
  exact Echoes.swap r s _

/-- **Unentangled bindings may be lowered in any order**: the results echo each other. -/
lemma echoes_bindEach (hperm : bs.Perm cs) (h : Unentangled bs) (σ : Subject) :
    Echoes (lower (bindEach bs body) σ site) (lower (bindEach cs body) σ site) := by
  induction hperm generalizing σ with
  | nil => exact .refl _
  | cons b _ ih =>
      rw [lower_bindEach_cons, lower_bindEach_cons]
      exact (Echoes.refl _).bind fun v => ih h.of_cons _
  | swap b c bs => exact echoes_bindEach_swap h σ
  | trans first _ ih ih' => exact (ih h σ).trans (ih' (h.perm first) σ)

end Lowering

/-! ## Canonical maps -/

/-- **Subjects are canonical maps.**  Of every subject that was made from the empty one, whatever
else was made before and after it: a face stands for what its last binding on the path says; the
faces of data and those of functions are listed in the order of their bytes, no face in both lists,
and the two lists have all that is bound; and it is equal to another exactly if the two say the same
of every face.  Hence a chain of bindings of different faces, to leaves that mention none of them,
may be put in any other order, wherever it stands: the code is the same, and so is the module of a
whole tree. -/
theorem snapshots_canonical {n : Nat} (h : History n) (i : Fin (n + 1)) :
    (∀ face, (h.snapshot i).get? face = lastBound (h.path i) face) ∧
      (Lists (h.path i) (·.func? = none) (h.snapshot i).dataFaces ∧
        Lists (h.path i) (·.func? ≠ none) (h.snapshot i).functionFaces ∧
        ∀ a ∈ (h.snapshot i).dataFaces, ∀ b ∈ (h.snapshot i).functionFaces, a.1 ≠ b.1) ∧
      (∀ (k : Nat) (h' : History k) (j : Fin (k + 1)), h.snapshot i = h'.snapshot j ↔
        ∀ face, (h.snapshot i).get? face = (h'.snapshot j).get? face) ∧
      ∀ (bs cs : List Binding) (body t u : Node), Unentangled bs → bs.Perm cs →
        t.bare = (bindEach bs body).bare → u.bare = (bindEach cs body).bare →
        (∀ σ site, Lowering.Echoes (Lowering.lower t σ site) (Lowering.lower u σ site)) ∧
          ∀ atom entry module, t.toModule atom entry = .ok module →
            u.toModule atom entry = .ok module := by
  have hdata : Lists (h.path i) (·.func? = none) (h.snapshot i).dataFaces :=
    lists_filter (h.get?_snapshot i) fun _ => Option.isNone_iff_eq_none
  have hfunctions : Lists (h.path i) (·.func? ≠ none) (h.snapshot i).functionFaces :=
    lists_filter (h.get?_snapshot i) fun _ => Option.isSome_iff_ne_none
  refine ⟨h.get?_snapshot i, ⟨hdata, hfunctions, ?_⟩, fun k h' j => ?_, ?_⟩
  · rintro ⟨face, v⟩ hv ⟨other, w⟩ hw rfl
    obtain ⟨hlast, hnone⟩ := (hdata.mem_iff face v).1 hv
    obtain ⟨hlast', hsome⟩ := (hfunctions.mem_iff face w).1 hw
    rw [hlast, Option.some.injEq] at hlast'
    exact hsome (hlast' ▸ hnone)
  · exact ⟨fun heq face => by rw [heq], Subject.ext_get?⟩
  · intro bs cs body t u hbs hperm ht hu
    have hechoes : ∀ σ site, Lowering.Echoes (Lowering.lower t σ site) (Lowering.lower u σ site) :=
      fun σ site => (Lowering.echoes_of_bare_eq ht σ site).trans
        ((Lowering.echoes_bindEach hperm hbs σ).trans
          (Lowering.echoes_of_bare_eq hu.symm σ site))
    refine ⟨hechoes, fun atom entry module hmodule => eq_ok_of_toOption ?_⟩
    rw [← Lowering.toOption_toModule_of_echoes hechoes, hmodule]
    rfl

/-- In the third subject a function takes the place of `a`; the fourth is made from the second,
where `a` is a number. -/
def branching : History 3 :=
  ((History.start.bind 0 "a" (.const (.int 32) 1)).bind 1 "a" (.func 0)).bind 1 "é" (.func 4)

/-- The bindings of the fourth subject of `branching`, in the other order. -/
def straight : History 2 :=
  (History.start.bind 0 "é" (.func 4)).bind 1 "a" (.const (.int 32) 1)

/-- `=/(b 2 =/(a 1 ..))`. -/
def twoNumbers : List Binding :=
  [⟨⟨"b", .nowhere⟩, .num "2" .nowhere⟩, ⟨⟨"a", .nowhere⟩, .num "1" .nowhere⟩]

/-- `|-(?:(=(a b) a $(a +(a))))`. -/
def countToB : Node :=
  let a := .face "a" .nowhere
  .rune .barhep [.rune .wutcol [.rune .dottis [a, .face "b" .nowhere] .nowhere, a,
    .rune .centis [.buc .nowhere, a, .rune .dotlus [a] .nowhere] .nowhere] .nowhere] .nowhere

lemma unentangled_twoNumbers : Unentangled twoNumbers where
  distinct := by decide
  leaves := by decide
  apart := by decide

theorem snapshots_canonical_branching :
    (("a", .func 0) ∈ (branching.snapshot 2).functionFaces ∧
      ("a", .const (.int 32) 1) ∈ (branching.snapshot 3).dataFaces ∧
      (branching.snapshot 3).get? "a" = some (.const (.int 32) 1)) ∧
      (branching.snapshot 3 = straight.snapshot 2 ∧
        ∀ face, (branching.snapshot 3).get? face = (straight.snapshot 2).get? face) ∧
      Unentangled twoNumbers ∧ ∃ t u module,
        (parse "=/(b 2 =/(a 1 |-(?:(=(a b) a $(a +(a))))))" >>= reduce) = .ok t ∧
        (parse "=/(a 1 =/(b 2 |-(?:(=(a b) a $(a +(a))))))" >>= reduce) = .ok u ∧
        t.bare = (bindEach twoNumbers countToB).bare ∧
        u.bare = (bindEach twoNumbers.reverse countToB).bare ∧
        t.toModule (.int 32) "main" = .ok module ∧ u.toModule (.int 32) "main" = .ok module := by
  have hrun : (parse "=/(b 2 =/(a 1 |-(?:(=(a b) a $(a +(a))))))" >>= reduce).toOption.any (fun t =>
      (parse "=/(a 1 =/(b 2 |-(?:(=(a b) a $(a +(a))))))" >>= reduce).toOption.any fun u =>
        decide (t.bare = (bindEach twoNumbers countToB).bare) &&
          decide (u.bare = (bindEach twoNumbers.reverse countToB).bare) &&
          (t.toModule (.int 32) "main").toOption.any fun _ => true) = true := by
    decide +kernel
  obtain ⟨t, ht, hrun⟩ := exists_of_any_toOption hrun
  obtain ⟨u, hu, hrun⟩ := exists_of_any_toOption hrun
  simp only [Bool.and_eq_true, decide_eq_true_eq] at hrun
  obtain ⟨⟨htree, hutree⟩, hmodule⟩ := hrun
  obtain ⟨module, hmodule, -⟩ := exists_of_any_toOption hmodule
  obtain ⟨-, ⟨-, hfunctions, -⟩, -, -⟩ := snapshots_canonical branching 2
  obtain ⟨hget, ⟨hdata, -, -⟩, hequal, hchain⟩ := snapshots_canonical branching 3
  have hsame : branching.snapshot 3 = straight.snapshot 2 := by decide +kernel
  refine ⟨⟨(hfunctions.mem_iff _ _).2 (by decide +kernel),
    (hdata.mem_iff _ _).2 (by decide +kernel), (hget "a").trans (by decide +kernel)⟩,
    ⟨hsame, (hequal 2 straight 2).1 hsame⟩,
    unentangled_twoNumbers, t, u, module, ht, hu, htree, hutree, hmodule, ?_⟩
  exact (hchain _ _ countToB t u unentangled_twoNumbers twoNumbers.reverse_perm.symm htree
    hutree).2 _ _ module hmodule

end Runic
