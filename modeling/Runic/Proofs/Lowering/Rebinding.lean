import Runic.Proofs.Lowering.Slots

/-!
# Rebinding at once

`=:(a x, b y body)` is short for bindings one after the other: every value is parked in a slot, then
every name is bound to what is in its slot.  Slots cannot be seen, so it is the same as lowering all
values under the subject that is there and then binding all names.

* `Rebinding` — a name and a value as `=:` takes them.
* `exists_of_reduce_tiscol` — what `=:` is reduced to.
* `lower_park`, `lower_unpark` — parking shows no value a new one, and unparking gives each name the
  last value that was parked for it.
* `lower_tiscol_at_once` — **so the names are rebound at once.**
-/

namespace Runic

open Ir

/-- A name, or a name with its mold, and a value: a pair of arguments of `=:`. -/
structure Rebinding where
  tree : Node
  value : Node
  name : Name
  named : expectFace .tiscol tree = .ok name

namespace Rebinding

def args (r : Rebinding) : List Node := [r.tree, r.value]

def face (r : Rebinding) : String := r.name.text

def binding (r : Rebinding) : Binding := ⟨r.name, r.value⟩

end Rebinding

/-- The subject with `faces` bound to `vs`, from left to right. -/
def Subject.bindAll (σ : Subject) (faces : List String) (vs : List Value) : Subject :=
  (faces.zip vs).foldl (fun σ b => σ.bind b.1 b.2) σ

/-- Lower `values` one after the other, all of them under the same subject, and then `body` under
the subject that has `faces` bound to them. -/
def Lowering.lowerAtOnce (faces : List String) (values : List Node) (body : Node) (σ : Subject)
    (site : Site) : Build (Option Value) := do
  let vs ← values.mapM fun value => operand value.span (lower value σ site)
  lower body (σ.bindAll faces vs) site

/-! ## Slots and subjects -/

lemma isReserved_parkingSlot (face : String) : isReserved (parkingSlot face) = true := by
  simp [isReserved, parkingSlot, anonymousSlot]

lemma parkingSlot_injective : Function.Injective parkingSlot := by
  intro a b h
  have hchars : (parkingSlot a).toList = (parkingSlot b).toList := congrArg String.toList h
  rw [parkingSlot, parkingSlot, String.toList_append, String.toList_append,
    List.append_cancel_left_eq] at hchars
  exact String.toList_inj.1 hchars

namespace Subject

variable {faces : List String} {face : String} {vs : List Value}

lemma get?_bindAll_of_not_mem (h : face ∉ faces) (σ : Subject) :
    (σ.bindAll faces vs).get? face = σ.get? face := by
  induction faces generalizing vs σ with
  | nil => rfl
  | cons first faces ih =>
      cases vs with
      | nil => rfl
      | cons v vs =>
          rw [List.mem_cons, not_or] at h
          refine (ih h.2 (σ.bind first v)).trans ?_
          rw [get?_bind, if_neg h.1]

/-- If the slots of `faces` and `faces` themselves are bound to the same values, then the slot of a
face has the value of the face. -/
lemma get?_bindAll_slots (hlength : vs.length = faces.length) (h : face ∈ faces) (σ τ : Subject) :
    ∃ v, (σ.bindAll (faces.map parkingSlot) vs).get? (parkingSlot face) = some v ∧
      (τ.bindAll faces vs).get? face = some v := by
  induction faces generalizing vs σ τ with
  | nil => cases h
  | cons first faces ih =>
      obtain ⟨v, vs, rfl⟩ := List.exists_cons_of_length_eq_add_one hlength
      by_cases hlater : face ∈ faces
      · exact ih (Nat.succ.inj hlength) hlater (σ.bind (parkingSlot first) v) (τ.bind first v)
      · obtain rfl := (List.mem_cons.1 h).resolve_right hlater
        have hslot : parkingSlot face ∉ faces.map parkingSlot := by
          rwa [List.mem_map_of_injective parkingSlot_injective]
        refine ⟨v, (get?_bindAll_of_not_mem hslot _).trans ?_,
          (get?_bindAll_of_not_mem hlater _).trans ?_⟩ <;> rw [get?_bind, if_pos rfl]

end Subject

/-! ## Reduction -/

section

variable {span : Span} {bs : List Binding} {inner body n : Node}

lemma reduce_park_eq_ok (h : reduce (park span bs inner) = .ok n) :
    ∃ cs inner', cs.map Binding.name = bs.map Binding.name ∧
      (bs.map Binding.value).mapM reduce = .ok (cs.map Binding.value) ∧
      reduce inner = .ok inner' ∧ n = park span cs inner' := by
  induction bs generalizing n with
  | nil => exact ⟨[], n, rfl, rfl, h, rfl⟩
  | cons b bs ih =>
      rw [park, List.foldr_cons, reduce_tisfas] at h
      obtain ⟨value, hvalue, h⟩ := bind_eq_ok.1 h
      obtain ⟨rest, hrest, rfl⟩ := bind_pure_eq_ok.1 h
      obtain ⟨cs, inner', hnames, hvalues, hinner, rfl⟩ := ih hrest
      refine ⟨⟨b.name, value⟩ :: cs, inner', by simp [hnames], ?_, hinner, rfl⟩
      exact mapM_eq_ok.2 (.cons hvalue (mapM_eq_ok.1 hvalues))

lemma reduce_unpark_eq_ok (h : reduce (unpark span bs body) = .ok n) :
    ∃ body', reduce body = .ok body' ∧ n = unpark span bs body' := by
  induction bs generalizing n with
  | nil => exact ⟨n, h, rfl⟩
  | cons b bs ih =>
      rw [unpark, List.foldr_cons, reduce_tisfas, Name.slot, reduce_face] at h
      obtain ⟨_, hslot, h⟩ := bind_eq_ok.1 h
      obtain ⟨rest, hrest, rfl⟩ := bind_pure_eq_ok.1 h
      obtain ⟨body', hbody, rfl⟩ := ih hrest
      cases hslot
      exact ⟨body', hbody, rfl⟩

/-- The tree `unpark span bs body` depends on the names of `bs` only. -/
lemma unpark_eq_of_names {cs : List Binding} (h : cs.map Binding.name = bs.map Binding.name) :
    unpark span bs body = unpark span cs body := by
  have hnames : ∀ ds : List Binding, unpark span ds body = (ds.map Binding.name).foldr
      (fun name inner => .rune .tisfas [name.node, name.slot, inner] span) body := by
    intro ds
    rw [List.foldr_map]
    rfl
  rw [hnames, hnames, h]

/-- Nodes in pairs of a name and a value, from which `bindings` were read, are those of a list of
`Rebinding`. -/
lemma exists_rebindings {nodes : List Node} (h : bindings .tiscol nodes = .ok bs)
    (heven : nodes.length % 2 = 0) :
    ∃ rs : List Rebinding, nodes = rs.flatMap Rebinding.args ∧ bs = rs.map Rebinding.binding := by
  fun_induction bindings .tiscol nodes generalizing bs with
  | case1 tree value rest ih =>
      obtain ⟨name, hname, h⟩ := bind_eq_ok.1 h
      obtain ⟨cs, hcs, rfl⟩ := bind_pure_eq_ok.1 h
      obtain ⟨rs, rfl, rfl⟩ := ih hcs (by simp only [List.length_cons] at heven; omega)
      exact ⟨⟨tree, value, name, hname⟩ :: rs, rfl, rfl⟩
  | case2 nodes hpairs =>
      cases h
      rcases nodes with _ | ⟨a, _ | ⟨b, rest⟩⟩
      · exact ⟨[], rfl, rfl⟩
      · simp at heven
      · exact absurd rfl (hpairs a b rest)

end

/-- What `=:` is short for. -/
lemma exists_of_expand_tiscol {args : List Node} {span : Span} {node : Node}
    (h : expand .tiscol args span = .ok node) :
    ∃ (rs : List Rebinding) (body : Node), args = rs.flatMap Rebinding.args ++ [body] ∧
      ((rs = [] ∧ node = body) ∨
        (∃ r, rs = [r] ∧ node = .rune .tisdot [r.name.node, r.value, body] span) ∨
        (2 ≤ rs.length ∧ node = park span (rs.map Rebinding.binding)
          (unpark span (rs.map Rebinding.binding) body))) := by
  simp only [expand, rebindMany] at h
  split at h
  · cases h
  · next body last =>
      obtain ⟨pairs, rfl⟩ := List.getLast?_eq_some_iff.1 last
      rw [List.dropLast_concat] at h
      split at h
      · cases h
      · next heven =>
          obtain ⟨bs, hbs, hshort⟩ := bind_eq_ok.1 h
          obtain ⟨rs, rfl, rfl⟩ := exists_rebindings hbs (not_not.1 heven)
          refine ⟨rs, body, rfl, ?_⟩
          rcases rs with _ | ⟨r, _ | ⟨r', rs⟩⟩ <;> cases hshort
          · exact .inl ⟨rfl, rfl⟩
          · exact .inr (.inl ⟨r, rfl, rfl⟩)
          · exact .inr (.inr ⟨by simp, rfl⟩)

/-- **What `=:` is reduced to**: its values and its body are reduced; one name is bound directly,
several are bound through their slots. -/
lemma exists_of_reduce_tiscol {args : List Node} {span : Span} {n : Node}
    (h : reduce (.rune .tiscol args span) = .ok n) :
    ∃ (rs : List Rebinding) (body : Node) (cs : List Binding) (body' : Node),
      args = rs.flatMap Rebinding.args ++ [body] ∧ cs.map Binding.name = rs.map Rebinding.name ∧
      (rs.map Rebinding.value).mapM reduce = .ok (cs.map Binding.value) ∧
      reduce body = .ok body' ∧
      ((cs = [] ∧ n = body') ∨
        (∃ c, cs = [c] ∧ n = .rune .tisfas [c.name.node, c.value, body'] span) ∨
        (2 ≤ cs.length ∧ n = park span cs (unpark span cs body'))) := by
  rw [reduce_short rfl] at h
  obtain ⟨node, hnode, h⟩ := bind_eq_ok.1 h
  obtain ⟨rs, body, rfl, hshort⟩ := exists_of_expand_tiscol hnode
  rcases hshort with ⟨rfl, rfl⟩ | ⟨r, rfl, rfl⟩ | ⟨hlength, rfl⟩
  · exact ⟨[], _, [], n, rfl, rfl, rfl, h, .inl ⟨rfl, rfl⟩⟩
  · rw [reduce_short rfl] at h
    obtain ⟨_, hbinding, h⟩ := bind_eq_ok.1 h
    cases hbinding
    rw [reduce_tisfas] at h
    obtain ⟨value, hvalue, h⟩ := bind_eq_ok.1 h
    obtain ⟨body', hbody, rfl⟩ := bind_pure_eq_ok.1 h
    exact ⟨[r], body, [⟨r.name, value⟩], body', rfl, rfl, mapM_eq_ok.2 (.cons hvalue .nil), hbody,
      .inr (.inl ⟨_, rfl, rfl⟩)⟩
  · obtain ⟨cs, inner, hnames, hvalues, hinner, rfl⟩ := reduce_park_eq_ok h
    obtain ⟨body', hbody, rfl⟩ := reduce_unpark_eq_ok hinner
    rw [unpark_eq_of_names hnames]
    rw [List.map_map] at hnames hvalues
    refine ⟨rs, body, cs, body', rfl, hnames, hvalues, hbody, .inr (.inr ⟨?_, rfl⟩)⟩
    have hsame : cs.length = rs.length := by simpa using congrArg List.length hnames
    rwa [hsame]

/-! ## Lowering -/

namespace Lowering

variable {visible : String → Prop} {σ τ ρ : Subject} {site : Site} {span : Span}
  {cs : List Binding} {body inner : Node}

/-- Subjects that agree on all visible faces see the same. -/
lemma Sees.of_agree (h : ∀ face, visible face → σ.get? face = τ.get? face) :
    Sees visible [] σ τ where
  agree face hface := h face (hface.resolve_right List.not_mem_nil)
  bound _ hface := absurd hface List.not_mem_nil

/-- Two sequences are equal from `m` if their first parts are alike, and what follows is equal on
the result of these. -/
lemma Alike.bind_eq {α β : Type} {x x' : Build α} {f f' : α → Build β} {m : Module}
    (hx : Alike visible x x') (hm : Shows visible m)
    (hf : ∀ a m', x' m = (.ok a, m') → Shows visible m' → f a m' = f' a m') :
    (x >>= f) m = (x' >>= f') m := by
  obtain ⟨heq, hmeets⟩ := hx m hm
  unfold Attempt.Meets at hmeets
  rw [Attempt.bind_apply, Attempt.bind_apply, heq]
  rw [heq] at hmeets
  cases hrun : x' m with
  | mk outcome m' =>
      rw [hrun] at hmeets
      cases outcome with
      | error e => rfl
      | ok a => exact hf a m' hrun hmeets

lemma lower_bound {name : Name} {value : Node} :
    lower (.rune .tisfas [name.node, value, body] span) σ site =
      operand value.span (lower value σ site) >>= fun v =>
        lower body (σ.bind name.text v) site := by
  rw [Name.node, lower]

lemma lower_parked {name : Name} {value : Node} :
    lower (.rune .tisfas [name.slot, value, body] span) σ site =
      operand value.span (lower value σ site) >>= fun v =>
        lower body (σ.bind (parkingSlot name.text) v) site := by
  rw [Name.slot, lower]

/-- A loop `mapM` has as many results as rounds. -/
lemma length_of_mapM {α β : Type} {f : α → Build β} {as : List α} :
    ∀ {bs : List β} {m m' : Module}, as.mapM f m = (.ok bs, m') → bs.length = as.length := by
  induction as with
  | nil =>
      intro bs m m' h
      simp only [List.mapM_nil, Attempt.pure_apply, Prod.mk.injEq, Except.ok.injEq] at h
      rw [← h.1, List.length_nil, List.length_nil]
  | cons a as ih =>
      intro bs m m' h
      simp only [List.mapM_cons, Attempt.bind_eq_ok, Attempt.pure_apply, Prod.mk.injEq,
        Except.ok.injEq] at h
      obtain ⟨b, m₁, -, bs, m₂, h, rfl, -⟩ := h
      rw [List.length_cons, List.length_cons, ih h]

/-- Under `unpark`, every name is bound to what is in its slot.  The body is lowered under a subject
in which the names stand for what `ρ` says of them, and all else is as it was. -/
lemma lower_unpark (hnames : ∀ c ∈ cs, isReserved c.name.text = false)
    (hslots : ∀ c ∈ cs, ∃ v, τ.get? (parkingSlot c.name.text) = some v ∧
      ρ.get? c.name.text = some v) :
    ∃ τ' : Subject, lower (unpark span cs body) τ site = lower body τ' site ∧
      ∀ face, τ'.get? face =
        if face ∈ cs.map (·.name.text) then ρ.get? face else τ.get? face := by
  induction cs generalizing τ with
  | nil => exact ⟨τ, rfl, fun face => rfl⟩
  | cons c cs ih =>
      rw [List.forall_mem_cons] at hnames hslots
      obtain ⟨⟨v, hslot, hname⟩, hslots⟩ := hslots
      have hkept : ∀ d ∈ cs, ∃ w, (τ.bind c.name.text v).get? (parkingSlot d.name.text) = some w ∧
          ρ.get? d.name.text = some w := by
        intro d hd
        have hne : parkingSlot d.name.text ≠ c.name.text := by
          intro heq
          have hreserved := isReserved_parkingSlot d.name.text
          rw [heq, hnames.1] at hreserved
          cases hreserved
        rw [Subject.get?_bind, if_neg hne]
        exact hslots d hd
      obtain ⟨τ', hlower, hget⟩ := ih hnames.2 hkept
      refine ⟨τ', ?_, fun face => ?_⟩
      · have hread : lower c.name.slot τ site = pure (some v) := by rw [Name.slot, lower, hslot]
        rw [unpark, List.foldr_cons, lower_bound, hread]
        exact hlower
      · rw [hget, Subject.get?_bind]
        by_cases hface : face = c.name.text
        · simp [hface, hname]
        · simp [hface]

section

variable (hvisible : ∀ face, isReserved face = false → visible face)
include hvisible

/-- **Values that are parked do not see each other**: lowering `park` lowers all of them under the
same subject. -/
lemma lower_park {m : Module} (hm : Shows visible m) (hvalues : ∀ c ∈ cs, Sealed [] c.value)
    (hslots : ∀ c ∈ cs, ¬ visible (parkingSlot c.name.text)) (hs : Sees visible [] τ σ) :
    lower (park span cs inner) τ site m =
      ((cs.map Binding.value).mapM (fun value => operand value.span (lower value σ site)) >>=
        fun vs => lower inner (τ.bindAll (cs.map (parkingSlot ·.name.text)) vs) site) m := by
  induction cs generalizing τ m with
  | nil => rfl
  | cons c cs ih =>
      rw [List.forall_mem_cons] at hvalues hslots
      rw [park, List.foldr_cons, lower_parked, List.map_cons, List.mapM_cons, bind_assoc]
      refine (alike_lower hvisible hvalues.1 hs site).operand.bind_eq hm fun v m' _ hm' => ?_
      rw [bind_assoc]
      refine ih hm' hvalues.2 hslots.2 (.of_agree fun face hface => ?_)
      have hne : face ≠ parkingSlot c.name.text := by
        rintro rfl
        exact hslots.1 hface
      rw [Subject.get?_bind, if_neg hne]
      exact hs.agree face (.inl hface)

/-- Values that are parked and fetched again by `unpark` are bound at once, as `lowerAtOnce`
does. -/
lemma lower_park_unpark {m : Module} (hm : Shows visible m)
    (hvalues : ∀ c ∈ cs, Sealed [] c.value)
    (hslots : ∀ c ∈ cs, ¬ visible (parkingSlot c.name.text))
    (hnames : ∀ c ∈ cs, isReserved c.name.text = false) (hbody : Sealed [] body) :
    lower (park span cs (unpark span cs body)) σ site m =
      lowerAtOnce (cs.map (·.name.text)) (cs.map Binding.value) body σ site m := by
  have hself : Sees visible [] σ σ := .of_agree fun _ _ => rfl
  have hoperands : Alike visible
      ((cs.map Binding.value).mapM fun value => operand value.span (lower value σ site))
      ((cs.map Binding.value).mapM fun value => operand value.span (lower value σ site)) := by
    refine .mapM fun value hvalue => ?_
    obtain ⟨c, hc, rfl⟩ := List.mem_map.1 hvalue
    exact (alike_lower hvisible (hvalues c hc) hself site).operand
  rw [lower_park hvisible hm hvalues hslots hself]
  refine hoperands.bind_eq hm fun vs m' hvs hm' => ?_
  have hlength : vs.length = (cs.map (·.name.text)).length := by
    simpa using length_of_mapM hvs
  have hparked : ∀ c ∈ cs, ∃ v,
      (σ.bindAll (cs.map (parkingSlot ·.name.text)) vs).get? (parkingSlot c.name.text) = some v ∧
        (σ.bindAll (cs.map (·.name.text)) vs).get? c.name.text = some v := by
    intro c hc
    have hslot := Subject.get?_bindAll_slots hlength (List.mem_map_of_mem hc) σ σ
    rwa [List.map_map] at hslot
  obtain ⟨τ, hlower, hget⟩ := lower_unpark hnames hparked
  rw [hlower]
  refine (alike_lower hvisible hbody (.of_agree fun face hface => ?_) site m' hm').1
  rw [hget]
  split
  · rfl
  · next hother =>
      have hslot : face ∉ cs.map (parkingSlot ·.name.text) := by
        rintro hmem
        obtain ⟨c, hc, rfl⟩ := List.mem_map.1 hmem
        exact hslots c hc hface
      rw [Subject.get?_bindAll_of_not_mem hslot, Subject.get?_bindAll_of_not_mem hother]

end

/-- A binding of one name needs no slot and is `lowerAtOnce`. -/
lemma lower_bound_one {name : Name} {value : Node} :
    lower (.rune .tisfas [name.node, value, body] span) σ site =
      lowerAtOnce [name.text] [value] body σ site := by
  rw [lower_bound, lowerAtOnce, List.mapM_cons, List.mapM_nil]
  simp only [bind_assoc, pure_bind]
  rfl

end Lowering

/-- **`=:` rebinds its names at once.** Its arguments are pairs of a name and a value, and a body.
In any state of a module, under any subject and at any place, its code is that of the values,
lowered from left to right under the subject itself, and of the body under the subject with the
names bound to them; it fails as they do and leaves the same module.  With two names or more, this
is only so if no function of the module has the slot of one of them as a parameter. -/
theorem lower_tiscol_at_once {args : List Node} {span : Span} {n : Node}
    (hlegible : ∀ arg ∈ args, arg.IsLegible) (hreduce : reduce (.rune .tiscol args span) = .ok n) :
    ∃ (rs : List Rebinding) (body : Node) (values : List Node) (body' : Node),
      args = rs.flatMap Rebinding.args ++ [body] ∧
      (rs.map Rebinding.value).mapM reduce = .ok values ∧ reduce body = .ok body' ∧
      ∀ (m : Module) (σ : Subject) (site : Site),
        (2 ≤ rs.length → ∀ r ∈ rs, ¬ m.HasParam (parkingSlot r.face)) →
          Lowering.lower n σ site m =
            Lowering.lowerAtOnce (rs.map Rebinding.face) values body' σ site m := by
  obtain ⟨rs, body, cs, body', rfl, hnames, hvalues, hbody, hshape⟩ :=
    exists_of_reduce_tiscol hreduce
  refine ⟨rs, body, cs.map Binding.value, body', rfl, hvalues, hbody, fun m σ site hparams => ?_⟩
  have hfaces : rs.map Rebinding.face = cs.map (·.name.text) := by
    have htexts := congrArg (List.map Name.text) hnames
    rw [List.map_map, List.map_map] at htexts
    exact htexts.symm
  have hlength : cs.length = rs.length := by simpa using congrArg List.length hnames
  rw [hfaces]
  rcases hshape with ⟨rfl, rfl⟩ | ⟨c, rfl, rfl⟩ | ⟨htwo, rfl⟩
  · rfl
  · exact congrFun Lowering.lower_bound_one m
  -- several names: neither their values nor the body see a slot
  · have hsealed : ∀ arg ∈ rs.flatMap Rebinding.args ++ [body], Sealed [] arg :=
      fun arg harg => sealed_of_isLegible (hlegible arg harg)
    rw [List.forall_mem_append, List.forall_mem_flatMap] at hsealed
    have hname : ∀ c ∈ cs, ∃ r ∈ rs, r.name = c.name := by
      intro c hc
      have hmem : c.name ∈ rs.map Rebinding.name := hnames ▸ List.mem_map_of_mem hc
      exact List.mem_map.1 hmem
    refine Lowering.lower_park_unpark (fun face hface => Or.inl hface)
      (fun face hface => Or.inr hface) (fun c hc => ?_) (fun c hc => ?_) (fun c hc => ?_)
      (sealed_of_reduce (hsealed.2 body (by simp)) hbody)
    · obtain ⟨value, hvalue, hreduced⟩ := exists_of_mem_mapM hvalues (List.mem_map_of_mem hc)
      obtain ⟨r, hr, rfl⟩ := List.mem_map.1 hvalue
      exact sealed_of_reduce (hsealed.1 r hr r.value (by simp [Rebinding.args])) hreduced
    · obtain ⟨r, hr, heq⟩ := hname c hc
      have hparam := hparams (hlength ▸ htwo) r hr
      rw [Rebinding.face, heq] at hparam
      rintro (hface | hface)
      · simp [isReserved_parkingSlot] at hface
      · exact hparam hface
    · obtain ⟨r, hr, heq⟩ := hname c hc
      rw [← heq]
      exact isReserved_of_expectFace r.named (hsealed.1 r hr r.tree (by simp [Rebinding.args]))

/-- The arguments of `=:(a b, b a %+(sub a b))`. -/
def swapArgs : List Node :=
  [.face "a" ⟨3, 4⟩, .face "b" ⟨5, 6⟩, .face "b" ⟨8, 9⟩, .face "a" ⟨10, 11⟩,
    .rune .cenlus [.face "sub" ⟨15, 18⟩, .face "a" ⟨19, 20⟩, .face "b" ⟨21, 22⟩] ⟨12, 23⟩]

theorem lower_tiscol_at_once_swap : ∃ (n : Node) (rs : List Rebinding) (body : Node)
    (values : List Node) (body' : Node),
    (∀ arg ∈ swapArgs, arg.IsLegible) ∧ reduce (.rune .tiscol swapArgs ⟨0, 24⟩) = .ok n ∧
      swapArgs = rs.flatMap Rebinding.args ++ [body] ∧
      Lowering.lower n namesSubject ⟨.int 8, 0, 0⟩ (.withEntry "main" (.int 8)) =
        Lowering.lowerAtOnce (rs.map Rebinding.face) values body' namesSubject ⟨.int 8, 0, 0⟩
          (.withEntry "main" (.int 8)) ∧
      ∃ v m, Lowering.lower n namesSubject ⟨.int 8, 0, 0⟩ (.withEntry "main" (.int 8)) =
        (.ok (some v), m) := by
  have hparse : parse "=:(a b, b a %+(sub a b))" = .ok (.rune .tiscol swapArgs ⟨0, 24⟩) :=
    eq_ok_of_toOption (by decide +kernel)
  have hlegible := (Node.isLegible_rune.1 (isLegible_of_parse hparse)).2
  have hrun : (reduce (.rune .tiscol swapArgs ⟨0, 24⟩)).toOption.any (fun n =>
      (Lowering.lower n namesSubject ⟨.int 8, 0, 0⟩ (.withEntry "main" (.int 8))).1.toOption.any
        Option.isSome) = true := by
    decide +kernel
  obtain ⟨n, hreduce, hrun⟩ := exists_of_any_toOption hrun
  obtain ⟨r, m, hlower, hsome⟩ := exists_of_any_outcome hrun
  obtain ⟨v, rfl⟩ := Option.isSome_iff_exists.1 hsome
  obtain ⟨rs, body, values, body', hargs, -, -, hlowered⟩ :=
    lower_tiscol_at_once hlegible hreduce
  refine ⟨n, rs, body, values, body', hlegible, hreduce, hargs, hlowered _ _ _ ?_, v, m, hlower⟩
  rintro - r - ⟨F, hF, p, hp, -⟩
  rw [List.mem_singleton.1 hF] at hp
  cases hp

/-- The pairs of `=:(x 1, y $() y)`. -/
def parkedPairs : List Rebinding :=
  [⟨.face "x" ⟨3, 4⟩, .num "1" ⟨5, 6⟩, ⟨"x", ⟨3, 4⟩⟩, rfl⟩,
    ⟨.face "y" ⟨8, 9⟩, .rune .centis [.buc ⟨10, 11⟩] ⟨10, 13⟩, ⟨"y", ⟨8, 9⟩⟩, rfl⟩]

/-- It is not true in every module: a call in a function that has a slot as its parameter reads the
value that is parked there. -/
theorem parked_parameter_visible :
    ¬ ∀ (rs : List Rebinding) (body : Node) (span : Span) (n tree : Node) (values : List Node)
      (body' : Node) (σ : Subject) (site : Site),
      (∀ arg ∈ rs.flatMap Rebinding.args ++ [body], arg.IsLegible) →
      reduce (.rune .tiscol (rs.flatMap Rebinding.args ++ [body]) span) = .ok n →
      (rs.map Rebinding.value).mapM reduce = .ok values → reduce body = .ok body' →
      Lowering.lower n σ site (Lowering.lower tree .empty site .empty).2 =
        Lowering.lowerAtOnce (rs.map Rebinding.face) values body' σ site
          (Lowering.lower tree .empty site .empty).2 := by
  intro hall
  have hparse : parse "=:(x 1, y $() y)" = .ok (.rune .tiscol
      (parkedPairs.flatMap Rebinding.args ++ [.face "y" ⟨14, 15⟩]) ⟨0, 16⟩) :=
    eq_ok_of_toOption (by decide +kernel)
  have hlegible := (Node.isLegible_rune.1 (isLegible_of_parse hparse)).2
  have hvalues : (parkedPairs.map Rebinding.value).mapM reduce =
      .ok (parkedPairs.map Rebinding.value) :=
    eq_ok_of_toOption (by decide +kernel)
  have hrun : (reduce (.rune .tiscol (parkedPairs.flatMap Rebinding.args ++
      [.face "y" ⟨14, 15⟩]) ⟨0, 16⟩)).toOption.any (fun n =>
        let site : Site := ⟨.int 32, 0, 0⟩
        let state := (Lowering.lower slotGate .empty site .empty).2
        decide ((Lowering.lower n .empty site state).1.toOption ≠ none ∧
          (Lowering.lowerAtOnce (parkedPairs.map Rebinding.face) (parkedPairs.map Rebinding.value)
            (.face "y" ⟨14, 15⟩) .empty site state).1.toOption = none)) = true := by
    decide +kernel
  obtain ⟨n, hreduce, hrun⟩ := exists_of_any_toOption hrun
  obtain ⟨hsome, hnone⟩ := of_decide_eq_true hrun
  refine hsome ?_
  rw [hall parkedPairs (.face "y" ⟨14, 15⟩) ⟨0, 16⟩ n slotGate _ _ .empty ⟨.int 32, 0, 0⟩ hlegible
    hreduce hvalues (reduce_face ..)]
  exact hnone

end Runic
