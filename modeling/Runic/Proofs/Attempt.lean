import Runic.Attempt

/-!
# What an attempt guarantees

A program that may fail is specified by two conditions: one on its result and the state in which it
ends, and one on its error.  `Attempt.Meets` says that an attempt meets both from a given state, and
the rules below follow the program: `Meets.bind` for a sequence, `Meets.mapM` for a loop that keeps
an invariant of the state.

Two programs are compared through a map of their states: `Attempt.Tracks` says that one does to the
image of a state what the other does to the state, and its rules follow both programs.
-/

namespace Runic.Attempt

variable {σ ε α β : Type} {s : σ} {err : ε → Prop}

/-- From the state `s`, the attempt `x` succeeds with a result and a state of which `post` holds, or
fails with an error of which `err` holds. -/
def Meets (x : Attempt σ ε α) (s : σ) (err : ε → Prop) (post : α → σ → Prop) : Prop :=
  match x s with
  | (.ok a, t) => post a t
  | (.error e, _) => err e

namespace Meets

variable {x : Attempt σ ε α} {post post' : α → σ → Prop}

theorem pure {a : α} (h : post a s) : Meets (pure a : Attempt σ ε α) s err post := h

theorem fail {e : ε} (h : err e) : Meets (fail e : Attempt σ ε α) s err post := h

theorem ofExcept {r : Except ε α} (hok : ∀ a, r = .ok a → post a s)
    (herror : ∀ e, r = .error e → err e) : Meets (Attempt.ofExcept r) s err post := by
  cases r with
  | ok a => exact hok a rfl
  | error e => exact herror e rfl

theorem bind {f : α → Attempt σ ε β} {post : β → σ → Prop} {mid : α → σ → Prop}
    (hx : Meets x s err mid) (hf : ∀ a t, mid a t → Meets (f a) t err post) :
    Meets (x >>= f) s err post := by
  unfold Meets at hx ⊢
  rw [bind_apply]
  cases h : x s with
  | mk outcome t =>
      rw [h] at hx
      cases outcome with
      | ok a => exact hf a t hx
      | error e => exact hx

theorem imp (h : Meets x s err post) (himp : ∀ a t, post a t → post' a t) :
    Meets x s err post' := by
  unfold Meets at h ⊢
  split
  · next a t hx =>
      rw [hx] at h
      exact himp a t h
  · next e t hx =>
      rw [hx] at h
      exact h

theorem imp_error {err' : ε → Prop} (h : Meets x s err post) (himp : ∀ e, err e → err' e) :
    Meets x s err' post := by
  unfold Meets at h ⊢
  split
  · next a t hx =>
      rw [hx] at h
      exact h
  · next e t hx =>
      rw [hx] at h
      exact himp e h

/-- What is known in another way of the successes of `x` may be added as `post`, where `Meets` was
only about its errors. -/
theorem of_ok (h : Meets x s err fun _ _ => True) (hok : ∀ a t, x s = (.ok a, t) → post a t) :
    Meets x s err post := by
  unfold Meets at h ⊢
  split
  · next a t hx => exact hok a t hx
  · next e t hx =>
      rw [hx] at h
      exact h

/-- In `post` it may be used that the result and the state are those that `x` gives from `s`. -/
theorem and_eq (h : Meets x s err post) :
    Meets x s err fun a t => x s = (.ok a, t) ∧ post a t := by
  unfold Meets at h ⊢
  split
  · next a t hx =>
      rw [hx] at h
      exact ⟨hx, h⟩
  · next e t hx =>
      rw [hx] at h
      exact h

/-- An attempt that is known to succeed meets every `post` that holds of its result. -/
theorem of_eq_ok {a : α} {t : σ} (hx : x s = (.ok a, t)) (h : post a t) : Meets x s err post := by
  unfold Meets
  rw [hx]
  exact h

/-- An attempt that is known to fail meets every `err` that holds of its error. -/
theorem of_eq_error {e : ε} {t : σ} (hx : x s = (.error e, t)) (h : err e) :
    Meets x s err post := by
  unfold Meets
  rw [hx]
  exact h

theorem error {e : ε} {t : σ} (h : Meets x s err post) (hx : x s = (.error e, t)) : err e := by
  unfold Meets at h
  rwa [hx] at h

/-- The loop `as.mapM f` keeps an invariant of the state that every round `f a` keeps. -/
theorem mapM {f : α → Attempt σ ε β} {inv : σ → Prop} {as : List α}
    (hf : ∀ a ∈ as, ∀ s, inv s → Meets (f a) s err fun _ => inv) :
    ∀ {s : σ}, inv s → Meets (as.mapM f) s err fun _ => inv := by
  induction as with
  | nil =>
      intro s hs
      exact hs
  | cons a as ih =>
      intro s hs
      rw [List.mapM_cons]
      refine (hf a List.mem_cons_self s hs).bind fun b t ht => ?_
      refine (ih (fun c hc => hf c (List.mem_cons_of_mem _ hc)) ht).bind fun bs u hu => ?_
      exact .pure hu

end Meets

/-! ## Two attempts -/

variable {τ γ δ : Type} {excused : ε → Prop} {state : σ → τ}

/-- Simulation: `y` does to the image of a state what `x` does to the state, and the result of `y`
is the image of that of `x`.  Nothing is said where `x` fails with an error that is `excused`. -/
def Tracks (excused : ε → Prop) (state : σ → τ) (result : α → β) (x : Attempt σ ε α)
    (y : Attempt τ ε β) : Prop :=
  ∀ s, (∃ e, (x s).1 = .error e ∧ excused e) ∨
    y (state s) = ((x s).1.map result, state (x s).2)

namespace Tracks

variable {result : α → β} {result' : γ → δ}

theorem pure {a : α} {b : β} (h : result a = b) :
    Tracks excused state result (pure a) (pure b) :=
  fun _ => .inr (by rw [← h]; rfl)

theorem fail {e : ε} : Tracks excused state result (fail e) (fail e) := fun _ => .inr rfl

theorem ofExcept (r : Except ε α) :
    Tracks excused state id (Attempt.ofExcept r) (Attempt.ofExcept r) := by
  cases r with
  | ok a => exact .pure rfl
  | error e => exact .fail

theorem bind {x : Attempt σ ε α} {y : Attempt τ ε β} {f : α → Attempt σ ε γ}
    {g : β → Attempt τ ε δ} (hx : Tracks excused state result x y)
    (hf : ∀ a, Tracks excused state result' (f a) (g (result a))) :
    Tracks excused state result' (x >>= f) (y >>= g) := by
  intro s
  have hs := hx s
  rw [bind_apply, bind_apply]
  rcases hxs : x s with ⟨e | a, t⟩
  · rw [hxs] at hs
    rcases hs with ⟨e', he, hexcused⟩ | hy
    · cases he
      exact .inl ⟨e, rfl, hexcused⟩
    · rw [hy]
      exact .inr rfl
  · rw [hxs] at hs
    rcases hs with ⟨e', he, -⟩ | hy
    · cases he
    · rw [hy]
      exact hf a t

/-- The loops `as.mapM f` and `bs.mapM g` track each other if their rounds do and `bs` are the
images of `as`. -/
theorem mapM {item : α → β} {f : α → Attempt σ ε γ} {g : β → Attempt τ ε δ}
    {as : List α} {bs : List β} (hitems : as.map item = bs)
    (h : ∀ a, Tracks excused state result' (f a) (g (item a))) :
    Tracks excused state (List.map result') (as.mapM f) (bs.mapM g) := by
  subst hitems
  induction as with
  | nil => exact .pure rfl
  | cons a as ih =>
      rw [List.map_cons, List.mapM_cons, List.mapM_cons]
      exact (h a).bind fun c => ih.bind fun cs => .pure rfl

end Tracks

end Runic.Attempt

namespace Runic

/-! ## Without a state -/

/-- In `Except`, a sequence `x >>= f` fails exactly if `x` does, or if `x` succeeds and `f` fails on
its result. -/
theorem bind_eq_error {ε α β : Type} {x : Except ε α} {f : α → Except ε β} {e : ε} :
    (x >>= f) = .error e ↔ x = .error e ∨ ∃ a, x = .ok a ∧ f a = .error e := by
  cases x <;> simp [bind, Except.bind]

/-- In `Except`, a sequence that ends in `pure` fails exactly if its first part does. -/
theorem bind_pure_eq_error {ε α β : Type} {x : Except ε α} {f : α → β} {e : ε} :
    (do let a ← x; pure (f a)) = .error e ↔ x = .error e := by
  cases x <;> simp [bind, Except.bind, pure, Except.pure]

/-- If `p` holds of the value in `x.toOption`, then `x` is a success, and `p` holds of its value. -/
theorem exists_of_any_toOption {ε α : Type} {x : Except ε α} {p : α → Bool}
    (h : x.toOption.any p = true) : ∃ a, x = .ok a ∧ p a = true := by
  cases x with
  | error e => cases h
  | ok a => exact ⟨a, rfl, h⟩

/-- The same as `exists_of_any_toOption`, for an outcome with a state. -/
theorem exists_of_any_outcome {σ ε α : Type} {x : Except ε α × σ} {p : α → Bool}
    (h : x.1.toOption.any p = true) : ∃ a t, x = (.ok a, t) ∧ p a = true := by
  obtain ⟨a, ha, hp⟩ := exists_of_any_toOption h
  exact ⟨a, x.2, Prod.ext ha rfl, hp⟩

theorem eq_ok_of_toOption {ε α : Type} {x : Except ε α} {a : α} (h : x.toOption = some a) :
    x = .ok a := by
  cases x with
  | error e => cases h
  | ok b => exact congrArg Except.ok (Option.some.inj h)

theorem exists_of_toOption_eq_none {ε α : Type} {x : Except ε α} (h : x.toOption = none) :
    ∃ e, x = .error e := by
  cases x with
  | error e => exact ⟨e, rfl⟩
  | ok a => cases h

end Runic
