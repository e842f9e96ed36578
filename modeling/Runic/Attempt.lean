/-!
# Attempts

An attempt works on a state and may fail.  Its state outlives the failure: whatever was done
before it stays done, and whoever made the attempt can go on from there.  Reading tokens and
building code are both of this kind.

`Attempt.bind_apply` opens a sequence of two attempts; `Attempt.bind_eq_ok` says what must have
happened for a sequence to succeed.
-/

namespace Runic

/-- A computation on a state `σ` that gives an `α` or fails with an `ε`. -/
def Attempt (σ ε α : Type) : Type := σ → Except ε α × σ

namespace Attempt

variable {σ ε α β : Type}

instance : Monad (Attempt σ ε) where
  pure a := fun s => (.ok a, s)
  bind x f := fun s =>
    match x s with
    | (.ok a, s) => f a s
    | (.error e, s) => (.error e, s)

/-- Give up with the error `e`; the state stays as it was when `fail` was reached. -/
def fail (e : ε) : Attempt σ ε α := fun s => (.error e, s)

/-- Return the state. -/
def get : Attempt σ ε σ := fun s => (.ok s, s)

/-- Apply `f` to the state. -/
def modify (f : σ → σ) : Attempt σ ε Unit := fun s => (.ok (), f s)

/-- Run an `Except`, which cannot see the state; the state stays as it is. -/
def ofExcept : Except ε α → Attempt σ ε α
  | .ok a => pure a
  | .error e => fail e

@[simp] theorem pure_apply (a : α) (s : σ) : (pure a : Attempt σ ε α) s = (.ok a, s) := rfl

@[simp] theorem fail_apply (e : ε) (s : σ) : (fail e : Attempt σ ε α) s = (.error e, s) := rfl

@[simp] theorem get_apply (s : σ) : (get : Attempt σ ε σ) s = (.ok s, s) := rfl

@[simp] theorem modify_apply (f : σ → σ) (s : σ) :
    (modify f : Attempt σ ε Unit) s = (.ok (), f s) := rfl

theorem bind_apply (x : Attempt σ ε α) (f : α → Attempt σ ε β) (s : σ) :
    (x >>= f) s =
      match x s with
      | (.ok a, s) => f a s
      | (.error e, s) => (.error e, s) := rfl

/-- A sequence `x >>= f` succeeds in `s` exactly if `x` succeeds in `s` with some `a` and state `u`,
and `f a` succeeds in `u`. -/
theorem bind_eq_ok {x : Attempt σ ε α} {f : α → Attempt σ ε β} {s t : σ} {b : β} :
    (x >>= f) s = (.ok b, t) ↔ ∃ a u, x s = (.ok a, u) ∧ f a u = (.ok b, t) := by
  rw [bind_apply]
  constructor
  · intro h
    split at h
    · next a u hx => exact ⟨a, u, hx, h⟩
    · simp at h
  · rintro ⟨a, u, hx, hf⟩
    simp [hx, hf]

/-- A sequence `x >>= f` fails exactly if `x` fails, or if `x` succeeds with some `a` and `f a`
fails in the state that `x` left. -/
theorem bind_eq_error {x : Attempt σ ε α} {f : α → Attempt σ ε β} {s t : σ} {e : ε} :
    (x >>= f) s = (.error e, t) ↔
      x s = (.error e, t) ∨ ∃ a u, x s = (.ok a, u) ∧ f a u = (.error e, t) := by
  rw [bind_apply]
  constructor
  · intro h
    split at h
    · next a u hx => exact .inr ⟨a, u, hx, h⟩
    · next e' u hx => exact .inl (by rw [hx]; simpa using h)
  · rintro (hx | ⟨a, u, hx, hf⟩)
    · simp [hx]
    · simp [hx, hf]

instance : LawfulMonad (Attempt σ ε) := LawfulMonad.mk' _
  (fun x => funext fun s => by
    change (match x s with | (.ok a, s) => (.ok (id a), s) | (.error e, s) => (.error e, s)) = x s
    split <;> simp_all)
  (fun _ _ => rfl)
  (fun x f g => funext fun s => by
    simp only [bind_apply]
    cases x s with
    | mk outcome state => cases outcome <;> rfl)

end Attempt

/-! ## Without a state -/

/-- The same for `Except`: a sequence `x >>= f` is `.ok b` exactly if `x` is `.ok a` and `f a` is
`.ok b`. -/
theorem bind_eq_ok {ε α β : Type} {x : Except ε α} {f : α → Except ε β} {b : β} :
    (x >>= f) = .ok b ↔ ∃ a, x = .ok a ∧ f a = .ok b := by
  cases x <;> simp [bind, Except.bind]

/-- A sequence that ends in `pure (f a)` is `.ok b` exactly if `x` is `.ok a` with `f a = b`. -/
theorem bind_pure_eq_ok {ε α β : Type} {x : Except ε α} {f : α → β} {b : β} :
    (do let a ← x; pure (f a)) = .ok b ↔ ∃ a, x = .ok a ∧ f a = b := by
  cases x <;> simp [bind, Except.bind, pure, Except.pure]

end Runic
