import Runic.Proofs.Node.Grammar

/-!
# What can stand beside what

Some symbols never stand next to each other in an expression.  That is said by a finite reader,
which remembers only what it saw last (`Seen`) and refuses a symbol that cannot follow
(`Seen.allows`).

* `Expr.passes` — **the reader gets through every expression**, and does not end on a separator.

It refuses a single space behind `(`, a `(` behind a rune with arms, a rune or `==` behind a name,
the second `=` of `a=b=c`, and a `^` that is no part of a rune.
-/

namespace Runic

namespace Grammar

open Runic.Symbol (mark ace gap)

/-- What the adjacency reader keeps of the symbols before: the last of them, up to its class. -/
inductive Seen where
  | other
  | separator
  /-- `(` -/
  | pal
  /-- A rune with arms. -/
  | core
  | face
  /-- `=` -/
  | tis
  /-- A name behind `=`. -/
  | labelled
deriving DecidableEq, Repr

namespace Seen

/-- The symbol can follow what was seen last. -/
def allows (q : Seen) : Symbol → Bool
  | .plain .illegal | .plain (.mark .ket) => false
  | .plain .ace => decide (q ≠ pal)
  | .plain (.mark .pal) => decide (q ≠ core)
  | .plain (.mark .tis) => decide (q ≠ labelled)
  | .plain .tistis | .rune _ => decide (q ≠ face ∧ q ≠ labelled)
  | _ => true

/-- What is seen last after the symbol `s`. -/
def next (q : Seen) : Symbol → Seen
  | .face _ => if q = tis then labelled else face
  | .rune r => if r.signature?.map Signature.tail = some .arms then core else other
  | .plain .ace | .plain .gap => separator
  | .plain (.mark .pal) => pal
  | .plain (.mark .tis) => tis
  | _ => other

/-- What is seen last after some symbols, if each of them is allowed behind the one before it. -/
def run (q : Seen) : List Symbol → Option Seen
  | [] => some q
  | s :: ss => if q.allows s then (q.next s).run ss else none

@[simp] lemma run_nil (q : Seen) : q.run [] = some q := rfl

lemma run_cons (q : Seen) (s : Symbol) (ss : List Symbol) :
    q.run (s :: ss) = if q.allows s then (q.next s).run ss else none := rfl

lemma run_of_not_allows {q : Seen} {s : Symbol} (h : q.allows s = false) (ss : List Symbol) :
    q.run (s :: ss) = none := by
  simp [run_cons, h]

lemma run_append (q : Seen) (ss ts : List Symbol) :
    q.run (ss ++ ts) = (q.run ss).bind fun q' => q'.run ts := by
  induction ss generalizing q with
  | nil => rfl
  | cons s ss ih =>
      rw [List.cons_append, run_cons, run_cons]
      split
      · exact ih (q.next s)
      · rfl

/-- The reader gets from `q` through the symbols `ts`, and `P` holds of what it saw last. -/
def Passes (q : Seen) (ts : List Symbol) (P : Seen → Prop) : Prop := ∃ q', q.run ts = some q' ∧ P q'

variable {q : Seen} {P Q : Seen → Prop}

lemma Passes.nil (h : P q) : q.Passes [] P := ⟨q, rfl, h⟩

lemma Passes.cons {s : Symbol} {ts : List Symbol} (hs : q.allows s = true)
    (h : (q.next s).Passes ts P) : q.Passes (s :: ts) P := by
  obtain ⟨q', hrun, hP⟩ := h
  exact ⟨q', by rw [run_cons, if_pos hs, hrun], hP⟩

lemma Passes.append {ts us : List Symbol} (h : q.Passes ts P)
    (h' : ∀ q', P q' → q'.Passes us Q) : q.Passes (ts ++ us) Q := by
  obtain ⟨q', hrun, hP⟩ := h
  obtain ⟨q'', hrun', hQ⟩ := h' q' hP
  exact ⟨q'', by rw [run_append, hrun, Option.bind_some, hrun'], hQ⟩

lemma Passes.imp {ts : List Symbol} (h : q.Passes ts P) (himp : ∀ q', P q' → Q q') :
    q.Passes ts Q := by
  obtain ⟨q', hrun, hP⟩ := h
  exact ⟨q', hrun, himp q' hP⟩

/-- No illegal token is among symbols that the reader gets through. -/
lemma Passes.illegal_notMem {ts : List Symbol} (h : q.Passes ts P) : .plain .illegal ∉ ts := by
  induction ts generalizing q with
  | nil => simp
  | cons s ts ih =>
      obtain ⟨q', hrun, hP⟩ := h
      rw [run_cons] at hrun
      split at hrun
      · next hs =>
          rw [List.mem_cons, not_or]
          refine ⟨?_, ih ⟨q', hrun, hP⟩⟩
          rintro rfl
          cases hs
      · cases hrun

/-- An expression may follow what was seen last. -/
def Ready (q : Seen) : Prop := q = other ∨ q = separator ∨ q = pal

/-- An operand may follow what was seen last. -/
def Open (q : Seen) : Prop := q.Ready ∨ q = tis

/-- An expression may end with what was seen last. -/
def Done (q : Seen) : Prop := q = other ∨ q = face ∨ q = labelled

lemma Open.ne (h : q.Open) : q ≠ core ∧ q ≠ face ∧ q ≠ labelled := by
  rcases h with (rfl | rfl | rfl) | rfl <;> simp

lemma next_of_isSeparator {s : Symbol} (h : s.kind.isSeparator = true) : q.next s = separator := by
  cases s with
  | plain kind => cases kind <;> first | rfl | cases h
  | _ => cases h

lemma allows_of_isSeparator {s : Symbol} (h : s.kind.isSeparator = true) (hq : q ≠ pal) :
    q.allows s = true := by
  cases s with
  | plain kind => cases kind <;> simp_all [allows, Kind.isSeparator]
  | _ => cases h

/-- Only behind `(` a separator is refused. -/
lemma passes_separators {ss : List Symbol} (h : ∀ s ∈ ss, s.kind.isSeparator = true)
    (hq : q ≠ pal) : q.Passes ss fun q' => q' = q ∨ q' = separator := by
  induction ss generalizing q with
  | nil => exact .nil (.inl rfl)
  | cons s ss ih =>
      have hs := h s List.mem_cons_self
      refine .cons (allows_of_isSeparator hs hq) ?_
      rw [next_of_isSeparator hs]
      refine (ih (fun s hs => h s (List.mem_cons_of_mem _ hs)) (by simp)).imp ?_
      rintro q' (hq' | hq') <;> exact .inr hq'

/-- A phrase after which an expression may end does not end with a separator. -/
lemma Passes.isSeparator_last {ts : List Symbol} {s : Symbol} (h : q.Passes (ts ++ [s]) Done) :
    s.kind.isSeparator = false := by
  obtain ⟨q', hrun, hdone⟩ := h
  rw [run_append, Option.bind_eq_some_iff] at hrun
  obtain ⟨q'', -, hrun⟩ := hrun
  rw [run_cons] at hrun
  split at hrun
  · by_contra hs
    rw [next_of_isSeparator (by simpa using hs), run_nil, Option.some.injEq] at hrun
    subst hrun
    rcases hdone with h | h | h <;> cases h
  · cases hrun

lemma Done.allows_ace (h : q.Done) : q.allows ace = true := by
  rcases h with rfl | rfl | rfl <;> rfl

end Seen

open Seen

lemma Target.allowed {s : Symbol} {t : Node} (h : Target s t) (q : Seen) :
    q.allows s = true ∧ (q.next s).allows (mark .pal) = true := by
  cases h with
  | face name => by_cases hq : q = tis <;> simp [allows, next, hq]
  | buc => exact ⟨rfl, rfl⟩

/-- A rune whose tail are arms has no wide form. -/
lemma Wide.tail_ne_arms {s : Signature} {ts : List Symbol} {nodes : List Node}
    (h : Wide s ts nodes) : s.tail ≠ .arms := by
  cases h with
  | args htail _ => rcases htail with h | h <;> simp [h]
  | fixed htail _ _ => simp [htail]
  | jogging htail _ _ _ => simp [htail]

lemma next_rune {r : Rune} {s : Signature} (h : r.signature? = some s) (htail : s.tail ≠ .arms)
    (q : Seen) : q.next (.rune r) = other := by
  simp [Seen.next, h, htail]

lemma closer_allowed {tail : Tail} {closer : Kind} (h : tail.closer? = some closer) :
    separator.allows (.plain closer) = true ∧ separator.next (.plain closer) = other := by
  cases tail <;> cases h <;> exact ⟨rfl, rfl⟩

mutual

theorem Expr.passes {ts : List Symbol} {t : Node} : Expr ts t → ∀ q : Seen, q.Ready →
    q.Passes ts Done
  | .chain h => by
      intro q hq
      refine (h.passes q hq).imp ?_
      rintro q' (rfl | rfl | ⟨rfl, -⟩ | ⟨-, hq'⟩)
      · exact .inl rfl
      · exact .inr (.inl rfl)
      · exact .inr (.inr rfl)
      · exact hq'

theorem Chain.passes {loose : Bool} {ts : List Symbol} {t : Node} : Chain loose ts t →
    ∀ q : Seen, q.Ready → q.Passes ts fun q' =>
      q' = other ∨ q' = face ∨ q' = labelled ∧ t.face? = none ∨ loose = true ∧ q'.Done
  | .operand h => by
      intro q hq
      refine (h.passes q (.inl hq)).imp ?_
      rintro q' (rfl | rfl | hloose)
      · exact .inl rfl
      · rw [if_neg (by rcases hq with rfl | rfl | rfl <;> simp)]
        exact .inr (.inl rfl)
      · exact .inr (.inr (.inr hloose))
  | .col hl hr => by
      intro q hq
      refine (hl.passes q hq).append ?_
      rintro q' -
      refine .cons rfl ((hr.passes other (.inl (.inl rfl))).imp ?_)
      rintro q' (rfl | rfl | hloose)
      · exact .inl rfl
      · exact .inr (.inl rfl)
      · exact .inr (.inr (.inr hloose))
  | .tis hl hr => by
      intro q hq
      refine (hl.passes q hq).append ?_
      intro q' hq'
      have hne : q' ≠ labelled := by
        rcases hq' with rfl | rfl | ⟨-, hface⟩ | ⟨hfalse, -⟩
        · simp
        · simp
        · cases hface
        · cases hfalse
      refine .cons (by simpa [allows] using hne) ((hr.passes tis (.inr rfl)).imp ?_)
      rintro q' (rfl | rfl | hloose)
      · exact .inl rfl
      · exact .inr (.inr (.inl ⟨rfl, rfl⟩))
      · exact .inr (.inr (.inr hloose))

theorem Operand.passes {loose : Bool} {ts : List Symbol} {t : Node} : Operand loose ts t →
    ∀ q : Seen, q.Open → q.Passes ts fun q' =>
      q' = other ∨ (q' = if q = tis then labelled else face) ∨ loose = true ∧ q'.Done
  | .face name => fun q _ => .cons rfl (.nil (.inr (.inl rfl)))
  | .num digits => fun q _ => .cons rfl (.nil (.inl rfl))
  | .buc => fun q _ => .cons rfl (.nil (.inl rfl))
  | .pat => fun q _ => .cons rfl (.nil (.inl rfl))
  | .dot => fun q _ => .cons rfl (.nil (.inl rfl))
  | .lus h => by
      intro q hq
      refine .cons rfl (.cons rfl ((h.passes pal (by simp [Ready])).append ?_))
      exact fun q' _ => .cons rfl (.nil (.inl rfl))
  | .tis hl hr => by
      intro q hq
      rw [List.append_assoc]
      refine .cons (by simpa [allows] using hq.ne.2.2) (.cons rfl ?_)
      refine (hl.passes pal (by simp [Ready])).append fun q' hq' => .cons hq'.allows_ace ?_
      refine (hr.passes separator (by simp [Ready])).append ?_
      exact fun q' _ => .cons rfl (.nil (.inl rfl))
  | .pal h => by
      intro q hq
      refine .cons (by simpa [allows] using hq.ne.1) ((h.passes pal (by simp [Ready])).append ?_)
      exact fun q' _ => .cons rfl (.nil (.inl rfl))
  | .sel h => by
      intro q hq
      refine .cons rfl ((h.passes other (by simp [Ready])).append ?_)
      exact fun q' _ => .cons rfl (.nil (.inl rfl))
  | .reset h => by
      intro q hq
      obtain ⟨htarget, hpal⟩ := h.allowed q
      exact .cons htarget (.cons hpal (.cons rfl (.nil (.inl rfl))))
  | .rewrite h hp => by
      intro q hq
      obtain ⟨htarget, hpal⟩ := h.allowed q
      refine .cons htarget (.cons hpal ((hp.passes pal (by simp [Ready])).append ?_))
      exact fun q' _ => .cons rfl (.nil (.inl rfl))
  | .wide hs h _ => by
      intro q hq
      refine .cons (by simpa [allows] using hq.ne.2) ?_
      rw [next_rune hs h.tail_ne_arms]
      refine .cons rfl ((h.passes).append ?_)
      exact fun q' _ => .cons rfl (.nil (.inl rfl))
  | .tall hs h => by
      intro q hq
      refine .cons (by simpa [allows] using hq.ne.2) ((h.passes _ ?_).imp ?_)
      · intro htail
        exact next_rune hs (by simp [htail]) q
      · rintro q' (rfl | hloose)
        · exact .inl rfl
        · exact .inr (.inr hloose)

theorem Spaced.passes {ts : List Symbol} {nodes : List Node} : Spaced ts nodes →
    ∀ q : Seen, q.Ready → q.Passes ts Done
  | .one h => h.passes
  | .more h hs => by
      intro q hq
      refine (h.passes q hq).append fun q' hq' => .cons hq'.allows_ace ?_
      exact hs.passes separator (by simp [Ready])

theorem Cells.passes {ts : List Symbol} {t : Node} : Cells ts t →
    ∀ q : Seen, q.Ready → q.Passes ts Done
  | .one h => h.passes
  | .more h hs => by
      intro q hq
      refine (h.passes q hq).append fun q' hq' => .cons hq'.allows_ace ?_
      exact hs.passes separator (by simp [Ready])

theorem Pairs.passes {ts : List Symbol} {nodes : List Node} : Pairs ts nodes →
    ∀ q : Seen, q.Ready → q.Passes ts Done
  | .one hl hr => by
      intro q hq
      refine (hl.passes q hq).append fun q' hq' => .cons hq'.allows_ace ?_
      exact hr.passes separator (by simp [Ready])
  | .more hl hr hp => by
      intro q hq
      rw [List.append_assoc]
      refine (hl.passes q hq).append fun q' hq' => .cons hq'.allows_ace ?_
      refine (hr.passes separator (by simp [Ready])).append fun q' _ => .cons rfl (.cons rfl ?_)
      exact hp.passes separator (by simp [Ready])

theorem Args.passes {ts : List Symbol} {nodes : List Node} : Args ts nodes →
    pal.Passes ts fun q => if nodes = [] then q = pal else q.Done
  | .none => .nil rfl
  | .some h => by
      refine (h.passes pal (by simp [Ready])).imp ?_
      intro q hq
      rwa [if_neg h.ne_nil]

theorem Jogging.passes {s : Signature} {ts : List Symbol} {nodes : List Node} :
    Jogging s ts nodes → ∀ q : Seen, q.Ready → q.Passes ts Done
  | .pairs h => h.passes
  | .post _ h hs => by
      intro q hq
      refine (h.passes q hq).append fun q' hq' => .cons hq'.allows_ace ?_
      exact hs.passes separator (by simp [Ready])

theorem Wide.passes {s : Signature} {ts : List Symbol} {nodes : List Node} :
    Wide s ts nodes → pal.Passes ts fun _ => True
  | .args _ h => h.passes.imp fun _ _ => trivial
  | .fixed _ h _ => h.passes.imp fun _ _ => trivial
  | @Wide.jogging s _ _ nodes _ _ h hcount hj => by
      rw [List.append_assoc]
      refine h.passes.append ?_
      intro q hq
      by_cases hpos : 0 < s.args
      · rw [if_neg (List.ne_nil_of_length_pos (by omega))] at hq
        rw [if_pos hpos]
        refine .cons hq.allows_ace ((hj.passes separator (by simp [Ready])).imp ?_)
        exact fun _ _ => trivial
      · rw [if_pos (List.length_eq_zero_iff.1 (by omega))] at hq
        rw [if_neg hpos, hq]
        exact (hj.passes pal (by simp [Ready])).imp fun _ _ => trivial

theorem Gapped.passes {ts : List Symbol} {nodes : List Node} : Gapped ts nodes →
    ∀ q : Seen, q.Passes ts fun q' => if nodes = [] then q' = q else q'.Done
  | .none => fun q => .nil rfl
  | .more h hs => by
      intro q
      refine .cons rfl ((h.passes separator (by simp [Ready])).append fun q' hq' => ?_)
      refine (hs.passes q').imp ?_
      intro q'' hq''
      rw [if_neg (by simp)]
      split at hq''
      · rwa [hq'']
      · exact hq''

theorem Tall.passes {s : Signature} {ts : List Symbol} {nodes : List Node} :
    Tall s ts nodes → ∀ q : Seen, (s.tail = .fixed → q = other) →
      q.Passes ts fun q' => q' = other ∨ s.isLoose = true ∧ q'.Done
  | .fixed htail h hargs hp hpost => by
      intro q hq
      refine (h.passes q).append fun q₁ hq₁ => (hp.passes q₁).imp fun q₂ hq₂ => ?_
      rw [hq htail] at hq₁
      split at hq₂
      · rw [hq₂]
        split at hq₁
        · exact .inl hq₁
        · next hne =>
            have hpos := hargs ▸ List.length_pos_iff.2 hne
            exact .inr ⟨by simp [Signature.isLoose, htail, hpos], hq₁⟩
      · next hne =>
          have hpos := hpost ▸ List.length_pos_iff.2 hne
          exact .inr ⟨by simp [Signature.isLoose, hpos], hq₂⟩
  | .closed hcloser h _ hi _ hp hpost => by
      intro q _
      rw [List.append_assoc]
      refine (h.passes q).append fun q₁ _ => (hi.passes q₁).append fun q₂ _ => .cons rfl ?_
      obtain ⟨hallows, hnext⟩ := closer_allowed hcloser
      refine .cons hallows ?_
      change (separator.next _).Passes _ _
      rw [hnext]
      refine (hp.passes other).imp fun q₃ hq₃ => ?_
      split at hq₃
      · exact .inl hq₃
      · next hne =>
          have hpos := hpost ▸ List.length_pos_iff.2 hne
          exact .inr ⟨by simp [Signature.isLoose, hpos], hq₃⟩

end

end Grammar

end Runic
