import Mathlib.Data.List.Basic
import Mathlib.Tactic.Common
import Runic.Proofs.Lookup
import Runic.Proofs.Lowering.Reading

/-!
# What a subject says

A subject is read through `Subject.get?`.  This file says what each operation does to that view:
binding a face (`get?_bind`), the faces taken into a function (`mem_capturedFaces`,
`capturedFaces_pairwise`), and the subject inside of one (`get?_innerSubject`).
-/

namespace Runic

open Ir (Value Param Ty)

namespace Subject

lemma lookup_bindOrdered (face other : String) (v : Value) (bs : List (String × Value)) :
    (bindOrdered face v bs).lookup other = if other = face then some v else bs.lookup other := by
  induction bs with
  | nil => rw [bindOrdered, lookup_cons_if]
  | cons b rest ih =>
      obtain ⟨g, w⟩ := b
      simp only [bindOrdered]
      split
      · rw [lookup_cons_if]
      · split
        · next _ he =>
            subst he
            simp only [lookup_cons_if]
            split <;> rfl
        · next _ hne =>
            rw [lookup_cons_if, lookup_cons_if, ih]
            by_cases h : other = g
            · subst h
              simp [Ne.symm hne]
            · simp [h]

/-- After binding `face`, it has the new value, and every other face the value it had. -/
lemma get?_bind (σ : Subject) (face other : String) (v : Value) :
    (σ.bind face v).get? other = if other = face then some v else σ.get? other :=
  lookup_bindOrdered face other v σ.bindings

lemma get?_empty (face : String) : Subject.empty.get? face = none := rfl

lemma nodup_faces (σ : Subject) : (σ.bindings.map Prod.fst).Nodup := by
  rw [List.Nodup, List.pairwise_map]
  refine σ.ordered.imp ?_
  rintro ⟨face, _⟩ ⟨_, _⟩ hlt rfl
  exact String.lt_irrefl face hlt

/-- The bindings of a subject are exactly the faces with the values that `get?` gives. -/
lemma mem_bindings {σ : Subject} {face : String} {v : Value} :
    (face, v) ∈ σ.bindings ↔ σ.get? face = some v :=
  (lookup_eq_some_iff_mem σ.nodup_faces).symm

end Subject

/-! ## Faces taken into a function -/

lemma mem_capturedFaces {σ : Subject} {samples : List String} {face : String} {v : Value} :
    (face, v) ∈ capturedFaces σ samples ↔
      σ.get? face = some v ∧ v.func? = none ∧ isReserved face = false ∧ face ∉ samples := by
  simp only [capturedFaces, Subject.dataFaces, List.mem_filter, Subject.mem_bindings,
    Bool.and_eq_true, Bool.not_eq_true', Option.isNone_iff_eq_none, and_assoc]
  simp

/-- The captured faces are in strict order, so none of them is captured twice. -/
lemma capturedFaces_pairwise (σ : Subject) (samples : List String) :
    ((capturedFaces σ samples).map Prod.fst).Pairwise (· < ·) := by
  rw [List.pairwise_map]
  exact (σ.ordered.filter _).filter _

lemma capturedFaces_nodup (σ : Subject) (samples : List String) :
    ((capturedFaces σ samples).map Prod.fst).Nodup := by
  refine (capturedFaces_pairwise σ samples).imp ?_
  rintro a _ h rfl
  exact String.lt_irrefl a h

/-- The parameters of a function, captured faces and samples, have different names. -/
lemma params_nodup {σ : Subject} {mold : Node} {samples : List String}
    (h : sampleFaces mold = .ok samples) :
    ((capturedFaces σ samples).map Prod.fst ++ samples).Nodup := by
  refine List.nodup_append.2 ⟨capturedFaces_nodup σ samples,
    (sampleFaces_eq_ok.1 h).2, ?_⟩
  intro a ha b hb
  obtain ⟨⟨face, v⟩, hmem, rfl⟩ := List.mem_map.1 ha
  exact (ne_of_mem_of_not_mem hb (mem_capturedFaces.1 hmem).2.2.2).symm

/-! ## The subject inside a function -/

/-- Binding names one after the other to what a map says of them gives that map on these names. -/
lemma get?_foldl_bind {α : Type} (name : α → String) (value : α → Value)
    (what : String → Option Value) (as : List α)
    (h : ∀ a ∈ as, what (name a) = some (value a)) (σ : Subject) (face : String) :
    (as.foldl (fun σ a => σ.bind (name a) (value a)) σ).get? face =
      if face ∈ as.map name then what face else σ.get? face := by
  induction as generalizing σ with
  | nil => simp
  | cons a rest ih =>
      rw [List.foldl_cons, ih (fun b hb => h b (List.mem_cons_of_mem _ hb)), Subject.get?_bind]
      by_cases hrest : face ∈ rest.map name
      · simp [hrest]
      · by_cases hface : face = name a
        · subst hface
          simp [hrest, h a List.mem_cons_self]
        · simp [hrest, hface]

/-- In the inner subject a parameter hides whatever had its name; of the rest only functions are
known, unless a sample hides them. -/
lemma get?_innerSubject (σ : Subject) (samples names : List String) (atom : Ty) (face : String) :
    (innerSubject σ samples (atomParams atom names)).get? face =
      if face ∈ names then some (.param atom face)
      else (σ.get? face).filter fun v => v.func?.isSome && !samples.contains face := by
  unfold innerSubject
  rw [get?_foldl_bind Param.name Param.value (fun face => some (.param atom face))]
  · have hnames : (atomParams atom names).map Param.name = names := by
      simp [atomParams, Function.comp_def]
    rw [hnames]
    split
    · rfl
    · have hknown : ∀ b ∈ σ.functionFaces.filter (fun b => !samples.contains b.1),
          σ.get? b.1 = some b.2 := by
        intro b hb
        have hb' := (List.mem_filter.1 (List.mem_filter.1 hb).1).1
        exact Subject.mem_bindings.1 hb'
      refine (get?_foldl_bind Prod.fst Prod.snd σ.get? _ hknown Subject.empty face).trans ?_
      rw [Subject.get?_empty]
      cases hv : σ.get? face with
      | none => simp
      | some v =>
          have hmem : face ∈ (σ.functionFaces.filter fun b => !samples.contains b.1).map Prod.fst ↔
              v.func?.isSome = true ∧ face ∉ samples := by
            simp only [Subject.functionFaces, List.mem_map, List.mem_filter, Prod.exists,
              exists_and_right, exists_eq_right, Subject.mem_bindings, hv, Option.some.injEq]
            simp
          by_cases hin : v.func?.isSome = true ∧ face ∉ samples
          · rw [if_pos (hmem.2 hin)]
            simp [Option.filter, hin]
          · rw [if_neg (fun h => hin (hmem.1 h))]
            symm
            simpa [Option.filter, and_comm] using hin
  · intro a ha
    simp only [atomParams, List.mem_map] at ha
    obtain ⟨n, _, rfl⟩ := ha
    rfl

end Runic
