import Mathlib.Tactic.Common

/-!
# Entries found by their keys

Bindings of faces and items of a disk are both lists of entries that are looked up by a key.
`lookup_cons_if` says what the first entry of such a list does, `lookup_eq_some_iff_mem` that
every entry is found if no two have the same key, and `lookup_perm` that their order does not matter
then.
-/

namespace Runic

variable {κ β : Type} [BEq κ] [LawfulBEq κ] [DecidableEq κ]

/-- In a list with an entry for `key` in front, `lookup` finds this entry for `key` and looks behind
it for other keys. -/
lemma lookup_cons_if (key other : κ) (b : β) (entries : List (κ × β)) :
    ((key, b) :: entries).lookup other = if other = key then some b else entries.lookup other := by
  rw [List.lookup_cons]
  by_cases h : other = key
  · simp [h]
  · rw [beq_false_of_ne h, if_neg h]

/-- If no two entries have the same key, then `lookup` finds exactly the entries of the list. -/
lemma lookup_eq_some_iff_mem {entries : List (κ × β)} (h : (entries.map Prod.fst).Nodup) {key : κ}
    {b : β} : entries.lookup key = some b ↔ (key, b) ∈ entries := by
  induction entries with
  | nil => simp
  | cons entry entries ih =>
      obtain ⟨first, kept⟩ := entry
      rw [List.map_cons, List.nodup_cons] at h
      rw [lookup_cons_if, List.mem_cons, Prod.mk.injEq]
      split
      · next hkey =>
          subst hkey
          have hnot : (key, b) ∉ entries := fun hmem => h.1 (List.mem_map.2 ⟨_, hmem, rfl⟩)
          simp [hnot, eq_comm]
      · next hkey => simp [hkey, ih h.2]

/-- If no two entries have the same key, then `lookup` does not depend on their order. -/
lemma lookup_perm {entries entries' : List (κ × β)} (hperm : entries.Perm entries')
    (h : (entries.map Prod.fst).Nodup) (key : κ) : entries.lookup key = entries'.lookup key := by
  have h' : (entries'.map Prod.fst).Nodup := (hperm.map Prod.fst).nodup_iff.1 h
  refine Option.ext fun b => ?_
  rw [lookup_eq_some_iff_mem h, lookup_eq_some_iff_mem h', hperm.mem_iff]

end Runic
