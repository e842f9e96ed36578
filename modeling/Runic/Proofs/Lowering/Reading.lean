import Mathlib.Data.Nat.Digits.Defs
import Mathlib.Tactic.Ring
import Runic.Attempt
import Runic.Lowering.Capture
import Runic.Lowering.Numeral

/-!
# How numerals and samples are read

Lowering reads a numeral digit by digit and collects samples while it checks them.  This file says
what is read without following these loops, so that the meaning of a tree can be given apart from
its lowering.

* `decimalOf` — the number that decimal digits stand for, each digit having its weight.
* `Node.number?` — the number of a numeral: an optional sign, and digits without their dots.
  `numeralValue?_eq_filter` — `numeralValue?` is **that number, if it is in range**.
* `Node.samples?` — the samples of a mold from left to right.  `sampleFaces_eq_ok` — `sampleFaces`
  gives **these samples in this order**, if they differ.
-/

namespace Runic

/-! ## Numerals -/

/-- The number that decimal digits stand for, the last of them counting the ones. -/
def decimalOf (cs : List Char) : Nat :=
  Nat.ofDigits 10 (cs.reverse.map fun c => c.toNat - '0'.toNat)

lemma decimalOf_cons (c : Char) (cs : List Char) :
    decimalOf (c :: cs) = decimalOf cs + 10 ^ cs.length * (c.toNat - '0'.toNat) := by
  simp [decimalOf, Nat.ofDigits_append]

/-- Reading the digits `cs` behind the number `value` gives their number and `value` with the weight
of one place more. -/
lemma decimalFrom?_eq {cs : List Char} (h : ∀ c ∈ cs, c.isDigit = true) (value : Nat) :
    decimalFrom? value cs = some (decimalOf cs + 10 ^ cs.length * value) := by
  induction cs generalizing value with
  | nil => simp [decimalFrom?, decimalOf]
  | cons c cs ih =>
      rw [decimalFrom?, if_pos (h c List.mem_cons_self),
        ih fun d hd => h d (List.mem_cons_of_mem _ hd), decimalOf_cons, List.length_cons]
      ring_nf

/-- Whatever is no digit makes `decimalFrom?` fail. -/
lemma decimalFrom?_eq_none {cs : List Char} (h : ¬ ∀ c ∈ cs, c.isDigit = true) (value : Nat) :
    decimalFrom? value cs = none := by
  induction cs generalizing value with
  | nil => exact absurd (by simp) h
  | cons c cs ih =>
      rw [decimalFrom?]
      split
      · next hc => exact ih (fun hcs => h (List.forall_mem_cons.2 ⟨hc, hcs⟩)) _
      · rfl

/-- Reading `decimal?` gives the number of the digits, if there are any and all characters are
digits. -/
lemma decimal?_eq (cs : List Char) : decimal? cs =
    if cs ≠ [] ∧ cs.all Char.isDigit then some (decimalOf cs) else none := by
  cases cs with
  | nil => simp [decimal?]
  | cons c cs =>
      have hread : decimal? (c :: cs) = decimalFrom? 0 (c :: cs) := rfl
      rw [hread]
      split
      · next h => rw [decimalFrom?_eq (List.all_eq_true.1 h.2), Nat.mul_zero, Nat.add_zero]
      · next h =>
          exact decimalFrom?_eq_none (fun hcs => h ⟨by simp, List.all_eq_true.2 hcs⟩) 0

/-- The characters without the sign in front of them, and whether it was a minus. -/
def unsigned (cs : List Char) : Bool × List Char :=
  if cs.head? = some '-' then (true, cs.tail)
  else (false, if cs.head? = some '+' then cs.tail else cs)

/-- The number `n` behind a sign. -/
def signed (minus : Bool) (n : Nat) : Int := if minus then -(n : Int) else n

/-- The number that the text of a numeral stands for: an optional sign, and digits with dots among
them that do not count. -/
def Node.number? (digits : String) : Option Int :=
  let cs := unsigned (digits.toList.filter (· ≠ '.'))
  if cs.2 ≠ [] ∧ cs.2.all Char.isDigit then some (signed cs.1 (decimalOf cs.2)) else none

lemma signedDecimal?_eq (cs : List Char) :
    signedDecimal? cs = (decimal? (unsigned cs).2).map (signed (unsigned cs).1) := by
  unfold signedDecimal?
  split
  · rfl
  · rfl
  · next hplus hminus =>
      have hminus' : cs.head? ≠ some '-' := by
        cases cs with
        | nil => simp
        | cons c cs => exact fun h => hminus cs (by simpa using h)
      have hplus' : cs.head? ≠ some '+' := by
        cases cs with
        | nil => simp
        | cons c cs => exact fun h => hplus cs (by simpa using h)
      rw [unsigned, if_neg hminus', if_neg hplus']
      rfl

/-- **`numeralValue?` is the number of a numeral, if it is in range.** -/
lemma numeralValue?_eq_filter (bits : Nat) (digits : String) : numeralValue? bits digits =
    (Node.number? digits).filter fun value => leastWord ≤ value ∧ value ≤ greatestAtom bits := by
  rw [numeralValue?, signedDecimal?_eq, decimal?_eq, Node.number?]
  split <;> rfl

/-- If `numeralValue?` gives a value, it is the number of the numeral. -/
lemma number?_of_numeralValue? {bits : Nat} {digits : String} {value : Int}
    (h : numeralValue? bits digits = some value) : Node.number? digits = some value := by
  rw [numeralValue?_eq_filter] at h
  exact (Option.filter_eq_some_iff.1 h).1

/-! ## Samples -/

/-- The samples that a mold declares, from left to right: a face at `@`, or cells of such. -/
def Node.samples? : Node → Option (List String)
  | .faced name (.pat _) _ => some [name]
  | .cell head tail _ => do return (← head.samples?) ++ (← tail.samples?)
  | _ => none

/-- A face at `@` is declared behind the samples `before`, if it is none of them. -/
lemma sampleFacesFrom_pat {name : String} {place span : Span} {before samples : List String}
    (hbefore : before.Nodup) : sampleFacesFrom before (.faced name (.pat place) span) = .ok samples ↔
      samples = before ++ [name] ∧ samples.Nodup := by
  have hread : sampleFacesFrom before (.faced name (.pat place) span) =
    if before.contains name then .error (.lower span (.duplicateSample name))
    else .ok (before ++ [name]) := rfl
  have hnodup : (before ++ [name]).Nodup ↔ name ∉ before := by
    rw [(List.perm_append_singleton name before).nodup_iff, List.nodup_cons]
    exact and_iff_left hbefore
  rw [hread]
  split
  · next hmem =>
      rw [List.contains_iff_mem] at hmem
      constructor
      · intro h
        cases h
      · rintro ⟨rfl, h⟩
        exact absurd hmem (hnodup.1 h)
  · next hnew =>
      rw [List.contains_iff_mem] at hnew
      constructor
      · rintro ⟨⟩
        exact ⟨rfl, hnodup.2 hnew⟩
      · rintro ⟨rfl, -⟩
        rfl

/-- Behind the samples `before`, `sampleFacesFrom` gives those of the mold from left to right, if
all of them differ. -/
lemma sampleFacesFrom_eq_ok {mold : Node} {before samples : List String} (hbefore : before.Nodup) :
    sampleFacesFrom before mold = .ok samples ↔
      ∃ names, mold.samples? = some names ∧ samples = before ++ names ∧ samples.Nodup := by
  induction mold using Node.induction generalizing before samples with
  | buc | pat | dot | face | num | rune => simp [sampleFacesFrom, Node.samples?]
  | faced name value span _ =>
      cases value with
      | pat place =>
          rw [sampleFacesFrom_pat hbefore]
          simp [Node.samples?]
      | _ => simp [sampleFacesFrom, Node.samples?]
  | cell head tail span ihHead ihTail =>
      rw [sampleFacesFrom, bind_eq_ok]
      constructor
      · rintro ⟨middle, hhead, htail⟩
        obtain ⟨names, hnames, rfl, hmiddle⟩ := (ihHead hbefore).1 hhead
        obtain ⟨names', hnames', rfl, hnodup⟩ := (ihTail hmiddle).1 htail
        refine ⟨names ++ names', by simp [Node.samples?, hnames, hnames'], ?_, hnodup⟩
        rw [List.append_assoc]
      · rintro ⟨names, hnames, rfl, hnodup⟩
        obtain ⟨left, hleft, hnames⟩ := Option.bind_eq_some_iff.1 hnames
        obtain ⟨right, hright, ⟨⟩⟩ := Option.bind_eq_some_iff.1 hnames
        rw [← List.append_assoc] at hnodup ⊢
        have hmiddle : (before ++ left).Nodup := (List.nodup_append.1 hnodup).1
        exact ⟨before ++ left, (ihHead hbefore).2 ⟨left, hleft, rfl, hmiddle⟩,
          (ihTail hmiddle).2 ⟨right, hright, rfl, hnodup⟩⟩

/-- **`sampleFaces` gives the samples of a mold from left to right**, if they differ. -/
lemma sampleFaces_eq_ok {mold : Node} {samples : List String} :
    sampleFaces mold = .ok samples ↔ mold.samples? = some samples ∧ samples.Nodup := by
  rw [sampleFaces, sampleFacesFrom_eq_ok List.nodup_nil]
  simp

end Runic
