import Mathlib.Tactic.Common
import Runic.Text.Span

/-!
# Parts of a text

Offsets count bytes, texts are made of characters.  Here the two are brought together: an offset is
a place in a text only if it lies between two of its characters (`IsBoundary`), and a span cuts a
part out of a text only if both of its ends do (`Span.slice?`).

* `isBoundary_iff` — **an offset is a boundary exactly if it is the length of a front of the text.**
* `slice_eq` — what is cut out of a text that is put together of three parts.
-/

namespace Runic

/-! ## Lengths in bytes -/

@[simp] lemma byteLength_nil : byteLength [] = 0 := rfl

@[simp] lemma byteLength_cons (c : Char) (cs : List Char) :
    byteLength (c :: cs) = c.utf8Size + byteLength cs := rfl

@[simp] lemma byteLength_append (as bs : List Char) :
    byteLength (as ++ bs) = byteLength as + byteLength bs := by
  induction as with
  | nil => simp
  | cons a as ih => simp [ih, Nat.add_assoc]

lemma byteLength_pos {cs : List Char} (h : cs ≠ []) : 0 < byteLength cs := by
  cases cs with
  | nil => exact absurd rfl h
  | cons c cs => exact Nat.add_pos_left c.utf8Size_pos _

/-- The function `byteLength` counts the bytes of the text that the characters form. -/
lemma utf8ByteSize_ofList (cs : List Char) : (String.ofList cs).utf8ByteSize = byteLength cs := by
  induction cs with
  | nil => rfl
  | cons c cs ih =>
      rw [← List.singleton_append, String.ofList_append, String.utf8ByteSize_append, ih,
        byteLength_append, ← String.singleton_eq_ofList, String.utf8ByteSize_singleton]
      simp

lemma byteLength_toList (source : String) : byteLength source.toList = source.utf8ByteSize := by
  rw [← utf8ByteSize_ofList, String.ofList_toList]

/-! ## Words -/

section Words

variable {part : Char → Bool} {word rest : List Char} (hword : ∀ c ∈ word, part c = true)
  (hrest : ∀ c ∈ rest.head?, part c = false)

include hword hrest

/-- If all characters of `word` are parts of it and the next one is none, then `takeWhile` takes
exactly `word`. -/
lemma takeWhile_append_of_stop : (word ++ rest).takeWhile part = word := by
  rw [List.takeWhile_append_of_pos hword]
  cases rest with
  | nil => simp
  | cons c rest => simp [hrest c rfl]

lemma dropWhile_append_of_stop : (word ++ rest).dropWhile part = rest := by
  rw [List.dropWhile_append_of_pos hword]
  cases rest with
  | nil => rfl
  | cons c rest => simp [hrest c rfl]

end Words

/-! ## Boundaries -/

/-- The offset does not lie inside of a character of `source`, nor behind its end. -/
def IsBoundary (source : String) (offset : Nat) : Prop :=
  String.Pos.Raw.IsValid source ⟨offset⟩

instance (source : String) (offset : Nat) : Decidable (IsBoundary source offset) :=
  inferInstanceAs (Decidable (String.Pos.Raw.IsValid source ⟨offset⟩))

lemma IsBoundary.le {source : String} {offset : Nat} (h : IsBoundary source offset) :
    offset ≤ source.utf8ByteSize :=
  h.le_utf8ByteSize

/-- **An offset is a boundary exactly if it is the length in bytes of some first characters of the
source.** -/
lemma isBoundary_iff {source : String} {offset : Nat} :
    IsBoundary source offset ↔
      ∃ before after, source.toList = before ++ after ∧ byteLength before = offset := by
  rw [IsBoundary, String.Pos.Raw.isValid_iff_exists_append]
  constructor
  · rintro ⟨s, t, rfl, h⟩
    refine ⟨s.toList, t.toList, String.toList_append, ?_⟩
    rw [byteLength_toList, ← String.byteIdx_rawEndPos, ← h]
  · rintro ⟨before, after, h, rfl⟩
    refine ⟨String.ofList before, String.ofList after, ?_, ?_⟩
    · rw [← String.ofList_append, ← h, String.ofList_toList]
    · rw [String.Pos.Raw.ext_iff, String.byteIdx_rawEndPos, utf8ByteSize_ofList]

lemma isBoundary_of_append {source : String} {before after : List Char}
    (h : source.toList = before ++ after) : IsBoundary source (byteLength before) :=
  isBoundary_iff.2 ⟨before, after, h, rfl⟩

/-- The characters that `charsWithin` finds in front of a boundary are those that end there. -/
lemma charsWithin_append (before after : List Char) :
    Span.charsWithin (byteLength before) (before ++ after) = before := by
  induction before with
  | nil => cases after <;> rfl
  | cons c cs ih =>
      obtain ⟨n, hn⟩ : ∃ n, byteLength (c :: cs) = n + 1 :=
        ⟨_, (Nat.succ_pred_eq_of_pos (byteLength_pos (by simp))).symm⟩
      rw [hn, List.cons_append, Span.charsWithin, ← hn, byteLength_cons, Nat.add_sub_cancel_left,
        ih]

/-! ## Slices -/

/-- The part of `source` between the ends of the span.  There is none if the span does not start
before its end, or if one of the two is no boundary. -/
def Span.slice? (span : Span) (source : String) : Option String :=
  if h : span.start ≤ span.stop ∧ IsBoundary source span.start ∧ IsBoundary source span.stop then
    some (source.extract ⟨_, h.2.1⟩ ⟨_, h.2.2⟩)
  else none

lemma Span.isBoundary_of_slice {span : Span} {source part : String}
    (h : span.slice? source = some part) :
    span.start ≤ span.stop ∧ IsBoundary source span.start ∧ IsBoundary source span.stop := by
  unfold slice? at h
  split at h
  · assumption
  · cases h

/-- The bytes of a source between the lengths of `before` and of `before ++ part` are those of
`part`. -/
lemma extract_toByteArray {source : String} {before part after : List Char}
    (h : source.toList = before ++ part ++ after) :
    source.toByteArray.extract (byteLength before) (byteLength before + byteLength part) =
      part.utf8Encode := by
  have hbytes : source.toByteArray =
      before.utf8Encode ++ (part.utf8Encode ++ after.utf8Encode) := by
    rw [← String.utf8Encode_toList, h]
    simp
  have hsize (cs : List Char) : cs.utf8Encode.size = byteLength cs := by
    rw [← utf8ByteSize_ofList, ← String.size_toByteArray, String.toByteArray_ofList]
  rw [hbytes, ← Nat.add_zero (byteLength before), Nat.add_assoc, Nat.zero_add,
    ByteArray.extract_append_size_add' (hsize before).symm,
    ByteArray.extract_append_eq_left (hsize part).symm]

/-- **If `source` is `before ++ part ++ after`, then the span of `part` cuts `part` out of it.** -/
lemma slice_eq {source : String} {before part after : List Char} {span : Span}
    (h : source.toList = before ++ part ++ after) (hstart : span.start = byteLength before)
    (hstop : span.stop = byteLength before + byteLength part) :
    span.slice? source = some (String.ofList part) := by
  have hle : span.start ≤ span.stop := by omega
  have hbefore : IsBoundary source span.start := by
    rw [hstart]
    exact isBoundary_of_append (by rw [h, List.append_assoc])
  have hafter : IsBoundary source span.stop := by
    rw [hstop, ← byteLength_append]
    exact isBoundary_of_append h
  rw [Span.slice?, dif_pos ⟨hle, hbefore, hafter⟩, Option.some.injEq, ← String.toByteArray_inj]
  simp only [String.toByteArray_extract, String.toByteArray_ofList, hstart, hstop]
  exact extract_toByteArray h

end Runic
