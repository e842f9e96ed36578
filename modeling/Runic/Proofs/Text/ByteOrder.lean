import Runic.Proofs.Text.Utf8

/-!
# The order of bytes

Texts are compared character by character, and sorting them by their UTF-8 bytes gives the same
order.  The lead byte of a character grows with the number of digits behind it, so the longer of two
characters is the greater one, and if they are equally long the digits decide.

* `utf8EncodeChar_append_lt` — of two characters the lower has the lower bytes, whatever follows.
* `utf8_lt_of_lt` — **texts in order have their bytes in order.**
-/

namespace Runic.Utf8

variable {mark count v w : Nat} {s t : List UInt8}

/-! ## Digits -/

lemma ofNat_cons_lt {a b : Nat} (hb : b < 256) (h : a < b) :
    UInt8.ofNat a :: s < UInt8.ofNat b :: t := by
  refine List.cons_lt_cons_iff.2 (.inl ?_)
  rwa [UInt8.lt_iff_toNat_lt, UInt8.toNat_ofNat_of_lt' (Nat.lt_trans h hb),
    UInt8.toNat_ofNat_of_lt' hb]

/-- Of two numbers with the same count of marked digits, the lower one has the lower bytes in
lexicographic order, whatever bytes `s` and `t` follow. -/
lemma markedDigits_append_lt (hw : w / 64 ^ count + mark < 256) (h : v < w) :
    markedDigits mark count v ++ s < markedDigits mark count w ++ t := by
  induction count generalizing v w s t with
  | zero =>
      rw [Nat.pow_zero, Nat.div_one] at hw
      exact ofNat_cons_lt hw (by omega)
  | succ count ih =>
      rw [Nat.pow_succ', ← Nat.div_div_eq_div_mul] at hw
      rw [markedDigits, markedDigits, List.append_assoc, List.append_assoc]
      -- the last digit decides only if all digits before it are the same
      rcases Nat.lt_or_ge (v / 64) (w / 64) with hlt | hge
      · exact ih hw hlt
      · have heq : v / 64 = w / 64 := by omega
        rw [heq]
        exact List.append_left_lt (ofNat_cons_lt (by omega) (by omega))

/-! ## Characters -/

lemma trailing_mono (h : v ≤ w) : trailing v ≤ trailing w := by
  unfold trailing
  split_ifs <;> omega

/-- A character with more bytes behind its first one has the greater first byte. -/
lemma lead_lt_lead (h : trailing v < trailing w) : lead v < lead w := by
  unfold lead
  unfold trailing at h ⊢
  split_ifs at h ⊢ <;> simp only [leadMark] <;> omega

/-- Of two characters, the lower one has the lower bytes in lexicographic order, whatever bytes `s`
and `t` follow. -/
lemma utf8EncodeChar_append_lt {c d : Char} (h : c < d) :
    String.utf8EncodeChar c ++ s < String.utf8EncodeChar d ++ t := by
  have hd := lead_lt (val_lt d)
  have hlt : c.val.toNat < d.val.toNat := h
  rw [utf8EncodeChar_eq, utf8EncodeChar_eq]
  rcases Nat.lt_or_eq_of_le (trailing_mono (Nat.le_of_lt hlt)) with hfewer | hsame
  · obtain ⟨rest, hrest⟩ := exists_markedDigits (leadMark (trailing c.val.toNat))
      (trailing c.val.toNat) c.val.toNat
    obtain ⟨rest', hrest'⟩ := exists_markedDigits (leadMark (trailing d.val.toNat))
      (trailing d.val.toNat) d.val.toNat
    rw [hrest, hrest']
    exact ofNat_cons_lt hd (lead_lt_lead hfewer)
  · rw [hsame]
    exact markedDigits_append_lt hd hlt

/-! ## Texts -/

lemma utf8Bytes_lt {cs ds : List Char} (h : cs < ds) : utf8Bytes cs < utf8Bytes ds := by
  induction h with
  | @nil d ds =>
      obtain ⟨byte, bytes, hd⟩ := List.exists_cons_of_ne_nil (String.utf8EncodeChar_ne_nil (c := d))
      rw [utf8Bytes, utf8Bytes, List.flatMap_cons, hd]
      exact .nil
  | rel h => exact utf8EncodeChar_append_lt h
  | cons _ ih => exact List.append_left_lt ih

/-- **The order of texts by characters implies the order of their bytes in UTF-8.** -/
lemma utf8_lt_of_lt {a b : String} (h : a < b) : a.toUTF8.data.toList < b.toUTF8.data.toList := by
  rw [String.toUTF8_eq_toByteArray, String.toUTF8_eq_toByteArray, ← utf8Bytes_toList,
    ← utf8Bytes_toList]
  exact utf8Bytes_lt (String.lt_iff.1 h)

end Runic.Utf8
