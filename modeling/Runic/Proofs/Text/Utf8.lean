import Mathlib.Algebra.Group.Nat.Defs
import Runic.Proofs.Text.Slice

/-!
# The bytes of a text

In UTF-8 a character is a lead byte and digits to the base 64 behind it.  An ASCII character is one
byte, which is its code, and every byte of another character lies above all of ASCII.

* `utf8Bytes` — the bytes of a list of characters.
* `Utf8.utf8EncodeChar_eq` — the bytes of a character as a lead byte with a mark, and digits.
* `Utf8.alike_of_mem` — **a byte that is read as a character is the character that it belongs to, or
  neither of the two is ASCII.**
* `Utf8.lead_lt_or_le` — no first byte of a character is one that continues a character.
-/

namespace Runic

/-- The bytes of the characters `cs` in UTF-8. -/
def utf8Bytes (cs : List Char) : List UInt8 := cs.flatMap String.utf8EncodeChar

lemma utf8Bytes_cons (c : Char) (cs : List Char) :
    utf8Bytes (c :: cs) = String.utf8EncodeChar c ++ utf8Bytes cs := rfl

lemma utf8Bytes_append (cs ds : List Char) : utf8Bytes (cs ++ ds) = utf8Bytes cs ++ utf8Bytes ds :=
  List.flatMap_append

lemma length_utf8Bytes (cs : List Char) : (utf8Bytes cs).length = byteLength cs := by
  induction cs with
  | nil => rfl
  | cons c cs ih =>
      rw [utf8Bytes_cons, List.length_append, String.length_utf8EncodeChar, byteLength_cons, ih]

lemma utf8Bytes_toList (text : String) : utf8Bytes text.toList = text.toByteArray.data.toList := by
  rw [← String.utf8Encode_toList]
  simp [List.utf8Encode, utf8Bytes]

namespace Utf8

variable {mark count v : Nat}

/-! ## Digits -/

/-- The number `v` as `count + 1` digits to the base 64: the first one has the mark `mark` added and
need not be below 64, and the others have the mark of a continuation byte. -/
def markedDigits (mark : Nat) : Nat → Nat → List UInt8
  | 0, v => [.ofNat (v + mark)]
  | count + 1, v => markedDigits mark count (v / 64) ++ [.ofNat (v % 64 + 128)]

lemma exists_markedDigits (mark count v : Nat) :
    ∃ rest, markedDigits mark count v = .ofNat (v / 64 ^ count + mark) :: rest := by
  induction count generalizing v with
  | zero => exact ⟨[], by rw [markedDigits, Nat.pow_zero, Nat.div_one]⟩
  | succ count ih =>
      obtain ⟨rest, hrest⟩ := ih (v / 64)
      refine ⟨rest ++ [.ofNat (v % 64 + 128)], ?_⟩
      rw [markedDigits, hrest, Nat.div_div_eq_div_mul, ← Nat.pow_succ', List.cons_append]

/-- If the first byte of `markedDigits` is no ASCII character, then no byte of it is. -/
lemma le_of_mem_markedDigits (hlead : 128 ≤ v / 64 ^ count + mark)
    (hbyte : v / 64 ^ count + mark < 256) {byte : UInt8} (h : byte ∈ markedDigits mark count v) :
    128 ≤ byte.toNat := by
  induction count generalizing v with
  | zero =>
      rw [Nat.pow_zero, Nat.div_one] at hlead hbyte
      rw [List.mem_singleton.1 h, UInt8.toNat_ofNat_of_lt' hbyte]
      exact hlead
  | succ count ih =>
      rw [Nat.pow_succ', ← Nat.div_div_eq_div_mul] at hlead hbyte
      rw [markedDigits, List.mem_append, List.mem_singleton] at h
      rcases h with h | rfl
      · exact ih hlead hbyte h
      · have hdigit : v % 64 + 128 < 256 := by omega
        rw [UInt8.toNat_ofNat_of_lt' hdigit]
        omega

/-! ## Characters -/

/-- The number of bytes behind the first one, in the UTF-8 form of the code point `v`. -/
def trailing (v : Nat) : Nat :=
  if v ≤ 127 then 0 else if v ≤ 2047 then 1 else if v ≤ 65535 then 2 else 3

/-- The mark in the first byte of a character with so many bytes behind it. -/
def leadMark : Nat → Nat
  | 0 => 0
  | 1 => 192
  | 2 => 224
  | _ => 240

/-- The first byte in the UTF-8 form of the code point `v`. -/
def lead (v : Nat) : Nat := v / 64 ^ trailing v + leadMark (trailing v)

lemma lead_lt (hv : v < 1114112) : lead v < 256 := by
  unfold lead trailing
  split_ifs <;> simp only [leadMark] <;> omega

/-- A first byte is an ASCII character, or at least 192; so it is no continuation byte. -/
lemma lead_lt_or_le (v : Nat) : lead v < 128 ∨ 192 ≤ lead v := by
  unfold lead trailing
  split_ifs <;> simp only [leadMark] <;> omega

lemma le_lead (h : 128 ≤ v) : 128 ≤ lead v := by
  unfold lead trailing
  split_ifs <;> simp only [leadMark] <;> omega

lemma val_lt (c : Char) : c.val.toNat < 1114112 := by
  rcases c.valid with h | h <;> omega

/-- The UTF-8 form of a character is its code point in `markedDigits`, with `trailing` bytes behind
the first one. -/
lemma utf8EncodeChar_eq (c : Char) :
    String.utf8EncodeChar c =
      markedDigits (leadMark (trailing c.val.toNat)) (trailing c.val.toNat) c.val.toNat := by
  have hv := val_lt c
  unfold String.utf8EncodeChar trailing
  dsimp only
  generalize c.val.toNat = v at hv
  split_ifs
  · rfl
  -- the remainder of the high part is the high part
  · have hhigh : v / 64 % 32 = v / 64 := by omega
    rw [hhigh]
    rfl
  · have hhigh : v / 4096 % 16 = v / 64 / 64 := by omega
    rw [hhigh]
    rfl
  · have hhigh : v / 262144 % 8 = v / 64 / 64 / 64 := by omega
    have hnext : v / 4096 % 64 = v / 64 / 64 % 64 := by omega
    rw [hhigh, hnext]
    rfl

/-- The UTF-8 form of a character starts with `lead` of its code point. -/
lemma exists_utf8EncodeChar (c : Char) :
    ∃ bytes, String.utf8EncodeChar c = .ofNat (lead c.val.toNat) :: bytes := by
  rw [utf8EncodeChar_eq]
  exact exists_markedDigits _ _ _

/-- The characters `x` and `c` are the same, or neither of them is ASCII. No test of the lexer tells
them apart. -/
def Alike (x c : Char) : Prop := x = c ∨ 128 ≤ x.toNat ∧ 128 ≤ c.toNat

/-- **A byte of a character, read as a character, is that character, or neither of them is
ASCII.** -/
lemma alike_of_mem {c : Char} {byte : UInt8} (h : byte ∈ String.utf8EncodeChar c) :
    Alike (Char.ofUInt8 byte) c := by
  rw [utf8EncodeChar_eq] at h
  rcases Nat.lt_or_ge c.val.toNat 128 with hascii | hbeyond
  · have htrailing : trailing c.val.toNat = 0 := if_pos (Nat.le_of_lt_succ hascii)
    rw [htrailing] at h
    obtain rfl : byte = .ofNat c.val.toNat := List.mem_singleton.1 h
    refine .inl (Char.ext (UInt32.toNat_inj.1 ?_))
    exact UInt8.toNat_ofNat_of_lt' (Nat.lt_trans hascii (by decide))
  · exact .inr ⟨le_of_mem_markedDigits (le_lead hbeyond) (lead_lt (val_lt c)) h, hbeyond⟩

end Utf8

end Runic
