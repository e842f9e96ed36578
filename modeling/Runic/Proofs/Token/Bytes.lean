import Runic.Proofs.Text.Utf8
import Runic.Proofs.Token.Tiling
import Runic.Token.Bytes

/-!
# Bytes and characters give the same tokens

`ByteLexer` steps an index over the bytes of a source, looks one byte ahead and slices the source
between two indices.  `scan` cuts lists of characters.  They agree wherever the index lies between
two characters, because all classes of characters are told by ASCII characters alone, and no byte of
a longer character is ASCII.

* `slice?_eq` — a slice between two characters exists.
* `ByteLexer.At` — the index stands behind some characters, with others in front of it.
* `ByteLexer.At.consumeWhile` — going over bytes as long as they are in a class goes over the
  characters that are.
* `ByteLexer.At.nextToken` — **at such an index the next token is the one that `scan` cuts**, no
  slice fails, and the index behind it lies between characters again.
* `ByteLexer.yields_lex` — so the bytes of a source give out the tokens of `lex`.
* `lex_loses_nothing` — every character of a source is in exactly one token.
-/

namespace Runic

open Utf8 (Alike)

/-! ## Bytes at an offset -/

section

variable {source : String} {before rest : List Char}

lemma toList_toUTF8 (h : source.toList = before ++ rest) :
    source.toUTF8.data.toList = utf8Bytes before ++ utf8Bytes rest := by
  rw [String.toUTF8_eq_toByteArray, ← utf8Bytes_toList, h, utf8Bytes_append]

lemma size_toUTF8 (source : String) : source.toUTF8.size = byteLength source.toList := by
  rw [byteLength_toList]
  rfl

lemma getElem?_toUTF8 (source : String) (i : Nat) :
    source.toUTF8[i]? = source.toUTF8.data.toList[i]? := by
  rw [Array.getElem?_toList]
  rcases Nat.lt_or_ge i source.toUTF8.size with hlt | hge
  · rw [getElem?_pos source.toUTF8 i hlt, getElem?_pos source.toUTF8.data i hlt]
    rfl
  · rw [getElem?_neg source.toUTF8 i (by omega),
      getElem?_neg source.toUTF8.data i (Nat.not_lt.2 hge)]

/-- If the source is `before ++ rest`, then the bytes from `byteLength before` on are those of
`rest`. -/
lemma getElem?_byteLength_add (h : source.toList = before ++ rest) (i : Nat) :
    source.toUTF8[byteLength before + i]? = (utf8Bytes rest)[i]? := by
  rw [getElem?_toUTF8, toList_toUTF8 h, ← length_utf8Bytes, List.getElem?_append_right (by omega),
    Nat.add_sub_cancel_left]

/-- The first byte of a character is no continuation byte. -/
lemma isContinuation_lead (c : Char) : isContinuation (.ofNat (Utf8.lead c.val.toNat)) = false := by
  have hlead : (UInt8.ofNat (Utf8.lead c.val.toNat)).toNat = Utf8.lead c.val.toNat :=
    UInt8.toNat_ofNat_of_lt' (Utf8.lead_lt (Utf8.val_lt c))
  rcases Utf8.lead_lt_or_le c.val.toNat with hascii | hmark
  · have hlow : ¬ 0x80 ≤ UInt8.ofNat (Utf8.lead c.val.toNat) := by
      rw [UInt8.le_iff_toNat_le, hlead]
      exact Nat.not_le.2 hascii
    rw [isContinuation, decide_eq_false hlow, Bool.false_and]
  · have hhigh : ¬ UInt8.ofNat (Utf8.lead c.val.toNat) < 0xC0 := by
      rw [UInt8.lt_iff_toNat_lt, hlead]
      exact Nat.not_lt.2 hmark
    rw [isContinuation, decide_eq_false hhigh, Bool.and_false]

/-- If the source is `before ++ rest`, then `byteLength before` is a character boundary. -/
lemma isCharBoundary_byteLength (h : source.toList = before ++ rest) :
    isCharBoundary source (byteLength before) = true := by
  have hbyte := getElem?_byteLength_add h 0
  rw [Nat.add_zero] at hbyte
  cases rest with
  | nil =>
      have hnone : source.toUTF8[byteLength before]? = none := hbyte
      rw [isCharBoundary, hnone, size_toUTF8, h, List.append_nil]
      exact decide_eq_true rfl
  | cons c rest =>
      obtain ⟨bytes, hbytes⟩ := Utf8.exists_utf8EncodeChar c
      rw [utf8Bytes_cons, hbytes] at hbyte
      have hsome : source.toUTF8[byteLength before]? = some (.ofNat (Utf8.lead c.val.toNat)) :=
        hbyte
      rw [isCharBoundary, hsome]
      exact congrArg (!·) (isContinuation_lead c)

lemma fromUTF8?_utf8Encode (cs : List Char) :
    String.fromUTF8? cs.utf8Encode = some (.ofList cs) := by
  have hbytes : cs.utf8Encode = (String.ofList cs).toByteArray := String.toByteArray_ofList.symm
  rw [hbytes, String.fromUTF8?, dif_pos (String.ofList cs).isValidUTF8]
  rfl

/-- **If the source is `before ++ part ++ rest`, then `slice?` gives `part` between the offsets of
its two ends.** -/
lemma slice?_eq {part : List Char} (h : source.toList = before ++ part ++ rest) :
    slice? source (byteLength before) (byteLength before + byteLength part) =
      some (.ofList part) := by
  have hstart := isCharBoundary_byteLength (h.trans (List.append_assoc _ _ _))
  have hstop := isCharBoundary_byteLength h
  rw [byteLength_append] at hstop
  have hextract : source.toUTF8.extract (byteLength before)
      (byteLength before + byteLength part) = part.utf8Encode := by
    exact extract_toByteArray h
  rw [slice?, hstart, hstop, hextract, fromUTF8?_utf8Encode]
  simp

end

/-! ## One token -/

namespace ByteLexer

/-- The index stands behind the characters `before` of the source, and in front of `rest`. -/
structure At (lexer : ByteLexer) (before rest : List Char) : Prop where
  source : lexer.source.toList = before ++ rest
  index : lexer.index = byteLength before

variable {lexer : ByteLexer} {before part rest : List Char} {c : Char}

lemma At.getElem? (h : lexer.At before rest) (i : Nat) :
    lexer.source.toUTF8[lexer.index + i]? = (utf8Bytes rest)[i]? := by
  rw [h.index]
  exact getElem?_byteLength_add h.source i

/-- At the end of the source `peek?` finds no byte. -/
lemma At.peek?_nil (h : lexer.At before []) : lexer.peek? = none := by
  have hbyte := h.getElem? 0
  rw [Nat.add_zero] at hbyte
  rw [peek?, hbyte]
  rfl

/-- In front of the character `c`, `peek?` finds the first byte of `c`.  Read as a character, this
is `c` or neither of the two is ASCII. -/
lemma At.peek?_cons (h : lexer.At before (c :: rest)) :
    ∃ x, lexer.peek? = some x ∧ Alike x c := by
  obtain ⟨bytes, hbytes⟩ := Utf8.exists_utf8EncodeChar c
  have hbyte := h.getElem? 0
  rw [Nat.add_zero, utf8Bytes_cons, hbytes] at hbyte
  refine ⟨_, by rw [peek?, hbyte]; rfl, Utf8.alike_of_mem ?_⟩
  rw [hbytes]
  exact List.mem_cons_self

/-- If the lexer advances over the bytes of `part`, the rest stands ahead of it. -/
lemma At.advance (h : lexer.At before (part ++ rest)) :
    (lexer.advance (byteLength part)).At (before ++ part) rest :=
  ⟨by rw [List.append_assoc]; exact h.source, by rw [byteLength_append, ← h.index]; rfl⟩

/-- The token over the characters `part` exists, since both of its ends are character boundaries. -/
lemma At.token? (h : lexer.At before (part ++ rest)) (kind : Kind) :
    (lexer.advance (byteLength part)).token? kind lexer.index =
      some (⟨kind, .ofList part, ⟨lexer.index, lexer.index + byteLength part⟩⟩,
        lexer.advance (byteLength part)) := by
  have hslice : slice? (lexer.advance (byteLength part)).source lexer.index
      (lexer.advance (byteLength part)).index = some (.ofList part) := by
    rw [ByteLexer.advance, h.index]
    exact slice?_eq (h.source.trans (List.append_assoc _ _ _).symm)
  rw [ByteLexer.token?, hslice]
  rfl

/-- The bytes of the source from the index on. -/
def ahead (lexer : ByteLexer) : List UInt8 := lexer.source.toUTF8.data.toList.drop lexer.index

lemma At.ahead_eq (h : lexer.At before rest) : lexer.ahead = utf8Bytes rest := by
  rw [ahead, toList_toUTF8 h.source, h.index, ← length_utf8Bytes, List.drop_left]

lemma peek?_eq_head? (lexer : ByteLexer) : lexer.peek? = lexer.ahead.head?.map Char.ofUInt8 := by
  rw [peek?, getElem?_toUTF8, ahead, List.head?_drop]

lemma tail_ahead (lexer : ByteLexer) : (lexer.advance 1).ahead = lexer.ahead.tail := by
  rw [ahead, ahead, List.tail_drop]
  rfl

lemma advance_advance (lexer : ByteLexer) (m n : Nat) :
    (lexer.advance m).advance n = lexer.advance (m + n) := by
  rw [advance, advance, advance, Nat.add_assoc]

/-- The loop `consumeWhile part` moves the index over the longest run of bytes that are in the class
`part` when read as characters. -/
lemma consumeWhile_eq (part : Char → Bool) (lexer : ByteLexer) : lexer.consumeWhile part =
    lexer.advance (lexer.ahead.takeWhile fun byte => part (.ofUInt8 byte)).length := by
  fun_induction consumeWhile part lexer with
  | case1 lexer c hpeek hpart ih =>
      rw [peek?_eq_head?, Option.map_eq_some_iff] at hpeek
      obtain ⟨byte, hbyte, rfl⟩ := hpeek
      obtain ⟨bytes, hbytes⟩ := List.head?_eq_some_iff.1 hbyte
      rw [ih, tail_ahead, hbytes, List.tail_cons, List.takeWhile_cons_of_pos (by exact hpart),
        List.length_cons, advance_advance, Nat.add_comm]
  | case2 lexer c hpeek hpart =>
      rw [peek?_eq_head?, Option.map_eq_some_iff] at hpeek
      obtain ⟨byte, hbyte, rfl⟩ := hpeek
      obtain ⟨bytes, hbytes⟩ := List.head?_eq_some_iff.1 hbyte
      rw [hbytes, List.takeWhile_cons_of_neg (by exact hpart)]
      rfl
  | case3 lexer hpeek =>
      rw [peek?_eq_head?, Option.map_eq_none_iff, List.head?_eq_none_iff] at hpeek
      rw [hpeek]
      rfl

end ByteLexer

/-! ## Classes -/

/-- The class `part` tells no two characters apart that are `Alike`: it has all characters beyond
ASCII or none of them. -/
def ByAscii (part : Char → Bool) : Prop := ∀ x c, Alike x c → part x = part c

/-- If the class `part` goes by ASCII, then the longest run of bytes in it is made of the bytes of
the longest run of characters in it. -/
lemma ByAscii.takeWhile {part : Char → Bool} (h : ByAscii part) (cs : List Char) :
    ((utf8Bytes cs).takeWhile fun byte => part (.ofUInt8 byte)) =
      utf8Bytes (cs.takeWhile part) := by
  have hbytes : ∀ c, ∀ byte ∈ String.utf8EncodeChar c, part (.ofUInt8 byte) = part c :=
    fun c byte hbyte => h _ _ (Utf8.alike_of_mem hbyte)
  induction cs with
  | nil => rfl
  | cons c cs ih =>
      by_cases hc : part c = true
      · have hall : ∀ byte ∈ String.utf8EncodeChar c, part (.ofUInt8 byte) = true := by
          intro byte hbyte
          rw [hbytes c byte hbyte, hc]
        rw [utf8Bytes_cons, List.takeWhile_append_of_pos hall, ih, List.takeWhile_cons_of_pos hc,
          utf8Bytes_cons]
      · obtain ⟨bytes, hfirst⟩ := Utf8.exists_utf8EncodeChar c
        have hstop : part (.ofUInt8 (.ofNat (Utf8.lead c.val.toNat))) = part c :=
          hbytes c _ (by rw [hfirst]; exact List.mem_cons_self)
        rw [utf8Bytes_cons, hfirst, List.cons_append, List.takeWhile_cons_of_neg (by rwa [hstop]),
          List.takeWhile_cons_of_neg hc]
        rfl

/-- A class that all characters beyond ASCII are in, or none of them, goes by ASCII. -/
lemma byAscii_of_beyond {part : Char → Bool} (among : Bool)
    (h : ∀ c : Char, 128 ≤ c.toNat → part c = among) : ByAscii part := by
  rintro x c (rfl | ⟨hx, hc⟩)
  · rfl
  · rw [h x hx, h c hc]

section

variable {c d x : Char}

lemma ne_of_beyond (hc : 128 ≤ c.toNat) (hd : d.toNat < 128) : c ≠ d := by
  rintro rfl
  omega

lemma byAscii_isBlank : ByAscii isBlank :=
  byAscii_of_beyond false fun c hc => by
    simp [isBlank, ne_of_beyond hc (by decide : ' '.toNat < 128),
      ne_of_beyond hc (by decide : '\n'.toNat < 128)]

lemma isFaceStart_of_beyond (hc : 128 ≤ c.toNat) : isFaceStart c = false := by
  have hle : ¬ c ≤ 'z' := fun hle => absurd (Nat.le_trans hc hle) (by decide)
  simp [isFaceStart, hle]

lemma isNumStart_of_beyond (hc : 128 ≤ c.toNat) : isNumStart c = false := by
  have hle : ¬ c ≤ '9' := fun hle => absurd (Nat.le_trans hc hle) (by decide)
  simp [isNumStart, hle]

lemma byAscii_isFacePart : ByAscii isFacePart :=
  byAscii_of_beyond false fun c hc => by
    simp [isFacePart, isFaceStart_of_beyond hc, ne_of_beyond hc (by decide : '-'.toNat < 128)]

lemma byAscii_isNumPart : ByAscii isNumPart :=
  byAscii_of_beyond false fun c hc => by
    simp [isNumPart, isNumStart_of_beyond hc, ne_of_beyond hc (by decide : '.'.toNat < 128)]

lemma byAscii_ne_newline : ByAscii fun c => c ≠ '\n' :=
  byAscii_of_beyond true fun c hc => decide_eq_true (ne_of_beyond hc (by decide))

lemma Glyph.toNat_char_lt (g : Glyph) : g.char.toNat < 128 := by
  cases g <;> decide

lemma Glyph.ofChar?_of_beyond (hc : 128 ≤ c.toNat) : ofChar? c = none := by
  rw [ofChar?, List.find?_eq_none]
  intro g _
  simpa using (ne_of_beyond hc g.toNat_char_lt).symm

/-- Both characters of a rune of the vocabulary are ASCII. -/
lemma Rune.toNat_lt_of_ofChars? (h : (ofChars? c d).isSome = true) :
    c.toNat < 128 ∧ d.toNat < 128 := by
  obtain ⟨r, hr⟩ := Option.isSome_iff_exists.1 h
  obtain ⟨a, b, -, rfl, rfl⟩ := glyphs_of_ofChars hr
  exact ⟨a.toNat_char_lt, b.toNat_char_lt⟩

/-- Both characters of a closer are ASCII. -/
lemma Kind.toNat_lt_of_closer? {kind : Kind} (h : closer? c d = some kind) :
    c.toNat < 128 ∧ d.toNat < 128 := by
  unfold closer? at h
  split_ifs at h with hhep htis
  · rw [hhep.1, hhep.2]
    decide
  · rw [htis.1, htis.2]
    decide

/-- Two characters that are not both ASCII form neither a comment nor a rune of the vocabulary nor a
closer. -/
lemma pair_of_beyond (h : 128 ≤ c.toNat ∨ 128 ≤ d.toNat) :
    ¬ (c = ':' ∧ d = ':') ∧ Rune.ofChars? c d = none ∧ Kind.closer? c d = none := by
  refine ⟨?_, ?_, ?_⟩
  · rintro ⟨rfl, rfl⟩
    exact absurd h (by decide)
  · refine Option.not_isSome_iff_eq_none.1 fun hrune => ?_
    have hascii := Rune.toNat_lt_of_ofChars? hrune
    omega
  · refine Option.eq_none_iff_forall_ne_some.2 fun kind hcloser => ?_
    have hascii := Kind.toNat_lt_of_closer? hcloser
    omega

/-- So the tests for a comment, a rune and a closer do not tell whether the second character is `d`
or a byte of `d`. -/
lemma pair_of_alike (h : Alike x d) : (c = ':' ∧ x = ':' ↔ c = ':' ∧ d = ':') ∧
    Rune.ofChars? c x = Rune.ofChars? c d ∧ Kind.closer? c x = Kind.closer? c d := by
  rcases h with rfl | ⟨hx, hd⟩
  · exact ⟨Iff.rfl, rfl, rfl⟩
  · obtain ⟨hcolons, hrune, hcloser⟩ := pair_of_beyond (c := c) (.inr hx)
    obtain ⟨hcolons', hrune', hcloser'⟩ := pair_of_beyond (c := c) (.inr hd)
    rw [hrune, hrune', hcloser, hcloser']
    exact ⟨iff_of_false hcolons hcolons', rfl, rfl⟩

lemma cutSymbol_of_beyond (hc : 128 ≤ c.toNat) (cs : List Char) :
    cutSymbol c cs = cutMark c cs := by
  cases cs with
  | nil => rfl
  | cons d cs =>
      obtain ⟨hcolons, hrune, hcloser⟩ := pair_of_beyond (d := d) (.inl hc)
      rw [cutSymbol, if_neg hcolons, hrune, hcloser]
      rfl

lemma utf8Size_of_ascii (hc : c.toNat < 128) : c.utf8Size = 1 := by
  rw [Char.utf8Size_eq_one_iff, UInt32.le_iff_toNat_le]
  exact Nat.le_of_lt_succ hc

end

/-! ## One token -/

namespace ByteLexer

variable {lexer : ByteLexer} {before rest : List Char} {c x : Char}

/-- The answer that agrees with `cut`: its token at the index, and the lexer with the index behind
its text. -/
def answer (lexer : ByteLexer) (cut : Cut) : Option (Token × ByteLexer) :=
  some (cut.token lexer.index, lexer.advance (byteLength cut.text))

/-- The token over the text of a cut of `rest` exists, and with its lexer it is `answer cut`. -/
lemma At.token?_cut (h : lexer.At before rest) {cut : Cut} (hcut : cut.text ++ cut.rest = rest) :
    (lexer.advance (byteLength cut.text)).token? cut.kind lexer.index = lexer.answer cut := by
  rw [← hcut] at h
  exact h.token? cut.kind

/-- The token over two ASCII characters ends two bytes behind the index. -/
lemma At.token?_pair {d : Char} (h : lexer.At before (c :: d :: rest)) (hc : c.toNat < 128)
    (hd : d.toNat < 128) (kind : Kind) :
    (lexer.advance 2).token? kind lexer.index = lexer.answer ⟨kind, [c, d], rest⟩ := by
  have hlength : byteLength [c, d] = 2 := by
    rw [byteLength_cons, byteLength_cons, byteLength_nil, utf8Size_of_ascii hc,
      utf8Size_of_ascii hd]
  have hcut : (Cut.mk kind [c, d] rest).text ++ (Cut.mk kind [c, d] rest).rest = c :: d :: rest :=
    rfl
  have htoken := h.token?_cut hcut
  rwa [hlength] at htoken

/-- **If the class `part` goes by ASCII, then `consumeWhile part` moves the index over the
characters that `takeWhile part` takes.** -/
lemma At.consumeWhile (h : lexer.At before rest) {part : Char → Bool} (hpart : ByAscii part) :
    lexer.consumeWhile part = lexer.advance (byteLength (rest.takeWhile part)) := by
  rw [consumeWhile_eq, h.ahead_eq, hpart.takeWhile, length_utf8Bytes]

lemma At.cutWhile (h : lexer.At before rest) {part : Char → Bool} (hpart : ByAscii part)
    (kind : List Char → Kind) :
    (lexer.consumeWhile part).token? (kind (rest.takeWhile part)) lexer.index =
      lexer.answer (cutWhile kind part rest) := by
  rw [h.consumeWhile hpart]
  exact h.token?_cut (cutWhile_append kind part rest)

lemma At.separator? (h : lexer.At before rest) :
    lexer.separator? = lexer.answer (Runic.cutWhile separatorKind isBlank rest) := by
  have hrun : lexer.source.toList = before ++ rest.takeWhile isBlank ++ rest.dropWhile isBlank := by
    rw [List.append_assoc, List.takeWhile_append_dropWhile]
    exact h.source
  have hslice : slice? lexer.source lexer.index (lexer.consumeWhile isBlank).index =
      some (.ofList (rest.takeWhile isBlank)) := by
    rw [h.consumeWhile byAscii_isBlank, ByteLexer.advance, h.index]
    exact slice?_eq hrun
  have hkind : (if String.ofList (rest.takeWhile isBlank) = " " then Kind.ace else .gap) =
      separatorKind (rest.takeWhile isBlank) := by
    unfold separatorKind
    refine if_congr ?_ rfl rfl
    rw [← String.toList_inj, String.toList_ofList]
    rfl
  rw [ByteLexer.separator?, hslice]
  dsimp only [Option.bind_eq_bind, Option.bind_some]
  rw [hkind]
  exact h.cutWhile byAscii_isBlank separatorKind

/-- The function `mark?` agrees with `cutMark`; a character that is no mark is cut with all of its
bytes. -/
lemma At.mark? (h : lexer.At before (c :: rest)) (hx : Alike x c) :
    lexer.mark? x = lexer.answer (cutMark c rest) := by
  have hglyph : Glyph.ofChar? x = Glyph.ofChar? c := by
    rcases hx with rfl | ⟨hx, hc⟩
    · rfl
    · rw [Glyph.ofChar?_of_beyond hx, Glyph.ofChar?_of_beyond hc]
  have htoken := h.token?_cut (cutMark_append c rest)
  unfold ByteLexer.mark?
  unfold cutMark at htoken ⊢
  rw [hglyph]
  cases hfound : Glyph.ofChar? c with
  | some glyph =>
      have hc : c.toNat < 128 := by
        by_contra hc
        rw [Glyph.ofChar?_of_beyond (Nat.not_lt.1 hc)] at hfound
        cases hfound
      rw [hfound] at htoken
      dsimp only [byteLength_cons, byteLength_nil] at htoken
      rw [utf8Size_of_ascii hc] at htoken
      exact htoken
  | none =>
      have hslice : slice? lexer.source lexer.index lexer.source.toUTF8.size =
          some (.ofList (c :: rest)) := by
        rw [size_toUTF8, h.source, byteLength_append, h.index]
        exact slice?_eq (h.source.trans (List.append_nil _).symm)
      rw [hfound] at htoken
      dsimp only
      rw [hslice]
      simpa using htoken

lemma symbol?_of_beyond (hx : 128 ≤ x.toNat) : lexer.symbol? x = lexer.mark? x := by
  unfold symbol?
  cases lexer.peekNext? with
  | none => rfl
  | some d =>
      obtain ⟨hcolons, hrune, hcloser⟩ := pair_of_beyond (d := d) (.inl hx)
      dsimp only
      rw [if_neg hcolons, hrune, hcloser]
      rfl

/-- Behind an ASCII character `c`, `peekNext?` finds the first byte of what follows. -/
lemma At.peekNext? (h : lexer.At before (c :: rest)) (hc : c.toNat < 128) :
    (lexer.advance 1).At (before ++ [c]) rest ∧ lexer.peekNext? = (lexer.advance 1).peek? := by
  refine ⟨?_, rfl⟩
  have hadvance : (lexer.advance (byteLength [c])).At (before ++ [c]) rest := At.advance h
  rwa [byteLength_cons, byteLength_nil, utf8Size_of_ascii hc] at hadvance

lemma At.symbol? (h : lexer.At before (c :: rest)) (hx : Alike x c) :
    lexer.symbol? x = lexer.answer (cutSymbol c rest) := by
  rcases Nat.lt_or_ge c.toNat 128 with hc | hc
  · obtain rfl : x = c := hx.resolve_right fun hbeyond => Nat.not_le.2 hc hbeyond.2
    obtain ⟨hbehind, hnext⟩ := h.peekNext? hc
    unfold ByteLexer.symbol?
    rw [hnext]
    cases rest with
    | nil =>
        rw [hbehind.peek?_nil]
        exact h.mark? (.inl rfl)
    | cons d ds =>
        obtain ⟨y, hy, halike⟩ := hbehind.peek?_cons
        obtain ⟨hcolons, hrune, hcloser⟩ := pair_of_alike (c := x) halike
        rw [hy, cutSymbol]
        dsimp only
        rw [hrune, hcloser]
        by_cases hcomment : x = ':' ∧ d = ':'
        · rw [if_pos (hcolons.2 hcomment), if_pos hcomment]
          exact h.cutWhile byAscii_ne_newline fun _ => .comment
        rw [if_neg (hcolons.not.2 hcomment), if_neg hcomment]
        by_cases hfound : (Rune.ofChars? x d).isSome = true
        · rw [if_pos hfound, if_pos hfound]
          exact h.token?_pair hc (Rune.toNat_lt_of_ofChars? hfound).2 .rune
        rw [if_neg hfound, if_neg hfound]
        cases hclosed : Kind.closer? x d with
        | none => exact h.mark? (.inl rfl)
        | some kind => exact h.token?_pair hc (Kind.toNat_lt_of_closer? hclosed).2 kind
  · have hbeyond : 128 ≤ x.toNat := by
      rcases hx with rfl | hx
      · exact hc
      · exact hx.1
    rw [symbol?_of_beyond hbeyond, cutSymbol_of_beyond hc]
    exact h.mark? hx

/-- **At an index between characters the next token is the one that `scan` cuts.**  No slice fails,
and the index behind the token lies between characters again. -/
theorem At.nextToken (h : lexer.At before rest) :
    lexer.nextToken =
        some ((scan rest).token lexer.index, lexer.advance (byteLength (scan rest).text)) ∧
      (lexer.advance (byteLength (scan rest).text)).At (before ++ (scan rest).text)
        (scan rest).rest := by
  refine ⟨?_, At.advance (by rwa [scan_append])⟩
  change lexer.nextToken = lexer.answer (scan rest)
  unfold ByteLexer.nextToken
  cases rest with
  | nil =>
      rw [h.peek?_nil]
      exact h.token?_cut (scan_append [])
  | cons c cs =>
      obtain ⟨x, hx, halike⟩ := h.peek?_cons
      have hblank := byAscii_isBlank x c halike
      have hface : isFaceStart x = isFaceStart c :=
        byAscii_of_beyond false (fun _ => isFaceStart_of_beyond) x c halike
      have hnum : isNumStart x = isNumStart c :=
        byAscii_of_beyond false (fun _ => isNumStart_of_beyond) x c halike
      rw [hx]
      dsimp only
      rw [hblank, hface, hnum, scan]
      split
      · exact h.separator?
      · split
        · exact h.cutWhile byAscii_isFacePart fun _ => .face
        · split
          · exact h.cutWhile byAscii_isNumPart fun _ => .num
          · exact h.symbol? halike

/-! ## One token after another -/

/-- The index of `bytes` stands where the characters of `lexer` start, and both have given out the
end of the source or both have not. -/
structure Agrees (bytes : ByteLexer) (lexer : Lexer) : Prop where
  place : ∃ before, bytes.At before lexer.rest
  offset : lexer.offset = bytes.index
  finished : lexer.finished = bytes.finished

lemma agrees_ofSource (source : String) : (ofSource source).Agrees (.ofSource source) :=
  ⟨⟨[], ⟨rfl, rfl⟩⟩, rfl, rfl⟩

variable {bytes : ByteLexer} {chars : Lexer}

lemma Agrees.nextToken (h : bytes.Agrees chars) :
    ∃ bytes', bytes.nextToken = some (chars.nextToken.1, bytes') ∧
      bytes'.Agrees chars.nextToken.2 := by
  obtain ⟨before, hplace⟩ := h.place
  obtain ⟨hnext, hbehind⟩ := hplace.nextToken
  rw [← h.offset] at hnext
  refine ⟨_, hnext, ⟨_, hbehind⟩, ?_, h.finished⟩
  exact congrArg (· + byteLength (scan chars.rest).text) h.offset

/-- **If two lexers over bytes and over characters agree, they give the same next token and agree
again behind it.** -/
lemma Agrees.next? (h : bytes.Agrees chars) :
    ∃ bytes', bytes.next? = some (chars.next?.1, bytes') ∧ bytes'.Agrees chars.next?.2 := by
  unfold ByteLexer.next? Lexer.next?
  rw [← h.finished]
  split
  · exact ⟨bytes, rfl, h⟩
  · obtain ⟨bytes', hnext, hagrees⟩ := h.nextToken
    obtain ⟨before, hplace⟩ := hagrees.place
    rw [hnext]
    exact ⟨_, rfl, ⟨before, hplace.source, hplace.index⟩, hagrees.offset, rfl⟩

/-- The lexer gives out the tokens of the list, one by one, and then nothing.  No slice is refused
on the way. -/
inductive Yields : ByteLexer → List Token → Prop
  | nothing {lexer behind : ByteLexer} : lexer.next? = some (none, behind) → Yields lexer []
  | token {lexer behind : ByteLexer} {t : Token} {ts : List Token} :
      lexer.next? = some (some t, behind) → Yields behind ts → Yields lexer (t :: ts)

lemma Agrees.yields (h : bytes.Agrees chars) {ts : List Token} (hts : chars.Yields ts) :
    bytes.Yields ts := by
  induction hts generalizing bytes with
  | nothing hnone =>
      obtain ⟨bytes', hnext, -⟩ := h.next?
      rw [hnone] at hnext
      exact .nothing hnext
  | token hsome _ ih =>
      obtain ⟨bytes', hnext, hagrees⟩ := h.next?
      rw [hsome] at hnext hagrees
      exact .token hnext (ih hagrees)

/-- The bytes of a source give out the tokens of `lex`, and no slice fails. -/
lemma yields_lex (source : String) : (ofSource source).Yields (lex source) :=
  (agrees_ofSource source).yields (Lexer.yields_lexFrom 0 source.toList)

end ByteLexer

/-! ## A whole source -/

/-- **Cutting a source into tokens loses nothing.** A lexer that steps over the bytes of the source
never slices it inside of a character.  It gives out finitely many tokens, and cutting the
characters of the source gives the same ones.  The last of them and no other is the end, which is
empty and stands behind the last byte.  The first starts at the first byte, each of the others where
the one before it ends, and only the end has no text.  The ends of every token lie between two
characters of the source, the text of the token is what stands between them, and all texts one
behind the other are the source. -/
theorem lex_loses_nothing (source : String) :
    (ByteLexer.ofSource source).Yields (lex source) ∧
      (Lexer.ofSource source).Yields (lex source) ∧
      (∃ ts, lex source = ts ++ [⟨.eof, "", ⟨source.utf8ByteSize, source.utf8ByteSize⟩⟩] ∧
        ∀ t ∈ ts, t.kind ≠ .eof ∧ t.text ≠ "") ∧
      (lex source).head?.map (fun t => t.span.start) = some 0 ∧
      (lex source).IsChain (fun t u => t.span.stop = u.span.start) ∧
      (∀ t ∈ lex source, IsBoundary source t.span.start ∧ IsBoundary source t.span.stop ∧
        t.span.slice? source = some t.text) ∧
      String.join ((lex source).map Token.text) = source := by
  have htiles := tiles_lexFrom 0 source.toList
  obtain ⟨ts, hts, hne⟩ := lex_eq source
  refine ⟨ByteLexer.yields_lex source, Lexer.yields_lexFrom 0 source.toList,
    ⟨ts, hts, fun t ht => ⟨hne t ht, ?_⟩⟩, ?_, htiles.isChain, fun t ht => ?_, ?_⟩
  · have hmem : t ∈ lexFrom 0 source.toList := by
      rw [← lex, hts]
      exact List.mem_append_left _ ht
    exact text_ne_of_mem_lexFrom hmem (hne t ht)
  · change Tiles 0 (lex source) _ at htiles
    cases hlex : lex source with
    | nil => simp [hlex] at hts
    | cons t us =>
        rw [hlex] at htiles
        exact congrArg some htiles.1
  · have hslice := slice_of_mem_lexFrom (source.toList.nil_append.symm) rfl ht
    exact ⟨(Span.isBoundary_of_slice hslice).2.1, (Span.isBoundary_of_slice hslice).2.2, hslice⟩
  · rw [← String.toList_inj, String.toList_join, List.flatMap_map]
    exact flatMap_lexFrom 0 source.toList

end Runic
