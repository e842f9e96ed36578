import Mathlib.Data.List.Infix
import Mathlib.Data.List.Nodup
import Runic.Proofs.Ir.Runs
import Runic.Proofs.Text.Utf8

/-!
# Reading identifiers back

A name is written bare or between quotes, and a reader of the text has to find out where it ends and
what it was.  Between quotes a backslash with two hexadecimal digits stands for a byte.  The
function `quoteName` escapes neither such a backslash nor a quote inside of a name, so not every
name is read back.

* `readName?` — reading an identifier: its bytes, and what stands behind it.
* `unescape_eq_iff` — between quotes a name stands for itself exactly if there is no escape in it.
* `quoted_names_read` — **a name is read back exactly if it has neither a quote nor an escape in
  it**; and the functions of a module with one exported function have different symbols.
-/

namespace Runic.Ir

/-! ## Reading -/

/-- The character may stand in an identifier without quotes. -/
def isIdentifierPart (c : Char) : Bool :=
  ('a' ≤ c && c ≤ 'z') || ('A' ≤ c && c ≤ 'Z') || ('0' ≤ c && c ≤ '9') || ['.', '_', '-'].contains c

/-- The value of a hexadecimal digit, of either case. -/
def hexValue (c : Char) : Nat :=
  if c.isDigit then c.toNat - '0'.toNat else c.toLower.toNat - 'a'.toNat + 10

/-- The bytes that the characters between two quotes stand for: a backslash with two hexadecimal
digits is one byte, and every other character is itself. -/
def unescape : List Char → List UInt8
  | '\x5c' :: a :: b :: cs =>
    if a.isHexDigit && b.isHexDigit then .ofNat (16 * hexValue a + hexValue b) :: unescape cs
    else String.utf8EncodeChar '\x5c' ++ unescape (a :: b :: cs)
  | c :: cs => String.utf8EncodeChar c ++ unescape cs
  | [] => []

/-- Read an identifier off the front of a text, and return its bytes and what follows.  One that
starts with a quote ends at the next quote; any other is made of the characters that need no quotes
and does not start with a digit. -/
def readName? : List Char → Option (List UInt8 × List Char)
  | '\x22' :: cs =>
    match cs.dropWhile (· ≠ '\x22') with
    | [] => none
    | _ :: rest => some (unescape (cs.takeWhile (· ≠ '\x22')), rest)
  | cs =>
    if cs.head?.any fun c => isIdentifierPart c && !c.isDigit then
      some (utf8Bytes (cs.takeWhile isIdentifierPart), cs.dropWhile isIdentifierPart)
    else none

/-! ## Escapes -/

/-- Somewhere in `cs` a backslash stands in front of two hexadecimal digits. -/
def HasEscape (cs : List Char) : Prop :=
  ∃ a b, ['\x5c', a, b] <:+: cs ∧ a.isHexDigit = true ∧ b.isHexDigit = true

lemma not_hasEscape_nil : ¬ HasEscape [] := by
  rintro ⟨a, b, hinside, -⟩
  exact absurd hinside.length_le (by simp)

/-- An escape in `c :: cs` stands at the front or in `cs`. -/
lemma hasEscape_cons {c : Char} {cs : List Char} : HasEscape (c :: cs) ↔
    (∃ a b rest, c = '\x5c' ∧ cs = a :: b :: rest ∧ a.isHexDigit = true ∧ b.isHexDigit = true) ∨
      HasEscape cs := by
  simp only [HasEscape, List.infix_cons_iff, or_and_right, exists_or]
  refine or_congr_left ⟨?_, ?_⟩
  · rintro ⟨a, b, ⟨rest, hrest⟩, ha, hb⟩
    obtain ⟨rfl, rfl⟩ := List.cons.inj hrest
    exact ⟨a, b, rest, rfl, rfl, ha, hb⟩
  · rintro ⟨a, b, rest, rfl, rfl, ha, hb⟩
    exact ⟨a, b, ⟨rest, rfl⟩, ha, hb⟩

lemma hasEscape_of_cons {c : Char} {cs : List Char} (h : HasEscape (c :: cs))
    (hfront : ∀ a b rest, c = '\x5c' → cs = a :: b :: rest →
      ¬ (a.isHexDigit && b.isHexDigit) = true) : HasEscape cs := by
  rcases hasEscape_cons.1 h with ⟨a, b, rest, hc, hcs, hhex⟩ | h
  · exact absurd (Bool.and_eq_true_iff.2 hhex) (hfront a b rest hc hcs)
  · exact h

/-- Characters without an escape stand for their own bytes. -/
lemma unescape_of_not_hasEscape {cs : List Char} (h : ¬ HasEscape cs) :
    unescape cs = utf8Bytes cs := by
  fun_induction unescape cs with
  | case1 a b cs hhex ih =>
      rw [Bool.and_eq_true] at hhex
      exact absurd (hasEscape_cons.2 (.inl ⟨a, b, cs, rfl, rfl, hhex⟩)) h
  | case2 a b cs hhex ih =>
      rw [ih fun hcs => h (hasEscape_cons.2 (.inr hcs))]
      rfl
  | case3 c cs hne ih =>
      rw [ih fun hcs => h (hasEscape_cons.2 (.inr hcs))]
      rfl
  | case4 => rfl

/-- The bytes that `unescape` gives are at most those of the characters, and fewer if there is an
escape: three characters are one byte. -/
lemma length_unescape (cs : List Char) : (unescape cs).length ≤ byteLength cs ∧
    (HasEscape cs → (unescape cs).length < byteLength cs) := by
  fun_induction unescape cs with
  | case1 a b cs hhex ih =>
      have ha := a.utf8Size_pos
      have hb := b.utf8Size_pos
      simp only [List.length_cons, byteLength_cons]
      omega
  | case2 a b cs hhex ih =>
      rw [List.length_append, String.length_utf8EncodeChar, byteLength_cons]
      refine ⟨Nat.add_le_add_left ih.1 _, fun h => Nat.add_lt_add_left (ih.2 ?_) _⟩
      refine hasEscape_of_cons h fun a' b' rest _ hcs => ?_
      cases hcs
      exact hhex
  | case3 c cs hne ih =>
      rw [List.length_append, String.length_utf8EncodeChar, byteLength_cons]
      refine ⟨Nat.add_le_add_left ih.1 _, fun h => Nat.add_lt_add_left (ih.2 ?_) _⟩
      exact hasEscape_of_cons h fun a b rest hc hcs => (hne a b rest hc hcs).elim
  | case4 => exact ⟨Nat.le_refl _, fun h => absurd h not_hasEscape_nil⟩

/-- **Characters stand for their own bytes exactly if there is no escape among them.** -/
lemma unescape_eq_iff {cs : List Char} : unescape cs = utf8Bytes cs ↔ ¬ HasEscape cs := by
  refine ⟨fun heq h => ?_, unescape_of_not_hasEscape⟩
  have hlt := (length_unescape cs).2 h
  rw [heq, length_utf8Bytes] at hlt
  exact absurd hlt (Nat.lt_irrefl _)

/-! ## Reading what was written -/

/-- The reader's class of characters that need no quotes is that of the printer. -/
lemma isIdentifierPart_eq (c : Char) : isIdentifierPart c = isNameChar c := by
  have halphanum : c.isAlphanum =
      (decide ('A' ≤ c ∧ c ≤ 'Z') || ('a' ≤ c && c ≤ 'z') || ('0' ≤ c && c ≤ '9')) := rfl
  rw [Bool.eq_iff_iff, isIdentifierPart, isNameChar, halphanum]
  simp only [Bool.or_eq_true, Bool.and_eq_true, decide_eq_true_eq, List.contains_eq_mem,
    List.mem_cons, List.not_mem_nil, or_false]
  tauto

lemma quoteName_toList (name : String) : (quoteName name).toList =
    if isBareName name.toList then name.toList else '\x22' :: (name.toList ++ ['\x22']) := by
  unfold quoteName
  split
  · rfl
  · rw [String.toList_append, String.toList_append]
    rfl

section Bare

variable {name : List Char} (h : isBareName name = true)

include h

lemma exists_cons_of_isBareName : ∃ first tail, name = first :: tail ∧ first.isDigit = false ∧
    ∀ c ∈ name, isIdentifierPart c = true := by
  cases name with
  | nil => cases h
  | cons first tail =>
      simp only [isBareName, Bool.and_eq_true, Bool.not_eq_true', List.all_eq_true] at h
      exact ⟨first, tail, rfl, h.1, fun c hc => (isIdentifierPart_eq c).trans (h.2 c hc)⟩

/-- A character that is no part of an identifier is not in a bare name. -/
lemma notMem_of_isBareName {c : Char} (hc : isIdentifierPart c = false) : c ∉ name := by
  obtain ⟨-, -, -, -, hall⟩ := exists_cons_of_isBareName h
  intro hmem
  simp [hall c hmem] at hc

lemma not_hasEscape_of_isBareName : ¬ HasEscape name := by
  rintro ⟨a, b, hinside, -⟩
  exact notMem_of_isBareName h (by decide) (hinside.subset List.mem_cons_self)

lemma readName?_bare {rest : List Char} (hrest : ∀ c ∈ rest.head?, isIdentifierPart c = false) :
    readName? (name ++ rest) = some (utf8Bytes name, rest) := by
  obtain ⟨first, tail, rfl, hdigit, hall⟩ := exists_cons_of_isBareName h
  have hfirst := hall first List.mem_cons_self
  have hne : first ≠ '\x22' := by
    rintro rfl
    cases hfirst
  rw [readName?, takeWhile_append_of_stop hall hrest, dropWhile_append_of_stop hall hrest]
  · simp [hfirst, hdigit]
  · intro cs hcs
    exact hne (List.cons.inj hcs).1

end Bare

/-- A name between quotes, without a quote inside, is read up to the second quote. -/
lemma readName?_quoted {name rest : List Char} (h : '\x22' ∉ name) :
    readName? ('\x22' :: (name ++ '\x22' :: rest)) = some (unescape name, rest) := by
  have hall : ∀ c ∈ name, decide (c ≠ '\x22') = true :=
    fun c hc => decide_eq_true fun heq => h (heq ▸ hc)
  have hstop : ∀ c ∈ ('\x22' :: rest).head?, decide (c ≠ '\x22') = false := by simp
  simp only [readName?, takeWhile_append_of_stop hall hstop, dropWhile_append_of_stop hall hstop]

/-- **A name that `quoteName` prints is read back as its bytes exactly if it has neither a quote nor
an escape in it.** -/
lemma readName?_quoteName_iff {name : String} {rest : List Char}
    (hrest : ∀ c ∈ rest.head?, isIdentifierPart c = false) :
    readName? ((quoteName name).toList ++ rest) = some (utf8Bytes name.toList, rest) ↔
      '\x22' ∉ name.toList ∧ ¬ HasEscape name.toList := by
  rw [quoteName_toList]
  split
  · next hbare =>
      exact iff_of_true (readName?_bare hbare hrest)
        ⟨notMem_of_isBareName hbare (by decide), not_hasEscape_of_isBareName hbare⟩
  · rw [List.cons_append, List.append_assoc, List.singleton_append]
    by_cases hquote : '\x22' ∈ name.toList
    · -- the name ends too early, and what is left over of it stands in front of the rest
      obtain ⟨front, back, hname, hfront⟩ := List.eq_append_cons_of_mem hquote
      refine iff_of_false (fun hread => ?_) fun h => h.1 hquote
      rw [hname, List.append_assoc, List.cons_append, readName?_quoted hfront] at hread
      have hlength := congrArg List.length (Prod.mk.inj (Option.some.inj hread)).2
      simp only [List.length_append, List.length_cons] at hlength
      omega
    · rw [readName?_quoted hquote, ← unescape_eq_iff]
      simp [hquote]

/-! ## Symbols -/

lemma quoteName_injective : Function.Injective quoteName := by
  intro name other heq
  have hlist := congrArg String.toList heq
  rw [quoteName_toList, quoteName_toList] at hlist
  have hquote {bare quoted : List Char} (hbare : isBareName bare = true) :
      bare ≠ '\x22' :: quoted := by
    rintro rfl
    exact notMem_of_isBareName hbare (by decide) List.mem_cons_self
  split at hlist <;> split at hlist
  · exact String.toList_inj.1 hlist
  · next hbare _ => exact absurd hlist (hquote hbare)
  · next _ hbare => exact absurd hlist.symm (hquote hbare)
  · exact String.toList_inj.1 (List.append_cancel_right (List.cons.inj hlist).2)

lemma isDigit_head_quoteName {name : String} {c : Char}
    (hc : c ∈ (quoteName name).toList.head?) : c.isDigit = false := by
  rw [quoteName_toList] at hc
  split at hc
  · next hbare =>
      obtain ⟨first, tail, hname, hdigit, -⟩ := exists_cons_of_isBareName hbare
      rw [hname, List.head?_cons, Option.mem_some_iff] at hc
      rw [← hc, hdigit]
  · cases hc
    rfl

lemma Linkage.toList_symbol_entry (name : String) :
    (entry name).symbol.toList = '@' :: (quoteName name).toList := String.toList_append

lemma Linkage.toList_symbol_internal (number : Nat) :
    (internal number).symbol.toList = '@' :: Nat.toDigits 10 number := by
  have htext : (internal number).symbol = "@" ++ toString number := rfl
  rw [htext, String.toList_append, Nat.toString_eq_repr, Nat.toList_repr]
  rfl

/-- The symbol of an exported function is never that of an internal one, since a bare name does not
start with a digit. -/
lemma Linkage.symbol_entry_ne (name : String) (number : Nat) :
    (entry name).symbol ≠ (internal number).symbol := by
  intro heq
  have hlist := congrArg String.toList heq
  rw [toList_symbol_entry, toList_symbol_internal, List.cons_inj_right] at hlist
  have hne : Nat.toDigits 10 number ≠ [] := Nat.toDigits_ne_nil
  obtain ⟨digit, digits, hdigits⟩ := List.exists_cons_of_ne_nil hne
  have hhead : digit ∈ (quoteName name).toList.head? := by simp [hlist, hdigits]
  have hmem : digit ∈ Nat.toDigits 10 number := by simp [hdigits]
  have hdigit := Nat.isDigit_of_mem_toDigits (by decide) (by decide) hmem
  simp [isDigit_head_quoteName hhead] at hdigit

/-- **Two functions have the same symbol only if they have the same linkage.** -/
lemma Linkage.symbol_injective : Function.Injective Linkage.symbol := by
  rintro (name | number) (other | other) heq
  · exact congrArg entry (quoteName_injective ((String.append_right_inj _).1 heq))
  · exact absurd heq (symbol_entry_ne name other)
  · exact absurd heq.symm (symbol_entry_ne other number)
  · have hlist := congrArg String.toList heq
    rw [toList_symbol_internal, toList_symbol_internal, List.cons_inj_right] at hlist
    have hvalue := congrArg (Nat.ofDigitChars 10 · 0) hlist
    simp only [Nat.ofDigitChars_toDigits (by decide : 1 < 10) (by decide)] at hvalue
    exact congrArg internal hvalue

/-- The name that a function is exported under. -/
def Linkage.name? : Linkage → Option String
  | entry name => some name
  | internal _ => none

/-- The names of the exported functions of a module. -/
def Module.entryNames (m : Module) : List String :=
  (m.functions.map Function.linkage).filterMap Linkage.name?

lemma Linkage.name?_eq_some {l : Linkage} {name : String} :
    l.name? = some name ↔ l = .entry name := by
  cases l <;> simp [name?]

lemma Linkage.number?_eq_some {l : Linkage} {number : Nat} :
    l.number? = some number ↔ l = .internal number := by
  cases l <;> simp [number?]

lemma nodup_linkages_iff (linkages : List Linkage) : linkages.Nodup ↔
    (linkages.filterMap Linkage.number?).Nodup ∧ (linkages.filterMap Linkage.name?).Nodup := by
  induction linkages with
  | nil => simp
  | cons l linkages ih =>
      cases l with
      | entry name =>
          have hnumber : (Linkage.entry name).number? = none := rfl
          have hname : (Linkage.entry name).name? = some name := rfl
          rw [List.filterMap_cons_none hnumber, List.filterMap_cons_some hname, List.nodup_cons,
            List.nodup_cons, ih]
          simp only [List.mem_filterMap, Linkage.name?_eq_some, exists_eq_right]
          exact and_left_comm
      | internal number =>
          have hnumber : (Linkage.internal number).number? = some number := rfl
          have hname : (Linkage.internal number).name? = none := rfl
          rw [List.filterMap_cons_none hname, List.filterMap_cons_some hnumber, List.nodup_cons,
            List.nodup_cons, ih]
          simp only [List.mem_filterMap, Linkage.number?_eq_some, exists_eq_right]
          exact and_assoc.symm

/-- **The symbols of an ordered module are all different exactly if the names of its exported
functions are.** The numbers of the internal ones differ in any case. -/
lemma Module.Ordered.nodup_symbols_iff {m : Module} (h : m.Ordered) :
    (m.functions.map Function.symbol).Nodup ↔ m.entryNames.Nodup := by
  have hsymbols : m.functions.map Function.symbol =
      (m.functions.map Function.linkage).map Linkage.symbol := by
    rw [List.map_map]
    rfl
  rw [hsymbols, List.nodup_map_iff Linkage.symbol_injective, nodup_linkages_iff, h.internals,
    and_iff_right List.nodup_range, entryNames]

/-- **A name is read back exactly if it has neither a quote nor an escape in it**, whatever follows
that is no part of a name: reading then stops behind the identifier, and gives the bytes of the
name.  Whether they can be read or not, the symbols of a module with at most one exported function
are all different. -/
theorem quoted_names_read (name : String) (rest : List Char) (changes : List Change) :
    ((∀ c ∈ rest.head?, isIdentifierPart c = false) →
      (readName? ((quoteName name).toList ++ rest) = some (name.toUTF8.data.toList, rest) ↔
        '\x22' ∉ name.toList ∧ ¬ HasEscape name.toList)) ∧
    ((Module.empty.after changes).entryNames.length ≤ 1 →
      ((Module.empty.after changes).functions.map Function.symbol).Nodup) := by
  refine ⟨fun hrest => ?_, fun hone => ?_⟩
  · rw [String.toUTF8_eq_toByteArray, ← utf8Bytes_toList]
    exact readName?_quoteName_iff hrest
  · exact (Module.ordered_empty.after changes).nodup_symbols_iff.2
      (List.nodup_iff_count_le_one.2 fun name => List.count_le_length.trans hone)

/-- A name that starts with a digit and has a backslash in it, and an exported function `0` beside
an internal one with that number. -/
theorem quoted_names_read_backslash :
    let m := Module.empty.after
      [.addInternal [] .bool, .addEntry "0" (.int 32), .addInternal [] .bool]
    readName? ((quoteName "0\\é").toList ++ ['(']) = some ("0\\é".toUTF8.data.toList, ['(']) ∧
      m.entryNames = ["0"] ∧ (m.functions.map Function.symbol).Nodup := by
  obtain ⟨hread, hsymbols⟩ := quoted_names_read "0\\é" ['(']
    [.addInternal [] .bool, .addEntry "0" (.int 32), .addInternal [] .bool]
  refine ⟨(hread (by simp [isIdentifierPart])).2 ⟨by decide, ?_⟩, rfl, hsymbols (by decide)⟩
  simp [hasEscape_cons, not_hasEscape_nil]

/-- **A quote inside of a name ends it**, and the rest of the name is left over.  An escape is read
as another character. -/
theorem quote_in_name_cuts :
    readName? ((quoteName "a\"b").toList ++ ['(']) =
        some ("a".toUTF8.data.toList, ['b', '\x22', '(']) ∧
      readName? ((quoteName "a\\41").toList ++ ['(']) = some ("aA".toUTF8.data.toList, ['(']) := by
  decide +kernel

end Runic.Ir
