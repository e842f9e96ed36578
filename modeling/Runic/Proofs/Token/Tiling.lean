import Mathlib.Data.List.Chain
import Runic.Proofs.Text.Slice
import Runic.Proofs.Token.Lexing

/-!
# Cutting loses nothing

Every character of a source is in exactly one token.  The tokens stand side by side from the first
offset to the last (`Tiles`), and the text of each is what stands between its two ends.

* `Lexer.yields_lexFrom` — `Lexer.next?` gives out the tokens of `lexFrom`, and then no more.
* `tiles_lexFrom` — **the tokens stand side by side.**
* `slice_of_mem_lexFrom` — **each has the text of its place.**
* `lex_eq` — the last token of a source, and no other, is its end.
-/

namespace Runic

/-! ## One by one -/

namespace Lexer

/-- The lexer gives out the tokens of the list, one by one, and then nothing. -/
inductive Yields : Lexer → List Token → Prop
  | nothing {lexer : Lexer} : lexer.next?.1 = none → Yields lexer []
  | token {lexer rest : Lexer} {t : Token} {ts : List Token} :
      lexer.next? = (some t, rest) → Yields rest ts → Yields lexer (t :: ts)

lemma yields_lexFrom (offset : Nat) (cs : List Char) :
    Yields ⟨offset, cs, false⟩ (lexFrom offset cs) := by
  fun_induction lexFrom offset cs with
  | case1 offset =>
      have hnext : next? ⟨offset, [], false⟩ = (some (.eof offset), ⟨offset, [], true⟩) := by
        simp [next?, nextToken, scan, Cut.token, Token.eof]
      exact .token hnext (.nothing rfl)
  | case2 offset c cs cut ih =>
      have hnext : next? ⟨offset, c :: cs, false⟩ =
          (some (cut.token offset), ⟨offset + byteLength cut.text, cut.rest, false⟩) := by
        simp [next?, nextToken, cut, Cut.token, scan_kind_ne_eof]
      exact .token hnext ih

end Lexer

/-! ## Side by side -/

/-- The tokens stand side by side, from the offset `start` to the offset `stop`, each starting where
the one before it stops. -/
def Tiles (start : Nat) : List Token → Nat → Prop
  | [], stop => start = stop
  | t :: ts, stop => t.span.start = start ∧ start ≤ t.span.stop ∧ Tiles t.span.stop ts stop

lemma tiles_append {ts us : List Token} {start stop : Nat} :
    Tiles start (ts ++ us) stop ↔ ∃ mid, Tiles start ts mid ∧ Tiles mid us stop := by
  induction ts generalizing start with
  | nil => simp [Tiles]
  | cons t ts ih => simp [Tiles, ih, and_assoc]

lemma Tiles.le {ts : List Token} {start stop : Nat} (h : Tiles start ts stop) : start ≤ stop := by
  induction ts generalizing start with
  | nil => exact Nat.le_of_eq h
  | cons t ts ih => exact h.2.1.trans (ih h.2.2)

lemma Tiles.isChain {ts : List Token} {start stop : Nat} (h : Tiles start ts stop) :
    ts.IsChain fun t u => t.span.stop = u.span.start := by
  induction ts generalizing start with
  | nil => exact .nil
  | cons t ts ih =>
      refine (ih h.2.2).cons fun u hu => ?_
      obtain ⟨us, rfl⟩ := List.head?_eq_some_iff.1 hu
      exact h.2.2.1.symm

/-- **The tokens of `lexFrom offset cs` tile the range of the characters `cs`.** -/
lemma tiles_lexFrom (offset : Nat) (cs : List Char) :
    Tiles offset (lexFrom offset cs) (offset + byteLength cs) := by
  fun_induction lexFrom offset cs with
  | case1 offset => simp [Tiles, Token.eof]
  | case2 offset c cs cut ih =>
      have hbytes : byteLength cut.text + byteLength cut.rest = byteLength (c :: cs) := by
        rw [← byteLength_append, scan_append]
      refine ⟨rfl, Nat.le_add_right _ _, ?_⟩
      rwa [← hbytes, ← Nat.add_assoc]

/-! ## Texts -/

/-- A token of `lexFrom` other than the end has a text. -/
lemma text_ne_of_mem_lexFrom {offset : Nat} {cs : List Char} {t : Token}
    (h : t ∈ lexFrom offset cs) (hkind : t.kind ≠ .eof) : t.text ≠ "" := by
  fun_induction lexFrom offset cs with
  | case1 offset =>
      rw [List.mem_singleton] at h
      exact absurd (congrArg Token.kind h) hkind
  | case2 offset c cs cut ih =>
      rcases List.mem_cons.1 h with rfl | h
      · simpa [Cut.token] using scan_text_ne_nil c cs
      · exact ih h

/-- The texts of the tokens of `lexFrom offset cs`, one behind the other, are `cs`. -/
lemma flatMap_lexFrom (offset : Nat) (cs : List Char) :
    (lexFrom offset cs).flatMap (fun t => t.text.toList) = cs := by
  fun_induction lexFrom offset cs with
  | case1 offset => rfl
  | case2 offset c cs cut ih =>
      rw [List.flatMap_cons, ih, Cut.token, String.toList_ofList]
      exact scan_append (c :: cs)

/-- **The text of a token is the slice of its span**, in a source that has `cs` at the byte offset
`offset`. -/
lemma slice_of_mem_lexFrom {source : String} {before cs : List Char} {offset : Nat} {t : Token}
    (hsource : source.toList = before ++ cs) (hoffset : byteLength before = offset)
    (h : t ∈ lexFrom offset cs) : t.span.slice? source = some t.text := by
  fun_induction lexFrom offset cs generalizing before with
  | case1 offset =>
      rw [List.mem_singleton.1 h]
      have hend : source.toList = before ++ [] ++ [] := by simpa using hsource
      exact slice_eq hend hoffset.symm hoffset.symm
  | case2 offset c cs cut =>
      rename_i ih
      have hcut : source.toList = before ++ cut.text ++ cut.rest := by
        rw [hsource, List.append_assoc, scan_append]
      rcases List.mem_cons.1 h with rfl | h
      · exact slice_eq hcut hoffset.symm (by rw [hoffset]; rfl)
      · exact ih hcut (by rw [byteLength_append, hoffset]) h

/-! ## A whole source -/

/-- The tokens of a source are some that are not the end, and then the end at the size of the
source. -/
lemma lex_eq (source : String) :
    ∃ ts, lex source = ts ++ [.eof source.utf8ByteSize] ∧ ∀ t ∈ ts, t.kind ≠ .eof := by
  obtain ⟨ts, size, hts, hne⟩ := lexFrom_eq 0 source.toList
  have htiles := tiles_lexFrom 0 source.toList
  rw [hts, tiles_append, Nat.zero_add, byteLength_toList] at htiles
  obtain ⟨mid, -, -, -, hsize⟩ := htiles
  exact ⟨ts, by rw [lex, hts, ← hsize]; rfl, hne⟩

end Runic
