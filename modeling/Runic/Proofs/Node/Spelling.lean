import Runic.Node.Printer
import Runic.Proofs.Node.Adjacency
import Runic.Proofs.Node.View
import Runic.Proofs.Token.Cutting

/-!
# The symbols of a text

A text is read symbol by symbol (`reading`), and where one symbol ends depends on what stands behind
it.  Texts of trees have only a blank, a comma or a closing bracket behind them (`Stops`), so they
can be described on their own.

* `Spells` — the text is read as certain symbols, whatever stands behind it.
* `Stuck` — the text is read as something that the adjacency reader refuses, whatever stands behind
  it.

Both have one rule for each way in which the text of a tree is put together.
-/

namespace Runic

open Runic.Symbol (mark ace gap)
open Grammar

/-! ## Reading characters -/

/-- The symbols of the characters `cs`, their layout folded. -/
def reading (cs : List Char) : List Symbol := (folded (lexFrom 0 cs)).map Token.symbol

/-- The symbol of the token that a cut gives. -/
def Cut.symbol (cut : Cut) : Symbol := (cut.token 0).symbol

/-- The symbol of a layout token that is folded alone. -/
lemma symbol_layout {t : Token} (h : t.kind.isLayout = true) :
    Token.symbol { t with kind := if t.kind = .comment then .gap else t.kind } =
      .plain (if t.kind = .comment then .gap else t.kind) := by
  refine Token.symbol_of_isPlain rfl ?_
  cases hk : t.kind <;> simp_all [Kind.isLayout, Kind.isPlain]

/-- The symbols of folded tokens depend on the symbols of the tokens only. -/
lemma map_symbol_folded {ts us : List Token} (h : ts.map Token.symbol = us.map Token.symbol) :
    (folded ts).map Token.symbol = (folded us).map Token.symbol := by
  have hkinds : ∀ {t u : Token}, u.symbol = t.symbol → u.kind = t.kind := by
    intro t u h
    rw [← Token.kind_symbol, h, Token.kind_symbol]
  induction ts generalizing us with
  | nil => rw [List.map_eq_nil_iff.1 h.symm]
  | cons t ts ih =>
      obtain ⟨u, us, rfl, hsymbol, hrest⟩ := List.map_eq_cons_iff.1 h.symm
      have ih := ih hrest.symm
      by_cases hl : t.kind.isLayout = true
      · have hl' : u.kind.isLayout = true := by rwa [hkinds hsymbol]
        have hsep : Token.symbol { t with kind := if t.kind = .comment then .gap else t.kind } =
            Token.symbol { u with kind := if u.kind = .comment then .gap else u.kind } := by
          rw [symbol_layout hl, symbol_layout hl', hkinds hsymbol]
        rw [folded, folded, if_pos hl, if_pos hl']
        cases hts : folded ts with
        | nil =>
            rw [hts] at ih
            rw [List.map_eq_nil_iff.1 ih.symm]
            exact congrArg (fun s => [s]) hsep
        | cons next rest =>
            rw [hts] at ih
            obtain ⟨next', rest', hus, hnext, hrest⟩ := List.map_eq_cons_iff.1 ih.symm
            simp only [hus, hkinds hnext]
            split
            · simp [hrest, Token.symbol]
            · rw [List.map_cons, hsep, List.map_cons, List.map_cons, List.map_cons, hrest, hnext]
      · have hl' : ¬ u.kind.isLayout = true := by rwa [hkinds hsymbol]
        rw [folded, folded, if_neg hl, if_neg hl', List.map_cons, List.map_cons, hsymbol, ih]

/-- The symbols of `lexFrom offset cs` do not depend on the offset. -/
lemma map_symbol_lexFrom (offset other : Nat) (cs : List Char) :
    (lexFrom offset cs).map Token.symbol = (lexFrom other cs).map Token.symbol := by
  fun_induction lexFrom offset cs generalizing other with
  | case1 => 
      rw [lexFrom]
      rfl
  | case2 offset c cs cut ih =>
      rw [lexFrom, List.map_cons, List.map_cons, ih]
      rfl

lemma reading_eq (offset : Nat) (cs : List Char) :
    (folded (lexFrom offset cs)).map Token.symbol = reading cs :=
  map_symbol_folded (map_symbol_lexFrom offset 0 cs)

@[simp] lemma reading_nil : reading [] = [.eof] := by
  rw [reading, lexFrom]
  rfl

/-- A cut that is no layout gives the first symbol of `reading`. -/
lemma reading_of_scan {cs : List Char} {cut : Cut} (h : scan cs = cut)
    (hlayout : cut.kind.isLayout = false) (hend : cut.kind ≠ .eof) :
    reading cs = cut.symbol :: reading cut.rest := by
  subst h
  cases cs with
  | nil => exact absurd rfl hend
  | cons c cs =>
      have hl : ((scan (c :: cs)).token 0).kind.isLayout ≠ true := by
        simpa [Cut.token] using hlayout
      rw [reading, lexFrom, folded, if_neg hl, List.map_cons, reading_eq]
      rfl

/-- The first token of the characters is no layout. -/
def Leads (cs : List Char) : Prop := (scan cs).kind.isLayout = false

lemma Leads.isBlank {c : Char} {cs : List Char} (h : Leads (c :: cs)) : isBlank c = false := by
  by_contra hblank
  rw [Leads, scan, if_pos (by simpa using hblank)] at h
  simp only [cutWhile, separatorKind] at h
  split at h <;> cases h

/-- Only `:` starts a comment. -/
lemma leads_glyph {a : Glyph} (h : a ≠ .col) (cs : List Char) : Leads (a.char :: cs) := by
  rw [Leads, scan_glyph]
  cases cs with
  | nil => simp [cutSymbol, cutMark, Glyph.ofChar_char, Kind.isLayout]
  | cons d cs =>
      have hcomment : ¬ (a.char = ':' ∧ d = ':') := fun hc => h (Glyph.char_injective hc.1)
      rw [cutSymbol, if_neg hcomment]
      split
      · rfl
      · split
        · next kind hkind =>
            unfold Kind.closer? at hkind
            split_ifs at hkind <;> cases hkind <;> rfl
        · simp [cutMark, Glyph.ofChar_char, Kind.isLayout]

lemma leads_rune {r : Rune} {a b : Glyph} (h : r.glyphs? = some (a, b)) (cs : List Char) :
    Leads (a.char :: b.char :: cs) := by
  rw [Leads, scan_rune h]
  rfl

lemma leads_face {name : String} (h : isFaceText name = true) (rest : List Char) :
    Leads (name.toList ++ rest) := by
  obtain ⟨c, cs, hname, hstart, -⟩ := exists_cons_of_word h
  rw [hname, List.cons_append, Leads, scan, isBlank_eq_false rfl rfl hstart, hstart]
  rfl

lemma leads_num {digits : String} (h : isNumText digits = true) (rest : List Char) :
    Leads (digits.toList ++ rest) := by
  obtain ⟨c, cs, hdigits, hstart, -⟩ := exists_cons_of_word h
  rw [hdigits, List.cons_append, Leads, scan, isBlank_eq_false rfl rfl hstart,
    isFaceStart_of_isNumStart hstart, hstart]
  rfl

lemma Leads.head_folded {cs : List Char} (h : Leads cs) (offset : Nat) :
    ∀ t ∈ (folded (lexFrom offset cs)).head?, t.kind.isSeparator = false := by
  cases cs with
  | nil =>
      rw [lexFrom]
      rintro _ ⟨⟩
      rfl
  | cons c cs =>
      have hl : ((scan (c :: cs)).token offset).kind.isLayout ≠ true := by
        simpa [Cut.token, Leads] using h
      rw [lexFrom, folded, if_neg hl]
      rintro _ ⟨⟩
      exact isSeparator_eq_false hl

/-- A run of blanks in front of characters that do not start with layout is read as one
separator. -/
lemma reading_blanks {run cs : List Char} (hrun : run ≠ []) (hblank : ∀ c ∈ run, isBlank c = true)
    (h : Leads cs) : reading (run ++ cs) = .plain (separatorKind run) :: reading cs := by
  have hscan : scan (run ++ cs) = ⟨separatorKind run, run, cs⟩ := by
    obtain ⟨c, run, rfl⟩ := List.exists_cons_of_ne_nil hrun
    rw [List.cons_append, scan, if_pos (hblank c List.mem_cons_self), ← List.cons_append]
    refine cutWhile_eq hblank ?_
    intro d hd
    obtain ⟨ds, rfl⟩ := List.head?_eq_some_iff.1 hd
    exact h.isBlank
  have hkind : separatorKind run = .ace ∨ separatorKind run = .gap := by
    unfold separatorKind
    split <;> simp
  have hlayout : (Cut.token ⟨separatorKind run, run, cs⟩ 0).kind.isLayout = true := by
    rcases hkind with hkind | hkind <;> simp [Cut.token, hkind, Kind.isLayout]
  have hsymbol : ∀ t : Token, t.kind = separatorKind run →
      Token.symbol { t with kind := if t.kind = .comment then .gap else t.kind } =
        .plain (separatorKind run) := by
    intro t ht
    rcases hkind with hkind | hkind <;> simp [ht, hkind, Token.symbol]
  rw [reading, lexFrom_cons (by simp [hrun]), hscan, folded, if_pos hlayout]
  split
  · next hts =>
      rw [← reading_eq _ cs, hts]
      exact congrArg (fun s => [s]) (hsymbol _ rfl)
  · next next rest hts =>
      have hnext := h.head_folded _ next (by rw [hts]; rfl)
      rw [← reading_eq _ cs, hts, if_neg (by simp [hnext])]
      exact congrArg (· :: (next :: rest).map Token.symbol) (hsymbol _ rfl)

lemma reading_space {cs : List Char} (h : Leads cs) : reading (' ' :: cs) = ace :: reading cs :=
  reading_blanks (List.cons_ne_nil ' ' []) (by simp [isBlank]) h

lemma reading_mark {a : Glyph} {cs : List Char} (h : a.Alone cs) :
    reading (a.char :: cs) = mark a :: reading cs :=
  reading_of_scan (scan_mark h) rfl (by simp)

lemma reading_com (cs : List Char) : reading (',' :: cs) = mark .com :: reading cs :=
  reading_mark (Glyph.alone_of_isSolitary (by decide : Glyph.com.isSolitary = true) cs)

lemma reading_rune {r : Rune} {a b : Glyph} (h : r.glyphs? = some (a, b)) (cs : List Char) :
    reading (a.char :: b.char :: cs) = .rune r :: reading cs := by
  rw [reading_of_scan (scan_rune h cs) rfl (by simp)]
  refine congrArg (· :: reading cs) ?_
  rw [Cut.symbol, Token.symbol_of_rune rfl]
  exact congrArg Symbol.rune (Rune.ofText_of_glyphs h)

lemma reading_face {name : String} {rest : List Char} (h : isFaceText name = true)
    (hrest : ∀ c ∈ rest.head?, isFacePart c = false) :
    reading (name.toList ++ rest) = .face name :: reading rest := by
  rw [reading_of_scan (scan_face h hrest) rfl (by simp)]
  simp [Cut.symbol, Cut.token, Token.symbol]

lemma reading_num {digits : String} {rest : List Char} (h : isNumText digits = true)
    (hrest : ∀ c ∈ rest.head?, isNumPart c = false) :
    reading (digits.toList ++ rest) = .num digits :: reading rest := by
  rw [reading_of_scan (scan_num h hrest) rfl (by simp)]
  simp [Cut.symbol, Cut.token, Token.symbol]

/-- What `=` is read as, alone or together with what stands behind it. -/
lemma reading_tis (cs : List Char) : ∃ s ss, reading ('=' :: cs) = s :: ss ∧
    (s = mark .tis ∧ Glyph.tis.Alone cs ∨ (∃ r, s = .rune r) ∨ s = .plain .tistis) := by
  rcases scan_tis cs with halone | hrune | htistis
  · exact ⟨_, _, reading_mark halone, .inl ⟨rfl, halone⟩⟩
  · exact ⟨_, _, reading_of_scan rfl (by rw [hrune]; rfl) (by simp [hrune]),
      .inr (.inl ⟨_, Token.symbol_of_rune hrune⟩)⟩
  · exact ⟨_, _, reading_of_scan rfl (by rw [htistis]; rfl) (by simp [htistis]),
      .inr (.inr (Token.symbol_of_isPlain htistis rfl))⟩

/-! ## Texts that are read on their own -/

/-- The characters that may stand behind the text of a tree. -/
def stoppers : List Char := [' ', '\n', ')', ']', ',']

/-- The first of the characters `rest` may stand behind the text of a tree. -/
def Stops (rest : List Char) : Prop := ∀ c ∈ rest.head?, c ∈ stoppers

lemma stops_nil : Stops [] := by
  simp [Stops]

lemma stops_cons {c : Char} (h : c ∈ stoppers) (cs : List Char) : Stops (c :: cs) := by
  rintro _ ⟨⟩
  exact h

lemma Stops.eq_false {rest : List Char} (h : Stops rest) {part : Char → Bool}
    (hpart : (stoppers.all fun c => !part c) = true) : ∀ c ∈ rest.head?, part c = false := by
  intro c hc
  simpa using List.all_eq_true.1 hpart c (h c hc)

/-- A run of spaces and newlines that is not one single space. -/
structure Gap where
  chars : List Char
  isBlank_of_mem : ∀ c ∈ chars, isBlank c = true
  ne_nil : chars ≠ []
  ne_space : chars ≠ [' ']

lemma Gap.stops (g : Gap) (cs : List Char) : Stops (g.chars ++ cs) := by
  obtain ⟨c, run, hchars⟩ := List.exists_cons_of_ne_nil g.ne_nil
  have hblank := g.isBlank_of_mem c (by simp [hchars])
  rw [hchars]
  refine stops_cons ?_ _
  simp only [isBlank, Bool.or_eq_true, decide_eq_true_eq] at hblank
  rcases hblank with rfl | rfl <;> decide

lemma Gap.reading (g : Gap) {cs : List Char} (h : Leads cs) :
    reading (g.chars ++ cs) = gap :: reading cs := by
  rw [reading_blanks g.ne_nil g.isBlank_of_mem h, separatorKind, if_neg g.ne_space]

/-- What stands between the texts of two trees, and the symbols that it is read as. -/
inductive Separator : List Char → List Symbol → Prop
  | space : Separator [' '] [ace]
  | com : Separator [',', ' '] [mark .com, ace]

lemma Separator.stops {sep : List Char} {ss : List Symbol} (h : Separator sep ss)
    (cs : List Char) : Stops (sep ++ cs) := by
  cases h with
  | space => exact stops_cons (by decide) _
  | com => exact stops_cons (by decide) _

lemma Separator.reading {sep cs : List Char} {ss : List Symbol} (h : Separator sep ss)
    (hlead : Leads cs) : reading (sep ++ cs) = ss ++ reading cs := by
  cases h with
  | space => exact reading_space hlead
  | com => exact (reading_com _).trans (congrArg _ (reading_space hlead))

/-- The text `cs` is read as the symbols `ts`, whatever may stand behind a tree. -/
def Spells (cs : List Char) (ts : List Symbol) : Prop :=
  ∀ rest, Stops rest → reading (cs ++ rest) = ts ++ reading rest

/-- The text `cs` does not start with layout, whatever stands behind it. -/
def Leading (cs : List Char) : Prop := ∀ rest, Leads (cs ++ rest)

lemma spells_nil : Spells [] [] :=
  fun _ _ => rfl

lemma spells_face {name : String} (h : isFaceText name = true) :
    Spells name.toList [.face name] := by
  intro rest hrest
  exact reading_face h (hrest.eq_false (by decide))

lemma spells_num {digits : String} (h : isNumText digits = true) :
    Spells digits.toList [.num digits] := by
  intro rest hrest
  exact reading_num h (hrest.eq_false (by decide))

/-- A glyph that joins no stopper is read as a mark. -/
lemma spells_mark {a : Glyph}
    (h : ∀ b ∈ Glyph.all, b.char ∈ stoppers → a.joins b = false) :
    Spells [a.char] [mark a] := by
  intro rest hrest
  exact reading_mark fun b hb => h b b.mem_all (hrest _ hb)

section

variable {as bs cs sep : List Char} {ts us ss : List Symbol}

/-- Two texts with a separator between them are read one after the other. -/
lemma Spells.join (ha : Spells as ts) (hsep : Separator sep ss) (hb : Spells bs us)
    (hlead : Leading bs) : Spells (as ++ (sep ++ bs)) (ts ++ (ss ++ us)) := by
  intro rest hrest
  rw [List.append_assoc, List.append_assoc, ha _ (hsep.stops _), hsep.reading (hlead rest),
    hb rest hrest]
  simp only [List.append_assoc]

/-- A text between brackets is read as what it is between the marks of the brackets. -/
lemma Spells.enclosed (h : Spells cs ts) (left right : Glyph)
    (hleft : left.isSolitary = true) (hright : right.isSolitary = true)
    (hstop : right.char ∈ stoppers) :
    Spells (left.char :: cs ++ [right.char]) (mark left :: ts ++ [mark right]) := by
  intro rest hrest
  rw [List.cons_append, List.cons_append, reading_mark (Glyph.alone_of_isSolitary hleft _),
    List.append_assoc, List.singleton_append, h _ (stops_cons hstop _),
    reading_mark (Glyph.alone_of_isSolitary hright _)]
  simp

lemma Spells.parens (h : Spells cs ts) :
    Spells ('(' :: cs ++ [')']) (mark .pal :: ts ++ [mark .par]) :=
  h.enclosed .pal .par (by decide) (by decide) (by decide)

lemma Spells.brackets (h : Spells cs ts) :
    Spells ('[' :: cs ++ [']']) (mark .sel :: ts ++ [mark .ser]) :=
  h.enclosed .sel .ser (by decide) (by decide) (by decide)

/-- A rune in front of a text is read as the rune and the text. -/
lemma Spells.rune (h : Spells cs ts) {r : Rune} {a b : Glyph} (hr : r.glyphs? = some (a, b)) :
    Spells (r.text.toList ++ cs) (.rune r :: ts) := by
  intro rest hrest
  rw [Rune.text_of_glyphs hr, String.toList_ofList]
  exact (reading_rune hr _).trans (congrArg _ (h rest hrest))

/-- A label in front of a text is read as the face, the mark `=` and the text, unless `=` joins the
text. -/
lemma Spells.faced (h : Spells cs ts) {label : String} (hlabel : isFaceText label = true)
    (halone : ∀ rest, Glyph.tis.Alone (cs ++ rest)) :
    Spells (label.toList ++ '=' :: cs) (.face label :: mark .tis :: ts) := by
  intro rest hrest
  rw [List.append_assoc, List.cons_append, reading_face hlabel (by rintro _ ⟨⟩; rfl)]
  refine congrArg _ ((reading_mark (halone rest)).trans ?_)
  rw [h rest hrest]
  rfl

end

/-! ## Texts that cannot be read -/

/-- The adjacency reader does not get through the symbols, whatever it saw last. -/
def Blocks (ss : List Symbol) : Prop := ∀ q : Seen, q.run ss = none

lemma Blocks.append {us : List Symbol} (h : Blocks us) (ts : List Symbol) : Blocks (ts ++ us) := by
  intro q
  rw [Seen.run_append]
  cases q.run ts with
  | none => rfl
  | some q' => exact h q'

lemma Blocks.cons {us : List Symbol} (h : Blocks us) (s : Symbol) : Blocks (s :: us) :=
  h.append [s]

/-- The symbols of the text block the adjacency reader, whatever may stand behind a tree. -/
def Stuck (cs : List Char) : Prop := ∀ rest, Stops rest → Blocks (reading (cs ++ rest))

section

variable {as bs cs sep : List Char} {ts ss : List Symbol}

lemma Stuck.append (h : Stuck as) (hbs : ∀ rest, Stops (bs ++ rest)) : Stuck (as ++ bs) := by
  intro rest _
  rw [List.append_assoc]
  exact h _ (hbs rest)

lemma Stuck.join (h : Stuck as) (hsep : Separator sep ss) (bs : List Char) :
    Stuck (as ++ (sep ++ bs)) :=
  h.append fun rest => List.append_assoc sep bs rest ▸ hsep.stops (bs ++ rest)

lemma Spells.stuck_join (ha : Spells as ts) (hsep : Separator sep ss) (hb : Stuck bs)
    (hlead : Leading bs) : Stuck (as ++ (sep ++ bs)) := by
  intro rest hrest
  rw [List.append_assoc, List.append_assoc, ha _ (hsep.stops _), hsep.reading (hlead rest)]
  exact ((hb rest hrest).append ss).append ts

lemma Stuck.enclosed (h : Stuck cs) (left right : Glyph) (hleft : left.isSolitary = true)
    (hstop : right.char ∈ stoppers) : Stuck (left.char :: cs ++ [right.char]) := by
  intro rest hrest
  rw [List.cons_append, List.cons_append, reading_mark (Glyph.alone_of_isSolitary hleft _)]
  exact ((h.append fun _ => stops_cons hstop _) rest hrest).cons (mark left)

lemma Stuck.parens (h : Stuck cs) : Stuck ('(' :: cs ++ [')']) :=
  h.enclosed .pal .par (by decide) (by decide)

lemma Stuck.brackets (h : Stuck cs) : Stuck ('[' :: cs ++ [']']) :=
  h.enclosed .sel .ser (by decide) (by decide)

lemma Stuck.rune (h : Stuck cs) {r : Rune} {a b : Glyph} (hr : r.glyphs? = some (a, b)) :
    Stuck (r.text.toList ++ cs) := by
  intro rest hrest
  rw [Rune.text_of_glyphs hr, String.toList_ofList]
  exact (reading_rune hr _).symm ▸ (h rest hrest).cons (.rune r)

/-- A label in front of a text that cannot be read cannot be read. -/
lemma Stuck.faced (h : Stuck cs) {label : String} (hlabel : isFaceText label = true)
    (halone : ∀ rest, Glyph.tis.Alone (cs ++ rest)) : Stuck (label.toList ++ '=' :: cs) := by
  intro rest hrest
  rw [List.append_assoc, List.cons_append, reading_face hlabel (by rintro _ ⟨⟩; rfl)]
  exact ((reading_mark (halone rest)).symm ▸ (h rest hrest).cons (mark .tis)).cons (.face label)

/-- A label whose `=` joins what stands behind it. -/
lemma stuck_of_not_alone {label : String} (hlabel : isFaceText label = true)
    (hjoins : ∀ rest, ¬ Glyph.tis.Alone (cs ++ rest)) : Stuck (label.toList ++ '=' :: cs) := by
  intro rest _ q
  obtain ⟨s, ss, hreading, hs⟩ := reading_tis (cs ++ rest)
  have hrefused : (q.next (.face label)).allows s = false := by
    rcases hs with ⟨-, halone⟩ | ⟨r, rfl⟩ | rfl
    · exact absurd halone (hjoins rest)
    · by_cases hq : q = .tis <;> simp [Seen.next, Seen.allows, hq]
    · by_cases hq : q = .tis <;> simp [Seen.next, Seen.allows, hq]
  rw [List.append_assoc, List.cons_append, reading_face hlabel (by rintro _ ⟨⟩; rfl), hreading,
    Seen.run_cons, Seen.run_of_not_allows hrefused, ite_self]

/-- A label behind a label cannot be read. -/
lemma stuck_faced_faced {label other : String} (hlabel : isFaceText label = true)
    (hother : isFaceText other = true)
    (halone : ∀ rest, Glyph.tis.Alone (other.toList ++ rest)) (cs : List Char) :
    Stuck (label.toList ++ '=' :: (other.toList ++ '=' :: cs)) := by
  intro rest _
  obtain ⟨s, ss, hreading, hs⟩ := reading_tis (cs ++ rest)
  have hrefused : Seen.labelled.allows s = false := by
    rcases hs with ⟨rfl, -⟩ | ⟨r, rfl⟩ | rfl <;> rfl
  have htis : reading ('=' :: (other.toList ++ '=' :: (cs ++ rest))) =
      mark .tis :: .face other :: s :: ss := by
    refine (reading_mark (halone _)).trans (congrArg _ ?_)
    rw [reading_face hother (by rintro _ ⟨⟩; rfl), hreading]
  have hblocks : Blocks (mark .tis :: .face other :: s :: ss) := by
    intro q
    rw [Seen.run_cons]
    split
    · exact Seen.run_of_not_allows hrefused ss
    · rfl
  rw [List.append_assoc, List.cons_append, reading_face hlabel (by rintro _ ⟨⟩; rfl),
    List.append_assoc, List.cons_append, htis]
  exact hblocks.cons (.face label)

/-- A rune with arms and a parenthesis behind it cannot be read. -/
lemma stuck_core {r : Rune} {s : Signature} {a b : Glyph} (hr : r.glyphs? = some (a, b))
    (hs : r.signature? = some s) (htail : s.tail = .arms) (cs : List Char) :
    Stuck (r.text.toList ++ '(' :: cs) := by
  intro rest _ q
  have hpal : Glyph.pal.Alone (cs ++ rest) := Glyph.alone_of_isSolitary (by decide) _
  have hcore : q.next (.rune r) = .core := by simp [Seen.next, hs, htail]
  have hreading : reading (r.text.toList ++ '(' :: cs ++ rest) =
      .rune r :: mark .pal :: reading (cs ++ rest) := by
    rw [Rune.text_of_glyphs hr, String.toList_ofList]
    exact (reading_rune hr _).trans (congrArg _ (reading_mark hpal))
  rw [hreading, Seen.run_cons, hcore, Seen.run_of_not_allows rfl, ite_self]

/-- A space behind a parenthesis cannot be read. -/
lemma stuck_pal_space (h : Leading cs) : Stuck ('(' :: ' ' :: cs) := by
  intro rest _ q
  have hpal : Glyph.pal.Alone (' ' :: (cs ++ rest)) := Glyph.alone_of_isSolitary (by decide) _
  have hreading : reading ('(' :: ' ' :: cs ++ rest) = mark .pal :: ace :: reading (cs ++ rest) :=
    (reading_mark hpal).trans (congrArg _ (reading_space (h rest)))
  have hnext : q.next (mark .pal) = .pal := rfl
  rw [hreading, Seen.run_cons, hnext, Seen.run_of_not_allows rfl, ite_self]

/-- A `^` that joins nothing. -/
lemma stuck_ket (h : ∀ rest, Stops rest → Glyph.ket.Alone (cs ++ rest)) : Stuck ('^' :: cs) := by
  intro rest hrest q
  have hreading : reading ('^' :: (cs ++ rest)) = mark .ket :: reading (cs ++ rest) :=
    reading_mark (h rest hrest)
  rw [List.cons_append, hreading, Seen.run_of_not_allows rfl]

end

end Runic
