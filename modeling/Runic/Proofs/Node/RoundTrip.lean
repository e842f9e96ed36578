import Runic.Canonical.Expand
import Runic.Proofs.Node.Layout
import Runic.Proofs.Node.Parsing
import Runic.Proofs.Node.Parts

/-!
# Trees that are written and read back

Not every tree survives being written down and read again.  A tree whose texts are words and whose
runes have the arguments they take (`Node.isWellFormed`) fails to only for one of three reasons
(`Node.isUnreadable`): a rune with arms has no wide form; `=:` without pairs is written with a space
behind its parenthesis; and the `=` of a label can join what stands behind it.  Canonical trees have
slots besides (`Node.IsSlot`), which cannot be read either.

* `Node.exists_spells` — if none of them is met, the text is a phrase of the tree.
* `Node.stuck` — if one of them is, or a slot, no text around it can be read.
* `parse_print_eq_ok_iff` — **both together**.
-/

namespace Runic

open Runic.Symbol (mark ace gap)
open Grammar

namespace Node

/-! ## Readable trees -/

/-- The texts of the node are words, and its rune takes as many arguments as there are. -/
def isWellFormed : Node → Bool
  | face name _ => isFaceText name
  | faced label _ _ => isFaceText label
  | num digits _ => isNumText digits
  | rune r args _ =>
    decide (r = .cenhep ∧ args ≠ []) || r.signature?.any fun s => s.accepts args.length
  | buc _ | pat _ | dot _ | cell _ _ _ => true

/-- The glyphs that a `=` in front of a rune would take away from it. -/
def afterTis : List Glyph := [.dot, .tis, .wut, .bar, .lus, .col, .ket, .mic, .sig]

/-- The text of the node cannot stand behind the `=` of a label: the two would join, or the label
would have another one behind it. -/
def clings : Node → Bool
  | dot _ | faced _ _ _ => true
  | rune r _ _ => decide (r ≠ .cenhep) && r.glyphs?.any fun g => afterTis.contains g.1
  | _ => false

/-- The text of the node cannot be read, whatever its parts are: a label in front of a tree that
clings to it, a rune whose tail are arms, or a `=:` without pairs. -/
def isUnreadable : Node → Bool
  | faced _ value _ => value.clings
  | rune r args _ =>
    (r.signature?.any fun s => s.tail = .arms) || decide (r = .tiscol ∧ args.length = 1)
  | _ => false

/-- The node is the face of a slot, the anonymous one or that of a word. -/
def IsSlot : Node → Prop
  | face name _ => name = anonymousSlot ∨ ∃ word, isFaceText word = true ∧ name = parkingSlot word
  | _ => False

/-- The node is well-formed, or else a slot. -/
def IsWritten (n : Node) : Prop := n.isWellFormed = true ∨ n.IsSlot

/-- The node is unreadable, or a slot. -/
def IsBarred (n : Node) : Prop := n.isUnreadable = true ∨ n.IsSlot

/-! ## How the text of a tree starts -/

/-- The rune of a well-formed node is written with two glyphs. -/
lemma exists_glyphs {r : Rune} {args : List Node} {span : Span}
    (h : (rune r args span).isWellFormed = true) : ∃ a b, r.glyphs? = some (a, b) := by
  simp only [isWellFormed, Bool.or_eq_true, decide_eq_true_eq, Option.any_eq_true] at h
  rcases h with ⟨rfl, -⟩ | ⟨s, hs, -⟩
  · exact ⟨_, _, rfl⟩
  · exact Rune.exists_glyphs hs

lemma chars_cenhep (args : List Node) (span : Span) :
    (rune .cenhep args span).chars = '(' :: spaced (charsAll args) ++ [')'] := by
  rw [chars]

lemma chars_rune {r : Rune} (h : r ≠ .cenhep) (args : List Node) (span : Span) :
    (rune r args span).chars = r.text.toList ++ ('(' :: r.layout (charsAll args) ++ [')']) := by
  rw [chars, List.append_assoc]
  exact h

/-- The text of a well-formed tree does not start with layout. -/
lemma leading {n : Node} (h : n.isWellFormed = true) : Leading n.chars := by
  intro rest
  cases n with
  | buc span => exact leads_glyph (by decide : Glyph.buc ≠ .col) rest
  | pat span => exact leads_glyph (by decide : Glyph.pat ≠ .col) rest
  | dot span => exact leads_glyph (by decide : Glyph.dot ≠ .col) rest
  | face name span =>
      rw [chars]
      exact leads_face h rest
  | faced label value span =>
      rw [chars, List.append_assoc]
      exact leads_face h _
  | num digits span =>
      rw [chars]
      exact leads_num h rest
  | rune r args span =>
      obtain ⟨a, b, hr⟩ := exists_glyphs h
      by_cases hcenhep : r = .cenhep
      · subst hcenhep
        rw [chars_cenhep]
        exact leads_glyph (by decide : Glyph.pal ≠ .col) _
      · rw [chars_rune hcenhep, Rune.text_of_glyphs hr, String.toList_ofList]
        exact leads_rune hr _
  | cell head tail span =>
      rw [chars]
      exact leads_glyph (by decide : Glyph.sel ≠ .col) _

/-- The text of a slot is a `^` that joins nothing. -/
lemma IsSlot.exists_chars {n : Node} (h : n.IsSlot) :
    ∃ cs, n.chars = '^' :: cs ∧ ∀ rest, Stops rest → Glyph.ket.Alone (cs ++ rest) := by
  cases n with
  | face name span =>
      rw [chars]
      rcases h with rfl | ⟨word, hword, rfl⟩
      · have hjoins : ∀ b ∈ Glyph.all, b.char ∈ stoppers → Glyph.ket.joins b = false := by decide
        exact ⟨[], rfl, fun rest hrest b hb => hjoins b b.mem_all (hrest _ hb)⟩
      · obtain ⟨c, cs, hchars, hstart, -⟩ := exists_cons_of_word hword
        refine ⟨c :: cs, ?_, fun rest _ => Glyph.alone_word (.inl hstart) _ _⟩
        rw [parkingSlot, String.toList_append, hchars]
        rfl
  | _ => cases h

lemma IsWritten.leading {n : Node} (h : n.IsWritten) : Leading n.chars := by
  rcases h with h | h
  · exact Node.leading h
  · obtain ⟨cs, hcs, -⟩ := h.exists_chars
    rw [hcs]
    exact fun rest => leads_glyph (by decide : Glyph.ket ≠ .col) _

/-- A written node that is not barred is well-formed and readable, since slots are barred. -/
lemma isWellFormed_of_not_isBarred {n : Node} (h : n.IsWritten) (hbarred : ¬ n.IsBarred) :
    n.isWellFormed = true ∧ n.isUnreadable = false :=
  ⟨h.resolve_right fun hslot => hbarred (.inr hslot), by simpa using fun h => hbarred (.inl h)⟩

lemma joins_first {r : Rune} {a b : Glyph} (h : r.glyphs? = some (a, b)) :
    Glyph.tis.joins a = afterTis.contains a := by
  have hall : ∀ r ∈ Rune.vocabulary, ∀ g ∈ r.glyphs?,
      Glyph.tis.joins g.1 = afterTis.contains g.1 := by
    decide +kernel
  exact hall r (Rune.mem_vocabulary h) (a, b) h

/-- Only what clings joins a `=` in front of it. -/
lemma alone {n : Node} (h : n.isWellFormed = true) (hclings : n.clings = false)
    (rest : List Char) : Glyph.tis.Alone (n.chars ++ rest) := by
  cases n with
  | buc span => exact Glyph.alone_cons (by decide : Glyph.tis.joins .buc = false) _
  | pat span => exact Glyph.alone_cons (by decide : Glyph.tis.joins .pat = false) _
  | dot span => cases hclings
  | face name span =>
      obtain ⟨c, cs, hname, hstart, -⟩ := exists_cons_of_word h
      rw [chars, hname]
      exact Glyph.alone_word (.inl hstart) _ _
  | faced label value span => cases hclings
  | num digits span =>
      obtain ⟨c, cs, hdigits, hstart, -⟩ := exists_cons_of_word h
      rw [chars, hdigits]
      exact Glyph.alone_word (.inr hstart) _ _
  | rune r args span =>
      obtain ⟨a, b, hr⟩ := exists_glyphs h
      by_cases hcenhep : r = .cenhep
      · subst hcenhep
        rw [chars_cenhep]
        exact Glyph.alone_cons (by decide : Glyph.tis.joins .pal = false) _
      · rw [chars_rune hcenhep, Rune.text_of_glyphs hr, String.toList_ofList]
        refine Glyph.alone_cons ?_ _
        rw [joins_first hr]
        simpa [clings, hcenhep, hr] using hclings
  | cell head tail span =>
      rw [chars]
      exact Glyph.alone_cons (by decide : Glyph.tis.joins .sel = false) _

/-! ## Trees that are read back -/

/-- A rune with arguments behind its pairs is `=:`. -/
lemma eq_tiscol {r : Rune} {s : Signature} (h : r.signature? = some s) (htail : s.tail = .pairs)
    (hpost : s.post ≠ 0) : r = .tiscol ∧ s.least = 1 := by
  cases r <;> cases h <;> first | cases htail; done | exact absurd rfl hpost | exact ⟨rfl, rfl⟩

/-- The arguments of a readable application with pairs can be laid out: there are pairs, or nothing
behind them. -/
lemma post_or_pairs {r : Rune} {s : Signature} {args : List Node} {span : Span}
    (hs : r.signature? = some s) (haccepts : s.accepts args.length = true)
    (hreadable : (rune r args span).isUnreadable = false) :
    s.tail = .pairs → s.post = 0 ∨ s.least < args.length := by
  intro htail
  by_cases hpost : s.post = 0
  · exact .inl hpost
  · obtain ⟨rfl, hleast⟩ := eq_tiscol hs htail hpost
    have hcount : s.least ≤ args.length := by
      simp only [Signature.accepts, htail, Bool.and_eq_true, decide_eq_true_eq] at haccepts
      exact haccepts.1
    have hone : args.length ≠ 1 := by
      simp only [isUnreadable, Bool.or_eq_false_iff, decide_eq_false_iff_not] at hreadable
      simpa using hreadable.2
    exact .inr (by omega)

/-- The rune of a well-formed application other than `%-` has a signature that accepts the
arguments. -/
lemma exists_signature {r : Rune} {args : List Node} {span : Span}
    (h : (rune r args span).isWellFormed = true) (hr : r ≠ .cenhep) :
    ∃ s, r.signature? = some s ∧ s.accepts args.length = true := by
  simpa [isWellFormed, hr, Option.any_eq_true] using h

lemma exists_of_operand {n : Node} {ts : List Symbol} (hts : Spells n.chars ts)
    (h : Operand false ts n.bare) : ∃ ts, Spells n.chars ts ∧ Expr ts n.bare ∧
      (n.clings = false → Operand false ts n.bare) :=
  ⟨ts, hts, .chain (.operand h), fun _ => h⟩

/-- A well-formed application of `%-` has an argument. -/
lemma args_ne_nil {args : List Node} {span : Span}
    (h : (rune .cenhep args span).isWellFormed = true) : args ≠ [] := by
  rintro rfl
  cases h

/-- A readable application whose arguments are spelled is written as a phrase of an operand. -/
lemma exists_spells_rune {r : Rune} {args : List Node} {span : Span}
    (hwell : (rune r args span).isWellFormed = true)
    (hreadable : (rune r args span).isUnreadable = false) (hargs : ∀ arg ∈ args, arg.Spelled) :
    ∃ ts, Spells (rune r args span).chars ts ∧ Operand false ts (rune r args span).bare := by
  obtain ⟨spellings, htexts, htrees⟩ := exists_spellings hargs
  have hlength : spellings.length = args.length := by
    simpa using congrArg List.length htrees
  rw [bare, ← htrees]
  by_cases hcenhep : r = .cenhep
  · subst hcenhep
    have hne : spellings ≠ [] := by
      rintro rfl
      exact args_ne_nil hwell (List.length_eq_zero_iff.1 hlength.symm)
    obtain ⟨-, ts, hts, hspaced⟩ := Spelling.spells_spaced hne
    refine ⟨_, ?_, .pal hspaced⟩
    rw [chars_cenhep, ← htexts]
    exact hts.parens
  · obtain ⟨s, hs, haccepts⟩ := exists_signature hwell hcenhep
    obtain ⟨a, b, hr⟩ := exists_glyphs hwell
    have harms : s.tail ≠ .arms := by
      simp only [isUnreadable, hs, Option.any_some, Bool.or_eq_false_iff,
        decide_eq_false_iff_not] at hreadable
      exact hreadable.1
    have hpost := post_or_pairs hs haccepts hreadable
    rw [← hlength] at haccepts hpost
    obtain ⟨ts, hts, hwide⟩ := Spelling.spells_layout spellings harms haccepts hpost
    refine ⟨_, ?_, .wide hs hwide (by simpa using haccepts)⟩
    rw [chars_rune hcenhep, Rune.layout, hs, ← htexts]
    exact hts.parens.rune hr

/-- **A readable tree is written as one of its phrases**, and that is an operand unless the tree
clings to what stands in front of it. -/
theorem exists_spells {n : Node}
    (h : ∀ m ∈ n.subtrees, m.isWellFormed = true ∧ m.isUnreadable = false) :
    ∃ ts, Spells n.chars ts ∧ Expr ts n.bare ∧
      (n.clings = false → Operand false ts n.bare) := by
  induction n using Node.induction with
  | buc span => exact exists_of_operand (spells_mark (a := .buc) (by decide)) .buc
  | pat span => exact exists_of_operand (spells_mark (a := .pat) (by decide)) .pat
  | dot span => exact exists_of_operand (spells_mark (a := .dot) (by decide)) .dot
  | face name span =>
      refine exists_of_operand ?_ (.face name)
      rw [chars]
      exact spells_face (h _ (mem_subtrees _)).1
  | num digits span =>
      refine exists_of_operand ?_ (.num digits)
      rw [chars]
      exact spells_num (h _ (mem_subtrees _)).1
  | faced label value span ih =>
      obtain ⟨hlabel, hclings⟩ := h _ (mem_subtrees _)
      have hvalue := fun m (hm : m ∈ value.subtrees) => h m (by simp [subtrees, hm])
      obtain ⟨ts, hts, -, hoperand⟩ := ih hvalue
      have halone := alone (hvalue _ value.mem_subtrees).1 hclings
      refine ⟨_, by rw [chars]; exact hts.faced hlabel halone, ?_, fun hfalse => by cases hfalse⟩
      exact .chain (.tis (.operand (.face label)) (hoperand hclings))
  | rune r args span ih =>
      obtain ⟨hwell, hreadable⟩ := h _ (mem_subtrees _)
      have hargs : ∀ arg ∈ args, arg.Spelled := by
        intro arg harg
        have harg' : ∀ m ∈ arg.subtrees, m.isWellFormed = true ∧ m.isUnreadable = false :=
          fun m hm => h m (List.mem_cons_of_mem _ (mem_subtreesAll.2 ⟨arg, harg, hm⟩))
        obtain ⟨ts, hts, hexpr, -⟩ := ih arg harg harg'
        exact ⟨leading (harg' _ arg.mem_subtrees).1, ts, hts, hexpr⟩
      obtain ⟨ts, hts, hoperand⟩ := exists_spells_rune hwell hreadable hargs
      exact exists_of_operand hts hoperand
  | cell head tail span ihHead ihTail =>
      have hhead := fun m (hm : m ∈ head.subtrees) => h m (by simp [subtrees, hm])
      have htail := fun m (hm : m ∈ tail.subtrees) => h m (by simp [subtrees, hm])
      obtain ⟨ts, hts, hexpr, -⟩ := ihHead hhead
      obtain ⟨us, hus, hexpr', -⟩ := ihTail htail
      have hcells := hts.join .space hus (leading (htail _ tail.mem_subtrees).1)
      refine exists_of_operand ?_ (.sel (.more hexpr (.one hexpr')))
      rw [chars]
      exact hcells.brackets

/-! ## Trees that are not read back -/

/-- A label in front of a tree that clings cannot be read. -/
lemma stuck_of_clings {label : String} {value : Node} (hlabel : isFaceText label = true)
    (hvalue : value.isWellFormed = true) (hclings : value.clings = true) :
    Stuck (label.toList ++ '=' :: value.chars) := by
  cases value with
  | faced other value span =>
      rw [chars]
      refine stuck_faced_faced hlabel hvalue ?_ value.chars
      obtain ⟨c, cs, hother, hstart, -⟩ := exists_cons_of_word hvalue
      rw [hother]
      exact fun rest => Glyph.alone_word (.inl hstart) _ _
  | dot span =>
      refine stuck_of_not_alone hlabel fun rest halone => ?_
      exact absurd (halone .dot rfl) (by decide)
  | rune r args span =>
      obtain ⟨a, b, hr⟩ := exists_glyphs hvalue
      simp only [clings, hr, Option.any_some, Bool.and_eq_true, decide_eq_true_eq] at hclings
      rw [chars_rune hclings.1, Rune.text_of_glyphs hr, String.toList_ofList]
      refine stuck_of_not_alone hlabel fun rest halone => ?_
      have hjoins := halone a rfl
      rw [joins_first hr, hclings.2] at hjoins
      cases hjoins
  | _ => cases hclings

/-- An application that is unreadable itself is written as a text that cannot be read. -/
lemma stuck_of_isUnreadable {r : Rune} {args : List Node} {span : Span} (hr : r ≠ .cenhep)
    (hargs : ∀ arg ∈ args, arg.IsWritten) (hwell : (rune r args span).isWellFormed = true)
    (h : (rune r args span).isUnreadable = true) : Stuck (rune r args span).chars := by
  obtain ⟨a, b, hglyphs⟩ := exists_glyphs hwell
  obtain ⟨s, hs, haccepts⟩ := exists_signature hwell hr
  simp only [isUnreadable, hs, Option.any_some, Bool.or_eq_true, decide_eq_true_eq] at h
  rw [chars_rune hr]
  rcases h with harms | ⟨rfl, hone⟩
  · exact stuck_core hglyphs hs harms _
  · obtain ⟨arg, rfl⟩ := List.length_eq_one_iff.1 hone
    have hlayout : Rune.tiscol.layout (charsAll [arg]) = ' ' :: arg.chars := by
      simp [Rune.layout, Rune.signature?, Signature.pairs, Signature.layout, Signature.layoutPairs,
        charsAll, spaced, inPairs, commaSpaced]
    have hlead := (hargs arg (by simp)).leading.append [')']
    rw [hlayout]
    exact (stuck_pal_space hlead).rune hglyphs

/-- An application that is readable itself is written as a text that cannot be read, if its
arguments are. -/
lemma stuck_rune {r : Rune} {args : List Node} {span : Span}
    (hwell : (rune r args span).isWellFormed = true)
    (hreadable : (rune r args span).isUnreadable = false)
    (hargs : ∀ {cs}, Arranged (charsAll args) cs → Stuck cs) :
    Stuck (rune r args span).chars := by
  by_cases hcenhep : r = .cenhep
  · subst hcenhep
    rw [chars_cenhep]
    exact (hargs (.spaced _)).parens
  · obtain ⟨a, b, hr⟩ := exists_glyphs hwell
    obtain ⟨s, hs, haccepts⟩ := exists_signature hwell hcenhep
    have hlength : (charsAll args).length = args.length := by simp [charsAll_eq_map]
    rw [chars_rune hcenhep, Rune.layout, hs]
    refine (hargs (.layout ?_ ?_)).parens.rune hr
    · rwa [hlength]
    · rw [hlength]
      exact post_or_pairs hs haccepts hreadable

/-- Trees one behind the other, one of which has a barred node, cannot be read. -/
lemma stuck_of_arranged {nodes : List Node} {cs : List Char} (h : Arranged (charsAll nodes) cs)
    (hwritten : ∀ n ∈ nodes, ∀ m ∈ n.subtrees, m.IsWritten)
    (hstuck : ∀ n ∈ nodes, (∃ m ∈ n.subtrees, m.IsBarred) → Stuck n.chars)
    (hbad : ∃ n ∈ nodes, ∃ m ∈ n.subtrees, m.IsBarred) : Stuck cs := by
  rw [charsAll_eq_map] at h
  refine h.stuck ?_ ?_
  · intro text htext
    obtain ⟨n, hn, rfl⟩ := List.mem_map.1 htext
    refine ⟨(hwritten n hn n n.mem_subtrees).leading, ?_⟩
    by_cases hn' : ∃ m ∈ n.subtrees, m.IsBarred
    · exact .inl (hstuck n hn hn')
    · obtain ⟨ts, hts, -⟩ := exists_spells fun m hm =>
        isWellFormed_of_not_isBarred (hwritten n hn m hm) fun hm' => hn' ⟨m, hm, hm'⟩
      exact .inr ⟨ts, hts⟩
  · obtain ⟨n, hn, hn'⟩ := hbad
    exact ⟨n.chars, List.mem_map_of_mem hn, hstuck n hn hn'⟩

/-- A label in front of a slot cannot be read: the two glyphs between them are a rune. -/
lemma IsSlot.stuck_faced {label : String} {value : Node} (hlabel : isFaceText label = true)
    (h : value.IsSlot) : Stuck (label.toList ++ '=' :: value.chars) := by
  obtain ⟨cs, hcs, -⟩ := h.exists_chars
  rw [hcs]
  refine stuck_of_not_alone hlabel fun rest halone => ?_
  exact absurd (halone .ket rfl) (by decide)

/-- **A tree with a barred node in it is written as a text that cannot be read.** -/
theorem stuck {n : Node} (hwritten : ∀ m ∈ n.subtrees, m.IsWritten)
    (h : ∃ m ∈ n.subtrees, m.IsBarred) : Stuck n.chars := by
  induction n using Node.induction with
  | buc span | pat span | dot span | num digits span =>
      simp [subtrees, IsBarred, isUnreadable, IsSlot] at h
  | face name span =>
      have hslot : (face name span).IsSlot := by simpa [subtrees, IsBarred, isUnreadable] using h
      obtain ⟨cs, hcs, halone⟩ := hslot.exists_chars
      rw [hcs]
      exact stuck_ket halone
  | faced label value span ih =>
      have hvalue := fun m (hm : m ∈ value.subtrees) => hwritten m (by simp [subtrees, hm])
      have hlabel := (hwritten _ (mem_subtrees _)).resolve_right id
      rw [chars]
      rcases hvalue _ value.mem_subtrees with hwell | hslot
      · cases hclings : value.clings with
        | true => exact stuck_of_clings hlabel hwell hclings
        | false =>
            have hbad : ∃ m ∈ value.subtrees, m.IsBarred := by
              simpa [subtrees, IsBarred, isUnreadable, IsSlot, hclings] using h
            exact (ih hvalue hbad).faced hlabel (alone hwell hclings)
      · exact hslot.stuck_faced hlabel
  | rune r args span ih =>
      have hself := (hwritten _ (mem_subtrees _)).resolve_right id
      have hargs : ∀ arg ∈ args, ∀ m ∈ arg.subtrees, m.IsWritten :=
        fun arg harg m hm =>
          hwritten m (List.mem_cons_of_mem _ (mem_subtreesAll.2 ⟨arg, harg, hm⟩))
      cases hreadable : (rune r args span).isUnreadable with
      | true =>
          refine stuck_of_isUnreadable ?_ (fun arg harg => hargs arg harg _ arg.mem_subtrees) hself
            hreadable
          rintro rfl
          cases hreadable
      | false =>
          have hbad : ∃ arg ∈ args, ∃ m ∈ arg.subtrees, m.IsBarred := by
            obtain ⟨m, hm, hm'⟩ := h
            rw [subtrees, List.mem_cons, mem_subtreesAll] at hm
            rcases hm with rfl | ⟨arg, harg, hm⟩
            · simp [IsBarred, hreadable, IsSlot] at hm'
            · exact ⟨arg, harg, m, hm, hm'⟩
          refine stuck_rune hself hreadable fun hcs => ?_
          exact stuck_of_arranged hcs hargs (fun arg harg => ih arg harg (hargs arg harg)) hbad
  | cell head tail span ihHead ihTail =>
      have hhead := fun m (hm : m ∈ head.subtrees) => hwritten m (by simp [subtrees, hm])
      have htail := fun m (hm : m ∈ tail.subtrees) => hwritten m (by simp [subtrees, hm])
      have hcells : Arranged (charsAll [head, tail]) (head.chars ++ ([' '] ++ tail.chars)) :=
        .more .space (.one _)
      have hstuck : Stuck (head.chars ++ ([' '] ++ tail.chars)) := by
        refine stuck_of_arranged hcells ?_ ?_ ?_
        · exact List.forall_mem_cons.2 ⟨hhead, List.forall_mem_singleton.2 htail⟩
        · exact List.forall_mem_cons.2 ⟨ihHead hhead, List.forall_mem_singleton.2 (ihTail htail)⟩
        · simpa [subtrees, IsBarred, isUnreadable, IsSlot, or_and_right, exists_or] using h
      rw [chars]
      exact hstuck.brackets

end Node

/-! ## Writing and reading -/

lemma symbols_print (n : Node) :
    (folded (lex n.print)).map Token.symbol = reading n.chars := by
  rw [lex, Node.print, String.toList_ofList, reading]

/-- A text that spells a phrase of a tree is parsed as that tree, up to spans. -/
lemma parse_of_spells {cs : List Char} {ts : List Symbol} {t : Node} (h : Spells cs ts)
    (hexpr : Expr ts t) : ∃ n, parse (String.ofList cs) = .ok n ∧ n.bare = t := by
  have hsymbols : (folded (lex (String.ofList cs))).map Token.symbol =
      [] ++ ts ++ [] ++ [.eof] := by
    have hreading := h [] stops_nil
    rw [List.append_nil, reading_nil] at hreading
    rw [lex, String.toList_ofList, ← reading, hreading, List.nil_append, List.append_nil]
  have hphrase := phrase_eq hsymbols (by simp) (by simp) hexpr
  exact parse_of_expr (hphrase ▸ hexpr)

lemma exists_parse_print {n : Node}
    (h : ∀ m ∈ n.subtrees, m.isWellFormed = true ∧ m.isUnreadable = false) :
    ∃ m, parse n.print = .ok m ∧ m.bare = n.bare := by
  obtain ⟨ts, hts, hexpr, -⟩ := Node.exists_spells h
  exact parse_of_spells hts hexpr

/-- If a tree of written nodes is printed and parsed again, then none of its nodes is barred. -/
lemma not_isBarred_of_parse_print {n m : Node} (h : ∀ k ∈ n.subtrees, k.IsWritten)
    (hparse : parse n.print = .ok m) : ∀ k ∈ n.subtrees, ¬ k.IsBarred := by
  by_contra hbad
  obtain ⟨q, hrun, -⟩ := passes_of_expr (expr_of_parse hparse)
  have hstuck := Node.stuck h (by simpa using hbad) [] stops_nil .other
  rw [List.append_nil, ← symbols_print, hrun] at hstuck
  cases hstuck

lemma isUnreadable_of_parse_print {n m : Node} (h : ∀ m ∈ n.subtrees, m.isWellFormed = true)
    (hparse : parse n.print = .ok m) : ∀ m ∈ n.subtrees, m.isUnreadable = false := by
  intro k hk
  have hbarred := not_isBarred_of_parse_print (fun k hk => .inl (h k hk)) hparse k hk
  simpa using fun hk' => hbarred (.inl hk')

/-- **A well-formed tree that is written is read if and only if nothing in it is unreadable, and
then what is read differs from it in nothing but its spans.** -/
theorem parse_print_eq_ok_iff (n : Node) (h : ∀ m ∈ n.subtrees, m.isWellFormed = true) :
    ((∃ m, parse n.print = .ok m) ↔ ∀ m ∈ n.subtrees, m.isUnreadable = false) ∧
      ∀ m, parse n.print = .ok m → m.bare = n.bare := by
  have hread : (∀ m ∈ n.subtrees, m.isUnreadable = false) →
      ∃ m, parse n.print = .ok m ∧ m.bare = n.bare :=
    fun hreadable => exists_parse_print fun m hm => ⟨h m hm, hreadable m hm⟩
  refine ⟨⟨?_, ?_⟩, ?_⟩
  · rintro ⟨m, hm⟩
    exact isUnreadable_of_parse_print h hm
  · intro hreadable
    obtain ⟨m, hm, -⟩ := hread hreadable
    exact ⟨m, hm⟩
  · intro m hm
    obtain ⟨m', hm', hbare⟩ := hread (isUnreadable_of_parse_print h hm)
    rw [hm, Except.ok.injEq] at hm'
    rw [hm', hbare]

/-- The tree of `=:(a .+(a), b=[c 1.000] ($ @), ?-(a))`. -/
def joggingTree : Node :=
  .rune .tiscol
    [.face "a" .nowhere, .rune .dotlus [.face "a" .nowhere] .nowhere,
      .faced "b" (.cell (.face "c" .nowhere) (.num "1.000" .nowhere) .nowhere) .nowhere,
      .rune .cenhep [.buc .nowhere, .pat .nowhere] .nowhere,
      .rune .wuthep [.face "a" .nowhere] .nowhere] .nowhere

theorem parse_print_eq_ok_iff_jogging :
    (∀ m ∈ joggingTree.subtrees, m.isWellFormed = true) ∧
      ∃ m, parse joggingTree.print = .ok m ∧ m.bare = joggingTree.bare := by
  have hwell : ∀ m ∈ joggingTree.subtrees, m.isWellFormed = true := by decide
  have hreadable : ∀ m ∈ joggingTree.subtrees, m.isUnreadable = false := by decide
  obtain ⟨hiff, hbare⟩ := parse_print_eq_ok_iff joggingTree hwell
  obtain ⟨m, hm⟩ := hiff.2 hreadable
  exact ⟨hwell, m, hm, hbare m hm⟩

end Runic
