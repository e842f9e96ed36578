import Runic.Proofs.Node.Spelling

/-!
# How arguments are laid out

Arguments are written with a space between each two, those of a jogging list in three parts with
commas between the pairs.

* `Spelling.spells_layout` — **if the arguments can be read, their layout is a phrase of a wide
  form.**
* `Arranged.stuck` — if one of them cannot, neither can the layout.

One layout is neither: a jogging list without pairs but with something behind them starts with a
space.
-/

namespace Runic

open Runic.Symbol (mark ace gap)
open Grammar

/-! ## Layouts of texts -/

lemma spaced_cons (text : List Char) {texts : List (List Char)} (h : texts ≠ []) :
    spaced (text :: texts) = text ++ ' ' :: spaced texts := by
  cases texts with
  | nil => exact absurd rfl h
  | cons _ _ => rfl

lemma commaSpaced_cons (text : List Char) {texts : List (List Char)} (h : texts ≠ []) :
    commaSpaced (text :: texts) = text ++ ',' :: ' ' :: commaSpaced texts := by
  cases texts with
  | nil => exact absurd rfl h
  | cons _ _ => rfl

lemma flatMap_space {texts : List (List Char)} (h : texts ≠ []) :
    texts.flatMap (' ' :: ·) = ' ' :: spaced texts := by
  induction texts with
  | nil => exact absurd rfl h
  | cons text texts ih =>
      by_cases hne : texts = []
      · simp [hne, spaced]
      · rw [List.flatMap_cons, ih hne, spaced_cons text hne, List.cons_append]

lemma inPairs_ne_nil {α : Type} {as : List α} (h : as ≠ []) : inPairs as ≠ [] := by
  fun_cases inPairs as <;> simp_all

lemma Signature.layout_of_pairs {s : Signature} (h : s.tail = .pairs) (texts : List (List Char)) :
    s.layout texts = s.layoutPairs texts := by
  rw [layout, h]

lemma Signature.layout_of_ne_pairs {s : Signature} (h : s.tail ≠ .pairs)
    (texts : List (List Char)) : s.layout texts = spaced texts := by
  unfold layout
  split
  · next hp => exact absurd hp h
  · rfl

/-- The arguments of a jogging list have three parts: fixed ones, pairs, and those behind them.  The
hypothesis excludes a list with something behind no pairs, which is laid out as nothing that can be
read. -/
lemma Signature.exists_parts {α : Type} {s : Signature} {as : List α} (htail : s.tail = .pairs)
    (haccepts : s.accepts as.length = true) (hpost : s.post = 0 ∨ s.least < as.length) :
    ∃ fixed pairs post, as = fixed ++ pairs ++ post ∧ fixed.length = s.args ∧
      pairs.length % 2 = 0 ∧ post.length = s.post ∧ (post = [] ∨ pairs ≠ []) := by
  have hcount : s.least ≤ as.length ∧ (as.length - s.least) % 2 = 0 := by
    simpa [accepts, htail] using haccepts
  unfold least at hcount hpost
  have hpairs : ((as.drop s.args).take (as.length - (s.args + s.post))).length =
      as.length - (s.args + s.post) := by
    rw [List.length_take, List.length_drop]
    omega
  have hback : ((as.drop s.args).drop (as.length - (s.args + s.post))).length = s.post := by
    rw [List.length_drop, List.length_drop]
    omega
  refine ⟨as.take s.args, (as.drop s.args).take (as.length - (s.args + s.post)),
    (as.drop s.args).drop (as.length - (s.args + s.post)), ?_, ?_, ?_, hback, ?_⟩
  · rw [List.append_assoc, List.take_append_drop, List.take_append_drop]
  · rw [List.length_take]
    omega
  · rw [hpairs]
    exact hcount.2
  · rcases hpost with hzero | hless
    · exact .inl (List.length_eq_zero_iff.1 (hback.trans hzero))
    · exact .inr (List.ne_nil_of_length_pos (by omega))

/-- The function `layoutPairs` puts the three parts of a jogging list one behind the other. -/
lemma Signature.layoutPairs_append {s : Signature} {fixed pairs post : List (List Char)}
    (hfixed : fixed.length = s.args) (hpost : post.length = s.post) :
    s.layoutPairs (fixed ++ pairs ++ post) =
      spaced fixed ++ (if fixed ≠ [] ∧ pairs ≠ [] then [' '] else []) ++
        commaSpaced ((inPairs pairs).map spaced) ++ post.flatMap (' ' :: ·) := by
  have hmin : min s.args (fixed ++ pairs ++ post).length = fixed.length := by
    simp [hfixed]
  have hmax : max ((fixed ++ pairs ++ post).length - s.post) fixed.length =
      (fixed ++ pairs).length := by
    simp only [List.length_append, ← hpost]
    omega
  have hhead : (fixed ++ pairs ++ post).take fixed.length = fixed := by
    rw [List.append_assoc, List.take_left]
  unfold layoutPairs
  simp only [hmin, hmax, hhead, List.take_left, List.drop_left]

lemma Leading.append {as : List Char} (h : Leading as) (bs : List Char) : Leading (as ++ bs) := by
  intro rest
  rw [List.append_assoc]
  exact h (bs ++ rest)

/-! ## Arguments that can be read -/

/-- A text with a tree of which it is a phrase. -/
structure Spelling where
  text : List Char
  tree : Node
  leading : Leading text
  spells : ∃ ts, Spells text ts ∧ Expr ts tree

namespace Spelling

lemma spells_spaced {args : List Spelling} (hne : args ≠ []) :
    Leading (spaced (args.map text)) ∧
      ∃ ts, Spells (spaced (args.map text)) ts ∧ Spaced ts (args.map tree) := by
  induction args with
  | nil => exact absurd rfl hne
  | cons a args ih =>
      obtain ⟨ts, hts, hexpr⟩ := a.spells
      by_cases hargs : args = []
      · subst hargs
        exact ⟨a.leading, ts, hts, .one hexpr⟩
      · obtain ⟨hlead, us, hus, hspaced⟩ := ih hargs
        rw [List.map_cons, spaced_cons _ (by simpa using hargs)]
        exact ⟨a.leading.append _, _, hts.join .space hus hlead, .more hexpr hspaced⟩

lemma spells_args (args : List Spelling) :
    ∃ ts, Spells (spaced (args.map text)) ts ∧ Args ts (args.map tree) := by
  by_cases hne : args = []
  · subst hne
    exact ⟨[], spells_nil, .none⟩
  · obtain ⟨-, ts, hts, hspaced⟩ := spells_spaced hne
    exact ⟨ts, hts, .some hspaced⟩

lemma spells_pairs : ∀ {args : List Spelling}, args ≠ [] → args.length % 2 = 0 →
    Leading (commaSpaced ((inPairs (args.map text)).map spaced)) ∧
      ∃ ts, Spells (commaSpaced ((inPairs (args.map text)).map spaced)) ts ∧
        Pairs ts (args.map tree)
  | [], hne, _ => absurd rfl hne
  | [_], _, heven => by simp at heven
  | l :: r :: args, _, heven => by
      obtain ⟨ls, hls, hl⟩ := l.spells
      obtain ⟨rs, hrs, hr⟩ := r.spells
      have hpair := hls.join .space hrs r.leading
      by_cases hargs : args = []
      · subst hargs
        exact ⟨l.leading.append _, _, hpair, .one hl hr⟩
      · obtain ⟨hlead, us, hus, hpairs⟩ := spells_pairs hargs (by simp at heven; omega)
        have htexts : (inPairs (args.map text)).map spaced ≠ [] := by
          simpa using inPairs_ne_nil (by simpa using hargs : args.map text ≠ [])
        rw [List.map_cons, List.map_cons, inPairs, List.map_cons, commaSpaced_cons _ htexts]
        refine ⟨(l.leading.append _).append _, _, hpair.join .com hus hlead, ?_⟩
        exact .more hl hr hpairs

/-- Pairs with commas, and possibly something behind them, are read as a jogging list. -/
lemma spells_jogging {s : Signature} {pairs post : List Spelling} (hne : pairs ≠ [])
    (heven : pairs.length % 2 = 0) (hlength : post.length = s.post) :
    Leading (commaSpaced ((inPairs (pairs.map text)).map spaced) ++
        (post.map text).flatMap (' ' :: ·)) ∧
      ∃ ts, Spells (commaSpaced ((inPairs (pairs.map text)).map spaced) ++
          (post.map text).flatMap (' ' :: ·)) ts ∧
        Jogging s ts (pairs.map tree ++ post.map tree) := by
  obtain ⟨hlead, ts, hts, hjogging⟩ := spells_pairs hne heven
  refine ⟨hlead.append _, ?_⟩
  by_cases hnil : post = []
  · subst hnil
    simp only [List.map_nil, List.flatMap_nil, List.append_nil]
    exact ⟨ts, hts, .pairs hjogging⟩
  · obtain ⟨hlead', us, hus, hspaced⟩ := spells_spaced hnil
    rw [flatMap_space (by simpa using hnil)]
    have hpos : 0 < s.post := hlength ▸ List.length_pos_iff.2 hnil
    exact ⟨_, hts.join .space hus hlead', .post hpos hjogging hspaced⟩

/-- The three parts of a jogging list, laid out by `layoutPairs`, are read as its wide form. -/
lemma spells_layoutPairs {s : Signature} {fixed pairs post : List Spelling}
    (htail : s.tail = .pairs) (hfixed : fixed.length = s.args) (heven : pairs.length % 2 = 0)
    (hpost : post.length = s.post) (hpairs : post = [] ∨ pairs ≠ []) :
    ∃ ts, Spells (s.layoutPairs ((fixed ++ pairs ++ post).map text)) ts ∧
      Wide s ts ((fixed ++ pairs ++ post).map tree) := by
  obtain ⟨ts, hts, hargs⟩ := spells_args fixed
  rw [List.map_append, List.map_append, List.map_append, List.map_append,
    Signature.layoutPairs_append (by simpa using hfixed) (by simpa using hpost)]
  by_cases hnil : pairs = []
  · obtain rfl : post = [] := hpairs.resolve_right (by simp [hnil])
    subst hnil
    refine ⟨ts, by simpa [inPairs, commaSpaced] using hts, ?_⟩
    simpa using Wide.fixed htail hargs (by simpa using hfixed)
  · obtain ⟨hlead, us, hus, hjogging⟩ := spells_jogging (s := s) hnil heven hpost
    have hwide := Wide.jogging htail hargs (by simpa using hfixed) hjogging
    rw [← List.append_assoc] at hwide
    refine ⟨_, ?_, hwide⟩
    by_cases hargs' : 0 < s.args
    · have hfixed' : fixed ≠ [] := List.ne_nil_of_length_pos (hfixed ▸ hargs')
      rw [if_pos hargs', if_pos ⟨by simpa using hfixed', by simpa using hnil⟩]
      simpa using hts.join .space hus hlead
    · obtain rfl : fixed = [] := List.length_eq_zero_iff.1 (by omega)
      have hnone : ts = [] := by
        cases hargs with
        | none => rfl
        | some hspaced => exact absurd rfl hspaced.ne_nil
      subst hnone
      simpa [spaced, hargs'] using hus

/-- **The text `layout` of the arguments of a rune is a phrase of its wide form**, unless a jogging
list has something behind its pairs but no pairs. -/
theorem spells_layout {s : Signature} (args : List Spelling) (harms : s.tail ≠ .arms)
    (haccepts : s.accepts args.length = true)
    (hpost : s.tail = .pairs → s.post = 0 ∨ s.least < args.length) :
    ∃ ts, Spells (s.layout (args.map text)) ts ∧ Wide s ts (args.map tree) := by
  by_cases htail : s.tail = .pairs
  · obtain ⟨fixed, pairs, post, rfl, hfixed, heven, hback, hne⟩ :=
      Signature.exists_parts htail haccepts (hpost htail)
    rw [Signature.layout_of_pairs htail]
    exact spells_layoutPairs htail hfixed heven hback hne
  · obtain ⟨ts, hts, hargs⟩ := spells_args args
    rw [Signature.layout_of_ne_pairs htail]
    refine ⟨ts, hts, .args ?_ hargs⟩
    cases hk : s.tail <;> simp_all

end Spelling

namespace Node

/-- The text `chars` of the tree is one of its phrases. -/
structure Spelled (n : Node) : Prop where
  leading : Leading n.chars
  spells : ∃ ts, Spells n.chars ts ∧ Expr ts n.bare

lemma charsAll_eq_map (nodes : List Node) : charsAll nodes = nodes.map chars := by
  induction nodes with
  | nil => rfl
  | cons node nodes ih => rw [charsAll, ih, List.map_cons]

lemma exists_spellings {nodes : List Node} (h : ∀ n ∈ nodes, n.Spelled) :
    ∃ args : List Spelling, args.map Spelling.text = charsAll nodes ∧
      args.map Spelling.tree = bareAll nodes := by
  induction nodes with
  | nil => exact ⟨[], rfl, rfl⟩
  | cons n nodes ih =>
      obtain ⟨args, htexts, htrees⟩ := ih fun m hm => h m (List.mem_cons_of_mem n hm)
      obtain ⟨hlead, hspells⟩ := h n List.mem_cons_self
      refine ⟨⟨n.chars, n.bare, hlead, hspells⟩ :: args, ?_, ?_⟩
      · rw [List.map_cons, htexts, charsAll]
      · rw [List.map_cons, htrees, bareAll]

end Node

/-! ## Arguments that cannot be read -/

/-- The texts stand one behind the other, with a separator between each two. -/
inductive Arranged : List (List Char) → List Char → Prop
  | nil : Arranged [] []
  | one (text : List Char) : Arranged [text] text
  | more {text next sep cs : List Char} {texts : List (List Char)} {ss : List Symbol} :
      Separator sep ss → Arranged (next :: texts) cs →
      Arranged (text :: next :: texts) (text ++ (sep ++ cs))

namespace Arranged

lemma spaced : ∀ texts, Arranged texts (spaced texts)
  | [] => .nil
  | [text] => .one text
  | _ :: next :: texts => .more .space (spaced (next :: texts))

lemma append_space {as bs : List (List Char)} {x y : List Char} (ha : Arranged as x)
    (hb : Arranged bs y) (has : as ≠ []) (hbs : bs ≠ []) : Arranged (as ++ bs) (x ++ ' ' :: y) := by
  obtain ⟨b, bs, rfl⟩ := List.exists_cons_of_ne_nil hbs
  induction ha with
  | nil => exact absurd rfl has
  | one text => exact .more .space hb
  | more hsep _ ih =>
      rw [List.append_assoc, List.append_assoc]
      exact .more hsep (ih (by simp))

lemma pairs : ∀ texts, Arranged texts (commaSpaced ((inPairs texts).map Runic.spaced))
  | [] => .nil
  | [text] => .one text
  | [_, right] => .more .space (.one right)
  | left :: right :: next :: texts => by
      have htexts : (inPairs (next :: texts)).map Runic.spaced ≠ [] := by
        simpa using inPairs_ne_nil (List.cons_ne_nil next texts)
      rw [inPairs, List.map_cons, commaSpaced_cons _ htexts, spaced_cons _ (by simp),
        List.append_assoc, List.cons_append]
      exact .more .space (.more .com (pairs (next :: texts)))

/-- The function `layout` arranges the texts of arguments one behind the other, unless a jogging
list has something behind its pairs but no pairs. -/
lemma layout {s : Signature} {texts : List (List Char)} (haccepts : s.accepts texts.length = true)
    (hpost : s.tail = .pairs → s.post = 0 ∨ s.least < texts.length) :
    Arranged texts (s.layout texts) := by
  by_cases htail : s.tail = .pairs
  · obtain ⟨front, middle, back, rfl, hfront, -, hback, hne⟩ :=
      Signature.exists_parts htail haccepts (hpost htail)
    rw [Signature.layout_of_pairs htail, Signature.layoutPairs_append hfront hback]
    by_cases hmiddle : middle = []
    · obtain rfl : back = [] := hne.resolve_right (by simp [hmiddle])
      subst hmiddle
      simpa [inPairs, commaSpaced] using spaced front
    · have hjogging : Arranged (middle ++ back)
          (commaSpaced ((inPairs middle).map Runic.spaced) ++ back.flatMap (' ' :: ·)) := by
        by_cases hnil : back = []
        · subst hnil
          simpa using pairs middle
        · rw [flatMap_space hnil]
          exact (pairs middle).append_space (spaced back) hmiddle hnil
      rw [List.append_assoc, List.append_assoc]
      by_cases hnil : front = []
      · subst hnil
        simpa [Runic.spaced] using hjogging
      · rw [if_pos ⟨hnil, hmiddle⟩, List.append_assoc]
        exact (spaced front).append_space hjogging hnil (by simp [hmiddle])
  · rw [Signature.layout_of_ne_pairs htail]
    exact spaced texts

lemma leading {text cs : List Char} {texts : List (List Char)} (h : Arranged (text :: texts) cs)
    (hlead : Leading text) : Leading cs := by
  cases h with
  | one => exact hlead
  | more => exact hlead.append _

/-- If one of some arranged texts cannot be read, then all of them together cannot. -/
lemma stuck {texts : List (List Char)} {cs : List Char} (h : Arranged texts cs)
    (htexts : ∀ text ∈ texts, Leading text ∧ (Stuck text ∨ ∃ ts, Spells text ts))
    (hstuck : ∃ text ∈ texts, Stuck text) : Stuck cs := by
  induction h with
  | nil => simp at hstuck
  | one text => simpa using hstuck
  | @more text next _ cs texts _ hsep h ih =>
      by_cases hfirst : Stuck text
      · exact hfirst.join hsep cs
      · have hothers : ∃ t ∈ next :: texts, Stuck t := by
          obtain ⟨t, ht, hstuck⟩ := hstuck
          refine ⟨t, (List.mem_cons.1 ht).resolve_left ?_, hstuck⟩
          rintro rfl
          exact hfirst hstuck
        have hrest := ih (fun t ht => htexts t (List.mem_cons_of_mem _ ht)) hothers
        obtain ⟨ts, hts⟩ := (htexts text List.mem_cons_self).2.resolve_left hfirst
        exact hts.stuck_join hsep hrest (h.leading (htexts next (by simp)).1)

end Arranged

end Runic
