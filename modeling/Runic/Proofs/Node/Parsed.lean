import Runic.Proofs.Node.RoundTrip

/-!
# Trees that are read are well-formed

Only one of the readers counts the arguments of a rune, and none of them looks at a text.  Still
every tree that is read has words for its texts and as many arguments as its runes take: the cutter
makes faces and numerals of nothing else, and the readers go by the signatures.

* `isWord_of_mem_phrase` — what the cutter sees to.
* `Grammar.Expr.isLegible` — what the grammar sees to.
* `isLegible_of_parse` — **both together**.
-/

namespace Runic

/-! ## Words of a phrase -/

/-- The text of a face or of a numeral is one that the lexer can cut as such. -/
def Symbol.isWord : Symbol → Bool
  | face name => isFaceText name
  | num digits => isNumText digits
  | rune _ | plain _ => true

lemma cutMark_kind_isPlain (c : Char) (cs : List Char) : (cutMark c cs).kind.isPlain = true := by
  unfold cutMark
  split <;> rfl

/-- What `cutSymbol` cuts is a rune or a token of a plain kind, so no face and no numeral. -/
lemma cutSymbol_kind (c : Char) (cs : List Char) :
    (cutSymbol c cs).kind = .rune ∨ (cutSymbol c cs).kind.isPlain = true := by
  cases cs with
  | nil => exact .inr (cutMark_kind_isPlain c [])
  | cons d cs =>
      rw [cutSymbol]
      split
      · exact .inr rfl
      · split
        · exact .inl rfl
        · split
          · next kind hkind =>
              unfold Kind.closer? at hkind
              split_ifs at hkind <;> cases hkind <;> exact .inr rfl
          · exact .inr (cutMark_kind_isPlain c (d :: cs))

lemma isWord_of_kind {t : Token} (h : t.kind = .rune ∨ t.kind.isPlain = true) :
    t.symbol.isWord = true := by
  rcases h with hrune | hplain
  · rw [Token.symbol_of_rune hrune]
    rfl
  · rw [Token.symbol_of_isPlain rfl hplain]
    rfl

lemma isWord_scan (offset : Nat) (c : Char) (cs : List Char) :
    ((scan (c :: cs)).token offset).symbol.isWord = true := by
  rw [scan]
  split
  · refine isWord_of_kind (.inr ?_)
    rw [Cut.token, cutWhile, separatorKind]
    split <;> rfl
  · split
    · next hface =>
        rw [Token.symbol_of_face rfl, Symbol.isWord, Cut.token, isFaceText, String.toList_ofList]
        exact isWord_takeWhile (fun c hc => by simp [isFacePart, hc]) hface cs
    · split
      · next hnum =>
          rw [Token.symbol_of_num rfl, Symbol.isWord, Cut.token, isNumText, String.toList_ofList]
          exact isWord_takeWhile (fun c hc => by simp [isNumPart, hc]) hnum cs
      · exact isWord_of_kind (cutSymbol_kind c cs)

/-- The text of every face and of every numeral of `lexFrom` is a word. -/
lemma isWord_of_mem_lexFrom {offset : Nat} {cs : List Char} {t : Token}
    (h : t ∈ lexFrom offset cs) : t.symbol.isWord = true := by
  fun_induction lexFrom offset cs with
  | case1 offset =>
      rw [List.mem_singleton] at h
      rw [h]
      rfl
  | case2 offset c cs cut ih =>
      rcases List.mem_cons.1 h with rfl | h
      · exact isWord_scan offset c cs
      · exact ih h

lemma isPlain_of_isSeparator {kind : Kind} (h : kind.isSeparator = true) : kind.isPlain = true := by
  cases kind <;> first | rfl | cases h

/-- **Every symbol of a phrase is a word.** -/
lemma isWord_of_mem_phrase {source : String} {s : Symbol} (h : s ∈ phrase source) :
    s.isWord = true := by
  have hmem : s ∈ (folded (lex source)).map Token.symbol :=
    List.dropLast_subset _ ((List.dropWhile_sublist _).subset
      ((List.rdropWhile_prefix _ _).subset h))
  obtain ⟨t, ht, rfl⟩ := List.mem_map.1 hmem
  rcases of_mem_folded ht with hsep | ht
  · exact isWord_of_kind (.inr (isPlain_of_isSeparator hsep))
  · exact isWord_of_mem_lexFrom ht

/-! ## Legible trees -/

/-- Every node of the tree is well-formed. -/
def Node.IsLegible (n : Node) : Prop := n.All fun k => k.isWellFormed = true

namespace Node

variable {name digits label : String} {value head tail : Node} {r : Rune} {args : List Node}
  {span : Span}

lemma isLegible_face : (face name span).IsLegible ↔ isFaceText name = true := by
  simp [IsLegible, isWellFormed]

lemma isLegible_num : (num digits span).IsLegible ↔ isNumText digits = true := by
  simp [IsLegible, isWellFormed]

lemma isLegible_faced :
    (faced label value span).IsLegible ↔ isFaceText label = true ∧ value.IsLegible := by
  simp [IsLegible, isWellFormed]

lemma isLegible_cell : (cell head tail span).IsLegible ↔ head.IsLegible ∧ tail.IsLegible := by
  simp [IsLegible, isWellFormed]

lemma isLegible_rune : (rune r args span).IsLegible ↔
    (rune r args span).isWellFormed = true ∧ ∀ arg ∈ args, arg.IsLegible := by
  simp [IsLegible]

/-- Whether a tree is legible does not depend on its spans. -/
@[simp] lemma isLegible_bare (n : Node) : n.bare.IsLegible ↔ n.IsLegible := by
  induction n using Node.induction with
  | buc | pat | dot | face | num => simp [IsLegible, isWellFormed]
  | faced label value span ih => rw [bare, isLegible_faced, isLegible_faced, ih]
  | cell head tail span ihHead ihTail => rw [bare, isLegible_cell, isLegible_cell, ihHead, ihTail]
  | rune r args span ih =>
      rw [bare, isLegible_rune, isLegible_rune, bareAll_eq_map, List.forall_mem_map]
      refine and_congr ?_ (forall₂_congr ih)
      simp [isWellFormed]

/-- An application is legible if the signature accepts the number of its arguments and all of them
are. -/
lemma isLegible_of_accepts {s : Signature} (hs : r.signature? = some s)
    (haccepts : s.accepts args.length = true) (hargs : ∀ arg ∈ args, arg.IsLegible) :
    (rune r args span).IsLegible :=
  isLegible_rune.2 ⟨by simp [isWellFormed, hs, haccepts], hargs⟩

end Node

/-! ## Derived trees -/

/-- Only a signature with pairs has arguments behind its tail. -/
lemma Signature.post_eq_zero {r : Rune} {s : Signature} (h : r.signature? = some s)
    (htail : s.tail = .fixed) : s.post = 0 := by
  cases r <;> cases h <;> first | rfl | cases htail

namespace Grammar

/-- The arguments that the grammar takes in tall form are as many as the signature accepts. -/
lemma Tall.accepts {r : Rune} {s : Signature} {ts : List Symbol} {nodes : List Node}
    (hs : r.signature? = some s) (h : Tall s ts nodes) : s.accepts nodes.length = true := by
  cases h with
  | fixed htail _ hargs _ hpost =>
      have hzero := Signature.post_eq_zero hs htail
      simp [Signature.accepts, htail, hargs, hpost, hzero]
  | closed hcloser _ hargs _ heven _ hpost =>
      cases htail : s.tail with
      | fixed => simp [htail, Tail.closer?] at hcloser
      | pairs =>
          have heven := heven htail
          simp only [Signature.accepts, htail, Signature.least, List.length_append, hargs, hpost,
            Bool.and_eq_true, decide_eq_true_eq, beq_iff_eq]
          omega
      | list | arms =>
          simp only [Signature.accepts, htail, List.length_append, hargs, decide_eq_true_eq]
          omega

lemma Target.isLegible {s : Symbol} {t : Node} (h : Target s t) (hs : s.isWord = true) :
    t.IsLegible := by
  cases h with
  | face name => exact Node.isLegible_face.2 hs
  | buc => simp [Node.IsLegible, Node.isWellFormed]

lemma Pairs.even {ts : List Symbol} {nodes : List Node} (h : Pairs ts nodes) :
    nodes.length % 2 = 0 := by
  cases h with
  | one => simp
  | more _ _ others =>
      have heven := others.even
      simp only [List.length_cons]
      omega

mutual

theorem Expr.isLegible {ts : List Symbol} {t : Node} : Expr ts t →
    (∀ s ∈ ts, s.isWord = true) → t.IsLegible
  | .chain h => h.isLegible

theorem Chain.isLegible {loose : Bool} {ts : List Symbol} {t : Node} : Chain loose ts t →
    (∀ s ∈ ts, s.isWord = true) → t.IsLegible
  | .operand h => h.isLegible
  | .col hl hr => by
      intro hts
      simp only [List.forall_mem_append, List.forall_mem_cons] at hts
      refine Node.isLegible_of_accepts rfl rfl ?_
      simp [hl.isLegible hts.1, hr.isLegible hts.2.2]
  | .tis hl hr => by
      intro hts
      simp only [List.forall_mem_append, List.forall_mem_cons] at hts
      exact Node.isLegible_faced.2
        ⟨hl.isLegible hts.1 _ (Node.mem_subtrees _), hr.isLegible hts.2.2⟩

theorem Operand.isLegible {loose : Bool} {ts : List Symbol} {t : Node} : Operand loose ts t →
    (∀ s ∈ ts, s.isWord = true) → t.IsLegible
  | .face name => fun hts => Node.isLegible_face.2 (hts (.face name) List.mem_cons_self)
  | .num digits => fun hts => Node.isLegible_num.2 (hts (.num digits) List.mem_cons_self)
  | .buc | .pat | .dot => fun _ => by simp [Node.IsLegible, Node.isWellFormed]
  | .lus h => by
      intro hts
      simp only [List.forall_mem_append, List.forall_mem_cons] at hts
      refine Node.isLegible_of_accepts rfl rfl ?_
      simp [h.isLegible hts.1.2.2]
  | .tis hl hr => by
      intro hts
      simp only [List.forall_mem_append, List.forall_mem_cons] at hts
      refine Node.isLegible_of_accepts rfl rfl ?_
      simp [hl.isLegible hts.1.1.2.2, hr.isLegible hts.1.2.2]
  | .pal h => by
      intro hts
      simp only [List.forall_mem_append, List.forall_mem_cons] at hts
      refine Node.isLegible_rune.2 ⟨?_, h.isLegible hts.1.2⟩
      simp [Node.isWellFormed, h.ne_nil]
  | .sel h => by
      intro hts
      simp only [List.forall_mem_append, List.forall_mem_cons] at hts
      exact h.isLegible hts.1.2
  | .reset h => by
      intro hts
      simp only [List.forall_mem_cons] at hts
      refine Node.isLegible_of_accepts rfl rfl ?_
      simp [h.isLegible hts.1]
  | .rewrite h hp => by
      intro hts
      simp only [List.forall_mem_append, List.forall_mem_cons] at hts
      refine Node.isLegible_of_accepts (s := .pairs 1 0) rfl ?_ ?_
      · simpa [Signature.accepts, Signature.pairs, Signature.least] using hp.even
      · exact List.forall_mem_cons.2 ⟨h.isLegible hts.1.1, hp.isLegible hts.1.2.2⟩
  | .wide hs h haccepts => by
      intro hts
      simp only [List.forall_mem_append, List.forall_mem_cons] at hts
      exact Node.isLegible_of_accepts hs haccepts (h.isLegible hts.1.2.2)
  | .tall hs h => by
      intro hts
      rw [List.forall_mem_cons] at hts
      exact Node.isLegible_of_accepts hs (h.accepts hs) (h.isLegible hts.2)

theorem Spaced.isLegible {ts : List Symbol} {nodes : List Node} : Spaced ts nodes →
    (∀ s ∈ ts, s.isWord = true) → ∀ t ∈ nodes, t.IsLegible
  | .one h => by
      intro hts
      simpa using h.isLegible hts
  | .more h hs => by
      intro hts
      simp only [List.forall_mem_append, List.forall_mem_cons] at hts
      exact List.forall_mem_cons.2 ⟨h.isLegible hts.1, hs.isLegible hts.2.2⟩

theorem Cells.isLegible {ts : List Symbol} {t : Node} : Cells ts t →
    (∀ s ∈ ts, s.isWord = true) → t.IsLegible
  | .one h => h.isLegible
  | .more h hs => by
      intro hts
      simp only [List.forall_mem_append, List.forall_mem_cons] at hts
      exact Node.isLegible_cell.2 ⟨h.isLegible hts.1, hs.isLegible hts.2.2⟩

theorem Pairs.isLegible {ts : List Symbol} {nodes : List Node} : Pairs ts nodes →
    (∀ s ∈ ts, s.isWord = true) → ∀ t ∈ nodes, t.IsLegible
  | .one hl hr => by
      intro hts
      simp only [List.forall_mem_append, List.forall_mem_cons] at hts
      simp [hl.isLegible hts.1, hr.isLegible hts.2.2]
  | .more hl hr hs => by
      intro hts
      simp only [List.forall_mem_append, List.forall_mem_cons] at hts
      refine List.forall_mem_cons.2 ⟨hl.isLegible hts.1.1, List.forall_mem_cons.2 ⟨?_, ?_⟩⟩
      · exact hr.isLegible hts.1.2.2
      · exact hs.isLegible hts.2.2.2

theorem Args.isLegible {ts : List Symbol} {nodes : List Node} : Args ts nodes →
    (∀ s ∈ ts, s.isWord = true) → ∀ t ∈ nodes, t.IsLegible
  | .none => fun _ _ ht => by cases ht
  | .some h => h.isLegible

theorem Jogging.isLegible {s : Signature} {ts : List Symbol} {nodes : List Node} :
    Jogging s ts nodes → (∀ s ∈ ts, s.isWord = true) → ∀ t ∈ nodes, t.IsLegible
  | .pairs h => h.isLegible
  | .post _ h hs => by
      intro hts
      simp only [List.forall_mem_append, List.forall_mem_cons] at hts
      exact List.forall_mem_append.2 ⟨h.isLegible hts.1, hs.isLegible hts.2.2⟩

theorem Wide.isLegible {s : Signature} {ts : List Symbol} {nodes : List Node} :
    Wide s ts nodes → (∀ s ∈ ts, s.isWord = true) → ∀ t ∈ nodes, t.IsLegible
  | .args _ h => h.isLegible
  | .fixed _ h _ => h.isLegible
  | .jogging _ h _ hj => by
      intro hts
      simp only [List.forall_mem_append] at hts
      exact List.forall_mem_append.2 ⟨h.isLegible hts.1.1, hj.isLegible hts.2⟩

theorem Gapped.isLegible {ts : List Symbol} {nodes : List Node} : Gapped ts nodes →
    (∀ s ∈ ts, s.isWord = true) → ∀ t ∈ nodes, t.IsLegible
  | .none => fun _ _ ht => by cases ht
  | .more h hs => by
      intro hts
      simp only [List.forall_mem_append, List.forall_mem_cons] at hts
      exact List.forall_mem_cons.2 ⟨h.isLegible hts.1.2, hs.isLegible hts.2⟩

theorem Tall.isLegible {s : Signature} {ts : List Symbol} {nodes : List Node} :
    Tall s ts nodes → (∀ s ∈ ts, s.isWord = true) → ∀ t ∈ nodes, t.IsLegible
  | .fixed _ h _ hp _ => by
      intro hts
      rw [List.forall_mem_append] at hts ⊢
      exact ⟨h.isLegible hts.1, hp.isLegible hts.2⟩
  | .closed _ h _ hi _ hp _ => by
      intro hts
      simp only [List.forall_mem_append, List.forall_mem_cons] at hts
      simp only [List.forall_mem_append]
      exact ⟨⟨h.isLegible hts.1.1, hi.isLegible hts.1.2⟩, hp.isLegible hts.2.2.2⟩

end

end Grammar

/-- **Every tree that `parse` gives is legible.** -/
theorem isLegible_of_parse {source : String} {n : Node} (h : parse source = .ok n) : n.IsLegible :=
  n.isLegible_bare.1 ((expr_of_parse h).isLegible fun _ hs => isWord_of_mem_phrase hs)

end Runic
