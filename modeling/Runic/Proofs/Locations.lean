import Runic.Compile
import Runic.Diagnostic
import Runic.Proofs.Canonical.Spans
import Runic.Proofs.Lowering.Blame
import Runic.Proofs.Node.Complaint
import Runic.Proofs.Node.Excerpt

/-!
# Every reported place is one

Whatever stage refuses a source, the place that it reports lies in the source: it starts before it
ends, and both ends lie between two characters.  So the line and the column of the place can be
counted over the text in front of it.

* `Span.Fits` — the span is a place in the source.
* `at_of_emit` — **what is reported is one**, stage by stage: tokens and nodes stand at such places,
  reduction brings in no others, and lowering blames a node.
* `emit_error_located` — the same for users, with the headline that they see.
-/

namespace Runic

/-! ## Places in a source -/

/-- The span starts before it ends, and both ends lie between two characters of `source`. -/
structure Span.Fits (source : String) (span : Span) : Prop where
  le : span.start ≤ span.stop
  start : IsBoundary source span.start
  stop : IsBoundary source span.stop

lemma Span.fits_of_slice {span : Span} {source part : String}
    (h : span.slice? source = some part) : span.Fits source :=
  have ⟨hle, hstart, hstop⟩ := isBoundary_of_slice h
  ⟨hle, hstart, hstop⟩

/-- The span `a.merge b` over two spans that fit a source fits it. -/
lemma Span.Fits.merge {source : String} {a b : Span} (ha : a.Fits source) (hb : b.Fits source) :
    (a.merge b).Fits source where
  le := (Nat.min_le_left _ _).trans (ha.le.trans (Nat.le_max_left _ _))
  start := by
    rcases Nat.le_total a.start b.start with h | h
    · simpa [Span.merge, h] using ha.start
    · simpa [Span.merge, h] using hb.start
  stop := by
    rcases Nat.le_total a.stop b.stop with h | h
    · simpa [Span.merge, h] using hb.stop
    · simpa [Span.merge, h] using ha.stop

/-- The spans that fit `source`, as a region that is closed under `Span.merge`. -/
def Region.ofSource (source : String) : Region := ⟨Span.Fits source, Span.Fits.merge⟩

/-- The position of a span that fits the source is `Position.after` the text in front of it, which
is the slice from 0 to its start. -/
lemma Span.Fits.exists_front {source : String} {span : Span} (h : span.Fits source) :
    ∃ front, (⟨0, span.start⟩ : Span).slice? source = some front ∧
      span.position source = .after front.toList := by
  obtain ⟨before, after, hsource, hstart⟩ := isBoundary_iff.1 h.start
  have hfront : source.toList = [] ++ before ++ after := hsource
  refine ⟨String.ofList before, slice_eq hfront rfl ?_, ?_⟩
  · rw [byteLength_nil, Nat.zero_add, hstart]
  · rw [Span.position, hsource, ← hstart, charsWithin_append, String.toList_ofList]

/-! ## Stage by stage -/

variable {source : String} {e : Error}

lemma fits_of_mem_lex {t : Token} (h : t ∈ lex source) : t.span.Fits source :=
  Span.fits_of_slice (slice_of_mem_lexFrom source.toList.nil_append.symm rfl h)

lemma at_of_parse (h : parse source = .error e) : e.At (Span.Fits source) := by
  have hstart : IsBoundary source 0 := isBoundary_of_append source.toList.nil_append.symm
  have hplace : (Region.ofSource source).Has ⟨0, 0⟩ := ⟨Nat.le_refl 0, hstart, hstart⟩
  exact at_of_parse_eq_error hplace (fun t ht => fits_of_mem_lex ht) h

lemma stands_of_parse {n : Node} (h : parse source = .ok n) : n.Stands (Span.Fits source) := by
  intro m hm
  obtain ⟨part, hpart⟩ := exists_slice_of_parse h hm
  exact Span.fits_of_slice hpart

lemma at_of_reduce {n : Node} {places : Span → Prop} (hn : n.Stands places)
    (h : reduce n = .error e) : e.At places := by
  obtain ⟨span, fault, rfl, hspan⟩ := blames_reduce hn e h
  rintro _ ⟨⟩
  exact hspan

lemma at_of_ir {fault : IrFault} {places : Span → Prop} : (Error.ir fault).At places := by
  rintro _ ⟨⟩

lemma at_of_toModule {n : Node} {places : Span → Prop} {atom : Ir.Ty} {entry : String}
    (hn : n.Stands places) (h : n.toModule atom entry = .error e) : e.At places := by
  rcases Lowering.blamed_of_toModule h with ⟨fault, rfl⟩ | ⟨k, hk, fault, rfl, -⟩
  · exact at_of_ir
  · rintro _ ⟨⟩
    exact hn k hk

lemma at_of_render {module : Ir.Module} {places : Span → Prop} (h : module.render = .error e) :
    e.At places := by
  have hverify : module.verify = .error e := bind_pure_eq_error.1 h
  unfold Ir.Module.verify at hverify
  split at hverify <;> cases hverify
  exact at_of_ir

lemma at_of_compile {options : Options} (h : compile source options = .error e) :
    e.At (Span.Fits source) := by
  rcases bind_eq_error.1 h with h | ⟨atom, -, h⟩
  · unfold Options.atom at h
    split at h <;> cases h
    rintro _ ⟨⟩
  rcases bind_eq_error.1 h with h | ⟨n, hn, h⟩
  · exact at_of_parse h
  have hstands := stands_of_parse hn
  rcases bind_eq_error.1 h with h | ⟨m, hm, h⟩
  · exact at_of_reduce hstands h
  rcases bind_eq_error.1 h with h | ⟨module, -, h⟩
  · exact at_of_toModule (stands_of_reduce hstands hm) h
  · exact at_of_render (bind_pure_eq_error.1 h)

/-- **If `emit` fails, whatever the output is, the span of the error fits the source.** -/
theorem at_of_emit {output : Output} {options : Options}
    (h : emit source output options = .error e) : e.At (Span.Fits source) := by
  cases output with
  | tokens => cases h
  | ast => exact at_of_parse (bind_pure_eq_error.1 h)
  | reduced =>
      rcases bind_eq_error.1 h with h | ⟨n, hn, h⟩
      · exact at_of_parse h
      · exact at_of_reduce (stands_of_parse hn) (bind_pure_eq_error.1 h)
  | llvm => exact at_of_compile (bind_pure_eq_error.1 h)

/-- **Every place that is reported is a place in the source.**  Whatever is asked for, if the error
has a place, then it starts before it ends, lies in the source, and cuts no character in two.  So
there is a text in front of it, and the headline of the error counts line and column over that text.
And reduction brings in no places: each node of a reduced tree stands where one of the tree did. -/
theorem emit_error_located (source : String) (output : Output) (options : Options) :
    (∀ error span, emit source output options = .error error → error.span? = some span →
      span.start ≤ span.stop ∧ span.stop ≤ source.utf8ByteSize ∧
        IsBoundary source span.start ∧ IsBoundary source span.stop ∧
        ∃ front, (⟨0, span.start⟩ : Span).slice? source = some front ∧
          ∀ diagnostic file, Diagnostic.ofError? error = some diagnostic →
            diagnostic.headline file source = file ++ ":" ++ (Position.after front.toList).text ++
              ": " ++ error.stage ++ " error: " ++ error.message) ∧
      ∀ n m, parse source = .ok n → reduce n = .ok m →
        ∀ k ∈ m.subtrees, ∃ k' ∈ n.subtrees, k'.span = k.span := by
  constructor
  · intro error span herror hspan
    have hfits : span.Fits source := at_of_emit herror span hspan
    obtain ⟨front, hfront, hposition⟩ := hfits.exists_front
    refine ⟨hfits.le, hfits.stop.le, hfits.start, hfits.stop, front, hfront, ?_⟩
    intro diagnostic file hdiagnostic
    rw [Diagnostic.ofError?, hspan] at hdiagnostic
    cases hdiagnostic
    rw [Diagnostic.headline, hposition]
    rfl
  · intro n m _ hreduce k hk
    have hn : n.Stands fun span => ∃ k' ∈ n.subtrees, k'.span = span := fun k' hk' => ⟨k', hk', rfl⟩
    exact stands_of_reduce hn hreduce k hk

/-- The first source has a character of two bytes in a comment and an illegal one behind it, so that
bytes and columns differ; reducing the second brings in a slot at the span of its application. -/
theorem emit_error_located_wide :
    (emit ":: é\n=+(é b)" .llvm {} = .error (.illegal ⟨9, 11⟩ "é") ∧
      (Error.illegal ⟨9, 11⟩ "é").span? = some ⟨9, 11⟩ ∧
      IsBoundary ":: é\n=+(é b)" 9 ∧ IsBoundary ":: é\n=+(é b)" 11 ∧
      ∃ front diagnostic, (⟨0, 9⟩ : Span).slice? ":: é\n=+(é b)" = some front ∧
        Diagnostic.ofError? (.illegal ⟨9, 11⟩ "é") = some diagnostic ∧
        diagnostic.headline "a.hoon" ":: é\n=+(é b)" = "a.hoon" ++ ":" ++
          (Position.after front.toList).text ++ ": " ++ (Error.illegal ⟨9, 11⟩ "é").stage ++
            " error: " ++ (Error.illegal ⟨9, 11⟩ "é").message) ∧
    parse "=+(1 b)" = .ok (.rune .tislus [.num "1" ⟨3, 4⟩, .face "b" ⟨5, 6⟩] ⟨0, 7⟩) ∧
    reduce (.rune .tislus [.num "1" ⟨3, 4⟩, .face "b" ⟨5, 6⟩] ⟨0, 7⟩) =
      .ok (.rune .tisfas [.face "^" ⟨0, 7⟩, .num "1" ⟨3, 4⟩, .face "b" ⟨5, 6⟩] ⟨0, 7⟩) ∧
    ∃ k ∈ (Node.rune .tislus [.num "1" ⟨3, 4⟩, .face "b" ⟨5, 6⟩] ⟨0, 7⟩).subtrees,
      k.span = (Node.face "^" ⟨0, 7⟩).span := by
  have hemit : emit ":: é\n=+(é b)" .llvm {} = .error (.illegal ⟨9, 11⟩ "é") := by decide +kernel
  have hparse : parse "=+(1 b)" =
      .ok (.rune .tislus [.num "1" ⟨3, 4⟩, .face "b" ⟨5, 6⟩] ⟨0, 7⟩) :=
    eq_ok_of_toOption (by decide +kernel)
  have hreduce : reduce (.rune .tislus [.num "1" ⟨3, 4⟩, .face "b" ⟨5, 6⟩] ⟨0, 7⟩) =
      .ok (.rune .tisfas [.face "^" ⟨0, 7⟩, .num "1" ⟨3, 4⟩, .face "b" ⟨5, 6⟩] ⟨0, 7⟩) :=
    eq_ok_of_toOption (by decide +kernel)
  obtain ⟨-, -, hstart, hstop, front, hfront, hheadline⟩ :=
    (emit_error_located ":: é\n=+(é b)" .llvm {}).1 _ _ hemit rfl
  refine ⟨⟨hemit, rfl, hstart, hstop, front, _, hfront, rfl, hheadline _ "a.hoon" rfl⟩, hparse,
    hreduce, ?_⟩
  exact (emit_error_located "=+(1 b)" .ast {}).2 _ _ hparse hreduce _
    (by simp [Node.subtrees, Node.subtreesAll])

end Runic
