import Runic.Glyph

/-!
# Runes

A rune is a pair of glyphs that heads an application.  The vocabulary is fixed and is listed here
by family, each rune named by its two glyphs in order.  A tree may also be headed by a spelling
outside the vocabulary (`Rune.other`): it can be written down, but nothing gives it a meaning.

What arguments a rune takes is the subject of `Runic.Rune.Signature`.
-/

namespace Runic

/-- The head of an application: a digraph of the vocabulary, or a text that is none. -/
inductive Rune where
  -- dot: evaluation
  | dotket | dotlus | dottar | dottis | dotwut
  -- zap: debugging and reflection
  | zapgar | zapgal | zapcol | zapdot | zaptis | zapwut | zapzap
  -- tis: the subject
  | tislus | tishep | tisbar | tisfas | tismic | tisdot | tiscol | tiswut | tistar | tisgar
  | tisgal | tissig | tiscom | tisket
  -- wut: conditionals
  | wutgar | wutgal | wutbar | wutpam | wutzap | wuttis | wutcol | wutdot | wutpat | wutket
  | wutsig | wuthep | wutlus
  -- bar: cores
  | barcab | barcen | barcol | bardot | barhep | barwut | barket | barsig | bartis | bartar
  | barpat
  -- lus: arms
  | luslus | lusbuc | lustar | lusbar
  -- col: cells
  | colhep | colcab | collus | colket | coltar | colsig
  -- cen: calls
  | censig | cenhep | cendot | cenlus | cenket | cencol | centis | cencab | centar
  -- ket: casts
  | ketbar | ketpam | ketwut | ketcol | ketdot | kethep | ketlus | ketsig | kettar | kettis
  -- buc: molds
  | buccab | buccen | buccol | bucwut | bucgal | bucgar | buchep | bucpat | bucket | bucsig
  | buctis
  -- mic: making
  | miccol | miclus | micfas | mictar | mictis | micmic | micsig
  -- sig: hints
  | siggar | sigbar | sigcab | sigbuc | sigcen | siggal | siglus | sigfas | sigpam | sigwut
  | sigzap | sigtis
  /-- A spelling that is no rune of the vocabulary. -/
  | other (text : String)
deriving DecidableEq, Repr

namespace Rune

/-- Every rune of the vocabulary once. -/
def vocabulary : List Rune := [
  .dotket, .dotlus, .dottar, .dottis, .dotwut,
  .zapgar, .zapgal, .zapcol, .zapdot, .zaptis, .zapwut, .zapzap,
  .tislus, .tishep, .tisbar, .tisfas, .tismic, .tisdot, .tiscol, .tiswut, .tistar, .tisgar,
  .tisgal, .tissig, .tiscom, .tisket,
  .wutgar, .wutgal, .wutbar, .wutpam, .wutzap, .wuttis, .wutcol, .wutdot, .wutpat, .wutket,
  .wutsig, .wuthep, .wutlus,
  .barcab, .barcen, .barcol, .bardot, .barhep, .barwut, .barket, .barsig, .bartis, .bartar,
  .barpat,
  .luslus, .lusbuc, .lustar, .lusbar,
  .colhep, .colcab, .collus, .colket, .coltar, .colsig,
  .censig, .cenhep, .cendot, .cenlus, .cenket, .cencol, .centis, .cencab, .centar,
  .ketbar, .ketpam, .ketwut, .ketcol, .ketdot, .kethep, .ketlus, .ketsig, .kettar, .kettis,
  .buccab, .buccen, .buccol, .bucwut, .bucgal, .bucgar, .buchep, .bucpat, .bucket, .bucsig,
  .buctis,
  .miccol, .miclus, .micfas, .mictar, .mictis, .micmic, .micsig,
  .siggar, .sigbar, .sigcab, .sigbuc, .sigcen, .siggal, .siglus, .sigfas, .sigpam, .sigwut,
  .sigzap, .sigtis]

/-- The two glyphs that a rune of the vocabulary is written with. -/
def glyphs? : Rune → Option (Glyph × Glyph)
  | dotket => some (.dot, .ket)
  | dotlus => some (.dot, .lus)
  | dottar => some (.dot, .tar)
  | dottis => some (.dot, .tis)
  | dotwut => some (.dot, .wut)
  | zapgar => some (.zap, .gar)
  | zapgal => some (.zap, .gal)
  | zapcol => some (.zap, .col)
  | zapdot => some (.zap, .dot)
  | zaptis => some (.zap, .tis)
  | zapwut => some (.zap, .wut)
  | zapzap => some (.zap, .zap)
  | tislus => some (.tis, .lus)
  | tishep => some (.tis, .hep)
  | tisbar => some (.tis, .bar)
  | tisfas => some (.tis, .fas)
  | tismic => some (.tis, .mic)
  | tisdot => some (.tis, .dot)
  | tiscol => some (.tis, .col)
  | tiswut => some (.tis, .wut)
  | tistar => some (.tis, .tar)
  | tisgar => some (.tis, .gar)
  | tisgal => some (.tis, .gal)
  | tissig => some (.tis, .sig)
  | tiscom => some (.tis, .com)
  | tisket => some (.tis, .ket)
  | wutgar => some (.wut, .gar)
  | wutgal => some (.wut, .gal)
  | wutbar => some (.wut, .bar)
  | wutpam => some (.wut, .pam)
  | wutzap => some (.wut, .zap)
  | wuttis => some (.wut, .tis)
  | wutcol => some (.wut, .col)
  | wutdot => some (.wut, .dot)
  | wutpat => some (.wut, .pat)
  | wutket => some (.wut, .ket)
  | wutsig => some (.wut, .sig)
  | wuthep => some (.wut, .hep)
  | wutlus => some (.wut, .lus)
  | barcab => some (.bar, .cab)
  | barcen => some (.bar, .cen)
  | barcol => some (.bar, .col)
  | bardot => some (.bar, .dot)
  | barhep => some (.bar, .hep)
  | barwut => some (.bar, .wut)
  | barket => some (.bar, .ket)
  | barsig => some (.bar, .sig)
  | bartis => some (.bar, .tis)
  | bartar => some (.bar, .tar)
  | barpat => some (.bar, .pat)
  | luslus => some (.lus, .lus)
  | lusbuc => some (.lus, .buc)
  | lustar => some (.lus, .tar)
  | lusbar => some (.lus, .bar)
  | colhep => some (.col, .hep)
  | colcab => some (.col, .cab)
  | collus => some (.col, .lus)
  | colket => some (.col, .ket)
  | coltar => some (.col, .tar)
  | colsig => some (.col, .sig)
  | censig => some (.cen, .sig)
  | cenhep => some (.cen, .hep)
  | cendot => some (.cen, .dot)
  | cenlus => some (.cen, .lus)
  | cenket => some (.cen, .ket)
  | cencol => some (.cen, .col)
  | centis => some (.cen, .tis)
  | cencab => some (.cen, .cab)
  | centar => some (.cen, .tar)
  | ketbar => some (.ket, .bar)
  | ketpam => some (.ket, .pam)
  | ketwut => some (.ket, .wut)
  | ketcol => some (.ket, .col)
  | ketdot => some (.ket, .dot)
  | kethep => some (.ket, .hep)
  | ketlus => some (.ket, .lus)
  | ketsig => some (.ket, .sig)
  | kettar => some (.ket, .tar)
  | kettis => some (.ket, .tis)
  | buccab => some (.buc, .cab)
  | buccen => some (.buc, .cen)
  | buccol => some (.buc, .col)
  | bucwut => some (.buc, .wut)
  | bucgal => some (.buc, .gal)
  | bucgar => some (.buc, .gar)
  | buchep => some (.buc, .hep)
  | bucpat => some (.buc, .pat)
  | bucket => some (.buc, .ket)
  | bucsig => some (.buc, .sig)
  | buctis => some (.buc, .tis)
  | miccol => some (.mic, .col)
  | miclus => some (.mic, .lus)
  | micfas => some (.mic, .fas)
  | mictar => some (.mic, .tar)
  | mictis => some (.mic, .tis)
  | micmic => some (.mic, .mic)
  | micsig => some (.mic, .sig)
  | siggar => some (.sig, .gar)
  | sigbar => some (.sig, .bar)
  | sigcab => some (.sig, .cab)
  | sigbuc => some (.sig, .buc)
  | sigcen => some (.sig, .cen)
  | siggal => some (.sig, .gal)
  | siglus => some (.sig, .lus)
  | sigfas => some (.sig, .fas)
  | sigpam => some (.sig, .pam)
  | sigwut => some (.sig, .wut)
  | sigzap => some (.sig, .zap)
  | sigtis => some (.sig, .tis)
  | other _ => none

/-- The rune as it is written: its two glyphs, or the text that is no rune. -/
def text : Rune → String
  | other text => text
  | rune =>
    match rune.glyphs? with
    | some (first, second) => String.ofList [first.char, second.char]
    | none => ""

/-- The rune of the vocabulary that is written with the characters `first` and `second`. -/
def ofChars? (first second : Char) : Option Rune :=
  vocabulary.find? fun rune => rune.glyphs?.any fun g => g.1.char = first && g.2.char = second

/-- The rune a text spells, `other` if the vocabulary does not have it. -/
def ofText (text : String) : Rune :=
  match text.toList with
  | [first, second] => (ofChars? first second).getD (.other text)
  | _ => .other text

end Rune

end Runic
