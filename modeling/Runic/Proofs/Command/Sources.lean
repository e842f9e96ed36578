import Runic.Command.Run
import Runic.Proofs.Files.Disk

/-!
# Sources and their outputs

A batch compiles the files below a directory whose names end in the extension of a source, and gives
each output the name of its source with another extension.

* `SourceFile` — a source with the names that lead to it and its bytes; `SourceFile.StandsIn` says
  that it is on a disk.
* `SourceFile.made?` — the text that is made of a source alone, and `outputs` — the outputs of
  several.
* `append_outputNames_ne` — **no output is a source**, so a batch can write below the directory that
  it reads.
* `target_injective`, `nodup_outputs` — different sources have different outputs.
* `Entry.source?` — the source that an entry of a walk is, if it is one.
-/

namespace Runic.Command

open Disk

/-! ## Names with an extension -/

/-- A name is divided by `splitName?` at its last dot, unless nothing stands in front of it. -/
lemma splitName?_append {stem extension : String} (hstem : stem ≠ "")
    (hdot : '.' ∉ extension.toList) :
    Path.splitName? (stem ++ "." ++ extension) = some (stem, extension) := by
  have hreverse : (stem ++ "." ++ extension).toList.reverse =
      extension.toList.reverse ++ '.' :: stem.toList.reverse := by
    simp
  have hextension : ∀ c ∈ extension.toList.reverse, decide (c ≠ '.') = true := by
    intro c hc
    rw [List.mem_reverse] at hc
    exact decide_eq_true fun h => hdot (h ▸ hc)
  obtain ⟨c, cs, hcs⟩ : ∃ c cs, stem.toList.reverse = c :: cs :=
    List.exists_cons_of_ne_nil (by simpa using hstem)
  have hstem : (c :: cs).reverse = stem.toList := by rw [← hcs, List.reverse_reverse]
  rw [hcs] at hreverse
  unfold Path.splitName?
  simp only [hreverse]
  rw [List.dropWhile_append_of_pos hextension, List.takeWhile_append_of_pos hextension,
    List.dropWhile_cons_of_neg (by decide), List.takeWhile_cons_of_neg (by decide)]
  simp only [hstem, List.append_nil, List.reverse_reverse, String.ofList_toList]

/-- If `splitName?` divides a name, then the name is the two parts with a dot between them. -/
lemma eq_of_splitName? {name stem extension : String}
    (h : Path.splitName? name = some (stem, extension)) :
    name = stem ++ "." ++ extension ∧ stem ≠ "" := by
  have hsplit := List.takeWhile_append_dropWhile (p := fun c => decide (c ≠ '.'))
    (l := name.toList.reverse)
  have hdot := List.head?_dropWhile_not (fun c => decide (c ≠ '.')) name.toList.reverse
  unfold Path.splitName? at h
  dsimp only at h
  split at h
  · cases h
  · cases h
  · next c rest hne hdrop =>
      obtain ⟨rfl, rfl⟩ : String.ofList rest.reverse = stem ∧ _ = extension := by simpa using h
      rw [hdrop] at hsplit hdot
      obtain rfl : c = '.' := by simpa using hdot
      constructor
      · rw [← String.toList_inj, ← List.reverse_inj]
        exact hsplit.symm.trans (by simp)
      · simpa using hne

/-! ## Sources -/

/-- A file with the extension of a source: the names above its own, its own without the extension,
and its bytes. -/
structure SourceFile where
  above : List String
  stem : String
  bytes : ByteArray

namespace SourceFile

/-- The names that lead to the source from the directory that is walked. -/
def names (s : SourceFile) : List String := s.above ++ [s.stem ++ ".hoon"]

/-- The source is a file on `disk`, below the directory `root`. -/
def StandsIn (s : SourceFile) (disk : Disk) (root : List String) : Prop :=
  s.stem ≠ "" ∧ disk.item? (root ++ s.names) = some (.file s.bytes)

/-- The output that `emit` makes of the source.  There is none if it is no text or has an error. -/
def made? (job : Job) (s : SourceFile) : Option String :=
  (String.fromUTF8? s.bytes).bind fun source => (emit source job.output job.options).toOption

/-- The names that lead to its output from the directory for outputs. -/
def outputNames (output : Output) (s : SourceFile) : List String :=
  s.above ++ [s.stem ++ "." ++ output.extension]

/-- The output of the source below the directory `out`, with the names that lead there. -/
def output? (job : Job) (out : List String) (s : SourceFile) : Option (List String × ByteArray) :=
  (s.made? job).map fun text => (out ++ s.outputNames job.output, text.toUTF8)

end SourceFile

/-- The outputs of `sources` below the directory `out`. -/
def outputs (job : Job) (out : List String) (sources : List SourceFile) :
    List (List String × ByteArray) :=
  sources.filterMap (SourceFile.output? job out)

/-- The number of `sources` that have no output. -/
def failures (job : Job) (sources : List SourceFile) : Nat :=
  sources.countP fun s => (s.made? job).isNone

section

variable {s t : SourceFile} {output : Output} {dir outDir : String}

lemma dot_notMem_extension (output : Output) : '.' ∉ output.extension.toList := by
  cases output <;> simp [Output.extension]

lemma extension_ne (output : Output) : output.extension ≠ "hoon" := by
  cases output <;> simp [Output.extension]

lemma splitName?_names (hstem : s.stem ≠ "") :
    Path.splitName? (s.stem ++ ".hoon") = some (s.stem, "hoon") := by
  have h := splitName?_append hstem (by simp : '.' ∉ "hoon".toList)
  rwa [String.append_assoc] at h

/-- The path `target` of a source keeps the names above its own and changes the extension.  A stem
that is a single dot makes `..` of it. -/
lemma target_eq (hstem : s.stem ≠ "") : target outDir output ⟨dir, s.names⟩ =
    ⟨outDir, s.above ++ [if s.stem = "." then ".." else s.stem ++ "." ++ output.extension]⟩ := by
  have hstem' : Path.stem (s.stem ++ ".hoon") = s.stem := by
    rw [Path.stem, splitName?_names hstem]
  simp [target, Path.below, Path.withExtension, SourceFile.names, Path.renameLast, Path.rename,
    hstem']

/-- The place of an output is never that of a source. -/
lemma append_outputNames_ne {root out : List String} (hs : s.stem ≠ "") (ht : t.stem ≠ "") :
    out ++ t.outputNames output ≠ root ++ s.names := by
  intro h
  rw [SourceFile.names, SourceFile.outputNames, ← List.append_assoc, ← List.append_assoc] at h
  have hlast : t.stem ++ "." ++ output.extension = s.stem ++ ".hoon" := by
    simpa using List.append_inj_right' h rfl
  have hsplit := splitName?_append ht (dot_notMem_extension output)
  rw [hlast, splitName?_names hs, Option.some.injEq, Prod.mk.injEq] at hsplit
  exact extension_ne output hsplit.2.symm

/-- If the outputs of two sources have the same names, then so have the sources. -/
lemma outputNames_injective (h : s.outputNames output = t.outputNames output) :
    s.above = t.above ∧ s.stem = t.stem := by
  obtain ⟨habove, hlast⟩ := List.append_inj' h rfl
  exact ⟨habove, by simpa [String.append_assoc] using hlast⟩

/-- A stem with the extension of an output is never `..`. -/
lemma append_extension_ne (stem : String) : stem ++ "." ++ output.extension ≠ ".." := by
  intro h
  have hlast : (stem ++ "." ++ output.extension).toList.getLast? = some '.' := by
    rw [h]
    rfl
  cases output <;> simp [Output.extension] at hlast

/-- If two sources have the same `target`, then they have the same names. -/
lemma target_injective (hs : s.stem ≠ "") (ht : t.stem ≠ "")
    (h : target outDir output ⟨dir, s.names⟩ = target outDir output ⟨dir, t.names⟩) :
    s.above = t.above ∧ s.stem = t.stem := by
  rw [target_eq hs, target_eq ht, Path.mk.injEq] at h
  obtain ⟨habove, hlast⟩ := List.append_inj' h.2 rfl
  refine ⟨habove, ?_⟩
  rw [List.singleton_inj] at hlast
  split_ifs at hlast with hdot hdot' hdot'
  · rw [hdot, hdot']
  · exact absurd hlast.symm (append_extension_ne t.stem)
  · exact absurd hlast (append_extension_ne s.stem)
  · simpa [String.append_assoc] using hlast

end

/-! ## Sources at their places -/

section

variable {disk : Disk} {root : List String} {s t : SourceFile}

/-- If two sources have the same names, then they have the same names above and the same stem. -/
lemma parts_of_names (hs : s.stem ≠ "") (ht : t.stem ≠ "") (h : s.names = t.names) :
    s.above = t.above ∧ s.stem = t.stem := by
  obtain ⟨habove, hlast⟩ := List.append_inj' h rfl
  refine ⟨habove, ?_⟩
  rw [List.singleton_inj] at hlast
  have hsplit := splitName?_names hs
  rw [hlast, splitName?_names ht, Option.some.injEq, Prod.mk.injEq] at hsplit
  exact hsplit.1.symm

/-- Two sources at the same place on a disk have the same bytes, so they are equal. -/
lemma SourceFile.StandsIn.eq (hs : s.StandsIn disk root) (ht : t.StandsIn disk root)
    (h : s.above = t.above ∧ s.stem = t.stem) : s = t := by
  obtain ⟨above, stem, bytes⟩ := s
  obtain ⟨above', stem', bytes'⟩ := t
  obtain ⟨rfl, rfl⟩ := h
  have hbytes := hs.2.symm.trans ht.2
  rw [Option.some.injEq, Item.file.injEq] at hbytes
  exact congrArg _ hbytes

/-- The places of the outputs of different sources on a disk are different. -/
lemma nodup_outputs (job : Job) (out : List String) {sources : List SourceFile}
    (hnodup : sources.Nodup) (hsources : ∀ s ∈ sources, s.StandsIn disk root) :
    ((outputs job out sources).map Prod.fst).Nodup := by
  rw [List.Nodup, List.pairwise_map, outputs, List.pairwise_filterMap]
  refine hnodup.imp_of_mem fun {s t} hs ht hne => ?_
  rintro _ hs' _ ht' hplace
  obtain ⟨text, -, rfl⟩ := Option.map_eq_some_iff.1 hs'
  obtain ⟨text', -, rfl⟩ := Option.map_eq_some_iff.1 ht'
  have hnames := List.append_cancel_left hplace
  exact hne ((hsources s hs).eq (hsources t ht) (outputNames_injective hnames))

/-- No output of `sources` is written to the place of a source. -/
lemma lookup_outputs {job : Job} {out : List String} {sources : List SourceFile} (ht : t.stem ≠ "")
    (hsources : ∀ s ∈ sources, s.stem ≠ "") :
    (outputs job out sources).reverse.lookup (root ++ t.names) = none := by
  rw [List.lookup_eq_none_iff]
  intro file hfile
  obtain ⟨s, hs, houtput⟩ := List.mem_filterMap.1 (List.mem_reverse.1 hfile)
  obtain ⟨text, -, rfl⟩ := Option.map_eq_some_iff.1 houtput
  exact bne_iff_ne.2 (append_outputNames_ne ht (hsources s hs)).symm

/-- A source on a disk is found by `locate` at its path below `dir`. -/
lemma located_of_standsIn {dir : String} (htree : disk.IsTree)
    (hroot : disk.locate (Path.textSteps dir) = .ok (root, .directory))
    (hs : s.StandsIn disk root) :
    disk.locate (Path.steps ⟨dir, s.names⟩) = .ok (root ++ s.names, .file s.bytes) := by
  obtain ⟨-, hitem⟩ := hs
  obtain ⟨hsteps, hfollow, -⟩ := locate_eq_ok.1 hroot
  refine locate_eq_ok.2 ⟨?_, ?_, hitem⟩
  · simp [Path.steps, hsteps]
  · rw [Path.steps, follow_append, hfollow]
    exact htree.follow (by rw [hitem]; rfl)

end

/-- Every source is counted once, as made or as failed. -/
lemma countP_made (job : Job) (sources : List SourceFile) :
    sources.countP (fun s => (s.made? job).isSome) + failures job sources = sources.length := by
  rw [List.length_eq_countP_add_countP (fun s => (s.made? job).isSome), failures]
  exact congrArg _ (List.countP_congr (by simp))

/-! ## Entries that are sources -/

/-- The names above the last one and the stem of the last one, if its extension is that of a
source. -/
def sourceParts? (names : List String) : Option (List String × String) :=
  ((names.getLast?.bind Path.splitName?).filter fun parts => parts.2 = "hoon").map fun parts =>
    (names.dropLast, parts.1)

/-- The source that an entry of a walk is, with its bytes on `disk`. -/
def Entry.source? (disk : Disk) (root : List String) (entry : Entry) : Option SourceFile :=
  if entry.isFile then
    (sourceParts? entry.names).bind fun parts =>
      (disk.file? (root ++ entry.names)).map fun bytes => ⟨parts.1, parts.2, bytes⟩
  else none

section

variable {disk : Disk} {root : List String} {s : SourceFile}

lemma sourceParts?_eq_some {names above : List String} {stem : String} :
    sourceParts? names = some (above, stem) ↔ stem ≠ "" ∧ names = above ++ [stem ++ ".hoon"] := by
  constructor
  · intro h
    obtain ⟨⟨stem', extension⟩, hparts, hpair⟩ := Option.map_eq_some_iff.1 h
    obtain ⟨rfl, rfl⟩ := Prod.mk.inj hpair
    obtain ⟨hparts, hextension⟩ := Option.filter_eq_some_iff.1 hparts
    obtain ⟨last, hlast, hsplit⟩ := Option.bind_eq_some_iff.1 hparts
    obtain ⟨rfl, hstem⟩ := eq_of_splitName? hsplit
    obtain rfl : extension = "hoon" := of_decide_eq_true hextension
    refine ⟨hstem, ?_⟩
    rw [← List.dropLast_append_getLast? _ hlast]
    simp [String.append_assoc]
  · rintro ⟨hstem, rfl⟩
    have hsplit := splitName?_append hstem (by simp : '.' ∉ "hoon".toList)
    rw [String.append_assoc] at hsplit
    simp [sourceParts?, show stem ++ ".hoon" = stem ++ ("." ++ "hoon") from rfl, hsplit]

/-- `Entry.source?` finds the sources that stand on the disk. -/
lemma source?_eq_some {entry : Entry} : entry.source? disk root = some s ↔
    s.StandsIn disk root ∧ entry = ⟨s.names, true⟩ := by
  obtain ⟨names, isFile⟩ := entry
  obtain ⟨above, stem, bytes⟩ := s
  cases isFile with
  | false => simp [Entry.source?]
  | true =>
      rw [Entry.source?, if_pos rfl, Option.bind_eq_some_iff]
      constructor
      · rintro ⟨⟨above', stem'⟩, hparts, h⟩
        obtain ⟨bytes', hfile, h⟩ := Option.map_eq_some_iff.1 h
        cases h
        obtain ⟨hstem, rfl⟩ := sourceParts?_eq_some.1 hparts
        exact ⟨⟨hstem, file?_eq_some.1 hfile⟩, rfl⟩
      · rintro ⟨⟨hstem, hitem⟩, hentry⟩
        obtain ⟨rfl, -⟩ := Entry.mk.inj hentry
        refine ⟨(above, stem), sourceParts?_eq_some.2 ⟨hstem, rfl⟩, ?_⟩
        exact Option.map_eq_some_iff.2 ⟨bytes, file?_eq_some.2 hitem, rfl⟩

/-- The test `isSource` of a path holds exactly if `sourceParts?` takes its names apart. -/
lemma isSource_iff (dir : String) {names : List String} (hne : names ≠ []) :
    isSource ⟨dir, names⟩ = true ↔ ∃ parts, sourceParts? names = some parts := by
  obtain ⟨last, hlast⟩ : ∃ last, names.getLast? = some last := by
    rw [← Option.isSome_iff_exists]
    simpa using hne
  rw [isSource, Path.extension?, Path.fileName?, sourceParts?]
  cases hsplit : Path.splitName? last with
  | none => simp [hlast, hsplit]
  | some parts =>
      obtain ⟨stem, extension⟩ := parts
      simp [hlast, hsplit]

end

end Runic.Command
