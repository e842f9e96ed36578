import Runic.Proofs.Command.Sources
import Runic.Proofs.Command.Walk

/-!
# A batch accounts for every file

A batch compiles the sources that its walk comes to and writes while it walks, perhaps into the
directory that it walks through.  What it writes is never a source, so **every source is read as it
was at the start**, and whatever else the walk comes to is passed over.  All this holds for every
walker that walks as `Walker.Walks` says.

* `Accounts` — what is left when sources have been compiled: the tally counts them, the disk gains
  the outputs of those that have one and nothing else, and the errors of the others were said.
* `meets_compileEntry` — one step of a batch, at a source.
* `isSource_of_source?_eq_none` — an entry that is no source of the start disk is none at all, even
  if it was made since.
* `meets_visitAll` — so a run over the first entries of a walk accounts for the sources among them.
* `batch_accounts_for_every_file` — the same of a whole run, with its outcome.
-/

namespace Runic.Command

open Runic.Attempt (Meets)
open Disk

/-! ## What compiling sources leaves behind -/

/-- The place of the directory for outputs, as `resolve` finds it without a disk. -/
def outPlace (outDir : String) : List String := resolve [] (Path.textSteps outDir)

/-- The last line that `compileEntry` says about a source with an error. -/
def errorLine (dir : String) (s : SourceFile) (error : Error) : String :=
  s!"error: failed to compile {Path.text ⟨dir, s.names⟩}: {error.text}"

/-- If the source is a text and has an error, then the lines of `errorLine` stand together on the
error stream of `world`. -/
def Reported (job : Job) (dir : String) (s : SourceFile) (world : World) : Prop :=
  ∀ source error, String.fromUTF8? s.bytes = some source →
    emit source job.output job.options = .error error →
      (errorLine dir s error).splitOn "\n" <:+: world.said

/-- What compiling `sources` one after another makes of a tally and a world. -/
structure Accounts (job : Job) (dir outDir : String) (sources : List SourceFile)
    (tally tally' : Tally) (world world' : World) : Prop where
  /-- A source without an error is counted as compiled. -/
  compiled : tally'.compiled = tally.compiled + sources.countP fun s => (s.made? job).isSome
  /-- A source with an error is counted as failed. -/
  failed : tally'.failed = tally.failed + failures job sources
  /-- The disk gains the outputs, and nothing else but directories. -/
  gains : Gains world.disk world'.disk (outputs job (outPlace outDir) sources).reverse
  /-- The directory for outputs is there, if there are any. -/
  place : ∀ s ∈ sources, (s.made? job).isSome = true →
    world'.disk.follow [] (Path.textSteps outDir) = .ok (outPlace outDir)
  /-- What was said stays said. -/
  said : world.said <+: world'.said
  /-- Every error was said. -/
  reported : ∀ s ∈ sources, Reported job dir s world'

section

variable {walker : Walker (StateM World)} {job : Job} {dir outDir : String} {root : List String}
  {s : SourceFile} {tally tally' tally'' : Tally} {world world' world'' : World}

lemma Reported.mono (h : Reported job dir s world) (hsaid : world.said <+: world'.said) :
    Reported job dir s world' :=
  fun source error hsource hemit => (h source error hsource hemit).trans hsaid.isInfix

namespace Accounts

lemma nil : Accounts job dir outDir [] tally tally world world :=
  ⟨rfl, rfl, .refl _, by simp, List.prefix_rfl, by simp⟩

/-- Accounts for sources one after another: those of `sources ++ sources'` follow from those of the
two parts. -/
lemma append {sources sources' : List SourceFile}
    (h : Accounts job dir outDir sources tally tally' world world')
    (h' : Accounts job dir outDir sources' tally' tally'' world' world'') :
    Accounts job dir outDir (sources ++ sources') tally tally'' world world'' where
  compiled := by rw [h'.compiled, h.compiled, List.countP_append, Nat.add_assoc]
  failed := by
    rw [h'.failed, h.failed, failures, failures, failures, List.countP_append, Nat.add_assoc]
  gains := by
    rw [outputs, List.filterMap_append, List.reverse_append]
    exact h.gains.trans h'.gains
  place s hs hmade := by
    rcases List.mem_append.1 hs with hs | hs
    · exact h'.gains.follow (h.place s hs hmade)
    · exact h'.place s hs hmade
  said := h.said.trans h'.said
  reported s hs := by
    rcases List.mem_append.1 hs with hs | hs
    · exact (h.reported s hs).mono h'.said
    · exact h'.reported s hs

/-- The account for one source without an error, whose output was written at its place. -/
lemma made {text : String} (hmade : s.made? job = some text) (hsaid : world.said <+: world'.said)
    (hplace : world'.disk.follow [] (Path.textSteps outDir) = .ok (outPlace outDir))
    (hgains : Gains world.disk world'.disk
      [(outPlace outDir ++ s.outputNames job.output, text.toUTF8)]) :
    Accounts job dir outDir [s] tally { tally with compiled := tally.compiled + 1 } world
      world' := by
  refine ⟨by simp [hmade], by simp [failures, hmade], ?_, fun _ _ _ => hplace, hsaid, ?_⟩
  · simpa [outputs, SourceFile.output?, hmade] using hgains
  · rw [List.forall_mem_singleton]
    intro source error hsource hemit
    rw [SourceFile.made?, hsource, Option.bind_some, hemit] at hmade
    cases hmade

/-- The account for one source with an error, which was said. -/
lemma error {source : String} {error : Error} (hsource : String.fromUTF8? s.bytes = some source)
    (hemit : emit source job.output job.options = .error error) (hdisk : world'.disk = world.disk)
    (hsaid : world.said <+: world'.said)
    (hline : (errorLine dir s error).splitOn "\n" <:+: world'.said) :
    Accounts job dir outDir [s] tally { tally with failed := tally.failed + 1 } world world' := by
  have hmade : s.made? job = none := by
    rw [SourceFile.made?, hsource, Option.bind_some, hemit]
    rfl
  refine ⟨by simp [hmade], by simp [failures, hmade], ?_, by simp [hmade], hsaid, ?_⟩
  · rw [hdisk]
    simpa [outputs, SourceFile.output?, hmade] using Gains.refl world.disk
  · rw [List.forall_mem_singleton]
    intro source' error' hsource' hemit'
    rw [hsource, Option.some.injEq] at hsource'
    subst hsource'
    rw [hemit, Except.error.injEq] at hemit'
    subst hemit'
    exact hline

end Accounts

/-! ## One step of a batch -/

-- A run is followed by its rules, never by evaluation.
attribute [local irreducible] Attempt.Meets

/-- The source is a text, and its bytes are found at its path below `dir`. -/
structure SourceFile.Ready (s : SourceFile) (dir : String) (root : List String) (disk : Disk) :
    Prop where
  stem : s.stem ≠ ""
  named : ∀ name ∈ s.above, isName name = true
  text : ∃ text, String.fromUTF8? s.bytes = some text
  located : disk.locate (Path.steps ⟨dir, s.names⟩) = .ok (root ++ s.names, .file s.bytes)

/-- The output of a source that is ready is written at its place, or the run fails by
`Unwritten`. -/
lemma meets_output {text : String} (hs : s.Ready dir root world.disk) :
    Meets (attempt (writeOutput (World.hostWith walker) job (target outDir job.output ⟨dir, s.names⟩)
        text)) world (Unwritten (target outDir job.output ⟨dir, s.names⟩)) fun _ world' =>
      world.said <+: world'.said ∧
        world'.disk.follow [] (Path.textSteps outDir) = .ok (outPlace outDir) ∧
        Gains world.disk world'.disk
          [(outPlace outDir ++ s.outputNames job.output, text.toUTF8)] := by
  rw [target_eq hs.stem]
  refine (meets_writeOutput (List.append_assoc _ _ _).symm).imp ?_
  rintro - world' ⟨hsaid, hup, names, hfollow, hgains⟩
  have hdot : s.stem ≠ "." := by
    rintro hdot
    exact hup (if_pos hdot)
  rw [if_neg hdot] at hgains
  rw [follow_append] at hfollow
  obtain ⟨out, hout, hfollow⟩ := bind_eq_ok.1 hfollow
  obtain rfl : out = outPlace outDir := eq_resolve_of_follow hout
  rw [eq_append_of_follow hs.named hfollow, List.append_assoc] at hgains
  exact ⟨hsaid, hout, hgains⟩

lemma isSource_names (dir : String) (hstem : s.stem ≠ "") : isSource ⟨dir, s.names⟩ = true :=
  (isSource_iff dir (by simp [SourceFile.names])).2 ⟨_, sourceParts?_eq_some.2 ⟨hstem, rfl⟩⟩

/-- **One step of a batch, at a source that is ready**: its output is written or its error is said,
so that `Accounts` holds of it; or the run fails by `Unwritten`. -/
lemma meets_compileEntry (hs : s.Ready dir root world.disk) :
    Meets (attempt (compileEntry (World.hostWith walker) job dir outDir tally (.ok ⟨s.names, true⟩)))
      world (Unwritten (target outDir job.output ⟨dir, s.names⟩))
      fun tally' world' => Accounts job dir outDir [s] tally tally' world world' := by
  obtain ⟨source, hsource⟩ := hs.text
  obtain ⟨compiled, hcompile, hdisk, hsaid⟩ :=
    run_compileSource walker job (Path.text ⟨dir, s.names⟩) source world
  have hlift : attempt (ExceptT.lift (compileSource (World.hostWith walker) job
      (Path.text ⟨dir, s.names⟩) source) : ExceptT Failure (StateM World) _) world =
        (.ok (emit source job.output job.options), compiled) :=
    congrArg (fun run => (Except.ok run.1, run.2)) hcompile
  unfold compileEntry
  dsimp only
  rw [if_pos (by simp [isSource_names dir hs.stem])]
  refine meets_bind_of_eq (attempt_readText (read_of_locate hs.located) hsource) ?_
  refine meets_bind_of_eq hlift ?_
  cases hemit : emit source job.output job.options with
  | ok text =>
      have hmade : s.made? job = some text := by
        rw [SourceFile.made?, hsource, Option.bind_some, hemit]
        rfl
      rw [← hdisk] at hs
      dsimp only
      rw [attempt_bind]
      refine (meets_output hs).bind ?_
      rintro - written ⟨hsaid', hplace, hgains⟩
      rw [hdisk] at hgains
      exact meets_pure (.made hmade (hsaid.trans hsaid') hplace hgains)
  | error error =>
      refine meets_say (meets_pure (.error hsource hemit hdisk ?_ (List.suffix_append _ _).isInfix))
      exact hsaid.trans (List.prefix_append _ _)

/-- An entry that is no source is passed over: tally and world stay as they are. -/
lemma attempt_compileEntry_of_not {entry : Entry}
    (h : (entry.isFile && isSource ⟨dir, entry.names⟩) = false) :
    attempt (compileEntry (World.hostWith walker) job dir outDir tally (.ok entry)) world =
      (.ok tally, world) := by
  obtain ⟨names, isFile⟩ := entry
  unfold compileEntry
  dsimp only
  rw [if_neg (by simpa using h)]
  rfl

/-! ## The first entries of a walk -/

variable {entries : List Entry}

/-- A source that was there at the start is found with the same bytes after other sources were
compiled, since no output is a source. -/
lemma located_of_accounts {sources : List SourceFile} (htree : world.disk.IsTree)
    (hroot : world.disk.locate (Path.textSteps dir) = .ok (root, .directory))
    (h : Accounts job dir outDir sources tally tally' world world')
    (hsources : ∀ t ∈ sources, t.StandsIn world.disk root) (hs : s.StandsIn world.disk root) :
    world'.disk.locate (Path.steps ⟨dir, s.names⟩) = .ok (root ++ s.names, .file s.bytes) :=
  h.gains.locate (located_of_standsIn htree hroot hs)
    (lookup_outputs hs.1 fun t ht => (hsources t ht).1)

/-- A source that was there at the start and is a text is ready to be compiled after other sources
were. -/
lemma ready_of_accounts {sources : List SourceFile} (htree : world.disk.IsTree)
    (hroot : world.disk.locate (Path.textSteps dir) = .ok (root, .directory))
    (h : Accounts job dir outDir sources tally tally' world world')
    (hsources : ∀ t ∈ sources, t.StandsIn world.disk root) (hs : s.StandsIn world.disk root)
    (htext : ∃ text, String.fromUTF8? s.bytes = some text) : s.Ready dir root world'.disk := by
  have hsome : (world.disk.item? (root ++ s.names)).isSome = true := by rw [hs.2]; rfl
  refine ⟨hs.1, fun name hname => ?_, htext, located_of_accounts htree hroot h hsources hs⟩
  exact htree.isName_of_isSome hsome name (by simp [SourceFile.names, hname])

/-- **What was made during the walk is no source.** An entry that is there, and that `Entry.source?`
does not find on the disk at the start, has the wrong name or is a directory. -/
lemma isSource_of_source?_eq_none {sources : List SourceFile} {entry : Entry} {item : Item}
    (hroot : world.disk.locate (Path.textSteps dir) = .ok (root, .directory))
    (h : Accounts job dir outDir sources tally tally' world world')
    (hsources : ∀ t ∈ sources, t.StandsIn world.disk root)
    (hitem : world'.disk.item? (root ++ entry.names) = some item)
    (hfile : item.isFile = entry.isFile)
    (hnone : entry.source? world.disk root = none) :
    (entry.isFile && isSource ⟨dir, entry.names⟩) = false := by
  rw [Bool.eq_false_iff]
  intro hsource
  obtain ⟨hisFile, hsource⟩ := Bool.and_eq_true_iff.1 hsource
  obtain ⟨bytes, rfl⟩ : ∃ bytes, item = .file bytes := by
    cases item with
    | directory => exact absurd (hfile.trans hisFile) (by decide)
    | file bytes => exact ⟨bytes, rfl⟩
  have hne : entry.names ≠ [] := by
    intro hnil
    rw [hnil, List.append_nil, h.gains.directory root (locate_eq_ok.1 hroot).2.2] at hitem
    cases hitem
  obtain ⟨⟨above, stem⟩, hparts⟩ := (isSource_iff dir hne).1 hsource
  obtain ⟨hstem, hnames⟩ := sourceParts?_eq_some.1 hparts
  -- it has not been written since the start, so it was there
  have hbytes : world.disk.file? (root ++ entry.names) = some bytes := by
    have hfile' := h.gains.file (root ++ entry.names)
    have hlookup :
        (outputs job (outPlace outDir) sources).reverse.lookup (root ++ entry.names) = none := by
      rw [hnames]
      exact lookup_outputs (t := ⟨above, stem, bytes⟩) hstem fun t ht => (hsources t ht).1
    rwa [hlookup, Option.none_or, file?_eq_some.2 hitem, eq_comm] at hfile'
  have hfound : entry.source? world.disk root = some ⟨above, stem, bytes⟩ := by
    refine source?_eq_some.2 ⟨⟨hstem, ?_⟩, ?_⟩
    · rw [SourceFile.names, ← hnames]
      exact file?_eq_some.1 hbytes
    · rw [SourceFile.names, ← hnames, ← hisFile]
  rw [hnone] at hfound
  cases hfound

/-- The sources that `Entry.source?` finds among entries stand on the disk. -/
lemma standsIn_of_mem {disk : Disk} (hs : s ∈ entries.filterMap (Entry.source? disk root)) :
    s.StandsIn disk root := by
  obtain ⟨entry, -, hsource⟩ := List.mem_filterMap.1 hs
  exact (source?_eq_some.1 hsource).1

/-- **A run over the first entries of a walk accounts for the sources among them**, if these are
texts and nothing keeps an output from being written. -/
theorem meets_visitAll (htree : world.disk.IsTree)
    (hroot : world.disk.locate (Path.textSteps dir) = .ok (root, .directory))
    (hwalk : walker.Walks ⟨dir, []⟩ root (compileEntry (World.hostWith walker) job dir outDir) {}
      world entries) {before after : List Entry} (hentries : entries = before ++ after)
    (htexts : ∀ s ∈ before.filterMap (Entry.source? world.disk root),
      ∃ text, String.fromUTF8? s.bytes = some text) :
    Meets (attempt (visitAll (compileEntry (World.hostWith walker) job dir outDir) before {})) world
      (fun failure => ∃ s : SourceFile, s.StandsIn world.disk root ∧
        Unwritten (target outDir job.output ⟨dir, s.names⟩) failure)
      fun tally world' => Accounts job dir outDir
        (before.filterMap (Entry.source? world.disk root)) {} tally world world' := by
  induction before using List.reverseRecOn generalizing after with
  | nil => exact meets_pure .nil
  | append_singleton before entry ih =>
      rw [List.append_assoc, List.singleton_append] at hentries
      rw [List.filterMap_append] at htexts ⊢
      rw [attempt_visitAll_append]
      refine (ih hentries fun s hs => htexts s (List.mem_append_left _ hs)).and_eq.bind ?_
      rintro tally world' ⟨hrun, haccounts⟩
      have hsources : ∀ t ∈ before.filterMap (Entry.source? world.disk root),
        t.StandsIn world.disk root := fun t ht => standsIn_of_mem ht
      rw [visitAll_singleton]
      cases hsource : entry.source? world.disk root with
      | some s =>
          rw [List.filterMap_cons_some hsource, List.filterMap_nil] at htexts ⊢
          obtain ⟨hs, rfl⟩ := source?_eq_some.1 hsource
          have hready := ready_of_accounts htree hroot haccounts hsources hs (htexts s (by simp))
          refine ((meets_compileEntry hready).imp_error fun failure h => ⟨s, hs, h⟩).imp ?_
          exact fun tally' world'' h => haccounts.append h
      | none =>
          rw [List.filterMap_cons_none hsource, List.filterMap_nil, List.append_nil]
          obtain ⟨item, hitem, hfile⟩ := hwalk.present before entry after tally world' hentries hrun
          refine Meets.of_eq_ok (attempt_compileEntry_of_not ?_) haccounts
          exact isSource_of_source?_eq_none hroot haccounts hsources hitem hfile hsource

/-! ## A whole run -/

/-- The sources among the entries of a walk are those that were there at the start. -/
lemma mem_sources (hwalk : walker.Walks ⟨dir, []⟩ root
      (compileEntry (World.hostWith walker) job dir outDir) {} world entries) :
    s ∈ entries.filterMap (Entry.source? world.disk root) ↔ s.StandsIn world.disk root := by
  refine ⟨standsIn_of_mem, fun hs => List.mem_filterMap.2 ⟨⟨s.names, true⟩, ?_, ?_⟩⟩
  · exact hwalk.complete s.names _ hs.2
  · exact source?_eq_some.2 ⟨hs, rfl⟩

/-- No source is found twice among entries in the order of names. -/
lemma nodup_sources (disk : Disk) (root : List String)
    (hordered : (entries.map Entry.names).Pairwise (· < ·)) :
    (entries.filterMap (Entry.source? disk root)).Nodup := by
  rw [List.Nodup, List.pairwise_filterMap]
  refine (List.pairwise_map.1 hordered).imp fun {entry entry'} hlt => ?_
  rintro s hs _ hs' rfl
  rw [(source?_eq_some.1 hs).2, (source?_eq_some.1 hs').2] at hlt
  exact lt_irrefl _ hlt

/-- The outcome of a batch that ends with `tally`. -/
def verdict (tally : Tally) : Except Failure Unit :=
  if tally.failed = 0 then .ok () else
    .error ⟨s!"{tally.failed} of {tally.compiled + tally.failed} files failed to compile", []⟩

lemma run_conclude (walker : Walker (StateM World)) (job : Job) (tally : Tally) (world : World) :
    (attempt (conclude (World.hostWith walker) job tally) world).1 = verdict tally ∧
      (attempt (conclude (World.hostWith walker) job tally) world).2.disk = world.disk ∧
        world.said <+: (attempt (conclude (World.hostWith walker) job tally) world).2.said := by
  obtain ⟨hdisk, hsaid⟩ := run_note walker job
    s!"hoonc: {tally.compiled} compiled, {tally.failed} failed" world
  rw [conclude, attempt_bind, Attempt.bind_apply, verdict]
  by_cases h : tally.failed = 0
  · rw [if_pos h, if_neg (by simpa using h)]
    exact ⟨rfl, hdisk, hsaid⟩
  · rw [if_neg h, if_pos h]
    exact ⟨rfl, hdisk, hsaid⟩

/-- A batch hands the entries of its walk to `compileEntry`, and then it ends. -/
lemma attempt_batch (hwalk : walker.Walks ⟨dir, []⟩ root
      (compileEntry (World.hostWith walker) job dir outDir) {} world entries) :
    attempt (batch (World.hostWith walker) job dir outDir) world =
      (attempt (visitAll (compileEntry (World.hostWith walker) job dir outDir) entries {}) >>=
        fun tally => attempt (conclude (World.hostWith walker) job tally)) world := by
  rw [batch, attempt_bind, Attempt.bind_apply, Attempt.bind_apply, ← hwalk.visits]
  rfl

end

/-- A batch only adds to the disk, so `World.walker` walks through its directory. -/
lemma exists_walks_batch (job : Job) (outDir : String) {dir : String} {root : List String}
    {world : World} (htree : world.disk.IsTree) (hordered : world.disk.Ordered)
    (hroot : world.disk.locate (Path.textSteps dir) = .ok (root, .directory)) :
    ∃ entries, World.walker.Walks ⟨dir, []⟩ root (compileEntry World.host job dir outDir) {}
      world entries := by
  have hsteps : Path.steps ⟨dir, []⟩ = Path.textSteps dir := List.append_nil _
  rw [← hsteps] at hroot
  exact exists_walks htree hordered hroot (adds_compileEntry World.walker job dir outDir) {}

/-- **A batch accounts for every file.** Let a directory be walked in which every source is a text,
and let every output that is to be written be written, while the walk goes on.  Then the files of
the disk are, in the end, the outputs of the sources without errors, each at the place of its source
below the directory for outputs and with the other extension, and elsewhere the files that were
there.  No two sources share a place for their output.  The run succeeds if no source has an error,
and otherwise says how many of them have. -/
theorem batch_accounts_for_every_file {walker : Walker (StateM World)} {world world' : World}
    {job : Job} {dir outDir : String} {root : List String} {entries : List Entry}
    {outcome : Except Failure Unit} (htree : world.disk.IsTree)
    (hroot : world.disk.locate (Path.textSteps dir) = .ok (root, .directory))
    (hwalk : walker.Walks ⟨dir, []⟩ root (compileEntry (World.hostWith walker) job dir outDir) {}
      world entries)
    (htexts : ∀ s : SourceFile, s.StandsIn world.disk root →
      ∃ text, String.fromUTF8? s.bytes = some text)
    (hrun : (batch (World.hostWith walker) job dir outDir).run.run world = (outcome, world'))
    (hwrites : ∀ s : SourceFile, s.StandsIn world.disk root → ∀ failure,
      outcome = .error failure → ¬ Unwritten (target outDir job.output ⟨dir, s.names⟩) failure) :
    ∃ (sources : List SourceFile) (out : List String),
      sources.Nodup ∧ (∀ s, s ∈ sources ↔ s.StandsIn world.disk root) ∧
      (∀ names bytes, world'.disk.file? names = some bytes ↔
        (names, bytes) ∈ outputs job out sources ∨
          names ∉ (outputs job out sources).map Prod.fst ∧
            world.disk.file? names = some bytes) ∧
      (∀ s ∈ sources, (s.made? job).isSome = true →
        world'.disk.follow [] (Path.textSteps outDir) = .ok out) ∧
      ((outputs job out sources).map Prod.fst).Nodup ∧
      (∀ s ∈ sources, ∀ t ∈ sources, target outDir job.output ⟨dir, s.names⟩ =
        target outDir job.output ⟨dir, t.names⟩ → s = t) ∧
      outcome = if failures job sources = 0 then .ok () else
        .error ⟨s!"{failures job sources} of {sources.length} files failed to compile", []⟩ := by
  have hmem : ∀ s, s ∈ entries.filterMap (Entry.source? world.disk root) ↔
    s.StandsIn world.disk root := fun s => mem_sources hwalk
  have hnodup := nodup_sources world.disk root hwalk.ordered
  have hmeets := meets_visitAll htree hroot hwalk (List.append_nil entries).symm
    fun s hs => htexts s ((hmem s).1 hs)
  replace hrun := (attempt_batch hwalk).symm.trans hrun
  rw [Attempt.bind_apply] at hrun
  unfold Meets at hmeets
  split at hrun
  · next tally compiled hcompile =>
      rw [hcompile] at hmeets
      have haccounts : Accounts job dir outDir _ {} tally world compiled := hmeets
      have hplaces := nodup_outputs job (outPlace outDir) hnodup fun s hs => (hmem s).1 hs
      obtain ⟨houtcome, hdisk, -⟩ := run_conclude walker job tally compiled
      rw [hrun] at houtcome hdisk
      dsimp only at houtcome hdisk
      rw [hdisk, houtcome]
      refine ⟨_, outPlace outDir, hnodup, hmem, fun names bytes => haccounts.gains.file?_iff hplaces,
        haccounts.place, hplaces, ?_, ?_⟩
      · intro s hs t ht h
        rw [hmem] at hs ht
        exact hs.eq ht (target_injective hs.1 ht.1 h)
      · rw [verdict, haccounts.compiled, haccounts.failed, Nat.zero_add, Nat.zero_add, countP_made]
  · next failure compiled hcompile =>
      rw [hcompile] at hmeets
      cases hrun
      obtain ⟨s, hs, hunwritten⟩ := hmeets
      exact absurd hunwritten (hwrites s hs failure rfl)

/-- A world with a directory that has the extension of a source, a source in it that has a dot in
its stem, a directory for outputs between the sources, and a source with an error. -/
def dottedWorld : World where
  disk := ⟨[(["lib.hoon"], .directory), (["lib.hoon", "a.b.hoon"], .file "[1 2]".toUTF8),
    (["out"], .directory), (["x.hoon"], .file "=/(".toUTF8)]⟩
  input := "".toUTF8

lemma isTree_dottedWorld : dottedWorld.disk.IsTree := by
  refine ⟨by decide, by decide, ?_⟩
  simp only [dottedWorld, List.forall_mem_cons]
  exact ⟨rfl, rfl, rfl, rfl, by simp⟩

lemma texts_dottedWorld (s : SourceFile) (hs : s.StandsIn dottedWorld.disk []) :
    ∃ text, String.fromUTF8? s.bytes = some text := by
  obtain ⟨-, hitem⟩ := hs
  rw [isTree_dottedWorld.item?_eq_some (by simp [SourceFile.names])] at hitem
  simp only [dottedWorld, List.mem_cons, Prod.mk.injEq, Item.file.injEq, reduceCtorEq, and_false,
    List.not_mem_nil, or_false, false_or] at hitem
  rcases hitem with ⟨-, hbytes⟩ | ⟨-, hbytes⟩ <;> rw [hbytes]
  · exact ⟨"[1 2]", by decide +kernel⟩
  · exact ⟨"=/(", by decide +kernel⟩

/-- The first part lists the entries of the walk through this world: among them is the output of the
first source, which the batch wrote while it was walking. -/
theorem batch_accounts_for_every_file_dotted :
    (attempt (World.walker.fold ⟨".", []⟩ (fun (seen : List Entry) met => do
        let _ ← compileEntry World.host ⟨.ast, {}, false⟩ "." "out" {} met
        return seen ++ met.toOption.toList) []) dottedWorld).1 = .ok
      [⟨[], false⟩, ⟨["lib.hoon"], false⟩, ⟨["lib.hoon", "a.b.hoon"], true⟩, ⟨["out"], false⟩,
        ⟨["out", "lib.hoon"], false⟩, ⟨["out", "lib.hoon", "a.b.ast"], true⟩, ⟨["x.hoon"], true⟩] ∧
    dottedWorld.disk.IsTree ∧ dottedWorld.disk.locate (Path.textSteps ".") = .ok ([], .directory) ∧
    (∀ s : SourceFile, s.StandsIn dottedWorld.disk [] →
      ∃ text, String.fromUTF8? s.bytes = some text) ∧
    ∃ entries world' sources out,
      World.walker.Walks ⟨".", []⟩ [] (compileEntry World.host ⟨.ast, {}, false⟩ "." "out") {}
        dottedWorld entries ∧
      (batch World.host ⟨.ast, {}, false⟩ "." "out").run.run dottedWorld =
        (.error ⟨"1 of 2 files failed to compile", []⟩, world') ∧
      (∀ s, s ∈ sources ↔ s.StandsIn dottedWorld.disk []) ∧
      ∀ names bytes, world'.disk.file? names = some bytes ↔
        (names, bytes) ∈ outputs ⟨.ast, {}, false⟩ out sources ∨
          names ∉ (outputs ⟨.ast, {}, false⟩ out sources).map Prod.fst ∧
            dottedWorld.disk.file? names = some bytes := by
  have houtcome : ((batch World.host ⟨.ast, {}, false⟩ "." "out").run.run dottedWorld).1 =
      .error ⟨"1 of 2 files failed to compile", []⟩ := by
    decide +kernel
  have hwrites : ∀ (path : Path) (failure : Failure),
      (.error ⟨"1 of 2 files failed to compile", []⟩ : Except Failure Unit) = .error failure →
        ¬ Unwritten path failure := by
    rintro path failure ⟨⟩ ⟨fault, hcauses, -⟩
    cases hcauses
  have hroot : dottedWorld.disk.locate (Path.textSteps ".") = .ok ([], .directory) := rfl
  obtain ⟨entries, hwalk⟩ :=
    exists_walks_batch ⟨.ast, {}, false⟩ "out" isTree_dottedWorld (by decide) hroot
  obtain ⟨sources, out, -, hmem, hfiles, -⟩ := batch_accounts_for_every_file isTree_dottedWorld hroot
    hwalk texts_dottedWorld (Prod.ext houtcome rfl) fun s _ => hwrites _
  exact ⟨by decide +kernel, isTree_dottedWorld, hroot, texts_dottedWorld, entries, _, sources, out,
    hwalk, Prod.ext houtcome rfl, hmem, hfiles⟩

end Runic.Command
