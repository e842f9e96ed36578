import Mathlib.Data.List.TakeWhile
import Runic.Proofs.Command.Batch

/-!
# How far sources are isolated

A source with an error costs a batch its own output and nothing else.  A source that is no text ends
the batch, and the sources after it in the walk are never tried.

* `SourceFile.Reached` — a source and all sources before it are texts.
* `exists_sources_of_batch` — what a run does, up to the first source that is no text.
* `Treated` — what becomes of one source: if it is reached, its output is written or its error said;
  if not, the place of its output is left alone and the run fails for a source that is no text.
* `treated_of_batch` — **every source is treated so**, whatever the other sources are.
* `Disk.rewrite` — a disk with other bytes in one file.  The other sources stand there as before
  (`standsIn_rewrite`).
* `batch_isolates_reached_sources` — so of two versions of one source each has the other sources
  treated the same, up to the first source that is no text.
-/

namespace Runic

/-- The item with other bytes, if it is a file. -/
def Item.refill (bytes : ByteArray) : Item → Item
  | directory => directory
  | file _ => file bytes

namespace Disk

/-! ## Other bytes in one file -/

/-- The disk with the bytes `bytes` in the file at `place`. -/
def rewrite (disk : Disk) (place : List String) (bytes : ByteArray) : Disk :=
  ⟨disk.items.map fun entry =>
    (entry.1, if entry.1 = place then entry.2.refill bytes else entry.2)⟩

section

variable {disk : Disk} {place : List String} {bytes : ByteArray}

lemma item?_rewrite (names : List String) : (disk.rewrite place bytes).item? names =
    (disk.item? names).map fun item => if names = place then item.refill bytes else item := by
  have hlookup : ∀ items : List (List String × Item), (items.map fun entry =>
      (entry.1, if entry.1 = place then entry.2.refill bytes else entry.2)).lookup names =
        (items.lookup names).map fun item =>
          if names = place then item.refill bytes else item := by
    intro items
    induction items with
    | nil => rfl
    | cons entry items ih =>
        obtain ⟨key, item⟩ := entry
        rw [List.map_cons, lookup_cons_if, ih, lookup_cons_if]
        by_cases hkey : names = key
        · subst hkey
          simp
        · simp [hkey]
  unfold item?
  split
  · simp [Item.refill]
  · exact hlookup disk.items

lemma map_fst_rewrite :
    (disk.rewrite place bytes).items.map Prod.fst = disk.items.map Prod.fst := by
  simp [rewrite, Function.comp_def]

/-- Rewriting a file that is there is a gain of that file. -/
lemma gains_rewrite {old : ByteArray} (h : disk.item? place = some (.file old)) :
    Gains disk (disk.rewrite place bytes) [(place, bytes)] := by
  refine ⟨?_, ?_, ?_⟩
  · intro names hnames
    simp [item?_rewrite, hnames, Item.refill]
  · intro names
    rw [file?, item?_rewrite, lookup_cons_if]
    by_cases hplace : names = place
    · subst hplace
      simp [h, Item.refill, Item.bytes?]
    · simp [hplace, file?]
  · rw [Ordered, Ordered, map_fst_rewrite]
    exact id

lemma IsTree.rewrite (h : disk.IsTree) : (disk.rewrite place bytes).IsTree := by
  refine ⟨?_, ?_, ?_⟩
  · rw [map_fst_rewrite]
    exact h.nodup
  · intro entry hentry
    obtain ⟨entry, hmem, rfl⟩ := List.mem_map.1 hentry
    exact h.named entry hmem
  · intro entry hentry
    obtain ⟨entry, hmem, rfl⟩ := List.mem_map.1 hentry
    simp [item?_rewrite, h.parent entry hmem, Item.refill]

end

end Disk

namespace Command

open Runic.Attempt (Meets)
open Disk

/-! ## Sources in the order of the walk -/

namespace SourceFile

/-- The bytes of the source are UTF-8. -/
def isText (s : SourceFile) : Bool := (String.fromUTF8? s.bytes).isSome

/-- The source and all sources before it in the order of names are texts. -/
def Reached (s : SourceFile) (disk : Disk) (root : List String) : Prop :=
  ∀ t : SourceFile, t.StandsIn disk root → t = s ∨ t.names < s.names → t.isText = true

/-- The place where the output of the source goes, below `outPlace`. -/
def outputPlace (output : Output) (outDir : String) (s : SourceFile) : List String :=
  outPlace outDir ++ s.outputNames output

end SourceFile

section

variable {disk : Disk} {root : List String} {s t x : SourceFile} {bytes : ByteArray}

/-- After rewriting the source `x`, the sources are `x` with the new bytes and all others as they
were. -/
lemma standsIn_rewrite (hx : x.StandsIn disk root) :
    t.StandsIn (disk.rewrite (root ++ x.names) bytes) root ↔
      t = { x with bytes := bytes } ∨ t.names ≠ x.names ∧ t.StandsIn disk root := by
  by_cases hnames : t.names = x.names
  · constructor
    · rintro ⟨hstem, hitem⟩
      rw [item?_rewrite, hnames, hx.2, Option.map_some, if_pos rfl] at hitem
      obtain ⟨above, stem, bytes'⟩ := t
      obtain ⟨habove, hstem'⟩ := parts_of_names hstem hx.1 hnames
      dsimp only at habove hstem'
      subst habove hstem'
      cases hitem
      exact .inl rfl
    · rintro (rfl | ⟨hne, -⟩)
      · refine ⟨hx.1, ?_⟩
        rw [item?_rewrite, hnames, hx.2, Option.map_some, if_pos rfl]
        rfl
      · exact absurd hnames hne
  · have hplace : root ++ t.names ≠ root ++ x.names := fun h => hnames (List.append_cancel_left h)
    have hne : t ≠ { x with bytes := bytes } := by
      rintro rfl
      exact hnames rfl
    simp [SourceFile.StandsIn, item?_rewrite, hplace, hne, hnames]

/-- If the new bytes of `x` are a text exactly if the old ones are, then the same other sources are
reached. -/
lemma reached_rewrite_iff (hx : x.StandsIn disk root)
    (htext : (String.fromUTF8? bytes).isSome = x.isText) (hs : s.names ≠ x.names) :
    s.Reached (disk.rewrite (root ++ x.names) bytes) root ↔ s.Reached disk root := by
  constructor
  · intro h t ht hbefore
    by_cases hnames : t.names = x.names
    · obtain rfl := ht.eq hx (parts_of_names ht.1 hx.1 hnames)
      rw [← htext]
      refine h { t with bytes := bytes } ((standsIn_rewrite hx).2 (.inl rfl)) (.inr ?_)
      exact hbefore.resolve_left fun hsame => hs (hsame ▸ rfl)
    · exact h t ((standsIn_rewrite hx).2 (.inr ⟨hnames, ht⟩)) hbefore
  · intro h t ht hbefore
    rcases (standsIn_rewrite hx).1 ht with rfl | ⟨-, ht⟩
    · refine htext.trans (h x hx (.inr ?_))
      exact hbefore.resolve_left fun hsame => hs (hsame ▸ rfl)
    · exact h t ht hbefore

end

/-! ## Up to the first source that is no text -/

/-- The failure that ends a run at a source which is no text. -/
def unreadable (dir : String) (s : SourceFile) : Failure :=
  ⟨s!"failed to read input file {Path.text ⟨dir, s.names⟩}", [FileFault.notUtf8.message]⟩

/-- The outcome is not that an output of a source on the disk could not be written. -/
def WritesAll (job : Job) (dir outDir : String) (root : List String) (disk : Disk)
    (outcome : Except Failure Unit) : Prop :=
  ∀ s : SourceFile, s.StandsIn disk root → ∀ failure, outcome = .error failure →
    ¬ Unwritten (target outDir job.output ⟨dir, s.names⟩) failure

section

variable {walker : Walker (StateM World)} {s : SourceFile} {job : Job} {dir outDir : String}
  {root : List String} {world world' : World} {tally : Tally} {entries : List Entry}
  {outcome : Except Failure Unit}

/-- **At a source that is no text, `compileEntry` fails by `unreadable`** and leaves the world as it
is. -/
lemma attempt_compileEntry_unreadable (hstem : s.stem ≠ "")
    (hlocated : world.disk.locate (Path.steps ⟨dir, s.names⟩) =
      .ok (root ++ s.names, .file s.bytes))
    (htext : s.isText = false) :
    attempt (compileEntry (World.hostWith walker) job dir outDir tally (.ok ⟨s.names, true⟩)) world =
      (.error (unreadable dir s), world) := by
  have hnone : String.fromUTF8? s.bytes = none := by simpa [SourceFile.isText] using htext
  unfold compileEntry
  dsimp only
  rw [if_pos (by simp [isSource_names dir hstem]), attempt_bind, Attempt.bind_apply,
    attempt_readText_eq (read_of_locate hlocated), decodeText, hnone]
  rfl

/-- There are no entries, or the first of them is a source that is no text. -/
def Stops (disk : Disk) (root : List String) (after : List Entry) : Prop :=
  after = [] ∨ ∃ (t : SourceFile) (rest : List Entry), after = ⟨t.names, true⟩ :: rest ∧
    t.StandsIn disk root ∧ t.isText = false

/-- The entries of a walk are some in which all sources are texts, and then some at which the run
`Stops`. -/
lemma exists_split (disk : Disk) (root : List String) (entries : List Entry) :
    ∃ before after, entries = before ++ after ∧
      (∀ s ∈ before.filterMap (Entry.source? disk root), s.isText = true) ∧
      Stops disk root after := by
  let passes (entry : Entry) : Bool := (entry.source? disk root).all SourceFile.isText
  refine ⟨entries.takeWhile passes, entries.dropWhile passes,
    List.takeWhile_append_dropWhile.symm, fun s hs => ?_, ?_⟩
  · obtain ⟨entry, hentry, hsource⟩ := List.mem_filterMap.1 hs
    have hpasses : passes entry = true := List.mem_takeWhile_imp hentry
    simpa only [passes, hsource, Option.all_some] using hpasses
  · have hhead := List.head?_dropWhile_not passes entries
    cases hrest : entries.dropWhile passes with
    | nil => exact .inl rfl
    | cons entry rest =>
        rw [hrest] at hhead
        have hfails : passes entry = false := hhead
        cases hsource : entry.source? disk root with
        | none => simp [passes, hsource] at hfails
        | some t =>
            obtain ⟨ht, rfl⟩ := source?_eq_some.1 hsource
            exact .inr ⟨t, rest, rfl, ht, by simpa [passes, hsource] using hfails⟩

/-- The sources among the entries before that point are exactly the sources that are reached. -/
lemma mem_before_iff (hwalk : walker.Walks ⟨dir, []⟩ root
      (compileEntry (World.hostWith walker) job dir outDir) {} world entries)
    {before after : List Entry} (hentries : entries = before ++ after)
    (htexts : ∀ s ∈ before.filterMap (Entry.source? world.disk root), s.isText = true)
    (hafter : Stops world.disk root after) :
    s ∈ before.filterMap (Entry.source? world.disk root) ↔
      s.StandsIn world.disk root ∧ s.Reached world.disk root := by
  have hordered := hwalk.ordered
  rw [hentries, List.map_append, List.pairwise_append] at hordered
  have hmem : ∀ t : SourceFile, t.StandsIn world.disk root →
      t ∈ before.filterMap (Entry.source? world.disk root) ∨ ⟨t.names, true⟩ ∈ after := by
    intro t ht
    have hentry := hwalk.complete t.names _ ht.2
    rw [hentries, List.mem_append] at hentry
    refine hentry.imp_left fun hbefore => List.mem_filterMap.2 ⟨_, hbefore, ?_⟩
    exact source?_eq_some.2 ⟨ht, rfl⟩
  constructor
  · intro hs
    refine ⟨standsIn_of_mem hs, fun t ht hbefore => ?_⟩
    rcases hmem t ht with ht' | ht'
    · exact htexts t ht'
    -- a source after the cut does not come before one that is before it
    · obtain ⟨entry, hentry, hsource⟩ := List.mem_filterMap.1 hs
      obtain ⟨-, rfl⟩ := source?_eq_some.1 hsource
      have hlt := hordered.2.2 _ (List.mem_map_of_mem hentry) _ (List.mem_map_of_mem ht')
      rcases hbefore with rfl | hbefore
      · exact absurd hlt (lt_irrefl _)
      · exact absurd hlt (lt_asymm hbefore)
  · rintro ⟨hs, hreached⟩
    refine (hmem s hs).resolve_right fun hs' => ?_
    rcases hafter with rfl | ⟨t, rest, rfl, ht, htext⟩
    · cases hs'
    · have hbefore : t = s ∨ t.names < s.names := by
        rcases List.mem_cons.1 hs' with hsame | hs'
        · have hnames : s.names = t.names := (Entry.mk.inj hsame).1
          exact .inl (ht.eq hs (parts_of_names ht.1 hs.1 hnames.symm))
        · rw [List.map_cons, List.pairwise_cons] at hordered
          exact .inr (hordered.2.1.1 _ (List.mem_map_of_mem hs'))
      rw [hreached t ht hbefore] at htext
      cases htext

/-- **A run accounts for the sources that are reached**: the disk gains their outputs and their
errors are said.  These are all sources, or the run fails by `unreadable`. -/
lemma exists_sources_of_batch (htree : world.disk.IsTree)
    (hroot : world.disk.locate (Path.textSteps dir) = .ok (root, .directory))
    (hwalk : walker.Walks ⟨dir, []⟩ root (compileEntry (World.hostWith walker) job dir outDir) {}
      world entries)
    (hrun : (batch (World.hostWith walker) job dir outDir).run.run world = (outcome, world'))
    (hwrites : WritesAll job dir outDir root world.disk outcome) :
    ∃ sources : List SourceFile, sources.Nodup ∧
      (∀ s, s ∈ sources ↔ s.StandsIn world.disk root ∧ s.Reached world.disk root) ∧
      Gains world.disk world'.disk (outputs job (outPlace outDir) sources).reverse ∧
      (∀ s ∈ sources, Reported job dir s world') ∧
      ((∀ s, s.StandsIn world.disk root → s ∈ sources) ∨ ∃ t : SourceFile,
        t.StandsIn world.disk root ∧ t.isText = false ∧ outcome = .error (unreadable dir t)) := by
  obtain ⟨before, after, hentries, htexts, hafter⟩ := exists_split world.disk root entries
  have hmem : ∀ s, s ∈ before.filterMap (Entry.source? world.disk root) ↔
    s.StandsIn world.disk root ∧ s.Reached world.disk root :=
      fun s => mem_before_iff hwalk hentries htexts hafter
  have hnodup : (before.filterMap (Entry.source? world.disk root)).Nodup := by
    refine nodup_sources world.disk root ?_
    have hordered := hwalk.ordered
    rw [hentries, List.map_append, List.pairwise_append] at hordered
    exact hordered.1
  have hmeets := meets_visitAll htree hroot hwalk hentries
    fun s hs => Option.isSome_iff_exists.1 (htexts s hs)
  replace hrun := (attempt_batch hwalk).symm.trans hrun
  rw [hentries, attempt_visitAll_append, bind_assoc, Attempt.bind_apply] at hrun
  unfold Meets at hmeets
  split at hrun
  · next tally compiled hcompile =>
      rw [hcompile] at hmeets
      have haccounts : Accounts job dir outDir _ {} tally world compiled := hmeets
      refine ⟨_, hnodup, hmem, ?_⟩
      rcases hafter with rfl | ⟨t, rest, rfl, ht, htext⟩
      · obtain ⟨-, hdisk, hsaid⟩ := run_conclude walker job tally compiled
        have hend : attempt (conclude (World.hostWith walker) job tally) compiled =
          (outcome, world') := hrun
        rw [hend] at hdisk hsaid
        dsimp only at hdisk hsaid
        rw [hdisk]
        refine ⟨haccounts.gains, fun s hs => (haccounts.reported s hs).mono hsaid, .inl ?_⟩
        rw [List.append_nil] at hentries
        subst hentries
        exact fun s hs => (mem_sources hwalk).2 hs
      · have hlocated := located_of_accounts htree hroot haccounts
          (fun s hs => ((hmem s).1 hs).1) ht
        rw [Attempt.bind_apply, visitAll, List.foldlM_cons, attempt_bind, Attempt.bind_apply,
          attempt_compileEntry_unreadable ht.1 hlocated htext] at hrun
        cases hrun
        exact ⟨haccounts.gains, haccounts.reported, .inr ⟨t, ht, htext, rfl⟩⟩
  · next failure compiled hcompile =>
      rw [hcompile] at hmeets
      cases hrun
      obtain ⟨s, hs, hunwritten⟩ := hmeets
      exact absurd hunwritten (hwrites s hs failure rfl)

end

/-! ## What becomes of a source -/

/-- What becomes of the source `s` in a run from `world` to `world'`. -/
structure Treated (job : Job) (dir outDir : String) (root : List String) (s : SourceFile)
    (world world' : World) (outcome : Except Failure Unit) : Prop where
  /-- If it is reached and has no error, its output is written. -/
  written : s.Reached world.disk root → ∀ text, s.made? job = some text →
    world'.disk.file? (s.outputPlace job.output outDir) = some text.toUTF8
  /-- If it is reached and has an error, the error is said. -/
  reported : s.Reached world.disk root → Reported job dir s world'
  /-- If it is not reached, nothing is written for it, and the run fails for a source that is no
  text. -/
  skipped : ¬ s.Reached world.disk root →
    world'.disk.file? (s.outputPlace job.output outDir) =
      world.disk.file? (s.outputPlace job.output outDir) ∧
    ∃ t : SourceFile, t.StandsIn world.disk root ∧ t.isText = false ∧
      outcome = .error (unreadable dir t)

/-- **Every source on the disk is treated so by `batch`**, whatever the other sources are. -/
theorem treated_of_batch {walker : Walker (StateM World)} {world world' : World} {job : Job}
    {dir outDir : String} {root : List String} {entries : List Entry}
    {outcome : Except Failure Unit} (htree : world.disk.IsTree)
    (hroot : world.disk.locate (Path.textSteps dir) = .ok (root, .directory))
    (hwalk : walker.Walks ⟨dir, []⟩ root (compileEntry (World.hostWith walker) job dir outDir) {}
      world entries)
    (hrun : (batch (World.hostWith walker) job dir outDir).run.run world = (outcome, world'))
    (hwrites : WritesAll job dir outDir root world.disk outcome) {s : SourceFile}
    (hs : s.StandsIn world.disk root) : Treated job dir outDir root s world world' outcome := by
  obtain ⟨sources, hnodup, hmem, hgains, hreported, hrest⟩ :=
    exists_sources_of_batch htree hroot hwalk hrun hwrites
  have hplaces := nodup_outputs job (outPlace outDir) hnodup fun t ht => ((hmem t).1 ht).1
  refine ⟨fun hreached text hmade => ?_, fun hreached => hreported s ((hmem s).2 ⟨hs, hreached⟩),
    fun hnot => ⟨?_, ?_⟩⟩
  · refine (hgains.file?_iff hplaces).2 (.inl ?_)
    refine List.mem_filterMap.2 ⟨s, (hmem s).2 ⟨hs, hreached⟩, ?_⟩
    rw [SourceFile.output?, hmade]
    rfl
  · -- the places of outputs are told apart by the sources
    have hplace : (outputs job (outPlace outDir) sources).reverse.lookup
        (s.outputPlace job.output outDir) = none := by
      rw [List.lookup_eq_none_iff]
      intro file hfile
      obtain ⟨t, ht, houtput⟩ := List.mem_filterMap.1 (List.mem_reverse.1 hfile)
      obtain ⟨text, -, rfl⟩ := Option.map_eq_some_iff.1 houtput
      obtain ⟨ht, hreached⟩ := (hmem t).1 ht
      refine bne_iff_ne.2 fun hsame => hnot ?_
      have hparts := outputNames_injective (List.append_cancel_left hsame)
      rwa [hs.eq ht hparts]
    rw [hgains.file, hplace, Option.none_or]
  · exact hrest.resolve_left fun hall => hnot ((hmem s).1 (hall s hs)).2

/-- **A source is isolated from another one, unless a source that is no text comes first.**  Let two
runs differ in the bytes of one source, and let every output that is to be written be written.  Then
every other source is there in both.  In each run in which it and all sources before it are texts,
it is attempted: its output is written, with the same contents, or its error is said.  In each run
in which they are not, it is not attempted and the run fails.  Which of the two it is does not
depend on the bytes of the one source, as long as they are a text in both runs or in none. -/
theorem batch_isolates_reached_sources {walker : Walker (StateM World)}
    {first second first' second' : World} {job : Job} {dir outDir : String} {root : List String}
    {entries entries' : List Entry} {outcome outcome' : Except Failure Unit} {x : SourceFile}
    {bytes : ByteArray} (htree : first.disk.IsTree)
    (hroot : first.disk.locate (Path.textSteps dir) = .ok (root, .directory))
    (hx : x.StandsIn first.disk root)
    (hsecond : second.disk = first.disk.rewrite (root ++ x.names) bytes)
    (hwalk : walker.Walks ⟨dir, []⟩ root (compileEntry (World.hostWith walker) job dir outDir) {}
      first entries)
    (hwalk' : walker.Walks ⟨dir, []⟩ root (compileEntry (World.hostWith walker) job dir outDir) {}
      second entries')
    (hrun : (batch (World.hostWith walker) job dir outDir).run.run first = (outcome, first'))
    (hrun' : (batch (World.hostWith walker) job dir outDir).run.run second = (outcome', second'))
    (hwrites : WritesAll job dir outDir root first.disk outcome)
    (hwrites' : WritesAll job dir outDir root second.disk outcome') (s : SourceFile)
    (hs : s.StandsIn first.disk root) (hother : s.names ≠ x.names) :
    s.StandsIn second.disk root ∧
      Treated job dir outDir root s first first' outcome ∧
      Treated job dir outDir root s second second' outcome' ∧
      ((String.fromUTF8? bytes).isSome = (String.fromUTF8? x.bytes).isSome →
        (s.Reached second.disk root ↔ s.Reached first.disk root)) := by
  have hgains : Gains first.disk second.disk [(root ++ x.names, bytes)] := by
    rw [hsecond]
    exact gains_rewrite hx.2
  have hs' : s.StandsIn second.disk root := by
    refine ⟨hs.1, hgains.item? hs.2 ?_⟩
    rw [lookup_cons_if, if_neg fun h => hother (List.append_cancel_left h)]
    rfl
  have htree' : second.disk.IsTree := hsecond ▸ htree.rewrite
  have hroot' : second.disk.locate (Path.textSteps dir) = .ok (root, .directory) := by
    obtain ⟨hsteps, hfollow, hitem⟩ := locate_eq_ok.1 hroot
    exact locate_eq_ok.2 ⟨hsteps, hgains.follow hfollow, hgains.directory root hitem⟩
  refine ⟨hs', treated_of_batch htree hroot hwalk hrun hwrites hs,
    treated_of_batch htree' hroot' hwalk' hrun' hwrites' hs', fun htext => ?_⟩
  rw [hsecond]
  exact reached_rewrite_iff hx htext hother

/-- The failure that a source is no text is not one to write an output. -/
lemma not_unwritten_unreadable (path : Path) (dir : String) (s : SourceFile) :
    ¬ Unwritten path (unreadable dir s) := by
  -- the messages differ in the letter after `failed to`
  have htake : ∀ message rest : String, 11 ≤ message.toList.length →
      (message ++ rest).toList.take 11 = message.toList.take 11 := by
    intro message rest hlength
    rw [String.toList_append, List.take_append_of_le_length hlength]
  have hread : (unreadable dir s).message.toList.take 11 = "failed to r".toList :=
    (htake "failed to read input file " _ (by decide)).trans (by decide)
  rintro ⟨fault, -, hmessage | ⟨parent, -, hmessage⟩⟩
  · rw [hmessage] at hread
    have hwrite := (htake "failed to write output file " path.text (by decide)).symm.trans hread
    exact absurd hwrite (by decide)
  · rw [hmessage] at hread
    have hmake := (htake "failed to create directory " (Text.quoted parent.text)
      (by decide)).symm.trans hread
    exact absurd hmake (by decide)

/-- A world with two sources in a directory, the first of them with the bytes `bytes`. -/
def twoSources (bytes : ByteArray) : World where
  disk := ⟨[(["src"], .directory), (["src", "a.hoon"], .file bytes),
    (["src", "b.hoon"], .file "1".toUTF8)]⟩
  input := "".toUTF8

lemma isTree_twoSources : (twoSources "2".toUTF8).disk.IsTree := by
  refine ⟨by decide, by decide, ?_⟩
  simp only [twoSources, List.forall_mem_cons]
  exact ⟨rfl, rfl, rfl, by simp⟩

lemma rewrite_twoSources (bytes bytes' : ByteArray) : (twoSources bytes').disk =
    (twoSources bytes).disk.rewrite ["src", "a.hoon"] bytes' := by
  simp [twoSources, Disk.rewrite, Item.refill]

lemma isText_twoSources (s : SourceFile) (hs : s.StandsIn (twoSources "2".toUTF8).disk ["src"]) :
    s.isText = true := by
  obtain ⟨-, hitem⟩ := hs
  rw [isTree_twoSources.item?_eq_some (by simp)] at hitem
  simp only [twoSources, List.mem_cons, Prod.mk.injEq, Item.file.injEq, reduceCtorEq, and_false,
    List.not_mem_nil, or_false, false_or] at hitem
  rcases hitem with ⟨-, hbytes⟩ | ⟨-, hbytes⟩ <;> rw [SourceFile.isText, hbytes] <;> decide +kernel

/-- `World.walker` walks through this world, whatever the bytes are. -/
lemma exists_walks_twoSources (bytes : ByteArray) (hordered : (twoSources bytes).disk.Ordered) :
    ∃ entries, World.walker.Walks ⟨"src", []⟩ ["src"]
      (compileEntry World.host ⟨.ast, {}, false⟩ "src" "out") {} (twoSources bytes) entries := by
  refine exists_walks_batch ⟨.ast, {}, false⟩ "out" ?_ hordered rfl
  rw [rewrite_twoSources "2".toUTF8 bytes]
  exact isTree_twoSources.rewrite

/-- A batch that succeeds has written all outputs. -/
lemma writesAll_of_ok {job : Job} {dir outDir : String} {root : List String} {disk : Disk} :
    WritesAll job dir outDir root disk (.ok ()) := by
  rintro s - failure ⟨⟩

theorem batch_isolates_reached_sources_two :
    (twoSources "2".toUTF8).disk.IsTree ∧
    SourceFile.StandsIn ⟨[], "a", "2".toUTF8⟩ (twoSources "2".toUTF8).disk ["src"] ∧
    SourceFile.StandsIn ⟨[], "b", "1".toUTF8⟩ (twoSources "2".toUTF8).disk ["src"] ∧
    SourceFile.Reached ⟨[], "b", "1".toUTF8⟩ (twoSources "2".toUTF8).disk ["src"] ∧
    (twoSources "[1".toUTF8).disk =
      (twoSources "2".toUTF8).disk.rewrite ["src", "a.hoon"] "[1".toUTF8 ∧
    ∃ entries entries' first' second' text,
      World.walker.Walks ⟨"src", []⟩ ["src"] (compileEntry World.host ⟨.ast, {}, false⟩ "src" "out") {}
        (twoSources "2".toUTF8) entries ∧
      World.walker.Walks ⟨"src", []⟩ ["src"] (compileEntry World.host ⟨.ast, {}, false⟩ "src" "out") {}
        (twoSources "[1".toUTF8) entries' ∧
      (batch World.host ⟨.ast, {}, false⟩ "src" "out").run.run (twoSources "2".toUTF8) =
        (.ok (), first') ∧
      (batch World.host ⟨.ast, {}, false⟩ "src" "out").run.run (twoSources "[1".toUTF8) =
        (.error ⟨"1 of 2 files failed to compile", []⟩, second') ∧
      SourceFile.made? ⟨.ast, {}, false⟩ ⟨[], "b", "1".toUTF8⟩ = some text ∧
      first'.disk.file? ["out", "b.ast"] = some text.toUTF8 ∧
      second'.disk.file? ["out", "b.ast"] = some text.toUTF8 := by
  have hrun : ((batch World.host ⟨.ast, {}, false⟩ "src" "out").run.run
      (twoSources "2".toUTF8)).1 = .ok () := by
    decide +kernel
  have hrun' : ((batch World.host ⟨.ast, {}, false⟩ "src" "out").run.run
      (twoSources "[1".toUTF8)).1 = .error ⟨"1 of 2 files failed to compile", []⟩ := by
    decide +kernel
  have hwrites' : WritesAll ⟨.ast, {}, false⟩ "src" "out" ["src"] (twoSources "[1".toUTF8).disk
      (.error ⟨"1 of 2 files failed to compile", []⟩) := by
    rintro s - failure ⟨⟩ ⟨fault, hcauses, -⟩
    cases hcauses
  have hmade : (SourceFile.made? ⟨.ast, {}, false⟩ ⟨[], "b", "1".toUTF8⟩).isSome = true := by
    decide +kernel
  have hx : SourceFile.StandsIn ⟨[], "a", "2".toUTF8⟩ (twoSources "2".toUTF8).disk ["src"] :=
    ⟨by decide, rfl⟩
  have hs : SourceFile.StandsIn ⟨[], "b", "1".toUTF8⟩ (twoSources "2".toUTF8).disk ["src"] :=
    ⟨by decide, rfl⟩
  have hreached : SourceFile.Reached ⟨[], "b", "1".toUTF8⟩ (twoSources "2".toUTF8).disk ["src"] :=
    fun t ht _ => isText_twoSources t ht
  obtain ⟨text, hmade⟩ := Option.isSome_iff_exists.1 hmade
  obtain ⟨entries, hwalk⟩ := exists_walks_twoSources "2".toUTF8 (by decide)
  obtain ⟨entries', hwalk'⟩ := exists_walks_twoSources "[1".toUTF8 (by decide)
  obtain ⟨-, hfirst, hsecond, hsame⟩ := batch_isolates_reached_sources isTree_twoSources rfl hx
    (rewrite_twoSources "2".toUTF8 "[1".toUTF8) hwalk hwalk' (Prod.ext hrun rfl) (Prod.ext hrun' rfl)
    writesAll_of_ok hwrites' ⟨[], "b", "1".toUTF8⟩ hs (by decide)
  refine ⟨isTree_twoSources, hx, hs, hreached, rewrite_twoSources _ _, entries, entries', _, _, text,
    hwalk, hwalk', Prod.ext hrun rfl, Prod.ext hrun' rfl, hmade, ?_, ?_⟩
  · exact hfirst.written hreached text hmade
  · exact hsecond.written ((hsame (by decide +kernel)).2 hreached) text hmade

/-- It is not true that every source is attempted: one that is no text keeps the sources after it
from being compiled. -/
theorem unreadable_source_ends_batch :
    ¬ ∀ (walker : Walker (StateM World)) (first second : World) (job : Job) (dir outDir : String)
      (root : List String) (entries entries' : List Entry) (x : SourceFile) (bytes : ByteArray),
      first.disk.IsTree → first.disk.locate (Path.textSteps dir) = .ok (root, .directory) →
      x.StandsIn first.disk root → second.disk = first.disk.rewrite (root ++ x.names) bytes →
      walker.Walks ⟨dir, []⟩ root (compileEntry (World.hostWith walker) job dir outDir) {} first
        entries →
      walker.Walks ⟨dir, []⟩ root (compileEntry (World.hostWith walker) job dir outDir) {} second
        entries' →
      WritesAll job dir outDir root first.disk
        ((batch (World.hostWith walker) job dir outDir).run.run first).1 →
      WritesAll job dir outDir root second.disk
        ((batch (World.hostWith walker) job dir outDir).run.run second).1 →
      ∀ (s : SourceFile) (text : String), s.StandsIn first.disk root → s.names ≠ x.names →
        s.made? job = some text →
        ((batch (World.hostWith walker) job dir outDir).run.run first).2.disk.file?
            (s.outputPlace job.output outDir) = some text.toUTF8 ∧
          ((batch (World.hostWith walker) job dir outDir).run.run second).2.disk.file?
            (s.outputPlace job.output outDir) = some text.toUTF8 := by
  intro hall
  have hrun : ((batch World.host ⟨.ast, {}, false⟩ "src" "out").run.run
      (twoSources "2".toUTF8)).1 = .ok () := by
    decide +kernel
  have hrun' : ((batch World.host ⟨.ast, {}, false⟩ "src" "out").run.run
      (twoSources ⟨#[0xFF]⟩)).1 = .error (unreadable "src" ⟨[], "a", ⟨#[0xFF]⟩⟩) := by
    decide +kernel
  have hwrites' : WritesAll ⟨.ast, {}, false⟩ "src" "out" ["src"] (twoSources ⟨#[0xFF]⟩).disk
      ((batch World.host ⟨.ast, {}, false⟩ "src" "out").run.run (twoSources ⟨#[0xFF]⟩)).1 := by
    rw [hrun']
    rintro s - failure ⟨⟩
    exact not_unwritten_unreadable _ _ _
  have hmade : (SourceFile.made? ⟨.ast, {}, false⟩ ⟨[], "b", "1".toUTF8⟩).isSome = true := by
    decide +kernel
  have hmissing : ((batch World.host ⟨.ast, {}, false⟩ "src" "out").run.run
      (twoSources ⟨#[0xFF]⟩)).2.disk.file?
        (SourceFile.outputPlace .ast "out" ⟨[], "b", "1".toUTF8⟩) = none := by
    decide +kernel
  obtain ⟨text, hmade⟩ := Option.isSome_iff_exists.1 hmade
  obtain ⟨entries, hwalk⟩ := exists_walks_twoSources "2".toUTF8 (by decide)
  obtain ⟨entries', hwalk'⟩ := exists_walks_twoSources ⟨#[0xFF]⟩ (by decide)
  have hwritten := (hall World.walker (twoSources "2".toUTF8) (twoSources ⟨#[0xFF]⟩)
    ⟨.ast, {}, false⟩ "src" "out" ["src"] entries entries' ⟨[], "a", "2".toUTF8⟩ ⟨#[0xFF]⟩
    isTree_twoSources rfl ⟨by decide, rfl⟩ (rewrite_twoSources _ _) hwalk hwalk'
    (hrun ▸ writesAll_of_ok) hwrites' ⟨[], "b", "1".toUTF8⟩ text ⟨by decide, rfl⟩ (by decide)
    hmade).2
  rw [show World.hostWith World.walker = World.host from rfl, hmissing] at hwritten
  cases hwritten

end Command

end Runic
