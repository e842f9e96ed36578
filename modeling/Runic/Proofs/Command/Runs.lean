import Runic.Command.Run
import Runic.Proofs.Attempt
import Runic.Proofs.Files.Disk

/-!
# Runs in a world

A part of a run in a world is an attempt on the world (`attempt`), so what it does is said by
`Attempt.Meets` and followed rule by rule.  Everything here holds for every walker of the host,
since only `batch` itself uses it.

* `run_compileSource` — compiling a source leaves the disk alone, and what was said stays said.
* `meets_writeOutput` — where an output is written, or which failure says that it could not be.
* `Adds` — a part of a run **never takes anything from the disk**, whether it succeeds or fails.
-/

namespace Runic.Command

open Runic.Attempt (Meets)
open Disk

/-! ## Runs as attempts -/

section

variable {ε α β : Type} {world world' : World} {err : ε → Prop}

/-- A part of a run in a world as an `Attempt` on the world, so that the rules of `Meets` apply. -/
def attempt (x : ExceptT ε (StateM World) α) : Attempt World ε α :=
  fun world => x.run.run world

lemma attempt_bind (x : ExceptT ε (StateM World) α) (f : α → ExceptT ε (StateM World) β) :
    attempt (x >>= f) = attempt x >>= fun a => attempt (f a) := by
  funext world
  rw [Attempt.bind_apply]
  simp only [attempt, ExceptT.run_bind, StateT.run_bind]
  rcases x.run.run world with ⟨outcome, world'⟩
  cases outcome <;> rfl

/-- If `x` is known to succeed with `a`, then `x >>= f` meets what `f a` meets behind it. -/
lemma meets_bind_of_eq {x : ExceptT ε (StateM World) α} {f : α → ExceptT ε (StateM World) β}
    {post : β → World → Prop} {a : α} (hx : attempt x world = (.ok a, world'))
    (h : Meets (attempt (f a)) world' err post) : Meets (attempt (x >>= f)) world err post := by
  unfold Meets
  rw [attempt_bind, Attempt.bind_apply, hx]
  exact h

lemma meets_pure {a : α} {post : α → World → Prop} (h : post a world) :
    Meets (attempt (pure a)) world err post := h

/-- A lifted part cannot fail, and meets what holds of its result. -/
lemma meets_lift {x : StateM World α} {post : α → World → Prop}
    (h : post (x.run world).1 (x.run world).2) :
    Meets (attempt (ExceptT.lift x)) world err post := h

end

section

variable {walker : Walker (StateM World)} {job : Job} {α : Type} {world world' : World}
  {err : Failure → Prop}

/-- Saying `text` adds its lines to the error stream and changes nothing else; the rest of the run
meets what it meets from there. -/
lemma meets_say {text : String} {rest : ExceptT Failure (StateM World) α} {post : α → World → Prop}
    (h : Meets (attempt rest) { world with said := world.said ++ text.splitOn "\n" } err post) :
    Meets (attempt (do (World.hostWith walker).say text; rest :
      ExceptT Failure (StateM World) α)) world err post :=
  h

lemma attempt_orFail {message : String} {outcome : Except FileFault α} :
    attempt (orFail message outcome) = Attempt.ofExcept
      (outcome.mapError fun fault => ⟨message, [fault.message]⟩) := by
  cases outcome <;> rfl

/-- A step that the files may not allow fails with the message given to `orFail`. -/
lemma meets_orFail {x : StateM World (Except FileFault Unit)} {message : String}
    {rest : ExceptT Failure (StateM World) α} {post : α → World → Prop}
    (hmessage : ∀ fault : FileFault, err ⟨message, [fault.message]⟩)
    (hrest : ∀ world', x.run world = (.ok (), world') → Meets (attempt rest) world' err post) :
    Meets (attempt (do let outcome ← x; orFail message outcome; rest :
      ExceptT Failure (StateM World) α)) world err post := by
  rcases hx : x.run world with ⟨outcome, world'⟩
  have hlift : attempt (liftM x : ExceptT Failure (StateM World) _) world = (.ok outcome, world') :=
    congrArg (fun run => (Except.ok run.1, run.2)) hx
  refine meets_bind_of_eq hlift ?_
  unfold Meets
  rw [attempt_bind, attempt_orFail]
  cases outcome with
  | ok => exact hrest world' hx
  | error fault => exact hmessage fault

/-! ## The disk and the error stream -/

-- A run is followed by its rules, never by evaluation.
attribute [local irreducible] Attempt.Meets

lemma disk_onDisk {action : Attempt Disk FileFault α} {outcome : Except FileFault α}
    (h : (World.onDisk action).run world = (outcome, world')) :
    action world.disk = (outcome, world'.disk) :=
  congrArg (fun run => (run.1, run.2.disk)) h

lemma said_onDisk (action : Attempt Disk FileFault α) {outcome : Except FileFault α}
    (h : (World.onDisk action).run world = (outcome, world')) : world'.said = world.said :=
  (congrArg (fun run => run.2.said) h).symm

/-- Saying lines leaves the disk alone and keeps what was said before. -/
lemma run_forM_say (lines : List String) (world : World) :
    ((lines.forM World.say).run world).2.disk = world.disk ∧
      world.said <+: ((lines.forM World.say).run world).2.said := by
  induction lines generalizing world with
  | nil => exact ⟨rfl, List.prefix_rfl⟩
  | cons line lines ih =>
      obtain ⟨hdisk, hsaid⟩ := ih { world with said := world.said ++ line.splitOn "\n" }
      exact ⟨hdisk, (List.prefix_append world.said (line.splitOn "\n")).trans hsaid⟩

/-- So does `note`. -/
lemma run_note (walker : Walker (StateM World)) (job : Job) (line : String) (world : World) :
    ((note (World.hostWith walker) job line).run world).2.disk = world.disk ∧
      world.said <+: ((note (World.hostWith walker) job line).run world).2.said := by
  unfold note
  split
  · exact ⟨rfl, List.prefix_append _ _⟩
  · exact ⟨rfl, List.prefix_rfl⟩

/-- The result of `compileSource` is that of `emit`; the disk stays, and what was said before is
kept. -/
lemma run_compileSource (walker : Walker (StateM World)) (job : Job) (name source : String)
    (world : World) :
    ∃ world', (compileSource (World.hostWith walker) job name source).run world =
      (emit source job.output job.options, world') ∧ world'.disk = world.disk ∧
        world.said <+: world'.said := by
  unfold compileSource
  simp only [StateT.run_bind]
  rcases hnote : (note (World.hostWith walker) job _).run world with ⟨⟨⟩, noted⟩
  obtain ⟨hdisk, hsaid⟩ : noted.disk = world.disk ∧ world.said <+: noted.said := by
    have hnoted : noted = ((note (World.hostWith walker) job _).run world).2 :=
      (congrArg Prod.snd hnote).symm
    rw [hnoted]
    exact run_note walker job _ world
  cases emit source job.output job.options with
  | ok text => exact ⟨noted, rfl, hdisk, hsaid⟩
  | error error =>
      cases hdiagnostic : Diagnostic.ofError? error with
      | none =>
          refine ⟨noted, ?_, hdisk, hsaid⟩
          simp only [hdiagnostic]
          rfl
      | some diagnostic =>
          obtain ⟨hdisk', hsaid'⟩ := run_forM_say (diagnostic.summary name source) noted
          refine ⟨_, ?_, hdisk'.trans hdisk, hsaid.trans hsaid'⟩
          simp only [hdiagnostic]
          rfl

/-- `readText` takes the bytes of a file for a text. -/
lemma attempt_readText_eq {path : Path} {bytes : ByteArray}
    (hread : world.disk.read path = .ok bytes) :
    attempt (readText (World.hostWith walker) path) world =
      Attempt.ofExcept ((decodeText bytes).mapError fun fault =>
        ⟨s!"failed to read input file {path.text}", [fault.message]⟩) world := by
  have hhost : attempt (liftM ((World.hostWith walker).read path) :
      ExceptT Failure (StateM World) _) world = (.ok (.ok bytes), world) := by
    rw [← hread]
    rfl
  rw [readText, attempt_bind, Attempt.bind_apply, hhost]
  dsimp only
  rw [attempt_orFail]
  rfl

/-- If the file at `path` holds a text, `readText` returns it. -/
lemma attempt_readText {path : Path} {bytes : ByteArray} {text : String}
    (hread : world.disk.read path = .ok bytes) (htext : String.fromUTF8? bytes = some text) :
    attempt (readText (World.hostWith walker) path) world = (.ok text, world) := by
  rw [attempt_readText_eq hread, decodeText, htext]
  rfl

/-! ## Writing an output -/

/-- The failure is that the file at `path` could not be written, or the directory above it not
made. -/
def Unwritten (path : Path) (failure : Failure) : Prop :=
  ∃ fault : FileFault, failure.causes = [fault.message] ∧
    (failure.message = s!"failed to write output file {path.text}" ∨
      ∃ parent, path.parent? = some parent ∧
        failure.message = s!"failed to create directory {Text.quoted parent.text}")

lemma Unwritten.of_write (path : Path) (fault : FileFault) :
    Unwritten path ⟨s!"failed to write output file {path.text}", [fault.message]⟩ :=
  ⟨fault, rfl, .inl rfl⟩

lemma Unwritten.of_makeDirectories {path parent : Path} (h : path.parent? = some parent)
    (fault : FileFault) : Unwritten path
      ⟨s!"failed to create directory {Text.quoted parent.text}", [fault.message]⟩ :=
  ⟨fault, rfl, .inr ⟨parent, h, rfl⟩⟩

/-- **The function `writeOutput` writes the file or fails by `Unwritten`.** The directory that the
path names is there in the end, and the disk gains the file below it and nothing else but
directories. -/
lemma meets_writeOutput {path : Path} {text : String} {steps : List String} {last : String}
    (hsteps : path.steps = steps ++ [last]) :
    Meets (attempt (writeOutput (World.hostWith walker) job path text)) world (Unwritten path)
      fun _ world' => world.said <+: world'.said ∧ last ≠ ".." ∧
        ∃ names, world'.disk.follow [] steps = .ok names ∧
          Gains world.disk world'.disk [(names ++ [last], text.toUTF8)] := by
  have hwrite : ∀ made : World, made.said = world.said → Gains world.disk made.disk [] →
    Meets (attempt (do
      let written ← (World.hostWith walker).write path text
      orFail s!"failed to write output file {path.text}" written
      ExceptT.lift (note (World.hostWith walker) job s!"hoonc: wrote {path.text}") :
        ExceptT Failure (StateM World) Unit)) made (Unwritten path) fun _ world' =>
          world.said <+: world'.said ∧ last ≠ ".." ∧ ∃ names, world'.disk.follow [] steps = .ok names ∧
            Gains world.disk world'.disk [(names ++ [last], text.toUTF8)] := by
    intro made hsaid hmade
    refine meets_orFail (Unwritten.of_write path) fun world' hwritten => ?_
    have hdisk : write path text.toUTF8 made.disk = (.ok (), world'.disk) := disk_onDisk hwritten
    obtain ⟨above, last', names, hsteps', hup, hfollow, hgains⟩ := gains_of_write hdisk
    rw [hsteps] at hsteps'
    obtain ⟨rfl, hlast⟩ := List.append_inj' hsteps' rfl
    obtain rfl : last = last' := List.singleton_inj.1 hlast
    refine meets_lift ?_
    obtain ⟨hnoted, hsaid'⟩ := run_note walker job s!"hoonc: wrote {path.text}" world'
    rw [hnoted]
    refine ⟨?_, hup, names, hgains.follow hfollow, hmade.trans hgains⟩
    rwa [said_onDisk (write path text.toUTF8) hwritten, hsaid] at hsaid'
  unfold writeOutput
  cases hparent : path.parent? with
  | none => exact hwrite world rfl (.refl _)
  | some parent =>
      dsimp only
      split
      · refine meets_orFail (Unwritten.of_makeDirectories hparent) ?_
        intro made hmade
        have hdisk : (makeDirectories parent world.disk).2 = made.disk :=
          congrArg Prod.snd (disk_onDisk hmade)
        refine hwrite made (said_onDisk (makeDirectories parent) hmade) ?_
        exact hdisk ▸ gains_makeDirectories parent world.disk
      · exact hwrite world rfl (.refl _)

end

/-! ## Nothing is taken from the disk -/

section

variable {ε α β : Type}

/-- In every world, the disk after `x` has what it had before, and perhaps more. -/
def Adds (x : ExceptT ε (StateM World) α) : Prop :=
  ∀ world, ∃ files, Gains world.disk (attempt x world).2.disk files

lemma Adds.of_disk_eq {x : ExceptT ε (StateM World) α}
    (h : ∀ world, (attempt x world).2.disk = world.disk) : Adds x := by
  intro world
  rw [h world]
  exact ⟨[], .refl _⟩

lemma Adds.pure (a : α) : Adds (pure a : ExceptT ε (StateM World) α) := .of_disk_eq fun _ => rfl

lemma Adds.bind {x : ExceptT ε (StateM World) α} {f : α → ExceptT ε (StateM World) β}
    (hx : Adds x) (hf : ∀ a, Adds (f a)) : Adds (x >>= f) := by
  intro world
  obtain ⟨files, hgains⟩ := hx world
  rw [attempt_bind, Attempt.bind_apply]
  split
  · next a world' hrun =>
      rw [hrun] at hgains
      obtain ⟨files', hgains'⟩ := hf a world'
      exact ⟨files' ++ files, hgains.trans hgains'⟩
  · next e world' hrun =>
      rw [hrun] at hgains
      exact ⟨files, hgains⟩

end

section

variable (walker : Walker (StateM World)) (job : Job)

lemma adds_orFail {α : Type} (message : String) (outcome : Except FileFault α) :
    Adds (orFail message outcome : ExceptT Failure (StateM World) α) := by
  cases outcome with
  | ok a => exact .pure a
  | error fault => exact .of_disk_eq fun _ => rfl

lemma adds_readText (path : Path) : Adds (readText (World.hostWith walker) path) :=
  .bind (.of_disk_eq fun _ => rfl) fun _ => adds_orFail _ _

lemma adds_note (line : String) :
    Adds (ExceptT.lift (note (World.hostWith walker) job line) :
      ExceptT Failure (StateM World) Unit) :=
  .of_disk_eq fun world => (run_note walker job line world).1

lemma adds_compileSource (name source : String) :
    Adds (ExceptT.lift (compileSource (World.hostWith walker) job name source) :
      ExceptT Failure (StateM World) (Except Error String)) := by
  refine .of_disk_eq fun world => ?_
  obtain ⟨world', hrun, hdisk, -⟩ := run_compileSource walker job name source world
  exact (congrArg (fun run => run.2.disk) hrun).trans hdisk

/-- A file operation only adds to the disk if it does so from every disk, whether it succeeds or
fails. -/
lemma adds_onDisk {α : Type} (action : Attempt Disk FileFault α)
    (h : ∀ disk, ∃ files, Gains disk (action disk).2 files) :
    Adds (liftM (World.onDisk action) : ExceptT Failure (StateM World) (Except FileFault α)) :=
  fun world => h world.disk

lemma adds_write (path : Path) (text : String) :
    Adds (liftM ((World.hostWith walker).write path text) :
      ExceptT Failure (StateM World) (Except FileFault Unit)) := by
  refine adds_onDisk (write path text.toUTF8) fun disk => ?_
  rcases hwrite : write path text.toUTF8 disk with ⟨fault | ⟨⟨⟩⟩, disk'⟩
  · rw [eq_of_write_error hwrite]
    exact ⟨[], .refl _⟩
  · obtain ⟨_, _, _, -, -, -, hgains⟩ := gains_of_write hwrite
    exact ⟨_, hgains⟩

lemma adds_makeDirectories (path : Path) :
    Adds (liftM ((World.hostWith walker).makeDirectories path) :
      ExceptT Failure (StateM World) (Except FileFault Unit)) :=
  adds_onDisk (makeDirectories path) fun disk => ⟨[], gains_makeDirectories path disk⟩

lemma adds_writeOutput (path : Path) (text : String) :
    Adds (writeOutput (World.hostWith walker) job path text) := by
  have hwrite : Adds (do
      let written ← (World.hostWith walker).write path text
      orFail s!"failed to write output file {path.text}" written
      ExceptT.lift (note (World.hostWith walker) job s!"hoonc: wrote {path.text}") :
        ExceptT Failure (StateM World) Unit) :=
    .bind (adds_write walker path text) fun _ =>
      .bind (adds_orFail _ _) fun _ => adds_note walker job _
  unfold writeOutput
  cases path.parent? with
  | none => exact hwrite
  | some parent =>
      dsimp only
      split
      · exact .bind (adds_makeDirectories walker parent) fun _ =>
          .bind (adds_orFail _ _) fun _ => hwrite
      · exact hwrite

/-- **The step `compileEntry` only adds to the disk**, whatever the walk hands to it and however it
ends. -/
lemma adds_compileEntry (dir outDir : String) (tally : Tally) (met : Except WalkFault Entry) :
    Adds (compileEntry (World.hostWith walker) job dir outDir tally met) := by
  cases met with
  | error fault => exact .of_disk_eq fun _ => rfl
  | ok entry =>
      unfold compileEntry
      dsimp only
      split
      · refine .bind (adds_readText walker _) fun source => ?_
        refine .bind (adds_compileSource walker job _ source) fun outcome => ?_
        cases outcome with
        | ok text => exact .bind (adds_writeOutput walker job _ text) fun _ => .pure _
        | error error => exact .of_disk_eq fun _ => rfl
      · exact .pure _

end

end Runic.Command
