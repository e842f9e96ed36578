import Runic.Proofs.Command.Runs

/-!
# Walking through a directory that changes

A batch writes while it walks, and it may write into the directory that it walks through.
`Walker.Walks` says what is expected of a walk then.  It **need not leave out what was made
meanwhile**: a new file may be handed over or not, depending on whether its directory was entered
before.

* `visitAll` — a run over entries one after another.
* `Walker.Walks` — a walk hands over everything that was there at the start, in order and each once,
  and whatever it hands over is there at that moment.
* `exists_walks` — **`World.walker` walks so**, if what is done meanwhile only adds to the disk.  It
  lists a directory when it enters it, so `Serves` follows it through a directory and `Lists` says
  which of the old items it has come to.
-/

namespace Runic.Command

open Disk

section

variable {ε β : Type}

/-- Hand entries to `visit` one after another. -/
def visitAll (visit : β → Except WalkFault Entry → ExceptT ε (StateM World) β)
    (entries : List Entry) (init : β) : ExceptT ε (StateM World) β :=
  entries.foldlM (fun b entry => visit b (.ok entry)) init

/-- The walk that `walker` makes through the directory at `path`, in a world where the names of that
directory are `root`, while `visit` is at work.  The names of an entry are compared one by one and
in the order of their bytes, so that the order of entries is depth first and sorted by name in each
directory. -/
structure Walker.Walks (walker : Walker (StateM World)) (path : Path) (root : List String)
    (visit : β → Except WalkFault Entry → ExceptT ε (StateM World) β) (init : β) (world : World)
    (entries : List Entry) : Prop where
  /-- The entries are handed to `visit` one after another, until it fails or there are no more. -/
  visits : attempt (walker.fold path visit init) world =
    attempt (visitAll visit entries init) world
  /-- They come in order, a directory before what is in it, and none comes twice. -/
  ordered : (entries.map Entry.names).Pairwise (· < ·)
  /-- Everything that was there at the start of the walk is among them. -/
  complete : ∀ names item, world.disk.item? (root ++ names) = some item →
    ⟨names, item.isFile⟩ ∈ entries
  /-- An entry is there when it is handed over, as a file or as a directory. -/
  present : ∀ before entry after b world', entries = before ++ entry :: after →
    attempt (visitAll visit before init) world = (.ok b, world') →
      ∃ item, world'.disk.item? (root ++ entry.names) = some item ∧ item.isFile = entry.isFile

variable {visit : β → Except WalkFault Entry → ExceptT ε (StateM World) β}

lemma attempt_visitAll_append (entries entries' : List Entry) (b : β) :
    attempt (visitAll visit (entries ++ entries') b) =
      attempt (visitAll visit entries b) >>= fun b => attempt (visitAll visit entries' b) := by
  rw [visitAll, List.foldlM_append, attempt_bind]
  rfl

lemma visitAll_singleton (entry : Entry) (b : β) :
    visitAll visit [entry] b = visit b (.ok entry) := by
  rw [visitAll, List.foldlM_cons]
  exact bind_pure _

lemma adds_visitAll (hvisit : ∀ b met, Adds (visit b met)) (entries : List Entry) (b : β) :
    Adds (visitAll visit entries b) := by
  induction entries generalizing b with
  | nil => exact .pure b
  | cons entry entries ih =>
      rw [visitAll, List.foldlM_cons]
      exact .bind (hvisit b _) ih

/-! ## What a part of a walk hands over -/

/-- If `entry` stands in `entries ++ entries'`, then it stands in the first list or in the
second. -/
lemma split_append {entries entries' before after : List Entry} {entry : Entry}
    (h : entries ++ entries' = before ++ entry :: after) :
    (∃ rest, before = entries ++ rest ∧ entries' = rest ++ entry :: after) ∨
      ∃ rest, entries = before ++ entry :: rest := by
  rcases List.append_eq_append_iff.1 h with ⟨rest, hbefore, hentries'⟩ | ⟨rest, hentries, hrest⟩
  · exact .inl ⟨rest, hbefore, hentries'⟩
  · cases rest with
    | nil => exact .inl ⟨[], by simpa using hentries.symm, by simpa using hrest.symm⟩
    | cons first rest =>
        obtain ⟨rfl, -⟩ := List.cons.inj hrest
        exact .inr ⟨rest, hentries⟩

/-- Started with `b`, the part `x` of a walk hands these entries to `visit`, and each of them is
there at that moment. -/
structure Serves (root : List String)
    (visit : β → Except WalkFault Entry → ExceptT ε (StateM World) β)
    (x : ExceptT ε (StateM World) β) (b : β) (world : World) (entries : List Entry) : Prop where
  visits : attempt x world = attempt (visitAll visit entries b) world
  present : ∀ before entry after b' world', entries = before ++ entry :: after →
    attempt (visitAll visit before b) world = (.ok b', world') →
      ∃ item, world'.disk.item? (root ++ entry.names) = some item ∧ item.isFile = entry.isFile

namespace Serves

variable {root : List String} {x : ExceptT ε (StateM World) β} {b : β} {world : World}
  {entries : List Entry}

lemma pure (b : β) (world : World) : Serves root visit (pure b) b world [] :=
  ⟨rfl, by simp⟩

/-- A visit of one entry that is there serves this entry. -/
lemma single {entry : Entry} {item : Item}
    (hitem : world.disk.item? (root ++ entry.names) = some item)
    (hfile : item.isFile = entry.isFile) :
    Serves root visit (visit b (.ok entry)) b world [entry] := by
  refine ⟨by rw [visitAll_singleton], fun before entry' after b' world' hsplit hrun => ?_⟩
  obtain ⟨rfl, hentry⟩ | ⟨-, hentry⟩ := List.singleton_eq_append_iff.1 hsplit
  · cases hentry
    cases hrun
    exact ⟨item, hitem, hfile⟩
  · cases hentry

/-- One part of a walk after another serves the entries of both.  What the second one hands over
depends on how the first one ends.  If that fails nothing more is handed over, so any entries will
do that have the property `P`. -/
lemma bind {f : β → ExceptT ε (StateM World) β} {P : List Entry → Prop}
    (hx : Serves root visit x b world entries)
    (hf : ∀ b' world', attempt x world = (.ok b', world') →
      ∃ entries', Serves root visit (f b') b' world' entries' ∧ P entries')
    (hP : ∃ entries', P entries') :
    ∃ entries', Serves root visit (x >>= f) b world (entries ++ entries') ∧ P entries' := by
  rcases hrun : attempt x world with ⟨e | b', world'⟩
  · obtain ⟨entries', hentries'⟩ := hP
    have hall : attempt (visitAll visit entries b) world = (.error e, world') := hx.visits ▸ hrun
    refine ⟨entries', ⟨?_, ?_⟩, hentries'⟩
    · rw [attempt_bind, Attempt.bind_apply, hrun, attempt_visitAll_append, Attempt.bind_apply, hall]
    · intro before entry after c world'' hsplit hbefore
      rcases split_append hsplit with ⟨rest, rfl, -⟩ | ⟨rest, hentries⟩
      · rw [attempt_visitAll_append, Attempt.bind_apply, hall] at hbefore
        cases hbefore
      · exact hx.present before entry rest c world'' hentries hbefore
  · obtain ⟨entries', hserves, hentries'⟩ := hf b' world' hrun
    have hall : attempt (visitAll visit entries b) world = (.ok b', world') := hx.visits ▸ hrun
    refine ⟨entries', ⟨?_, ?_⟩, hentries'⟩
    · rw [attempt_bind, Attempt.bind_apply, hrun, attempt_visitAll_append, Attempt.bind_apply, hall]
      exact hserves.visits
    · intro before entry after c world'' hsplit hbefore
      rcases split_append hsplit with ⟨rest, rfl, hrest⟩ | ⟨rest, hentries⟩
      · rw [attempt_visitAll_append, Attempt.bind_apply, hall] at hbefore
        exact hserves.present rest entry after c world'' hrest hbefore
      · exact hx.present before entry rest c world'' hentries hbefore

end Serves

end

/-! ## Which of the old items a part of a walk comes to -/

/-- The entries are in order and below the directory `names`, at names in it that are `inside`.
Whatever the disk has there, less than `depth` levels deep, is among them. -/
structure Lists (disk : Disk) (root names : List String) (inside : String → Prop) (depth : Nat)
    (entries : List Entry) : Prop where
  ordered : (entries.map Entry.names).Pairwise (· < ·)
  below : ∀ entry ∈ entries, ∃ name rest, inside name ∧ entry.names = names ++ name :: rest
  complete : ∀ name rest item, inside name →
    disk.item? (root ++ (names ++ name :: rest)) = some item → rest.length < depth →
      ⟨names ++ name :: rest, item.isFile⟩ ∈ entries

section

variable {disk : Disk} {root names : List String} {inside : String → Prop} {depth : Nat}

/-- In the order of names a directory comes before what is in it. -/
lemma lt_append_cons (names : List String) (name : String) (rest : List String) :
    names < names ++ name :: rest := by
  have h : names ++ [] < names ++ name :: rest := List.append_left_lt (List.nil_lt_cons name rest)
  rwa [List.append_nil] at h

/-- What is below two entries of one directory is in the order of these entries. -/
lemma append_cons_lt {name name' : String} (h : name < name') (rest rest' : List String) :
    names ++ name :: rest < names ++ name' :: rest' :=
  List.append_left_lt (List.cons_lt_cons_iff.2 (.inl h))

/-- The items of an ordered tree, below the given names, are listed by some entries. -/
lemma exists_lists (htree : disk.IsTree) (hordered : disk.Ordered) :
    ∃ entries, Lists disk root names inside depth entries := by
  classical
  let there (place : List String) : Prop :=
    ∃ name rest, inside name ∧ place = root ++ (names ++ name :: rest)
  refine ⟨(disk.items.filter fun entry => there entry.1).map fun entry =>
    ⟨entry.1.drop root.length, entry.2.isFile⟩, ?_, ?_, ?_⟩
  · rw [List.map_map, List.pairwise_map]
    refine ((List.pairwise_map.1 hordered).filter _).imp_of_mem
      fun {entry entry'} hmem hmem' hlt => ?_
    obtain ⟨name, rest, -, hplace⟩ := of_decide_eq_true (List.mem_filter.1 hmem).2
    obtain ⟨name', rest', -, hplace'⟩ := of_decide_eq_true (List.mem_filter.1 hmem').2
    rw [hplace, hplace'] at hlt
    simpa [hplace, hplace'] using lt_of_append_lt hlt
  · intro entry hentry
    obtain ⟨entry', hmem, rfl⟩ := List.mem_map.1 hentry
    obtain ⟨name, rest, hinside, hplace⟩ := of_decide_eq_true (List.mem_filter.1 hmem).2
    exact ⟨name, rest, hinside, by simp [hplace]⟩
  · intro name rest item hinside hitem _
    rw [htree.item?_eq_some (by simp)] at hitem
    refine List.mem_map.2 ⟨_, List.mem_filter.2 ⟨hitem, ?_⟩, by simp⟩
    exact decide_eq_true ⟨name, rest, hinside, rfl⟩

namespace Lists

/-- Below what is no directory, no entries are listed. -/
lemma nil (htree : disk.IsTree) (h : disk.item? (root ++ names) ≠ some .directory) :
    Lists disk root names inside depth [] := by
  refine ⟨by simp, by simp, fun name rest item _ hitem _ => ?_⟩
  rw [← List.append_assoc] at hitem
  exact absurd (htree.directory_of_isSome (List.cons_ne_nil name rest) (by rw [hitem]; rfl)) h

/-- The entries `entries` below `name`, with an entry for `name` in front, and `entries'` for the
names after it list what is inside of all of them. -/
lemma cons {name : String} {isFile : Bool} {ns : List String} {entries entries' : List Entry}
    (hname : ∀ item, disk.item? (root ++ (names ++ [name])) = some item → item.isFile = isFile)
    (hlt : ∀ name' ∈ ns, name < name')
    (h : Lists disk root (names ++ [name]) (fun _ => True) depth entries)
    (h' : Lists disk root names (· ∈ ns) (depth + 1) entries') :
    Lists disk root names (· ∈ name :: ns) (depth + 1)
      (⟨names ++ [name], isFile⟩ :: (entries ++ entries')) := by
  have hbelow : ∀ entry ∈ entries, ∃ rest, entry.names = names ++ name :: rest := by
    intro entry hentry
    obtain ⟨name', rest, -, hnames⟩ := h.below entry hentry
    exact ⟨name' :: rest, by simp [hnames]⟩
  refine ⟨?_, ?_, ?_⟩
  · rw [List.map_cons, List.map_append, List.pairwise_cons, List.pairwise_append]
    refine ⟨fun key hkey => ?_, h.ordered, h'.ordered, fun key hkey key' hkey' => ?_⟩
    · rw [← List.map_append, List.mem_map] at hkey
      obtain ⟨entry, hentry, rfl⟩ := hkey
      rcases List.mem_append.1 hentry with hentry | hentry
      · obtain ⟨name', rest, -, hnames⟩ := h.below entry hentry
        rw [hnames]
        exact lt_append_cons _ _ _
      · obtain ⟨name', rest, hname', hnames⟩ := h'.below entry hentry
        rw [hnames]
        exact append_cons_lt (hlt name' hname') _ _
    · obtain ⟨entry, hentry, rfl⟩ := List.mem_map.1 hkey
      obtain ⟨entry', hentry', rfl⟩ := List.mem_map.1 hkey'
      obtain ⟨rest, hnames⟩ := hbelow entry hentry
      obtain ⟨name', rest', hname', hnames'⟩ := h'.below entry' hentry'
      rw [hnames, hnames']
      exact append_cons_lt (hlt name' hname') _ _
  · rw [List.forall_mem_cons]
    refine ⟨⟨name, [], by simp, rfl⟩, fun entry hentry => ?_⟩
    rcases List.mem_append.1 hentry with hentry | hentry
    · obtain ⟨rest, hnames⟩ := hbelow entry hentry
      exact ⟨name, rest, by simp, hnames⟩
    · obtain ⟨name', rest, hname', hnames⟩ := h'.below entry hentry
      exact ⟨name', rest, by simp [hname'], hnames⟩
  · intro name' rest item hname' hitem hdepth
    rcases List.mem_cons.1 hname' with rfl | hname'
    · cases rest with
      | nil => exact List.mem_cons.2 (.inl (by rw [hname item hitem]))
      | cons next rest =>
          have happend : names ++ name' :: next :: rest = names ++ [name'] ++ next :: rest := by
            simp
          rw [happend] at hitem ⊢
          rw [List.length_cons, Nat.add_lt_add_iff_right] at hdepth
          have hmem := h.complete next rest item trivial hitem hdepth
          exact List.mem_cons_of_mem _ (List.mem_append_left _ hmem)
    · have hmem := h'.complete name' rest item hname' hitem hdepth
      exact List.mem_cons_of_mem _ (List.mem_append_right _ hmem)

end Lists

end

/-! ## The walk through a world -/

/-- The disk of the world is ordered and has what `start` had, up to gains. -/
def Keeps (start : Disk) (world : World) : Prop :=
  world.disk.Ordered ∧ ∃ files, Gains start world.disk files

lemma Keeps.trans {start : Disk} {world world' : World} {files : List (List String × ByteArray)}
    (h : Keeps start world) (hgains : Gains world.disk world'.disk files) : Keeps start world' := by
  obtain ⟨hordered, files', hgains'⟩ := h
  exact ⟨hgains.ordered hordered, _, hgains'.trans hgains⟩

section

variable {ε β : Type} {visit : β → Except WalkFault Entry → ExceptT ε (StateM World) β}
  {start : Disk} {root : List String} {depth : Nat}

/-- What a part of a walk does to the disk is what `visit` does. -/
lemma Serves.gains {x : ExceptT ε (StateM World) β} {b : β} {world world' : World}
    {entries : List Entry} {outcome : Except ε β} (h : Serves root visit x b world entries)
    (hvisit : ∀ b met, Adds (visit b met)) (hrun : attempt x world = (outcome, world')) :
    ∃ files, Gains world.disk world'.disk files := by
  obtain ⟨files, hgains⟩ := adds_visitAll hvisit entries b world
  rw [← h.visits, hrun] at hgains
  exact ⟨files, hgains⟩

/-- Hand over one entry of the directory `names`, and then what is below it. -/
def enter (root : List String) (visit : β → Except WalkFault Entry → ExceptT ε (StateM World) β)
    (depth : Nat) (names : List String) (b : β) (entry : String × Bool) :
    ExceptT ε (StateM World) β := do
  let b ← visit b (.ok ⟨names ++ [entry.1], entry.2⟩)
  if entry.2 then return b else World.walkBelow root visit depth (names ++ [entry.1]) b

lemma attempt_walkBelow (names : List String) (b : β) (world : World) :
    attempt (World.walkBelow root visit (depth + 1) names b) world =
      attempt ((world.disk.entriesOf (root ++ names)).foldlM (enter root visit depth names) b) world :=
  rfl

/-- Whatever is below a directory, less than `depth` levels deep, is walked. -/
def WalksBelow (start : Disk) (root : List String)
    (visit : β → Except WalkFault Entry → ExceptT ε (StateM World) β) (depth : Nat) : Prop :=
  ∀ names b world, Keeps start world → ∃ entries,
    Serves root visit (World.walkBelow root visit depth names b) b world entries ∧
      Lists start root names (fun _ => True) depth entries

/-- The part of a walk at one entry of a directory, which is visited and then entered if it is a
directory, serves that entry and what is below it. -/
lemma exists_serves_enter (htree : start.IsTree) (hstart : start.Ordered)
    (hvisit : ∀ b met, Adds (visit b met)) (hbelow : WalksBelow start root visit depth)
    {names : List String} {name : String} {isFile : Bool} {b : β} {world : World} {item : Item}
    (hkeeps : Keeps start world) (hitem : world.disk.item? (root ++ (names ++ [name])) = some item)
    (hfile : item.isFile = isFile) (hname : ∀ item,
      start.item? (root ++ (names ++ [name])) = some item → item.isFile = isFile) :
    ∃ entries, Serves root visit (enter root visit depth names b (name, isFile)) b world
        ([⟨names ++ [name], isFile⟩] ++ entries) ∧
      Lists start root (names ++ [name]) (fun _ => True) depth entries := by
  have hfirst : Serves root visit (visit b (.ok ⟨names ++ [name], isFile⟩)) b world
    [⟨names ++ [name], isFile⟩] := .single hitem hfile
  refine hfirst.bind (fun b' world' hrun => ?_) (exists_lists htree hstart)
  obtain ⟨files, hgains⟩ := hfirst.gains hvisit hrun
  cases isFile with
  | true =>
      refine ⟨[], .pure b' world', .nil htree fun hdirectory => ?_⟩
      cases hname _ hdirectory
  | false => exact hbelow (names ++ [name]) b' world' (hkeeps.trans hgains)

/-- The part of a walk over the `listing` of a directory serves what is below the names of that
listing. -/
lemma exists_serves_listing (htree : start.IsTree) (hstart : start.Ordered)
    (hvisit : ∀ b met, Adds (visit b met)) (hbelow : WalksBelow start root visit depth)
    {names : List String} {listing : List (String × Bool)}
    (hordered : (listing.map Prod.fst).Pairwise (· < ·)) {b : β} {world : World}
    (hkeeps : Keeps start world)
    (hlisting : ∀ entry ∈ listing, ∃ item,
      world.disk.item? (root ++ (names ++ [entry.1])) = some item ∧ item.isFile = entry.2) :
    ∃ entries, Serves root visit (listing.foldlM (enter root visit depth names) b) b world entries ∧
      Lists start root names (· ∈ listing.map Prod.fst) (depth + 1) entries := by
  induction listing generalizing b world with
  | nil => exact ⟨[], .pure b world, by simp, by simp, by simp⟩
  | cons entry listing ih =>
      obtain ⟨name, isFile⟩ := entry
      rw [List.map_cons, List.pairwise_cons] at hordered
      rw [List.forall_mem_cons] at hlisting
      obtain ⟨⟨item, hitem, hfile⟩, hlisting⟩ := hlisting
      have hname : ∀ item, start.item? (root ++ (names ++ [name])) = some item →
          item.isFile = isFile := by
        intro item' hitem'
        obtain ⟨-, files, hgains⟩ := hkeeps
        obtain ⟨item'', hitem'', hfile''⟩ := hgains.exists_item? hitem'
        rw [hitem, Option.some.injEq] at hitem''
        rw [← hfile'', ← hitem'', hfile]
      obtain ⟨entries, hserves, hlists⟩ :=
        exists_serves_enter (b := b) htree hstart hvisit hbelow hkeeps hitem hfile hname
      obtain ⟨entries', hserves', hlists'⟩ := hserves.bind (fun b' world' hrun => by
        obtain ⟨files, hgains⟩ := hserves.gains hvisit hrun
        refine ih hordered.2 (hkeeps.trans hgains) fun entry hentry => ?_
        obtain ⟨item, hitem, hfile⟩ := hlisting entry hentry
        rw [← hfile]
        exact hgains.exists_item? hitem) (exists_lists htree hstart)
      refine ⟨_, ?_, .cons hname hordered.1 hlists hlists'⟩
      rw [List.foldlM_cons]
      exact hserves'

/-- **The walk `walkBelow` serves everything below a directory that was there at the start.** -/
lemma walksBelow (htree : start.IsTree) (hstart : start.Ordered)
    (hvisit : ∀ b met, Adds (visit b met)) (depth : Nat) : WalksBelow start root visit depth := by
  induction depth with
  | zero => exact fun names b world _ => ⟨[], .pure b world, by simp, by simp, by simp⟩
  | succ depth ih =>
      intro names b world hkeeps
      have hlisting : ∀ entry ∈ world.disk.entriesOf (root ++ names), ∃ item,
          world.disk.item? (root ++ (names ++ [entry.1])) = some item ∧ item.isFile = entry.2 := by
        intro entry hentry
        rw [← List.append_assoc]
        exact (mem_entriesOf hkeeps.1).1 hentry
      obtain ⟨entries, hserves, hlists⟩ := exists_serves_listing (b := b) htree hstart hvisit ih
        (pairwise_entriesOf hkeeps.1 _) hkeeps hlisting
      refine ⟨entries, ⟨(attempt_walkBelow names b world).trans hserves.visits, hserves.present⟩,
        hlists.ordered, fun entry hentry => ?_, fun name rest item _ hitem hdepth => ?_⟩
      · obtain ⟨name, rest, -, hnames⟩ := hlists.below entry hentry
        exact ⟨name, rest, trivial, hnames⟩
      · refine hlists.complete name rest item ?_ hitem hdepth
        -- the first name on the way was there at the start, so it is in the listing
        have happend : root ++ (names ++ name :: rest) = root ++ names ++ [name] ++ rest := by simp
        rw [happend] at hitem
        obtain ⟨item', hitem'⟩ := Option.isSome_iff_exists.1
          (htree.isSome_of_append (by rw [hitem]; rfl))
        obtain ⟨hordered, files, hgains⟩ := hkeeps
        exact List.mem_map.2 ⟨_, (mem_entriesOf hordered).2 (hgains.exists_item? hitem'), rfl⟩

/-- **The walker of a world is a walk in the sense of `Walker.Walks`**, as long as every visit only
adds to the disk. -/
theorem exists_walks {path : Path} {world : World} (htree : world.disk.IsTree)
    (hordered : world.disk.Ordered)
    (hroot : world.disk.locate path.steps = .ok (root, .directory))
    (hvisit : ∀ b met, Adds (visit b met)) (init : β) :
    ∃ entries, World.walker.Walks path root visit init world entries := by
  obtain ⟨-, -, hitem⟩ := locate_eq_ok.1 hroot
  have hfirst : Serves root visit (visit init (.ok ⟨[], false⟩)) init world [⟨[], false⟩] :=
    .single (by rwa [List.append_nil]) rfl
  obtain ⟨entries, hserves, hlists⟩ := hfirst.bind (fun b world' hrun => by
    obtain ⟨files, hgains⟩ := hfirst.gains hvisit hrun
    have hkeeps : Keeps world.disk world := ⟨hordered, [], .refl _⟩
    exact walksBelow htree hordered hvisit (world.disk.height + 4096) [] b world'
      (hkeeps.trans hgains))
      (exists_lists htree hordered)
  have hwalk : attempt (World.walker.fold path visit init) world = attempt (do
      let b ← visit init (.ok ⟨[], false⟩)
      World.walkBelow root visit (world.disk.height + 4096) [] b) world := by
    have hget : attempt (get : ExceptT ε (StateM World) World) world = (.ok world, world) := rfl
    unfold World.walker World.walk
    rw [attempt_bind, Attempt.bind_apply, hget]
    dsimp only
    rw [hroot]
  refine ⟨_, hwalk.trans hserves.visits, ?_, ?_, hserves.present⟩
  · rw [List.map_append, List.map_singleton, List.singleton_append, List.pairwise_cons]
    refine ⟨fun key hkey => ?_, hlists.ordered⟩
    obtain ⟨entry, hentry, rfl⟩ := List.mem_map.1 hkey
    obtain ⟨name, rest, -, hnames⟩ := hlists.below entry hentry
    rw [hnames]
    exact lt_append_cons [] name rest
  · intro names item hitem'
    cases names with
    | nil =>
        rw [List.append_nil, hitem, Option.some.injEq] at hitem'
        subst hitem'
        exact List.mem_cons_self
    | cons name rest =>
        refine List.mem_cons_of_mem _ (hlists.complete name rest item trivial hitem' ?_)
        have hheight := length_le_height ((htree.item?_eq_some (by simp)).1 hitem')
        simp only [List.length_append, List.length_cons] at hheight
        omega

end

end Runic.Command
