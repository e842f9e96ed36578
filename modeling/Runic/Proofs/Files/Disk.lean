import Mathlib.Data.List.Induction
import Mathlib.Data.List.Lex
import Mathlib.Data.List.Nodup
import Mathlib.Data.String.Basic
import Mathlib.Tactic.Common
import Runic.Files.Disk
import Runic.Proofs.Lookup

/-!
# What becomes of a disk

A disk is read through `Disk.item?`.  Making directories and writing files changes that view only by
what is made and written, and whatever could be found before is found where it was.

* `Disk.Gains` — a disk has what another one had, more directories, and certain files.
* `Gains.follow` — so a path that led somewhere leads there still.
* `gains_makeDirectories`, `gains_of_write` — **what is made of a disk is a gain**, and
  `placeFor_eq_ok` says where a file is written.
* `Disk.IsTree` — every item stands in a directory, under a name of its own.  Then every item is
  found by its names (`IsTree.follow`).
-/

namespace Runic

/-- After `insertItem names item`, the item is found under `names`, and every other one where it
was. -/
lemma lookup_insertItem (names other : List String) (item : Item)
    (items : List (List String × Item)) : (insertItem names item items).lookup other =
      if other = names then some item else items.lookup other := by
  induction items with
  | nil => rw [insertItem, lookup_cons_if]
  | cons entry items ih =>
      obtain ⟨key, kept⟩ := entry
      rw [insertItem]
      split
      · rw [lookup_cons_if]
      · split
        · next hsame =>
            subst hsame
            rw [lookup_cons_if, lookup_cons_if]
            split <;> rfl
        · next hother =>
            rw [lookup_cons_if, ih, lookup_cons_if]
            by_cases hkey : other = key
            · subst hkey
              rw [if_pos rfl, if_pos rfl, if_neg (Ne.symm hother)]
            · rw [if_neg hkey, if_neg hkey]

/-- `insertItem` brings no names but those of the new item. -/
lemma mem_map_insertItem {names key : List String} {item : Item} {items : List (List String × Item)}
    (h : key ∈ (insertItem names item items).map Prod.fst) :
    key = names ∨ key ∈ items.map Prod.fst := by
  fun_induction insertItem names item items with
  | case1 => simpa using h
  | case2 => simpa using h
  | case3 => simp_all
  | case4 other kept rest _ _ ih =>
      rw [List.map_cons, List.mem_cons] at h ⊢
      rcases h with h | h
      · exact .inr (.inl h)
      · exact (ih h).imp_right .inr

/-- `insertItem` keeps items in the order of their names. -/
lemma pairwise_insertItem {names : List String} {item : Item} {items : List (List String × Item)}
    (h : (items.map Prod.fst).Pairwise (· < ·)) :
    ((insertItem names item items).map Prod.fst).Pairwise (· < ·) := by
  fun_induction insertItem names item items with
  | case1 => simp
  | case2 other kept rest hlt =>
      rw [List.map_cons, List.pairwise_cons]
      refine ⟨fun key hkey => ?_, h⟩
      rw [List.map_cons, List.mem_cons] at hkey
      rw [List.map_cons, List.pairwise_cons] at h
      rcases hkey with rfl | hkey
      · exact hlt
      · exact lt_trans hlt (h.1 key hkey)
  | case3 => exact h
  | case4 other kept rest hlt hne ih =>
      rw [List.map_cons, List.pairwise_cons] at h ⊢
      refine ⟨fun key hkey => ?_, ih h.2⟩
      rcases mem_map_insertItem hkey with rfl | hkey
      · exact (lt_or_gt_of_ne hne).resolve_left hlt
      · exact h.1 key hkey

namespace Disk

/-! ## Items -/

/-- The bytes of the file that `names` lead to. -/
def file? (disk : Disk) (names : List String) : Option ByteArray :=
  (disk.item? names).bind Item.bytes?

lemma file?_eq_some {disk : Disk} {names : List String} {bytes : ByteArray} :
    disk.file? names = some bytes ↔ disk.item? names = some (.file bytes) := by
  rw [file?, Option.bind_eq_some_iff]
  constructor
  · rintro ⟨item, hitem, hbytes⟩
    cases item with
    | directory => cases hbytes
    | file => cases hbytes; exact hitem
  · exact fun h => ⟨_, h, rfl⟩

@[simp] lemma item?_nil (disk : Disk) : disk.item? [] = some .directory := rfl

lemma item?_insert {names : List String} (h : names ≠ []) (disk : Disk) (item : Item)
    (other : List String) : (disk.insert names item).item? other =
      if other = names then some item else disk.item? other := by
  cases other with
  | nil => simp [h.symm]
  | cons name rest => simp [item?, insert, lookup_insertItem]

/-- If no two items have the same names, then `item?` finds exactly the items of the disk. -/
lemma item?_eq_some_iff_mem {disk : Disk} {names : List String} {item : Item}
    (hnodup : (disk.items.map Prod.fst).Nodup) (hne : names ≠ []) :
    disk.item? names = some item ↔ (names, item) ∈ disk.items := by
  rw [item?, if_neg (by simpa using hne), lookup_eq_some_iff_mem hnodup]

/-! ## Order -/

/-- The order of names below a directory is their order from the root. -/
lemma lt_of_append_lt {root below below' : List String} (h : root ++ below < root ++ below') :
    below < below' := by
  rcases lt_trichotomy below below' with hlt | rfl | hgt
  · exact hlt
  · exact absurd h (lt_irrefl _)
  · exact absurd h (lt_asymm (List.append_left_lt hgt))

/-- The items of the disk are in the strict order of their names. -/
def Ordered (disk : Disk) : Prop := (disk.items.map Prod.fst).Pairwise (· < ·)

instance (disk : Disk) : Decidable disk.Ordered :=
  inferInstanceAs (Decidable (List.Pairwise (· < ·) _))

lemma Ordered.nodup {disk : Disk} (h : disk.Ordered) : (disk.items.map Prod.fst).Nodup :=
  List.Pairwise.imp (fun hlt => ne_of_lt hlt) h

/-! ## Listing a directory -/

lemma entryIn?_eq_some {place : List String} {item : List String × Item} {name : String}
    {isFile : Bool} : entryIn? place item = some (name, isFile) ↔
      item.1 = place ++ [name] ∧ item.2.isFile = isFile := by
  obtain ⟨names, item⟩ := item
  unfold entryIn?
  constructor
  · intro h
    split at h
    · next hplace =>
        obtain ⟨last, hlast, hpair⟩ := Option.map_eq_some_iff.1 h
        obtain ⟨rfl, hfile⟩ := Prod.mk.inj hpair
        exact ⟨by rw [← hplace, List.dropLast_append_getLast? _ hlast], hfile⟩
    · cases h
  · rintro ⟨rfl, rfl⟩
    simp

/-- The list `entriesOf place` has the items that are one name below `place`. -/
lemma mem_entriesOf {disk : Disk} (h : disk.Ordered) {place : List String} {name : String}
    {isFile : Bool} : (name, isFile) ∈ disk.entriesOf place ↔
      ∃ item, disk.item? (place ++ [name]) = some item ∧ item.isFile = isFile := by
  simp only [entriesOf, List.mem_filterMap, entryIn?_eq_some,
    item?_eq_some_iff_mem h.nodup
      (List.append_ne_nil_of_right_ne_nil place (List.cons_ne_nil name []))]
  constructor
  · rintro ⟨⟨_, item⟩, hmem, rfl, hfile⟩
    exact ⟨item, hmem, hfile⟩
  · rintro ⟨item, hmem, hfile⟩
    exact ⟨_, hmem, rfl, hfile⟩

/-- `entriesOf` lists a directory in the order of names. -/
lemma pairwise_entriesOf {disk : Disk} (h : disk.Ordered) (place : List String) :
    ((disk.entriesOf place).map Prod.fst).Pairwise (· < ·) := by
  rw [List.pairwise_map, entriesOf, List.pairwise_filterMap]
  refine (List.pairwise_map.1 h).imp fun {item item'} hlt => ?_
  rintro ⟨name, isFile⟩ hentry ⟨name', isFile'⟩ hentry'
  rw [(entryIn?_eq_some.1 hentry).1, (entryIn?_eq_some.1 hentry').1] at hlt
  simpa [List.cons_lt_cons_iff] using lt_of_append_lt hlt

/-- No item has more names than the height of the disk. -/
lemma length_le_height {disk : Disk} {item : List String × Item} (h : item ∈ disk.items) :
    item.1.length ≤ disk.height := by
  unfold height
  generalize disk.items = items at h
  induction items with
  | nil => cases h
  | cons first items ih =>
      rw [List.foldr_cons]
      rcases List.mem_cons.1 h with rfl | h
      · exact Nat.le_max_left _ _
      · exact Nat.le_trans (ih h) (Nat.le_max_right _ _)

/-! ## Gains -/

/-- The disk `new` has what `old` had, more directories, and `files` with their bytes, the later
ones in front.  Its items are in order if those of `old` are. -/
structure Gains (old new : Disk) (files : List (List String × ByteArray)) : Prop where
  directory : ∀ names, old.item? names = some .directory → new.item? names = some .directory
  file : ∀ names, new.file? names = (files.lookup names).or (old.file? names)
  ordered : old.Ordered → new.Ordered

section

variable {old mid new disk : Disk} {fs gs : List (List String × ByteArray)}

lemma Gains.refl (disk : Disk) : Gains disk disk [] := ⟨fun _ h => h, fun _ => rfl, fun h => h⟩

/-- Two gains one after the other are a gain of the files of both, the later ones in front. -/
lemma Gains.trans (h : Gains old mid fs) (h' : Gains mid new gs) : Gains old new (gs ++ fs) := by
  refine ⟨fun names hnames => h'.directory names (h.directory names hnames), fun names => ?_,
    fun hold => h'.ordered (h.ordered hold)⟩
  rw [h'.file, h.file, List.lookup_append, Option.or_assoc]

/-- What `old` had is there on `new`, as a file or as a directory. -/
lemma Gains.exists_item? (h : Gains old new fs) {names : List String} {item : Item}
    (hitem : old.item? names = some item) :
    ∃ item', new.item? names = some item' ∧ item'.isFile = item.isFile := by
  cases item with
  | directory => exact ⟨_, h.directory names hitem, rfl⟩
  | file bytes =>
      have hfile : (new.file? names).isSome = true := by
        rw [h.file, file?_eq_some.2 hitem]
        cases fs.lookup names <;> rfl
      obtain ⟨bytes', hbytes⟩ := Option.isSome_iff_exists.1 hfile
      exact ⟨_, file?_eq_some.1 hbytes, rfl⟩

lemma Gains.isSome (h : Gains old new fs) {names : List String}
    (hnames : (old.item? names).isSome = true) : (new.item? names).isSome = true := by
  obtain ⟨item, hitem⟩ := Option.isSome_iff_exists.1 hnames
  obtain ⟨item', hitem', -⟩ := h.exists_item? hitem
  rw [hitem']
  rfl

/-- A file that is not among those gained keeps its bytes. -/
lemma Gains.item? (h : Gains old new fs) {names : List String} {bytes : ByteArray}
    (hitem : old.item? names = some (.file bytes)) (hfs : fs.lookup names = none) :
    new.item? names = some (.file bytes) := by
  rw [← file?_eq_some, h.file, hfs, file?_eq_some.2 hitem]
  rfl

/-- A new directory where there was nothing is a gain of no files. -/
lemma gains_insert_directory {names : List String} (hne : names ≠ [])
    (hnone : disk.item? names = none) : Gains disk (disk.insert names .directory) [] := by
  refine ⟨?_, ?_, pairwise_insertItem⟩
  · intro other hother
    rw [item?_insert hne]
    split_ifs
    · rfl
    · exact hother
  · intro other
    rw [file?, file?, item?_insert hne]
    split_ifs with h
    · rw [h, hnone]
      rfl
    · rfl

/-- A file where there was no directory is a gain of that file. -/
lemma gains_insert_file {names : List String} (hne : names ≠ []) (bytes : ByteArray)
    (hitem : disk.item? names ≠ some .directory) :
    Gains disk (disk.insert names (.file bytes)) [(names, bytes)] := by
  refine ⟨?_, ?_, pairwise_insertItem⟩
  · intro other hother
    have hother' : other ≠ names := by
      rintro rfl
      exact hitem hother
    rw [item?_insert hne, if_neg hother', hother]
  · intro other
    rw [file?, item?_insert hne]
    by_cases h : other = names <;> simp [h, lookup_cons_if, Item.bytes?, file?]

/-! ## Following a path -/

lemma follow_append (disk : Disk) (place steps steps' : List String) :
    disk.follow place (steps ++ steps') =
      disk.follow place steps >>= fun place' => disk.follow place' steps' := by
  induction steps generalizing place with
  | nil => rfl
  | cons step steps ih =>
      rw [List.cons_append, follow, follow]
      split
      · rfl
      · rfl
      · split_ifs
        · exact ih place
        · exact ih place.dropLast
        · exact ih (place ++ [step])
        · rfl

/-- **If steps lead somewhere on `old`, they lead to the same place on `new`.** -/
lemma Gains.follow (h : Gains old new fs) {place steps found : List String}
    (hfollow : old.follow place steps = .ok found) : new.follow place steps = .ok found := by
  induction steps generalizing place with
  | nil => exact hfollow
  | cons step steps ih =>
      rw [Disk.follow] at hfollow ⊢
      split at hfollow
      · cases hfollow
      · cases hfollow
      · next hdirectory =>
          rw [h.directory place hdirectory]
          dsimp only
          split_ifs at hfollow ⊢ with hstay hup hfound hfound'
          · exact ih hfollow
          · exact ih hfollow
          · exact ih hfollow
          · exact absurd (h.isSome ‹_›) hfound

/-- The place that steps lead to on every disk on which they lead anywhere. -/
def resolve (place : List String) : List String → List String
  | [] => place
  | step :: steps =>
    if staysPut step then resolve place steps
    else if step = ".." then resolve place.dropLast steps
    else resolve (place ++ [step]) steps

/-- If `follow` succeeds, then with the place that `resolve` gives. -/
lemma eq_resolve_of_follow {place steps found : List String}
    (h : disk.follow place steps = .ok found) : found = resolve place steps := by
  induction steps generalizing place with
  | nil =>
      cases h
      rfl
  | cons step steps ih =>
      rw [follow] at h
      rw [resolve]
      split at h
      · cases h
      · cases h
      · split_ifs at h ⊢
        · exact ih h
        · exact ih h
        · exact ih h

lemma locate_eq_ok {steps names : List String} {item : Item} :
    disk.locate steps = .ok (names, item) ↔
      steps ≠ [] ∧ disk.follow [] steps = .ok names ∧ disk.item? names = some item := by
  unfold locate
  cases steps with
  | nil => simp
  | cons step steps =>
      rw [if_neg (by simp), bind_eq_ok]
      constructor
      · rintro ⟨found, hfollow, h⟩
        split at h
        · next hitem =>
            cases h
            exact ⟨List.cons_ne_nil _ _, hfollow, hitem⟩
        · cases h
      · rintro ⟨-, hfollow, hitem⟩
        refine ⟨names, hfollow, ?_⟩
        rw [hitem]
        rfl

/-- A file that is not among those gained is found by `locate` as it was. -/
lemma Gains.locate (h : Gains old new fs) {steps names : List String} {bytes : ByteArray}
    (hlocate : old.locate steps = .ok (names, .file bytes)) (hfs : fs.lookup names = none) :
    new.locate steps = .ok (names, .file bytes) := by
  rw [locate_eq_ok] at hlocate ⊢
  exact ⟨hlocate.1, h.follow hlocate.2.1, h.item? hlocate.2.2 hfs⟩

lemma read_of_locate {path : Path} {names : List String} {bytes : ByteArray}
    (h : disk.locate path.steps = .ok (names, .file bytes)) : disk.read path = .ok bytes := by
  rw [read, h]
  rfl

/-- The text can be the name of an item in a directory: it is no step that stays or goes up. -/
def isName (step : String) : Bool := !staysPut step && decide (step ≠ "..")

/-- If all steps are names, then `follow` goes down by them. -/
lemma eq_append_of_follow {disk : Disk} {place steps found : List String}
    (hsteps : ∀ step ∈ steps, isName step = true) (h : disk.follow place steps = .ok found) :
    found = place ++ steps := by
  induction steps generalizing place with
  | nil =>
      cases h
      simp
  | cons step steps ih =>
      rw [List.forall_mem_cons] at hsteps
      obtain ⟨hstay, hup⟩ : staysPut step = false ∧ step ≠ ".." := by
        simpa [isName] using hsteps.1
      rw [follow] at h
      split at h
      · cases h
      · cases h
      · rw [if_neg (by simp [hstay]), if_neg hup] at h
        split_ifs at h
        rw [ih hsteps.2 h, List.append_assoc, List.singleton_append]

/-! ## Making directories and writing files -/

lemma gains_makeDirectory (steps : List String) (disk : Disk) :
    Gains disk (makeDirectory steps disk).2 [] := by
  cases steps with
  | nil => exact .refl disk
  | cons last above =>
      rw [makeDirectory, Attempt.bind_apply, Attempt.get_apply]
      dsimp only
      rw [Attempt.bind_apply]
      cases disk.directory above.reverse with
      | error fault => exact .refl disk
      | ok names =>
          dsimp only [Attempt.ofExcept, Attempt.pure_apply]
          split
          · exact .refl disk
          · next hnone =>
              simp only [Bool.or_eq_true, not_or] at hnone
              exact gains_insert_directory (by simp) (by simpa using hnone.2)

lemma gains_ensureDirectory (steps : List String) (disk : Disk) :
    Gains disk (ensureDirectory steps disk).2 [] := by
  have h := gains_makeDirectory steps disk
  unfold ensureDirectory
  split
  · next fault disk' hmake =>
      rw [hmake] at h
      split <;> exact h
  · exact h

lemma gains_ensureDirectories (steps : List String) (disk : Disk) :
    Gains disk (ensureDirectories steps disk).2 [] := by
  induction steps generalizing disk with
  | nil => exact .refl disk
  | cons last above ih =>
      have h := gains_ensureDirectory (last :: above) disk
      unfold ensureDirectories
      split
      · next disk' hensure =>
          rw [hensure] at h
          rw [Attempt.bind_apply]
          have habove := ih disk'
          split
          · next disk'' hrun =>
              rw [hrun] at habove
              exact (h.trans habove).trans (gains_ensureDirectory _ _)
          · next fault disk'' hrun =>
              rw [hrun] at habove
              exact h.trans habove
      · exact h

/-- **The operation `makeDirectories` gains no files**, also if it fails. -/
lemma gains_makeDirectories (path : Path) (disk : Disk) :
    Gains disk (makeDirectories path disk).2 [] :=
  gains_ensureDirectories path.steps.reverse disk

lemma follow_of_directory {disk : Disk} {steps names : List String}
    (h : disk.directory steps = .ok names) : disk.follow [] steps = .ok names := by
  obtain ⟨names', hfollow, h⟩ := bind_eq_ok.1 h
  split at h <;> cases h
  exact hfollow

/-- If `placeFor` finds a place for a file, then it is in the directory that the steps before the
last lead to, and no directory is there. -/
lemma placeFor_eq_ok {disk : Disk} {steps place : List String}
    (h : disk.placeFor steps = .ok place) :
    disk.item? place ≠ some .directory ∧ ∃ above last names, steps = above ++ [last] ∧
      last ≠ ".." ∧ disk.follow [] above = .ok names ∧ place = names ++ [last] := by
  unfold placeFor at h
  split at h
  · cases h
  · obtain ⟨names, -, h⟩ := bind_eq_ok.1 h
    cases h
  · next last above _ hsteps =>
      obtain ⟨names, hnames, h⟩ := bind_eq_ok.1 h
      split at h
      · cases h
      · next hdots =>
          split at h
          · cases h
          · next hitem =>
              cases h
              simp only [Bool.or_eq_true, decide_eq_true_eq, not_or] at hdots
              refine ⟨hitem, above.reverse, last, names, ?_, hdots.2,
                follow_of_directory hnames, rfl⟩
              rw [← List.reverse_cons, ← hsteps, List.reverse_reverse]

/-- **A write that succeeds gains the file that was written and nothing else.** -/
lemma gains_of_write {path : Path} {bytes : ByteArray} {disk disk' : Disk}
    (h : write path bytes disk = (.ok (), disk')) :
    ∃ above last names, path.steps = above ++ [last] ∧ last ≠ ".." ∧
      disk.follow [] above = .ok names ∧ Gains disk disk' [(names ++ [last], bytes)] := by
  obtain ⟨_, _, ⟨⟩, h⟩ := Attempt.bind_eq_ok.1 h
  cases hplace : disk.placeFor path.steps with
  | error fault =>
      rw [hplace] at h
      cases h
  | ok place =>
      rw [hplace] at h
      obtain ⟨hitem, above, last, names, hsteps, hup, hfollow, rfl⟩ := placeFor_eq_ok hplace
      cases h
      exact ⟨above, last, names, hsteps, hup, hfollow, gains_insert_file (by simp) bytes hitem⟩

/-- A write that fails leaves the disk as it is. -/
lemma eq_of_write_error {path : Path} {bytes : ByteArray} {disk disk' : Disk} {fault : FileFault}
    (h : write path bytes disk = (.error fault, disk')) : disk' = disk := by
  rw [write, Attempt.bind_apply, Attempt.get_apply] at h
  dsimp only at h
  cases hplace : disk.placeFor path.steps with
  | error fault =>
      rw [hplace] at h
      cases h
      rfl
  | ok place =>
      rw [hplace] at h
      cases h

end

/-! ## Trees -/

/-- No two items have the same names, each of them has names that `isName` accepts, and each stands
in a directory. -/
structure IsTree (disk : Disk) : Prop where
  nodup : (disk.items.map Prod.fst).Nodup
  named : ∀ entry ∈ disk.items, entry.1 ≠ [] ∧ ∀ name ∈ entry.1, isName name = true
  parent : ∀ entry ∈ disk.items, disk.item? entry.1.dropLast = some .directory

/-- If each file is written once, then the files of `new` are those written and, elsewhere, those of
`old`. -/
lemma Gains.file?_iff {old new : Disk} {fs : List (List String × ByteArray)}
    (h : Gains old new fs.reverse) (hnodup : (fs.map Prod.fst).Nodup) {names : List String}
    {bytes : ByteArray} : new.file? names = some bytes ↔
      (names, bytes) ∈ fs ∨ names ∉ fs.map Prod.fst ∧ old.file? names = some bytes := by
  have hmem : ∀ b, fs.reverse.lookup names = some b ↔ (names, b) ∈ fs := by
    intro b
    rw [lookup_eq_some_iff_mem (by rwa [List.map_reverse, List.nodup_reverse]), List.mem_reverse]
  rw [h.file, ← hmem]
  cases hlookup : fs.reverse.lookup names with
  | none =>
      have hnot : names ∉ fs.map Prod.fst := by
        intro hnames
        obtain ⟨⟨names', b⟩, hb, rfl⟩ := List.mem_map.1 hnames
        rw [(hmem b).2 hb] at hlookup
        cases hlookup
      simp [hnot]
  | some b =>
      have hnames : names ∈ fs.map Prod.fst := List.mem_map.2 ⟨_, (hmem b).1 hlookup, rfl⟩
      simp [hnames]

namespace IsTree

variable {disk : Disk} {names place below : List String}

/-- In a tree, `item?` finds exactly the items of the disk, apart from the root. -/
lemma item?_eq_some (h : disk.IsTree) {item : Item} (hne : names ≠ []) :
    disk.item? names = some item ↔ (names, item) ∈ disk.items :=
  item?_eq_some_iff_mem h.nodup hne

/-- In a tree, whatever has something below it is a directory. -/
lemma directory_of_isSome (h : disk.IsTree) (hne : below ≠ [])
    (hitem : (disk.item? (place ++ below)).isSome = true) :
    disk.item? place = some .directory := by
  induction below using List.reverseRecOn with
  | nil => exact absurd rfl hne
  | append_singleton below last ih =>
      obtain ⟨item, hitem⟩ := Option.isSome_iff_exists.1 hitem
      rw [h.item?_eq_some (by simp)] at hitem
      have hparent := h.parent _ hitem
      rw [← List.append_assoc, List.dropLast_concat] at hparent
      by_cases hbelow : below = []
      · simpa [hbelow] using hparent
      · exact ih hbelow (by rw [hparent]; rfl)

/-- In a tree, whatever is on the way to an item is there. -/
lemma isSome_of_append (h : disk.IsTree) (hitem : (disk.item? (place ++ below)).isSome = true) :
    (disk.item? place).isSome = true := by
  by_cases hbelow : below = []
  · simpa [hbelow] using hitem
  · rw [h.directory_of_isSome hbelow hitem]
    rfl

/-- In a tree, all names that lead to an item are accepted by `isName`. -/
lemma isName_of_isSome (h : disk.IsTree) (hitem : (disk.item? names).isSome = true) :
    ∀ name ∈ names, isName name = true := by
  by_cases hne : names = []
  · simp [hne]
  · obtain ⟨item, hitem⟩ := Option.isSome_iff_exists.1 hitem
    exact (h.named _ ((h.item?_eq_some hne).1 hitem)).2

/-- **In a tree, `follow` leads to every item by its names.** -/
lemma follow (h : disk.IsTree) (hitem : (disk.item? (place ++ below)).isSome = true) :
    disk.follow place below = .ok (place ++ below) := by
  induction below generalizing place with
  | nil => simp [Disk.follow]
  | cons step below ih =>
      have hname : isName step = true := h.isName_of_isSome hitem step (by simp)
      obtain ⟨hstay, hup⟩ : staysPut step = false ∧ step ≠ ".." := by simpa [isName] using hname
      have happend : place ++ step :: below = place ++ [step] ++ below := by simp
      rw [happend] at hitem ⊢
      have hstep : (disk.item? (place ++ [step])).isSome = true := h.isSome_of_append hitem
      rw [Disk.follow, h.directory_of_isSome (List.cons_ne_nil step []) hstep]
      dsimp only
      rw [if_neg (by simp [hstay]), if_neg hup, if_pos hstep]
      exact ih hitem

end IsTree

end Disk

end Runic
