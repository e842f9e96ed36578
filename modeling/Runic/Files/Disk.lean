import Runic.Attempt
import Runic.Error
import Runic.Files.Path

/-!
# A disk

Directories and files, each known by the names that lead to it from the root.  The items are kept
in the order of these names, so what lies below a directory stands together, each directory right
before its contents, and entries of one directory by name.

A path is followed one step at a time from the root.  A step to a name needs a directory that has
it; `.` and a slash at the end need a directory and stay there, `..` goes back up.  The root is its
own parent.

* `Disk.read`, `Disk.write` and `Disk.makeDirectories` are what one can do with files.
* `Disk.entriesOf` lists a directory.
* `Disk.changes` are the files that differ from those of another disk.
-/

namespace Runic

/-- What a list of names can lead to. -/
inductive Item where
  | directory
  | file (bytes : ByteArray)

/-- The bytes of an item that is a file. -/
def Item.bytes? : Item → Option ByteArray
  | directory => none
  | file bytes => some bytes

/-- The item is a file. -/
def Item.isFile (item : Item) : Bool := item.bytes?.isSome

/-- The items of a disk, each with the names that lead to it from the root.  The root itself is not
listed. -/
structure Disk where
  items : List (List String × Item)

/-- Put `item` in its place in the order of names.  It replaces an item of the same names. -/
def insertItem (names : List String) (item : Item) :
    List (List String × Item) → List (List String × Item)
  | [] => [(names, item)]
  | (other, kept) :: rest =>
    if names < other then (names, item) :: (other, kept) :: rest
    else if names = other then (names, item) :: rest
    else (other, kept) :: insertItem names item rest

namespace Disk

/-- The disk that has nothing but its root. -/
def empty : Disk := ⟨[]⟩

/-- The item that `names` lead to.  No names at all lead to the root. -/
def item? (disk : Disk) (names : List String) : Option Item :=
  if names.isEmpty then some .directory else disk.items.lookup names

/-- Add `item` under `names`, or replace the one that is there. -/
def insert (disk : Disk) (names : List String) (item : Item) : Disk :=
  ⟨insertItem names item disk.items⟩

/-- Add `item` under `names` and the directories above it, as far as they are missing. -/
def add (disk : Disk) (names : List String) (item : Item) : Disk :=
  let above := (List.range names.length).map names.take
  let disk := above.foldl (fun disk directory =>
    if (disk.item? directory).isSome then disk else disk.insert directory .directory) disk
  disk.insert names item

/-! ## Following a path -/

/-- The step leads to the directory in which it is taken. -/
def staysPut (step : String) : Bool := step = "" || step = "."

/-- Follow steps from the directory `place`.  The empty step and `.` stay, `..` goes up, and any
other step needs an item of that name. -/
def follow (disk : Disk) (place : List String) : List String → Except FileFault (List String)
  | [] => .ok place
  | step :: steps =>
    match disk.item? place with
    | none => .error .notFound
    | some (.file _) => .error .notADirectory
    | some .directory =>
      if staysPut step then follow disk place steps
      else if step = ".." then follow disk place.dropLast steps
      else if (disk.item? (place ++ [step])).isSome then follow disk (place ++ [step]) steps
      else .error .notFound

/-- The names and the item that the steps of a path lead to.  An empty path leads nowhere. -/
def locate (disk : Disk) (steps : List String) : Except FileFault (List String × Item) :=
  if steps.isEmpty then .error .notFound
  else do
    let names ← disk.follow [] steps
    match disk.item? names with
    | some item => return (names, item)
    | none => .error .notFound

/-- The names of the directory that `steps` lead to.  It is a fault if they lead to a file. -/
def directory (disk : Disk) (steps : List String) : Except FileFault (List String) := do
  let names ← disk.follow [] steps
  match disk.item? names with
  | some .directory => return names
  | some (.file _) => .error .notADirectory
  | none => .error .notFound

/-! ## Files -/

/-- The bytes of the file at `path`. -/
def read (disk : Disk) (path : Path) : Except FileFault ByteArray := do
  match ← disk.locate path.steps with
  | (_, .file bytes) => return bytes
  | (_, .directory) => .error .isADirectory

/-- The names under which a file at `steps` is written.  What has no name of its own could only be a
directory. -/
def placeFor (disk : Disk) (steps : List String) : Except FileFault (List String) :=
  match steps.reverse with
  | [] => .error .notFound
  | "" :: above => do
    let _ ← disk.directory above.tail.reverse
    .error .isADirectory
  | last :: above => do
    let names ← disk.directory above.reverse
    if last = "." || last = ".." then .error .isADirectory
    else
      match disk.item? (names ++ [last]) with
      | some .directory => .error .isADirectory
      | _ => return names ++ [last]

/-- Make the file at `path`, or replace what it holds by `bytes`. -/
def write (path : Path) (bytes : ByteArray) : Attempt Disk FileFault Unit := do
  let disk ← Attempt.get
  let names ← Attempt.ofExcept (disk.placeFor path.steps)
  Attempt.modify fun disk => disk.insert names (.file bytes)

/-! ## Directories -/

/-- Make one directory, in a directory that is there.  The steps to it come with the last one
first. -/
def makeDirectory : List String → Attempt Disk FileFault Unit
  | [] => Attempt.fail .alreadyExists
  | last :: above => do
    let disk ← Attempt.get
    let names ← Attempt.ofExcept (disk.directory above.reverse)
    if staysPut last || last = ".." || (disk.item? (names ++ [last])).isSome then
      Attempt.fail .alreadyExists
    else Attempt.modify fun disk => disk.insert (names ++ [last]) .directory

/-- Make one directory as `makeDirectory` does, unless it is there already. -/
def ensureDirectory (steps : List String) : Attempt Disk FileFault Unit := fun disk =>
  match makeDirectory steps disk with
  | (.error fault, disk) =>
    match disk.directory steps.reverse with
    | .ok _ => (.ok (), disk)
    | .error _ => (.error fault, disk)
  | done => done

/-- Make a directory and those above it that are missing.  The steps to it come with the last one
first. -/
def ensureDirectories : List String → Attempt Disk FileFault Unit
  | [] => return ()
  | last :: above => fun disk =>
    match ensureDirectory (last :: above) disk with
    | (.error .notFound, disk) =>
      (do
        ensureDirectories above
        ensureDirectory (last :: above)) disk
    | done => done

/-- Make the directory of `path` and those above it that are missing. -/
def makeDirectories (path : Path) : Attempt Disk FileFault Unit :=
  ensureDirectories path.steps.reverse

/-! ## Many files -/

/-- All files of a disk with their names, in the order of names. -/
def files (disk : Disk) : List (List String × ByteArray) :=
  disk.items.filterMap fun (names, item) => item.bytes?.map (names, ·)

/-- The name that `item` has in the directory `place`, if it stands there directly, and whether it
is a file. -/
def entryIn? (place : List String) (item : List String × Item) : Option (String × Bool) :=
  if item.1.dropLast = place then item.1.getLast?.map (·, item.2.isFile) else none

/-- The names that stand directly in the directory `place`, in order, each with whether it is the
name of a file. -/
def entriesOf (disk : Disk) (place : List String) : List (String × Bool) :=
  disk.items.filterMap (entryIn? place)

/-- The greatest number of names that lead to an item. -/
def height (disk : Disk) : Nat :=
  disk.items.foldr (fun item deepest => max item.1.length deepest) 0

/-- The files of `new` that `old` did not have, or had with other bytes. -/
def changes (old new : Disk) : List (List String × ByteArray) :=
  new.files.filter fun (names, bytes) =>
    ((old.item? names).bind Item.bytes?).map ByteArray.data ≠ some bytes.data

end Disk

end Runic
