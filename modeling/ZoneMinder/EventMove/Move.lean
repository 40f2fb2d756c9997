import Mathlib.Data.List.AList
import ZoneMinder.Lib.Crash

namespace ZoneMinder.EventMove

open Lib

abbrev Path := List Char

abbrev Name := List Char

abbrev Content := List UInt8

/-- The regular files of a directory. -/
abbrev Files := AList fun _ : Name ↦ Content

/-- What stands at a path. -/
inductive Entry
  | absent
  | file
  | dir (files : Files)

namespace Entry

/-- `-e` -/
def present : Entry → Bool
  | absent => false
  | _ => true

def isDir : Entry → Bool
  | dir _ => true
  | _ => false

def files : Entry → Files
  | dir files => files
  | _ => ∅

/-- A file written below a path; where a regular file has the path itself, that one is written. -/
def put (e : Entry) (name : Name) (content : Content) : Entry :=
  match e with
  | file => file
  | absent => dir ((∅ : Files).insert name content)
  | dir files => dir (files.insert name content)

/-- `mkdir`, for which an entry that exists is no failure. -/
def made : Entry → Entry
  | absent => dir ∅
  | e => e

/-- `rm` of a file in a directory. -/
def remove (e : Entry) (name : Name) : Entry :=
  match e with
  | dir files => dir (files.erase name)
  | e => e

/-- `rm` of what stands at a path, which may be a directory when that is empty. -/
def pruned : Entry → Entry
  | dir files => if files.entries = [] then absent else dir files
  | _ => absent

variable {e : Entry} {name name' : Name} {content : Content}

@[simp]
theorem files_made : e.made.files = e.files := by
  cases e <;> rfl

theorem lookup_put (he : ¬e = file) : (e.put name content).files.lookup name = some content := by
  cases e with
  | file => exact absurd rfl he
  | absent => exact AList.lookup_insert _
  | dir files => exact AList.lookup_insert _

theorem lookup_put_ne (h : name' ≠ name) :
    (e.put name content).files.lookup name' = e.files.lookup name' := by
  cases e with
  | file => rfl
  | absent => exact AList.lookup_insert_ne h
  | dir files => exact AList.lookup_insert_ne h

theorem put_ne_file (he : ¬e = file) : ¬e.put name content = file := by
  cases e with
  | file => exact absurd rfl he
  | absent => exact Entry.noConfusion
  | dir files => exact Entry.noConfusion

theorem made_ne_file (he : ¬e = file) : ¬e.made = file := by
  cases e with
  | file => exact absurd rfl he
  | absent => exact Entry.noConfusion
  | dir files => exact Entry.noConfusion

end Entry

/-- A storage area as it comes from the database. An area that is not there has no id, and the
default path. -/
structure Storage where
  id : Option ℕ
  path : Path
  s3fs : Bool

/-- The disks and the row of the event: the storage that is committed, and the one that the open
transaction has written. -/
structure World where
  entry : Path → Entry
  committed : Option ℕ
  pending : Option (Option ℕ)

namespace World

/-- The row as the process itself reads it. -/
def row (w : World) : Option ℕ := w.pending.getD w.committed

def files (w : World) (path : Path) : Files := (w.entry path).files

def update (w : World) (path : Path) (f : Entry → Entry) : World :=
  { w with entry := Function.update w.entry path (f (w.entry path)) }

def save (w : World) (id : Option ℕ) : World := { w with pending := some id }

/-- A commit that fails loses the transaction. -/
def commit (w : World) (ok : Bool) : World :=
  { w with committed := if ok then w.row else w.committed, pending := none }

def rollback (w : World) : World := { w with pending := none }

variable {w : World} {path path' : Path} {f : Entry → Entry}

@[simp]
theorem update_entry : (w.update path f).entry path = f (w.entry path) := by
  simp [update]

theorem update_entry_ne (h : path' ≠ path) : (w.update path f).entry path' = w.entry path' := by
  simp [update, h]

end World

/-- What a shell does with a path that is not plain: the files that a pattern finds there, and the
paths that a command names. -/
structure Shell where
  found : (Path → Entry) → Path → List (Name × Content)
  words : Path → List Path

/-- The storage areas, and the path of the event below each of them. -/
structure System where
  storage : Option ℕ → Storage
  storage_id : ∀ id, storage (storage id).id = storage id
  relativePath : Path
  shell : Shell

/-- What becomes of the steps that can fail, and what `rm` comes to: the files of directories, and
paths themselves. -/
structure Fates where
  canEdit : Bool
  lock : Bool
  mkdir : Bool
  connect : Bool
  connectOld : Bool
  upload : Name → Bool
  makePath : Bool
  openDir : Bool
  torn : Name → Content
  copy : Name → Bool
  save : Bool
  commit : Bool
  deleteKey : Bool
  removals : List (Path × Option Name)

inductive Error
  | noPermission
  | notLocked
  | noSource
  | noId
  | alreadyLocated
  | emptyPath
  | noNewPath
  | oldPathChanged
  | samePath
  | makePath
  | openDir
  | copyFailed (name : Name)
  | saveFailed
  deriving DecidableEq

/-- An absolute path without a character that a shell or `glob`, which splits at all kinds of space,
takes for more than itself. -/
def plain (path : Path) : Bool :=
  path.head? = some '/' &&
    path.all fun c ↦ c ∉ " \t\n\r\x0b\x0c*?[]{}\\'\"$&;|<>()".toList && c ≠ Char.ofNat 96

def falsy (path : Path) : Bool := path = [] || path = ['0']

/-- `/^\./` -/
def dotted (name : Name) : Bool := name.head? = some '.'

namespace System

variable (sys : System) (f : Fates)

def eventPath (storage : Storage) : Path := storage.path ++ '/' :: sys.relativePath

/-- `Path` of an event with this storage, undefined where the storage is no longer there. -/
def area (id : Option ℕ) : Option Path :=
  if id.getD 0 = 0 ∨ (sys.storage id).id.isSome then some (sys.eventPath (sys.storage id)) else none

/-- `-e` -/
def present (w : World) (path : Option Path) : Bool := path.any fun p ↦ (w.entry p).present

/-- The files of a directory but those that start with a dot. -/
def listed (w : World) (path : Path) : List (Name × Content) :=
  ((w.files path).entries.map fun e ↦ (e.1, e.2)).filter fun e ↦ !dotted e.1

def glob (w : World) (path : Path) : List (Name × Content) :=
  if plain path then listed w path else sys.shell.found w.entry path

def rmWords (path : Path) : List Path := if plain path then [path] else sys.shell.words path

/-- A new storage area is made where it is missing. -/
def makeRoot (new : Storage) : Prog World Bool := do
  let w ← Prog.get
  if new.s3fs || (w.entry new.path).present then pure true
  else if f.mkdir then do
    Prog.step fun w ↦ w.update new.path Entry.made
    pure true
  else pure false

def uploadFile (newPath : Path) (file : Name × Content) : Prog World (Option Unit) :=
  if f.upload file.1 then do
    Prog.step fun w ↦ w.update newPath fun e ↦ e.put file.1 file.2
    pure none
  else pure (some ())

/-- The upload to a bucket; one that fails is not an error. -/
def upload (new : Storage) (oldPath newPath : Path) : Prog World Bool := do
  let w ← Prog.get
  if new.s3fs && f.connect then do
    let died ← Prog.walk (uploadFile f newPath) (sys.glob w oldPath)
    pure died.isNone
  else pure false

/-- A copy is torn before it is complete. -/
def copyFile (newPath : Path) (file : Name × Content) : Prog World (Option Error) := do
  Prog.step fun w ↦ w.update newPath fun e ↦ e.put file.1 (f.torn file.1)
  if f.copy file.1 then do
    Prog.step fun w ↦ w.update newPath fun e ↦ e.put file.1 file.2
    pure none
  else pure (some (.copyFailed file.1))

def copyFiles (oldPath newPath : Path) : Prog World (Option Error) :=
  if f.makePath then do
    Prog.step fun w ↦ w.update newPath Entry.made
    let w ← Prog.get
    if f.openDir && (w.entry oldPath).isDir then
      Prog.walk (copyFile f newPath) (listed w oldPath)
    else pure (some .openDir)
  else pure (some .makePath)

def copyTo (new : Storage) : Prog World (Option Error) := do
  let w ← Prog.get
  let old := sys.storage w.row
  if !f.canEdit then pure (some .noPermission)
  else if !present w (sys.area w.row) then pure (some .noSource)
  else if new.id = none then pure (some .noId)
  else if new.id.getD 0 = w.row.getD 0 then pure (some .alreadyLocated)
  else if falsy new.path then pure (some .emptyPath)
  else do
    let root ← makeRoot f new
    if !root then pure (some .noNewPath)
    else if old.id.getD 0 ≠ w.row.getD 0 then pure (some .oldPathChanged)
    else if sys.eventPath new = sys.eventPath old then do
      Prog.step fun w ↦ w.commit f.commit
      pure (some .samePath)
    else do
      let moved ← sys.upload f new (sys.eventPath old) (sys.eventPath new)
      if moved then pure none else copyFiles f (sys.eventPath old) (sys.eventPath new)

/-- `rm -rf` comes to files at or below the paths that it is given. -/
def removeFile (words : List Path) (file : Path × Option Name) : Prog World (Option Error) :=
  if words.any fun word ↦ file.1 = word || (word ++ ['/']).isPrefixOf file.1 then do
    Prog.step fun w ↦ w.update file.1 fun e ↦ file.2.elim e.pruned e.remove
    pure none
  else pure none

/-- In a bucket only the key of the directory itself is deleted. -/
def deleteFiles (old : Storage) : Prog World (Option Error) :=
  if !f.canEdit then pure (some .noPermission)
  else if falsy old.path || falsy sys.relativePath then pure none
  else if old.s3fs && f.connectOld && f.deleteKey then pure none
  else Prog.walk (removeFile (sys.rmWords (sys.eventPath old))) f.removals

/-- The end of a transaction of one's own. -/
def endOwn (own : Bool) (g : World → World) : Prog World Unit :=
  if own then Prog.step g else pure ()

/-- Where the old files are gone and the new path is there, only the record is left to update. -/
def copyUnlessMoved (w : World) (new : Storage) : Prog World (Option Error) :=
  if !present w (sys.area w.row) && (w.entry (sys.eventPath new)).present then pure none
  else sys.copyTo f new

/-- `own` says that no transaction was open, so that this one is `MoveTo`'s. -/
def moveTo (own : Bool) (new : Storage) : Prog World (Option Error) :=
  if !f.canEdit then pure (some .noPermission)
  else if !f.lock then do
    endOwn own fun w ↦ w.commit f.commit
    pure (some .notLocked)
  else do
    let w ← Prog.get
    let old := sys.storage w.row
    let error ← sys.copyUnlessMoved f w new
    match error with
    | some error => do
      endOwn own fun w ↦ w.commit f.commit
      pure (some error)
    | none =>
      if !f.save then do
        endOwn own World.rollback
        pure (some .saveFailed)
      else do
        Prog.step fun w ↦ w.save new.id
        endOwn own fun w ↦ w.commit f.commit
        let _ ← sys.deleteFiles f old
        pure none

end System

/-- Whose the transaction is, and what its caller makes of it. -/
inductive Transaction
  | own
  | callerCommits
  | callerRollsBack
  deriving DecidableEq

inductive Call
  | copyTo (f : Fates) (new : Option ℕ)
  | moveTo (t : Transaction) (f : Fates) (new : Option ℕ)

/-- A call, up to the end of the transaction that it runs in. -/
def Call.perform (sys : System) : Call → Prog World (Option Error)
  | .copyTo f new => sys.copyTo f (sys.storage new)
  | .moveTo .own f new => sys.moveTo f true (sys.storage new)
  | .moveTo .callerCommits f new => do
    let error ← sys.moveTo f false (sys.storage new)
    Prog.step fun w ↦ w.commit f.commit
    pure error
  | .moveTo .callerRollsBack f new => do
    let error ← sys.moveTo f false (sys.storage new)
    Prog.step World.rollback
    pure error

end ZoneMinder.EventMove
