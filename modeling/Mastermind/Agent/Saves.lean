import Mastermind.Agent.Payload
import Mastermind.Files.Disk
import Mastermind.Script.Date

open Effects Prog Files Js

namespace Agent

-- The directory name that `level-name` gives to the world, and where the backups of the world are.
structure Place where
  install : Path
  level   : String
  backups : Path
  legal   : level ≠ "" ∧ level ≠ "." ∧ level ≠ ".." ∧ '/' ∉ level.toList
  -- A world is not copied into itself.
  apart   : Apart backups (install ++ [level])
  aside   : Apart backups (install ++ [level ++ ".mastermind-restore-old"])

namespace Place

variable (p : Place)

def world : Path :=
  p.install ++ [p.level]

-- Where a restore keeps the world that it replaces.
def old : Path :=
  p.install ++ [p.level ++ ".mastermind-restore-old"]

end Place

def isBackupChar (c : Char) : Bool :=
  c.isAlphanum || c = '.' || c = '_' || c = '+' || c = '-'

-- `validBackupIDRe`
def isBackupID (id : String) : Bool :=
  matchesName isBackupChar id

@[irreducible]
def validateBackupID (id : String) : Except Err Unit :=
  let id := trimSpace id
  if id = "" then .error (.other "save_id required")
  else if id ≠ base id ∨ contains id ".." then .error (.other "unsafe save_id")
  else if !isBackupID id then .error (.other "invalid save_id")
  else .ok ()

-- The time in UTC, which is given in seconds, as `20060102-150405`.
def stamp (now : ℤ) : String :=
  let date := calendarDate (now / 86400)
  let time := (now % 86400).toNat
  padStart date.year.toNat 4 ++ padStart (date.month + 1) 2 ++ padStart date.day 2 ++ "-" ++
  padStart (time / 3600) 2 ++ padStart (time / 60 % 60) 2 ++ padStart (time % 60) 2

-- The file or the link at `path` is open.
def copyData (path target : Path) : Disk Unit := do
  send (.create target false)
  let data ← send (.read path)
  writeAll target data
  send (.close target)

-- A link is copied as the file that it leads to.
def copyNode (src dst : Path) : Path × Node → Disk Unit
  | (rel, .dir) => send (.mkdirAll (dst ++ rel))
  | (rel, _)    => do
    send (.open (src ++ rel))
    send (.mkdirAll (dst ++ rel).dropLast)
    copyData (src ++ rel) (dst ++ rel)

def copyDir (src dst : Path) : Disk Unit := do
  let _ ← send (.lstat src)
  let nodes ← send (.walk src)
  forEach (copyNode src dst) nodes

def backupName (p : Place) (now : ℤ) : String :=
  p.level ++ "-" ++ stamp now

def prepareBackup (p : Place) : Disk Unit := do
  let _ ← send (.stat p.world)
  send (.mkdirAll p.backups)

def backupWorld (p : Place) (now : ℤ) : Disk Path := do
  prepareBackup p
  let dest := p.backups ++ [backupName p now]
  copyDir p.world dest
  return dest

structure Save where
  id        : String
  createdAt : ℤ
  sizeBytes : Nat
  path      : Path

-- The sizes of links are not kept.
def size : Node → Nat
  | .file data => data.length
  | _          => 0

def directorySize (root : Path) : Disk Nat := do
  match ← ask (.walk root) with
  | .ok nodes => return (nodes.map fun n => size n.2).sum
  | .error _  => return 0

-- The directories that count as backups.
def saveNames (entries : List (String × Node)) : List String :=
  (entries.filter fun e => e.2 = .dir && isBackupID e.1).map Prod.fst

-- The times at which directories were modified last are given in seconds.
def describeSaves (p : Place) (modTime : String → ℤ) : List String → Disk (List Save)
  | []          => return []
  | id :: names => do
    let path := p.backups ++ [id]
    let sizeBytes ← directorySize path
    let saves ← describeSaves p modTime names
    return { id, createdAt := modTime id, sizeBytes, path } :: saves

def listSaves (p : Place) (modTime : String → ℤ) : Disk (List Save) := do
  match ← ask (.readDir p.backups) with
  | .error .notExist => return []
  | .error e         => .throw (e.wrap "read save backups")
  | .ok entries      =>
    let saves ← describeSaves p modTime (saveNames entries)
    return saves.insertionSort fun a b => b.createdAt ≤ a.createdAt

def saveID (payload : Fields) : String :=
  trimSpace (getString payload "save_id" (getString payload "backup" (getString payload "id" "")))

-- The directory of the backup that a payload names.
def findSave (p : Place) (payload : Fields) : Disk Path := do
  .ofExcept (validateBackupID (saveID payload))
  let path := p.backups ++ [saveID payload]
  match ← ask (.lstat path) with
  | .ok .dir => return path
  | _        => .throw (.other "save backup not found")

def stageWorld (p : Place) : Disk Unit := do
  match ← ask (.stat p.world) with
  | .ok _    => inContext "stage current world" (send (.rename p.world p.old))
  | .error _ => return

-- Moves the world away and copies a backup to its place.
def replaceWorld (p : Place) (source : Path) : Disk Unit := do
  ignoreErrors (removeAll p.old)
  stageWorld p
  (copyDir source p.world).handle fun e => do
    ignoreErrors (removeAll p.world)
    ignoreErrors (send (.rename p.old p.world))
    .throw (e.wrap "restore save")

-- What comes before the first change. The game is stopped meanwhile.
def checkSave (p : Place) (payload : Fields) : Disk Path := do
  let source ← findSave p payload
  send .wait
  return source

def installSave (p : Place) (payload : Fields) : Disk Path := do
  let source ← checkSave p payload
  replaceWorld p source
  return source

def restoreSave (p : Place) (payload : Fields) : Disk Path := do
  let source ← installSave p payload
  ignoreErrors (removeAll p.old)
  return source

def deleteSaveBackup (p : Place) (payload : Fields) : Disk Unit := do
  let path ← findSave p payload
  inContext "delete save backup" (removeAll path)

-- The backups that are left out, starting with the latest ones, when `retention` of them are kept.
def expiredSaves (retention : Nat) (modTime : String → ℤ) (names : List String) : List String :=
  (names.insertionSort fun a b => modTime b ≤ modTime a).drop retention

def pruneSaveBackups (p : Place) (retention : ℤ) (modTime : String → ℤ) : Disk Unit :=
  if retention < 1 ∨ 100 < retention then
    .throw (.other "retention count must be between 1 and 100")
  else do
    match ← ask (.readDir p.backups) with
    | .error .notExist => return
    | .error e         => .throw e
    | .ok entries      =>
      forEach (fun id => removeAll (p.backups ++ [id]))
        (expiredSaves retention.toNat modTime (saveNames entries))

-- The same for any order in which `sort` puts the backups. `sort.Slice` does not say which of two
-- backups of the same time comes first.
def pruneSorted (p : Place) (retention : ℤ) (sort : List String → List String) : Disk Unit :=
  if retention < 1 ∨ 100 < retention then
    .throw (.other "retention count must be between 1 and 100")
  else do
    match ← ask (.readDir p.backups) with
    | .error .notExist => return
    | .error e         => .throw e
    | .ok entries      =>
      forEach (fun id => removeAll (p.backups ++ [id]))
        ((sort (saveNames entries)).drop retention.toNat)

theorem pruneSaveBackups_eq (p : Place) (retention : ℤ) (modTime : String → ℤ) :
    pruneSaveBackups p retention modTime =
      pruneSorted p retention (·.insertionSort fun a b => modTime b ≤ modTime a) :=
  rfl

end Agent
