import Mastermind.Agent.Config
import Mastermind.Agent.Payload
import Mastermind.Files.Disk

open Effects Prog Js
open Files (Err Path Bytes Disk ask send inContext ignoreErrors removeAll writeAll Node)

namespace Agent

-- `strings.HasPrefix`
def hasPrefix (s part : String) : Bool :=
  part.toList.isPrefixOf s.toList

-- `strings.HasSuffix`
def hasSuffix (s part : String) : Bool :=
  part.toList.isSuffixOf s.toList

inductive ModKind
  | mods
  | plugins
  deriving DecidableEq

def ModKind.folder : ModKind → String
  | mods    => "mods"
  | plugins => "plugins"

-- An entry of an archive. One that is not intact cannot be read to its end.
structure ZipEntry where
  name   : String
  isDir  : Bool
  opens  : Bool
  data   : Bytes
  intact : Bool

-- What comes from the libraries of the language: `unicode.ToLower`, the files that paths stand for,
-- `zip.OpenReader`, and `base64.StdEncoding.DecodeString`.
structure Library where
  lower  : Char → Char
  locate : String → Path
  unzip  : Bytes → Option (List ZipEntry)
  decode : String → Option Bytes

def isModChar (c : Char) : Bool :=
  c.isAlphanum || c = '.' || c = '_' || c = '+' || c = '-' || c = ' '

@[irreducible]
def validateModEntryName (name : String) : Except Err Unit :=
  let name := trimSpace name
  if name = "" then .error (.other "mod name required")
  else if name ≠ base name ∨ contains name ".." ∨
    name.toList.any (fun c => c = '/' || c = '\\') then
    .error (.other "unsafe mod name")
  else if hasPrefix name "." then .error (.other "hidden mod names are not allowed")
  else if !matchesName isModChar name then .error (.other "invalid mod name")
  else .ok ()

-- `strings.ReplaceAll(s, "\\", "/")`
def withSlashes (s : String) : String :=
  .ofList (s.toList.map fun c => if c = '\\' then '/' else c)

@[irreducible]
def payloadModName (payload : Fields) : String :=
  let path := getString payload "path" ""
  let filename := getString payload "filename" path
  base (withSlashes (trimSpace (getString payload "name" (getString payload "folder" filename))))

@[irreducible]
def payloadModKind (l : Library) (payload : Fields) : Option ModKind :=
  let target := getString payload "target" ""
  let kind := getString payload "kind" (getString payload "folder_type" target)
  match toLower l.lower (trimSpace kind) with
  | "mods"    => some .mods
  | "plugins" => some .plugins
  | _         =>
    let rawPath := toLower l.lower (withSlashes (getString payload "path" ""))
    if hasPrefix rawPath "plugins/" || contains rawPath "/plugins/" then some .plugins
    else if hasPrefix rawPath "mods/" || contains rawPath "/mods/" then some .mods
    else none

-- `strings.EqualFold(v, "true")` looks at letters of ASCII only.
def getBool (m : Fields) (key : String) : Bool :=
  match m.lookup key with
  | some (.bool b)       => b
  | some (.str s)        => s.toList.map Char.toLower = "true".toList || s = "1"
  | some (.num (.fin q)) => q ≠ 0
  | _                    => false

def installPath (l : Library) (cfg : InstanceConfig) : Except Err Path :=
  if cfg.installPath = "" then .error (.other "install_path required")
  else .ok (l.locate cfg.installPath)

def activeDir (install : Path) (kind : ModKind) : Path :=
  install ++ [kind.folder]

def quarantineDir (install : Path) (kind : ModKind) : Path :=
  install ++ [kind.folder, ".quarantine"]

def pendingDir (install : Path) : Path :=
  install ++ [ModKind.mods.folder, ".pending"]

-- The checks that come before any look at the files.
def onMod {α : Type} (l : Library) (cfg : InstanceConfig) (name : String) (f : Path → Disk α) :
    Disk α := do
  .ofExcept (validateModEntryName name)
  let install ← .ofExcept (installPath l cfg)
  f install

-- Looks for an entry that is not a link, in one kind after the other.
def findMod (dir : ModKind → Path) (name : String) (missing : Err) :
    List ModKind → Disk (ModKind × Path)
  | []            => .throw missing
  | kind :: kinds => do
    match ← ask (.lstat (dir kind ++ [name])) with
    | .error _ => findMod dir name missing kinds
    | .ok node =>
      if node.isLink then findMod dir name missing kinds else return (kind, dir kind ++ [name])

-- All kinds, unless one is preferred.
def kindsOf : Option ModKind → List ModKind
  | none      => [.mods, .plugins]
  | some kind => [kind]

def findActiveMod (install : Path) (name : String) (preferredKind : Option ModKind) :
    Disk (ModKind × Path) :=
  findMod (activeDir install) name (.other ("mod not found in active mods/plugins: " ++ name))
    (kindsOf preferredKind)

def findQuarantinedMod (install : Path) (name : String) (preferredKind : Option ModKind) :
    Disk (ModKind × Path) :=
  findMod (quarantineDir install) name (.other ("mod not found in quarantine: " ++ name))
    (kindsOf preferredKind)

def findPendingMod (install : Path) (name : String) : Disk Path := do
  match ← ask (.lstat (pendingDir install ++ [name])) with
  | .error _ => .throw (.other ("pending mod not found: " ++ name))
  | .ok node =>
    if node.isLink then .throw (.other ("pending mod not found: " ++ name))
    else return pendingDir install ++ [name]

-- Nothing may be at a path.
def requireFree (path : Path) (e : Err) : Disk Unit := do
  match ← ask (.lstat path) with
  | .error .notExist => return
  | _                => .throw e

def configTemplateDir (install : Path) (jarName : String) : Path :=
  install ++ [ModKind.mods.folder, ".quarantine", ".config-templates"] ++ [jarName]

def stageTemplate (destRoot : Path) : Path × Bytes → Disk Unit
  | (rel, data) => do
    send (.mkdirAll (destRoot ++ rel).dropLast)
    send (.create (destRoot ++ rel) false)
    writeAll (destRoot ++ rel) data
    send (.close (destRoot ++ rel))

-- The configurations that are `found` for a jar, in the jar and in the installation, are kept as
-- templates.
def stageConfigTemplatesForJar (install : Path) (jarName : String) (found : List (Path × Bytes)) :
    Disk Unit := do
  .ofExcept (validateModEntryName jarName)
  send (.mkdirAll (configTemplateDir install jarName))
  forEach (fun f => ignoreErrors (stageTemplate (configTemplateDir install jarName) f)) found

def quarantineMod (l : Library) (cfg : InstanceConfig) (payload : Fields)
    (found : List (Path × Bytes)) : Disk Fields :=
  let name := payloadModName payload
  onMod l cfg name fun install => do
    let (kind, src) ← findActiveMod install name (payloadModKind l payload)
    send (.mkdirAll (quarantineDir install kind))
    let dest := quarantineDir install kind ++ [name]
    requireFree dest (.other ("quarantined mod already exists: " ++ name))
    inContext "quarantine mod" (send (.rename src dest))
    ignoreErrors (stageConfigTemplatesForJar install name found)
    return [("quarantined", .str name), ("folder", .str name), ("kind", .str kind.folder)]

@[irreducible]
def isForced (payload : Fields) : Bool :=
  getBool payload "forceOverride" || getBool payload "force_override"

-- Removes an active mod that is to be replaced.
def clearActive (payload : Fields) (dest : Path) (name : String) : Disk Unit := do
  match ← ask (.lstat dest) with
  | .error .notExist => return
  | _                =>
    if isForced payload then inContext "remove active mod for override" (removeAll dest)
    else .throw (.other ("active mod already exists: " ++ name))

def restoreMod (l : Library) (cfg : InstanceConfig) (payload : Fields) : Disk Fields :=
  let name := payloadModName payload
  onMod l cfg name fun install => do
    let (kind, src) ← findQuarantinedMod install name (payloadModKind l payload)
    let dest := activeDir install kind ++ [name]
    clearActive payload dest name
    inContext "restore mod" (send (.rename src dest))
    return [("restored", .str name), ("restoredAs", .str name), ("folder", .str name),
      ("kind", .str kind.folder)]

-- The store that `DeleteMod` deletes from.
@[irreducible]
def deleteSource (l : Library) (payload : Fields) : String :=
  let source := toLower l.lower (trimSpace (getString payload "source" ""))
  let rawPath := toLower l.lower (withSlashes (getString payload "path" ""))
  if source ≠ "" then source
  else if contains rawPath ".quarantine" then "quarantine"
  else if contains rawPath ".pending" then "pending"
  else "active"

-- The source as it is reported, the folder and the path of the mod that is deleted.
def findDeleted (l : Library) (payload : Fields) (install : Path) (name : String) :
    Disk (String × String × Path) :=
  let source := deleteSource l payload
  if source = "quarantine" ∨ source = "quarantined" then do
    let (kind, path) ← findQuarantinedMod install name (payloadModKind l payload)
    return (source, kind.folder, path)
  else if source = "pending" then do
    let path ← findPendingMod install name
    return (source, "mods/.pending", path)
  else do
    let (kind, path) ← findActiveMod install name (payloadModKind l payload)
    return ("active", kind.folder, path)

def deleteMod (l : Library) (cfg : InstanceConfig) (payload : Fields) : Disk Fields :=
  let name := payloadModName payload
  onMod l cfg name fun install => do
    let (source, folder, path) ← findDeleted l payload install name
    inContext "delete mod" (removeAll path)
    return [("deleted", .str name), ("source", .str source), ("folder", .str folder)]

def approvePendingMod (l : Library) (cfg : InstanceConfig) (payload : Fields) : Disk Fields :=
  let name := payloadModName payload
  onMod l cfg name fun install => do
    let src ← findPendingMod install name
    let kind := (payloadModKind l payload).getD .mods
    send (.mkdirAll (activeDir install kind))
    let dest := activeDir install kind ++ [name]
    requireFree dest (.other ("active mod already exists: " ++ name))
    inContext "approve pending mod" (send (.rename src dest))
    return [("approved", .str name), ("folder", .str name), ("kind", .str kind.folder)]

def rejectPendingMod (l : Library) (cfg : InstanceConfig) (payload : Fields) : Disk Fields :=
  let name := payloadModName payload
  onMod l cfg name fun install => do
    let target ← findPendingMod install name
    inContext "reject pending mod" (removeAll target)
    return [("rejected", .str name)]

-- A program whose error is a result as well.
def attempt {α : Type} (prog : Disk α) : Disk (Except Err α) :=
  Prog.handle (do return .ok (← prog)) fun e => return .error e

@[irreducible]
def uploadName (payload : Fields) : String :=
  let name := getString payload "originalName" (getString payload "name" "")
  let filename := trimSpace (getString payload "filename" name)
  base (if filename = "" then "uploaded-mod.jar" else filename)

-- What has been created is removed after an error.
def finishCopy (dst : Path) : Except Err Unit → Disk Unit
  | .ok _    => return
  | .error e => do
    ignoreErrors (send (.remove dst))
    .throw e

def copyFile (src dst : Path) : Disk Unit := do
  let info ← inContext "open source" (send (.lstat src))
  match info with
  | .file _ =>
    send (.open src)
    send (.create dst true)
    let copied ← attempt do
      let data ← send (.read src)
      writeAll dst data
    let closed ← ask (.close dst)
    finishCopy dst (copied.bind fun _ => closed)
  | _ => .throw (.other "source must be a regular file")

-- `os.WriteFile`
def writeFile (dst : Path) (data : Bytes) : Disk Unit := do
  send (.create dst false)
  let written ← attempt (writeAll dst data)
  let closed ← ask (.close dst)
  .ofExcept (written.bind fun _ => closed)

def storeFile (l : Library) (sourcePath filename : String) (destRoot : Path) :
    Disk (List String) := do
  .ofExcept (validateModEntryName filename)
  requireFree (destRoot ++ [filename]) (.other ("mod already exists: " ++ filename))
  copyFile (l.locate sourcePath) (destRoot ++ [filename])
  return [filename]

def storeInline (l : Library) (b64 filename : String) (destRoot : Path) : Disk (List String) := do
  .ofExcept (validateModEntryName filename)
  requireFree (destRoot ++ [filename]) (.other ("mod already exists: " ++ filename))
  match l.decode b64 with
  | none      => .throw (.other "decode base64")
  | some data =>
    writeFile (destRoot ++ [filename]) data
    return [filename]

def openZip (l : Library) (zip : Path) : Disk (List ZipEntry) := do
  send (.open zip)
  let data ← send (.read zip)
  match l.unzip data with
  | none         => .throw (.other "zip: not a valid zip file")
  | some entries => return entries

def ZipEntry.modName (e : ZipEntry) : String :=
  base e.name

def isJar (l : Library) (e : ZipEntry) : Bool :=
  !e.isDir && hasSuffix (toLower l.lower e.modName) ".jar" && (validateModEntryName e.modName).isOk

-- The copy of an entry ends where it cannot be read any more.
def copyEntry (zip dst : Path) (e : ZipEntry) : Disk Unit := do
  let _ ← send (.read zip)
  writeAll dst e.data
  if e.intact then return else .throw (.other "zip: checksum error")

def extractJar (zip dst : Path) (e : ZipEntry) : Disk Unit := do
  requireFree dst (.other ("mod already exists: " ++ e.modName))
  let _ ← send (.read zip)
  if e.opens then
    send (.create dst true)
    let copied ← attempt (copyEntry zip dst e)
    ignoreErrors (send (.close dst))
    finishCopy dst copied
  else .throw (.other "zip: unsupported compression algorithm")

def extractJars (l : Library) (zip destRoot : Path) : List ZipEntry → Disk (List String)
  | []           => return []
  | e :: entries =>
    if isJar l e then do
      extractJar zip (destRoot ++ [e.modName]) e
      let folders ← extractJars l zip destRoot entries
      return e.modName :: folders
    else extractJars l zip destRoot entries

def extractJarsFromZip (l : Library) (zip destRoot : Path) : Disk (List String) := do
  let entries ← inContext "open zip" (openZip l zip)
  let folders ← extractJars l zip destRoot entries
  if folders = [] then .throw (.other "zip contained no .jar mods") else return folders

@[irreducible]
def isArchive (l : Library) (sourcePath filename : String) : Bool :=
  hasSuffix (toLower l.lower sourcePath) ".zip" || hasSuffix (toLower l.lower filename) ".zip"

@[irreducible]
def storeUpload (l : Library) (payload : Fields) (destRoot : Path) : Disk (List String) :=
  let filename := uploadName payload
  match uploadSource payload with
  | .error e           => .throw (.other e)
  | .ok (.inline b64)  => storeInline l b64 filename destRoot
  | .ok (.file source) =>
    if isArchive l source filename then extractJarsFromZip l (l.locate source) destRoot
    else storeFile l source filename destRoot

def uploadKind (l : Library) (payload : Fields) : ModKind :=
  (payloadModKind l payload).getD .mods

def uploadDir (l : Library) (install : Path) (payload : Fields) (isPending : Bool) : Path :=
  if isPending then pendingDir install else quarantineDir install (uploadKind l payload)

def uploadReport (l : Library) (payload : Fields) (isPending : Bool)
    (folders : List String) : Fields :=
  [("folders", .arr (folders.map .str)), ("count", .num (.fin folders.length)),
    ("name", .str (uploadName payload)), ("kind", .str (uploadKind l payload).folder)] ++
  if isPending then [("pending", .bool true)]
  else [("quarantined", .bool true), ("folder", .str (folders.headD ""))]

def stageUploadedJars (install : Path) (found : String → List (Path × Bytes))
    (folders : List String) : Disk Unit :=
  forEach (fun name => ignoreErrors (stageConfigTemplatesForJar install name (found name))) folders

def uploadMod (l : Library) (cfg : InstanceConfig) (payload : Fields) (isPending : Bool)
    (found : String → List (Path × Bytes)) : Disk Fields := do
  let install ← .ofExcept (installPath l cfg)
  send (.mkdirAll (uploadDir l install payload isPending))
  let folders ← storeUpload l payload (uploadDir l install payload isPending)
  stageUploadedJars install found (if isPending then [] else folders)
  return uploadReport l payload isPending folders

end Agent
