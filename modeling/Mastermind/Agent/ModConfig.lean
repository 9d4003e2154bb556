import Mastermind.Agent.Config
import Mastermind.Files.Disk
import Mastermind.Text.Paths

open Effects Prog Utf8 Filepath
open Files (Err)

namespace Agent

-- Names of files are sequences of bytes, which need not be texts.
def text (s : String) : Bytes :=
  encode s.toList

-- `strings.ToLower`. A byte with which no character begins becomes U+FFFD.
def lowerBytes (lower : Char → Char) (bs : Bytes) : Bytes :=
  encode ((decode bs).map lower)

-- The encodings of the white space of Unicode.
def spaces : List Bytes :=
  (List.range' 9 5 ++ [0x20, 0x85, 0xA0, 0x1680] ++ List.range' 0x2000 11 ++
    [0x2028, 0x2029, 0x202F, 0x205F, 0x3000]).map fun n => encode [Char.ofNat n]

-- Removes at most `n` characters of white space.
def trimLeft : Nat → Bytes → Bytes
  | 0, bs     => bs
  | n + 1, bs =>
    match spaces.find? (· <+: bs) with
    | some space => trimLeft n (bs.drop space.length)
    | none       => bs

def trimRight : Nat → Bytes → Bytes
  | 0, bs     => bs
  | n + 1, bs =>
    match spaces.find? (· <:+ bs) with
    | some space => trimRight n (bs.take (bs.length - space.length))
    | none       => bs

-- `strings.TrimSpace`
def trimBytes (bs : Bytes) : Bytes :=
  trimRight bs.length (trimLeft bs.length bs)

def maxModConfigBytes : Nat := 256 * 1024

def editableModConfigExtensions : List Bytes :=
  [".toml", ".json", ".cfg", ".conf", ".properties", ".ini", ".xml", ".snbt", ".txt"].map text

def pathInside (root target : Bytes) : Bool :=
  clean target = clean root || (clean root ++ [sep]) <+: clean target

def isEditableInstallConfig (lower : Char → Char) (rel : Bytes) : Bool :=
  let clean := clean rel
  if clean = [dot] || isAbs clean || up <:+: clean then false
  else if !(text "config/" <+: clean) && !(text "defaultconfigs/" <+: clean) then false
  else if !editableModConfigExtensions.contains (lowerBytes lower (ext clean)) then false
  else
    let base := lowerBytes lower (Filepath.base clean)
    !(text "." <+: base) && !(text ".bak" <:+ base)

structure FileInfo where
  regular : Bool
  symlink : Bool
  size    : Nat

-- A file of an archive, which may not be readable.
structure ZipFile where
  name  : Bytes
  isDir : Bool
  data  : Bytes
  opens : Bool

-- The files of a host by their paths, and the archives among them.
structure Host where
  info    : Bytes → Option FileInfo
  archive : Bytes → Option (List ZipFile)

def Host.put (s : Host) (p : Bytes) (info : FileInfo) : Host :=
  { s with info := Function.update s.info p (some info) }

namespace Os

inductive Cmd
  | lstat      (p : Bytes)
  | openReader (jar : Bytes)
  | mkdirAll   (p : Bytes)
  | openEntry  (file : ZipFile)
  | openFile   (p : Bytes)
  | copy       (p : Bytes) (file : ZipFile)

@[reducible]
def Cmd.Ans : Cmd → Type
  | .lstat _      => FileInfo
  | .openReader _ => List ZipFile
  | _             => Unit

def exec : (c : Cmd) → Host → Except Err c.Ans × Host
  | .lstat p, s =>
    match s.info p with
    | none      => (.error .notExist, s)
    | some info => (.ok info, s)
  | .openReader jar, s =>
    match s.archive jar with
    | none       => (.error (.other "not a valid zip file"), s)
    | some files => (.ok files, s)
  | .mkdirAll p, s =>
    match s.info p with
    | none      => (.ok (), s.put p { regular := false, symlink := false, size := 0 })
    | some info => (if info.regular then .error (.other "not a directory") else .ok (), s)
  | .openEntry file, s => (if file.opens then .ok () else .error (.other "unsupported"), s)
  | .openFile p, s => (.ok (), s.put p { regular := true, symlink := false, size := 0 })
  | .copy p file, s =>
    let size := min file.data.length (maxModConfigBytes + 1)
    (.ok (), s.put p { regular := true, symlink := false, size })

end Os

@[reducible]
def os : Backend Err where
  State    := Host
  Cmd      := Os.Cmd
  Ans      := Os.Cmd.Ans
  exec     := Os.exec
  fault    := .other "input/output error"
  local? _ := false

def resolveInstallConfigPath (lower : Char → Char) (installPath relativePath : Bytes)
    (allowMissing : Bool) : Prog os Bytes :=
  if installPath = [] then .throw (.other "install_path required")
  else
    let rel := clean (trimBytes relativePath)
    if !isEditableInstallConfig lower rel then
      .throw (.other "invalid or unsupported mod config path")
    else
      let target := clean (join installPath rel)
      if !pathInside installPath target then
        .throw (.other "mod config path is outside install root")
      else
        Prog.call (B := os) (.lstat target) fun
          | .error e =>
            if allowMissing && e = .notExist then return target
            else .throw (e.wrap "mod config not found")
          | .ok info =>
            if !info.regular || info.symlink then
              .throw (.other "mod config must be a regular file")
            else if info.size > maxModConfigBytes then
              .throw (.other "mod config exceeds 256 KiB editor limit")
            else return target

-- Where an entry of an archive is put, below the root of the templates.
def configPath (lower : Char → Char) (name : Bytes) : Option Bytes :=
  let lowered := lowerBytes lower name
  if text "defaultconfigs/" <+: lowered then
    some (text "config/" ++ name.drop (text "defaultconfigs/").length)
  else if text "config/" <+: lowered && !(text ".class" <:+: lowered) then some name
  else none

-- An error leads on to the next entry.
def extractConfig (lower : Char → Char) (destRoot : Bytes) (file : ZipFile) : Prog os Unit :=
  match configPath lower file.name with
  | none     => pure ()
  | some rel =>
    if file.isDir || !isEditableInstallConfig lower rel then pure ()
    else
      let dst := join destRoot rel
      Prog.handle (do
        perform (B := os) (.mkdirAll (dir dst))
        perform (B := os) (.openEntry file)
        perform (B := os) (.openFile dst)
        perform (B := os) (.copy dst file)) fun _ => pure ()

def extractJarDefaultConfigs (lower : Char → Char) (jarPath destRoot : Bytes) : Prog os Unit := do
  let files ← perform (B := os) (.openReader jarPath)
  forEach (extractConfig lower destRoot) files

end Agent
