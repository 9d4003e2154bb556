import Mastermind.Agent.Payload
import Mastermind.ConfigMerge.Stats
import Mastermind.Slots.Index
import Mastermind.Text.Trim

namespace ConfigMerge

-- `strings.TrimSpace`
def trimSpace (s : Text) : Text :=
  Trim.trim Agent.isSpace s

structure IniEntry where
  key       : Text := []
  value     : Text := []
  sep       : Text := []
  raw       : Text
  isComment : Bool := false
  isBlank   : Bool := false
  deriving DecidableEq

structure IniSection where
  name    : Text
  entries : List IniEntry := []
  deriving DecidableEq

-- What `parseINI` reads from a line: an entry of the current section or the header of the next one.
inductive IniLine
  | entry (e : IniEntry)
  | header (name : Text)
  deriving DecidableEq

-- The entry of a line with a separator at the given index.
def keyEntry (line trimmed : Text) (idx : Nat) : IniEntry :=
  let key := trimSpace (trimmed.take idx)
  let val := trimSpace (trimmed.drop (idx + 1))
  let sepStart := key.length
  let sepEnd := idx + 1 + ((trimmed.drop (idx + 1)).takeWhile (· = ' ')).length
  { key, value := val, sep := (trimmed.take sepEnd).drop sepStart, raw := line }

def parseLine (line : Text) : IniLine :=
  let trimmed := trimSpace line
  match trimmed with
  | [] => .entry { isBlank := true, raw := line }
  | c :: rest =>
    if c = '#' ∨ c = ';' then .entry { isComment := true, raw := line }
    else if c = '[' then
      match trimmed.idxOf? ']' with
      | none     => .entry { isComment := true, raw := line }
      | some idx => .header (trimSpace (rest.take (idx - 1)))
    else
      match (trimmed.idxOf? '=').or (trimmed.idxOf? ':') with
      | none     => .entry { isComment := true, raw := line }
      | some idx => .entry (keyEntry line trimmed idx)

-- The sections of some lines, of which the first one has begun already.
def parseLines (current : IniSection) : List Text → List IniSection
  | []            => [current]
  | line :: lines =>
    match parseLine line with
    | .entry e     => parseLines { current with entries := current.entries ++ [e] } lines
    | .header name => current :: parseLines { name } lines

-- The sections of a text and what is wrong with it, which is nothing ever.
def parseINI (content : Text) : List IniSection × String :=
  (parseLines { name := [] } (content.splitOn '\n'), "")

section

-- `strings.ToLower` maps the characters by `unicode.ToLower`, which is the parameter `lower`.
variable (lower : Char → Char)

def toLower (s : Text) : Text :=
  s.map lower

-- `liveIndex`
def liveIndex (sections : List IniSection) : Text → Option IniSection :=
  Index.fill (sections.map fun sec => (toLower lower sec.name, sec))

-- `liveKV`
def liveKV (liveSec : Option IniSection) : Text → Option Text :=
  let entries := (liveSec.map (·.entries)).getD []
  Index.fill ((entries.filter (·.key ≠ [])).map fun kv => (toLower lower kv.key, kv.value))

-- The line that is written for an entry and what is counted for it.
def mergeEntry (kvs : Text → Option Text) (entry : IniEntry) : Text × MergeStats :=
  if entry.isComment then (entry.raw, 0)
  else if entry.isBlank then ([], 0)
  else
    match kvs (toLower lower entry.key) with
    | some liveVal =>
      (entry.key ++ entry.sep ++ liveVal,
        if liveVal ≠ entry.value then { carried := 1 } else 0)
    | none => (entry.raw, { newKeys := 1 })

def headerLines (name : Text) : List Text :=
  if name ≠ [] then [['['] ++ name ++ [']']] else []

def mergeSection (live : List IniSection) (tmplSec : IniSection) : List Text × MergeStats :=
  let kvs := liveKV lower (liveIndex lower live (toLower lower tmplSec.name))
  let merged := tmplSec.entries.map (mergeEntry lower kvs)
  (headerLines tmplSec.name ++ merged.map Prod.fst, (merged.map Prod.snd).sum)

-- `tmplKeySet`
def tmplKeySet (tmpl : List IniSection) (secKey key : Text) : Bool :=
  tmpl.any fun sec => toLower lower sec.name = secKey &&
    sec.entries.any fun e => e.key ≠ [] && toLower lower e.key = key

-- The keys that are in the live text only.
def countDropped (tmpl live : List IniSection) : Nat :=
  (live.map fun sec => sec.entries.countP fun e =>
    e.key ≠ [] && !tmplKeySet lower tmpl (toLower lower sec.name) (toLower lower e.key)).sum

def mergeINI (path templateContent liveContent : Text) : MergeResult :=
  let (tmplSections, tmplErr) := parseINI templateContent
  let (liveSections, liveErr) := parseINI liveContent
  if tmplErr ≠ "" then
    { path, mergedContent := templateContent, parseFormat := "ini",
      warning := "template INI parse issue: " ++ tmplErr, skipped := true }
  else if liveErr ≠ "" then
    { path, mergedContent := templateContent, parseFormat := "ini",
      warning := "live INI parse issue: " ++ liveErr, skipped := true }
  else
    let merged := tmplSections.map (mergeSection lower liveSections)
    let dropped := countDropped lower tmplSections liveSections
    { path, parseFormat := "ini",
      mergedContent := (merged.flatMap Prod.fst).flatMap (· ++ ['\n']),
      stats := (merged.map Prod.snd).sum + { dropped } }

end

end ConfigMerge
