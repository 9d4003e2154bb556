import Mastermind.Text.Lines
import Mastermind.Text.Utf8

open Utf8

namespace Agent.ChatStream

def cr : UInt8 := 13
def lf : UInt8 := 10

-- The size of the scanner's buffer, which has to hold a line with its line feed.
def maxTokenSize : Nat := 1024 * 1024

def dropCR (line : Bytes) : Bytes :=
  if line.getLast? = some cr then line.dropLast else line

-- `bufio.ScanLines`, with the buffer of `readNewLogChunk`. What follows the last line feed is a
-- line as well, unless it is empty. There is no result if a line does not fit.
def scanLines (data : Bytes) : Option (List Bytes) :=
  if (data.splitOn lf).any (maxTokenSize ≤ ·.length) then none
  else
    let (lines, rest) := Lines.split cr lf data
    some (lines ++ if rest = [] then [] else [dropCR rest])

def chatPhrases : List String :=
  ["joined the game", "left the game", "has made the advancement", "was slain by",
    "fell from a high place"]

-- Case folding for the small letters and the blanks of the phrases.
def foldsTo (p c : Char) : Bool :=
  c.toLower = p || (p = 'k' && c = '\u212A') || (p = 's' && c = '\u017F')

def startsWith : List Char → List Char → Bool
  | [], _           => true
  | _, []           => false
  | p :: ps, c :: cs => foldsTo p c && startsWith ps cs

-- `chatishLineRe`
def isChatish (line : Bytes) : Bool :=
  chatPhrases.any fun phrase => (decode line).tails.any (startsWith phrase.toList)

def looksLikeChat (line : Bytes) : Bool :=
  ('<'.toUInt8 ∈ line && '>'.toUInt8 ∈ line) || isChatish line

-- What `followLogChat` keeps between its reads.
structure Follower where
  offset : Nat
  carry  : Bytes := []

inductive ReadError
  | notExist
  | tooLong

-- The follower after a read and the lines that are written. There is no file if it cannot be
-- opened.
def readNewLogChunk (file : Option Bytes) (f : Follower) :
    Follower × Except ReadError (List Bytes) :=
  match file with
  | none         => (f, .error .notExist)
  | some content =>
    let f := if content.length < f.offset then { offset := 0 } else f
    if content.length = f.offset then (f, .ok [])
    else
      let data := f.carry ++ content.drop f.offset
      match scanLines data with
      | none       => ({ offset := content.length }, .error .tooLong)
      | some lines =>
        if data.getLast? ≠ some lf ∧ lines ≠ [] then
          ({ offset := content.length, carry := lines.getLast?.getD [] },
            .ok (lines.dropLast.filter looksLikeChat))
        else ({ offset := content.length }, .ok (lines.filter looksLikeChat))

-- The lines that are written by a sequence of reads. Between the reads, the file grows at its end.
-- A read without anything to append finds no file.
def follow (content : Bytes) (f : Follower) : List (Option Bytes) → List Bytes
  | []                   => []
  | none :: stages       => follow content (readNewLogChunk none f).1 stages
  | some grown :: stages =>
    let read := readNewLogChunk (some (content ++ grown)) f
    (read.2.toOption.getD []) ++ follow (content ++ grown) read.1 stages

end Agent.ChatStream
