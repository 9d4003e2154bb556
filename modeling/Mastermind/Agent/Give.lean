import Mathlib.Data.List.Infix
import Mastermind.Agent.GrantItems
import Mastermind.Effects.Prog

open Effects Prog Js

namespace Agent

-- The answer to a command: what the server has replied, and the error of the connection.
structure Reply where
  out   : String
  error : Option String := none
  deriving DecidableEq

-- `(?i)` folds the letters of ASCII, and two other characters to letters of ASCII.
def foldRune (c : Char) : Char :=
  if c.toNat = 0x212A then 'k' else if c.toNat = 0x17F then 's' else c.toLower

-- `(?i)phrase|…`
def matchesPhrase (phrases : List String) (out : String) : Bool :=
  phrases.any fun phrase => phrase.toList <:+: out.toList.map foldRune

def isWordChar (c : Char) : Bool :=
  c.isAlphanum || c = '_'

-- `(?i)\bword\b`, after a character
def matchesWord (word : List Char) : Option Char → List Char → Bool
  | _, []           => false
  | before, c :: cs =>
    !before.any isWordChar && word.isPrefixOf ((c :: cs).map foldRune) &&
      !((c :: cs)[word.length]?).any isWordChar ||
    matchesWord word (some c) cs

def grantOutputMeansOffline : String → Bool :=
  matchesPhrase ["no player was found", "player not found", "must be online",
    "that player cannot be found"]

def grantOutputMeansFailed : String → Bool :=
  matchesPhrase ["there is no such item", "unknown item", "invalid item", "expected item",
    "incorrect argument", "syntax error", "unknown or incomplete command"]

def grantOutputMeansDelivered (out : String) : Bool :=
  matchesWord "gave".toList none out.toList

-- The error with which the reply to a `give` command ends the grant.
def Reply.refusal (r : Reply) : Option String :=
  match r.error with
  | some e => some e
  | none   =>
    if grantOutputMeansOffline r.out || grantOutputMeansFailed r.out then some (trimSpace r.out)
    else if grantOutputMeansDelivered r.out then none
    else if trimSpace r.out = "" then some "give produced no confirmation (player may be offline)"
    else some (trimSpace r.out)

-- The console of a server: what it is going to reply, and the commands so far with its replies.
structure Console where
  replies : Nat → Reply
  sent    : List (String × Reply) := []

@[reducible]
def rcon : Backend String where
  State       := Console
  Cmd         := String
  Ans _       := Reply
  exec cmd s  :=
    let reply := s.replies s.sent.length
    (.ok reply, { s with sent := s.sent ++ [(cmd, reply)] })
  fault       := "connection closed"
  local? _    := false

def sendCommand (cmd : String) : Prog rcon Reply :=
  perform (B := rcon) cmd

structure Granted where
  delivered : List String
  output    : String
  player    : String

def giveCommand (player : String) (item : GrantItem) : String :=
  "give " ++ player ++ " " ++ item.name ++ " " ++ toString item.quantity

-- The loop over the items, with the replies and the deliveries so far.
def giveItems (player : String) :
    List GrantItem → List String → List String → Prog rcon (List String × List String)
  | [], outputs, delivered            => return (outputs, delivered)
  | item :: items, outputs, delivered => do
    let reply ← sendCommand (giveCommand player item)
    let outputs := if trimSpace reply.out = "" then outputs else outputs ++ [reply.out]
    match reply.refusal with
    | some error => .throw error
    | none       =>
      giveItems player items outputs (delivered ++ [toString item.quantity ++ "x " ++ item.name])

-- An error of the message to the player is ignored.
def tell (player message : String) : Prog rcon Unit :=
  if message = "" then return
  else do
    let _ ← sendCommand ("tell " ++ player ++ " " ++ sanitizeRCONArg message)

def finishGrant (player message : String) (given : List String × List String) : Prog rcon Granted := do
  tell player message
  return { delivered := given.2, output := "\n".intercalate given.1, player }

def grantItems (payload : Fields) : Prog rcon Granted :=
  let player := grantPlayerTarget payload
  if player = "" then .throw "player name or uuid required"
  else
    match grantItemsFromPayload payload with
    | .error e  => .throw e
    | .ok items =>
      giveItems player items [] [] >>= finishGrant player (trimSpace (getString payload "message" ""))

-- What the agent reports for a job: its status, its output and its error message.
structure JobReport where
  status       : String
  output       : String
  errorMessage : String

def reportGrant : Result String Granted → JobReport
  | .ok _    => { status := "success", output := "", errorMessage := "" }
  | .error e => { status := "failed", output := "", errorMessage := e }
  | .ended   => { status := "failed", output := "", errorMessage := "" }

end Agent
