import Mastermind.Agent.Saves
import Mastermind.Effects.System

open Effects Prog Files Js

namespace Agent

-- A server with the backups that have been made successfully and have been neither deleted nor pruned:
-- their ids, and the worlds as they were.
structure Backups where
  fs   : Fs
  made : List (String × Tree) := []

-- What happens to the world and to its backups. The players change the world, and the game or its
-- owner may also remove it.
inductive SaveEvent
  | backup  (now : ℤ) (fates : List Fate)
  | restore (payload : Fields) (fates : List Fate)
  | delete  (payload : Fields)
  | prune   (retention : ℤ) (modTime : String → ℤ)
  | change  (world : Option Fs)

namespace SaveEvent

variable (p : Place) (s : Fs)

def apply : SaveEvent → Fs
  | backup now fates        => ((backupWorld p now).run fates s).state
  | restore payload fates   => ((restoreSave p payload).run fates s).state
  | delete payload          => ((deleteSaveBackup p payload).run [] s).state
  | prune retention modTime => ((pruneSaveBackups p retention modTime).run [] s).state
  | change world            => if h : s.HasRoom p.world then s.replace p.world world h else s

def makes : SaveEvent → List (String × Tree)
  | backup now fates =>
    if ((backupWorld p now).run fates s).result.isOk then [(backupName p now, s.tree p.world)] else []
  | _                => []

def removes : SaveEvent → Bool
  | delete _  => true
  | prune _ _ => true
  | _         => false

end SaveEvent

@[reducible]
def backingUp (p : Place) : System where
  State := Backups
  Event := SaveEvent
  next s e :=
    let fs := e.apply p s.fs
    let isLeft (b : String × Tree) := !e.removes || (fs.get (p.backups ++ [b.1])).isSome
    { fs, made := (s.made ++ e.makes p s.fs).filter isLeft }

end Agent
