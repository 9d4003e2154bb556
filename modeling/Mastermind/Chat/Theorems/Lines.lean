import Mathlib.Data.Bool.AllAny
import Mastermind.Chat.Service

open Js
open Players (firstMatch sliceEnd splitChars splitLines)

namespace Chat

def pad (n : Nat) : List Char :=
  [Nat.digitChar (n / 10), Nat.digitChar (n % 10)]

-- A line `[HH:MM:SS] [thread/LEVEL]: <Name> message` of a server's log.
structure ChatLine where
  hours         : Fin 24
  minutes       : Fin 60
  seconds       : Fin 60
  source        : List Char
  name          : List Char
  message       : List Char
  source_plain  : ∀ c ∈ source, c ≠ ']' ∧ c ≠ '\n' ∧ c ≠ '\r'
  name_plain    : ∀ c ∈ name, c ≠ '>' ∧ c ≠ '\n' ∧ c ≠ '\r'
  name_size     : (name.flatMap unitsOf).length ≤ 32
  name_text     : trimChars name ≠ []
  message_plain : ∀ c ∈ message, isTerminator c = false
  message_text  : trimChars (message.filter (!isControl ·)) ≠ []

namespace ChatLine

variable (line : ChatLine)

-- The time of day.
def clock : Fin 24 × Fin 60 × Fin 60 :=
  (line.hours, line.minutes, line.seconds)

-- `HH:MM:SS`
def time : List Char :=
  pad line.hours ++ ':' :: pad line.minutes ++ ':' :: pad line.seconds

def stamp : List Char :=
  '[' :: line.time ++ [']']

def chars : List Char :=
  line.stamp ++ ' ' :: '[' :: line.source ++
    ']' :: ':' :: ' ' :: '<' :: (line.name ++ '>' :: ' ' :: line.message)

-- What the line says.
def text : ChatText where
  playerId     := .ofList line.name
  playerName   := slice (.ofList (trimChars line.name)) 128
  message      := cleanMessage line.message
  logTimestamp := .ofList line.stamp

end ChatLine

section

variable {c : Char} {cs a b : List Char} {line : ChatLine}

theorem ofUnits_ne_nil {us : List Nat} (h : us ≠ []) : ofUnits us ≠ [] := by
  fun_cases ofUnits us <;> simp_all

theorem slice_ne_empty {n : Nat} (h : cs ≠ []) : slice (.ofList cs) (n + 1) ≠ "" := by
  have hu : (units (.ofList cs)).take (n + 1) ≠ [] := by
    cases cs
    case nil => exact absurd rfl h
    case cons c cs =>
      rw [units, String.toList_ofList, List.flatMap_cons, unitsOf]
      split <;> simp
  intro hs
  exact ofUnits_ne_nil hu (by simpa [slice] using congrArg String.toList hs)

theorem expect_append {text : String} : expect text (text.toList ++ cs) = some cs := by
  simp [expect]

theorem expect_cons {text : String} (h : text.toList.head? ≠ some c) (hn : text.toList ≠ []) :
    expect text (c :: cs) = none := by
  rw [expect]
  cases ht : text.toList
  case nil => exact absurd ht hn
  case cons d ds =>
    have hd : d ≠ c := fun hd => h (by rw [ht, hd]; rfl)
    simp [List.isPrefixOf, hd]

theorem scanChat_cons (h : c ≠ ']') : scanChat (c :: cs) = none := by
  have he : expect "]:" (c :: cs) = none := expect_cons (fun hc => h (Option.some.inj hc).symm) nofun
  rw [scanChat, he]
  rfl

-- A match does not begin where there is no closing bracket.
theorem firstMatch_append (h : ∀ c ∈ a, c ≠ ']') :
    firstMatch scanChat (a ++ b) = firstMatch scanChat b := by
  induction a
  case nil => rfl
  case cons c a hi =>
    have ⟨hc, ha⟩ := List.forall_mem_cons.mp h
    rw [List.cons_append, firstMatch, scanChat_cons hc, Option.none_or, hi ha]

theorem pad_plain (n : Fin 60) : ∀ c ∈ pad n, c ≠ ']' ∧ c ≠ '\n' ∧ c ≠ '\r' ∧ isSpace c = false := by
  simp only [← List.all_iff_forall_prop]
  revert n
  decide +kernel

theorem pad_inj {m n : Nat} (hm : m < 60) (hn : n < 60) (h : pad m = pad n) : m = n := by
  have hd : ∀ a b : Fin 10, Nat.digitChar a = Nat.digitChar b → a = b := by decide
  have ⟨hq, hr⟩ : Nat.digitChar (m / 10) = Nat.digitChar (n / 10) ∧
      Nat.digitChar (m % 10) = Nat.digitChar (n % 10) := by simpa [pad] using h
  have hq := congrArg Fin.val (hd ⟨m / 10, by omega⟩ ⟨n / 10, by omega⟩ hq)
  have hr := congrArg Fin.val (hd ⟨m % 10, by omega⟩ ⟨n % 10, by omega⟩ hr)
  simp only at hq hr
  omega

-- The stamp of a line tells the time of day.
theorem stamp_inj {line line' : ChatLine} : line.stamp = line'.stamp ↔ line.clock = line'.clock := by
  constructor
  case mp =>
    intro h
    have h : pad line.hours = pad line'.hours ∧ pad line.minutes = pad line'.minutes ∧
        pad line.seconds = pad line'.seconds := by
      simpa [ChatLine.stamp, ChatLine.time, pad, and_assoc] using h
    have hh := pad_inj (by omega) (by omega) h.1
    have hm := pad_inj (by omega) (by omega) h.2.1
    have hs := pad_inj (by omega) (by omega) h.2.2
    exact Prod.ext (Fin.ext hh) (Prod.ext (Fin.ext hm) (Fin.ext hs))
  case mpr =>
    intro h
    have ⟨hh, h⟩ := Prod.mk.inj h
    have ⟨hm, hs⟩ := Prod.mk.inj h
    simp only [ChatLine.stamp, ChatLine.time, hh, hm, hs]

theorem time_plain (line : ChatLine) :
    ∀ c ∈ line.time, c ≠ ']' ∧ c ≠ '\n' ∧ c ≠ '\r' ∧ isSpace c = false := by
  have hh := pad_plain (line.hours.castLE (by decide))
  have hm := pad_plain line.minutes
  have hs := pad_plain line.seconds
  simp only [ChatLine.time, List.mem_append, List.mem_cons]
  rintro c ((h | rfl | h) | rfl | h)
  case inl.inl       => exact hh c h
  case inl.inr.inl   => decide
  case inl.inr.inr   => exact hm c h
  case inr.inl       => decide
  case inr.inr       => exact hs c h

theorem trimChars_append (h : ∀ c ∈ a, isSpace c = true) : trimChars (a ++ b) = trimChars b := by
  rw [trimChars, List.dropWhile_append_of_pos h, trimChars]

theorem all_of_dropWhile_eq_nil {p : Char → Bool} (h : cs.dropWhile p = []) : ∀ c ∈ cs, p c = true := by
  intro c hc
  rw [List.dropWhile_eq_nil_iff] at h
  exact h c hc

-- The white space before a message does not belong to it.
theorem trimChars_filter {p : Char → Bool} :
    trimChars ((cs.dropWhile isSpace).filter p) = trimChars (cs.filter p) := by
  conv_rhs => rw [← List.takeWhile_append_dropWhile (p := isSpace) (l := cs), List.filter_append]
  exact (trimChars_append fun c hc => List.mem_takeWhile_imp (List.mem_filter.mp hc).1).symm

theorem cleanMessage_dropWhile : cleanMessage (cs.dropWhile isSpace) = cleanMessage cs := by
  simp [cleanMessage, trim, trimChars_filter]

theorem scanMessage_plain (hp : ∀ c ∈ cs, isTerminator c = false)
    (ht : trimChars (cs.filter (!isControl ·)) ≠ []) :
    scanMessage (' ' :: cs) = some (cs.dropWhile isSpace) := by
  have hd : (' ' :: cs).dropWhile isSpace = cs.dropWhile isSpace := rfl
  have hn : cs.dropWhile isSpace ≠ [] := by
    intro h
    refine ht (trimChars_eq_nil_iff.mpr fun c hc => ?_)
    exact all_of_dropWhile_eq_nil h c (List.mem_filter.mp hc).1
  have ha : (cs.dropWhile isSpace).any isTerminator = false := by
    rw [List.any_eq_false]
    exact fun c hc => by simp [hp c ((List.dropWhile_suffix _).subset hc)]
  have hs : (' ' :: cs).head?.any isSpace = true := rfl
  simp only [scanMessage, hs, hd, hn, ha, if_true, if_false, false_or, Bool.false_eq_true]

theorem scanChat_chars (line : ChatLine) :
    scanChat (']' :: ':' :: ' ' :: '<' :: (line.name ++ '>' :: ' ' :: line.message)) =
      some (line.name, line.message.dropWhile isSpace) := by
  have hn : line.name ≠ [] := fun h => line.name_text (by rw [h]; rfl)
  have hc : line.name.contains '\n' = false := by
    simpa using fun hm => (line.name_plain _ hm).2.1 rfl
  have hg : ∀ c ∈ line.name, decide (c ≠ '>') = true := fun c hc => by simp [(line.name_plain c hc).1]
  have ht : (line.name ++ '>' :: ' ' :: line.message).takeWhile (· ≠ '>') = line.name := by
    rw [List.takeWhile_append_of_pos hg, List.takeWhile_cons_of_neg (by simp), List.append_nil]
  have hd : (line.name ++ '>' :: ' ' :: line.message).dropWhile (· ≠ '>') = '>' :: ' ' :: line.message := by
    rw [List.dropWhile_append_of_pos hg, List.dropWhile_cons_of_neg (by simp)]
  have he {a : List Char} : expect "]:" (']' :: ':' :: a) = some a := expect_append
  have ho {a : List Char} : expect "<" ('<' :: a) = some a := expect_append
  have hg {a : List Char} : expect ">" ('>' :: a) = some a := expect_append
  have hs {a : List Char} : expect "[Not Secure]" ('<' :: a) = none := expect_cons nofun nofun
  have hw {a : List Char} : (' ' :: '<' :: a).dropWhile isSpace = '<' :: a := rfl
  have hl : ¬32 < (line.name.flatMap unitsOf).length := Nat.not_lt.mpr line.name_size
  have hm := scanMessage_plain line.message_plain line.message_text
  simp only [scanChat, he, hw, hs, ho, ht, hd, hg, hm, hn, hc, hl, Option.bind_eq_bind, Option.bind_some,
    Option.map_none, Option.getD_none, Bool.false_eq_true, or_self, if_false]
  rfl

theorem mem_chars (h : c ∈ line.chars) : c ≠ '\n' ∧ c ≠ '\r' := by
  have hs {c : Char} (h : c ∈ line.stamp) : c ≠ '\n' ∧ c ≠ '\r' := by
    simp only [ChatLine.stamp, List.mem_append, List.mem_cons, List.not_mem_nil, or_false] at h
    obtain (rfl | h) | rfl := h
    case inl.inl => decide
    case inl.inr => exact ⟨(time_plain line c h).2.1, (time_plain line c h).2.2.1⟩
    case inr     => decide
  have hm (h : c ∈ line.message) : c ≠ '\n' ∧ c ≠ '\r' := by
    have := line.message_plain c h
    simp only [isTerminator, Bool.or_eq_false_iff, decide_eq_false_iff_not] at this
    exact this.1.1
  simp only [ChatLine.chars, List.mem_append, List.mem_cons] at h
  obtain (h | rfl | rfl | h) | rfl | rfl | rfl | rfl | h | rfl | rfl | h := h
  case inl.inl => exact hs h
  case inl.inr.inr.inr => exact (line.source_plain c h).2
  case inr.inr.inr.inr.inr.inl => exact (line.name_plain c h).2
  case inr.inr.inr.inr.inr.inr.inr.inr => exact hm h
  all_goals decide

theorem firstMatch_chars (line : ChatLine) :
    firstMatch scanChat line.chars = some (line.name, line.message.dropWhile isSpace) := by
  have ht : ∀ c ∈ '[' :: line.time, c ≠ ']' :=
    List.forall_mem_cons.mpr ⟨by decide, fun c hc => (time_plain line c hc).1⟩
  have hs : ∀ c ∈ ' ' :: '[' :: line.source, c ≠ ']' :=
    List.forall_mem_cons.mpr ⟨by decide, List.forall_mem_cons.mpr
      ⟨by decide, fun c hc => (line.source_plain c hc).1⟩⟩
  -- The bracket after the time has no colon after it.
  have he {a : List Char} : scanChat (']' :: ' ' :: a) = none := rfl
  calc firstMatch scanChat line.chars
      = firstMatch scanChat (('[' :: line.time) ++ (']' :: ((' ' :: '[' :: line.source) ++
          (']' :: ':' :: ' ' :: '<' :: (line.name ++ '>' :: ' ' :: line.message))))) := by
        simp [ChatLine.chars, ChatLine.stamp]
    _ = firstMatch scanChat ((' ' :: '[' :: line.source) ++
          (']' :: ':' :: ' ' :: '<' :: (line.name ++ '>' :: ' ' :: line.message))) := by
        rw [firstMatch_append ht, firstMatch, List.cons_append, he, Option.none_or]
    _ = some (line.name, line.message.dropWhile isSpace) := by
        rw [firstMatch_append hs, firstMatch, scanChat_chars, Option.some_or]

theorem takeWhile_chars (line : ChatLine) : line.chars.takeWhile (!isSpace ·) = line.stamp := by
  have hs : ∀ c ∈ line.stamp, (!isSpace c) = true := by
    simp only [ChatLine.stamp, List.mem_append, List.mem_cons, List.not_mem_nil, or_false]
    rintro c ((rfl | h) | rfl)
    case inl.inl => decide
    case inl.inr => simp [(time_plain line c h).2.2.2]
    case inr     => decide
  rw [ChatLine.chars, List.append_assoc, List.takeWhile_append_of_pos hs, List.cons_append,
    List.takeWhile_cons_of_neg (by decide), List.append_nil]

-- A line is read as what it says.
theorem parseChatLine_chars (line : ChatLine) : parseChatLine (.ofList line.chars) = some line.text := by
  have hn : slice (.ofList (trimChars line.name)) 128 ≠ "" := slice_ne_empty line.name_text
  have hm : cleanMessage line.message ≠ "" := by
    rw [cleanMessage, trim, String.toList_ofList]
    exact slice_ne_empty line.message_text
  have ht : trim (.ofList line.name) = .ofList (trimChars line.name) := by
    rw [trim, String.toList_ofList]
  simp only [parseChatLine, String.toList_ofList, firstMatch_chars, takeWhile_chars,
    cleanMessage_dropWhile, ht, hn, hm, Option.bind_eq_bind, Option.bind_some, or_self, if_false]
  rfl

end

section

variable {c : Char} {a b cs : List Char}

theorem splitChars_cons (hn : c ≠ '\n') (hr : c = '\r' → cs.head? ≠ some '\n') :
    splitChars (c :: cs) =
      match splitChars cs with
      | ([], last)      => ([], c :: last)
      | (l :: ls, last) => ((c :: l) :: ls, last) := by
  rcases hs : splitChars cs with ⟨_ | _, _⟩
  all_goals
    rw [splitChars, hs]
    case x_1 => exact hn
    case x_2 =>
      rintro cs rfl rfl
      exact hr rfl rfl

-- A text without a line end is all unfinished.
theorem splitChars_unfinished (h : (splitChars a).1 = []) : (splitChars a).2 = a := by
  fun_induction splitChars a
  case case1 => rfl
  case case2 => nomatch h
  case case3 => nomatch h
  case case4 c cs _ _ last hs hi =>
    rw [hs] at hi
    rw [← hi rfl]
  case case5 => nomatch h

-- What a text is split into does not depend on the chunks that it comes in.
theorem splitChars_append :
    splitChars (a ++ b) = ((splitChars a).1 ++ (splitChars ((splitChars a).2 ++ b)).1,
      (splitChars ((splitChars a).2 ++ b)).2) := by
  fun_induction splitChars a
  case case1 => rfl
  case case2 cs hi =>
    rw [List.cons_append, splitChars, hi]
    rfl
  case case3 cs hi =>
    rw [List.cons_append, List.cons_append, splitChars, hi]
    rfl
  case case4 c cs _ _ last hs hi =>
    have hl := splitChars_unfinished (a := cs) (by rw [hs])
    rw [hs] at hl
    rw [show last = cs from hl]
    rfl
  case case5 c cs hn hr l ls last hs hi =>
    have hr : c = '\r' → (cs ++ b).head? ≠ some '\n' := by
      rintro rfl hh
      cases cs
      case nil => nomatch hs
      case cons d cs =>
        cases hh
        exact hr cs rfl rfl
    rw [List.cons_append, splitChars_cons hn hr, hi, hs]
    rfl

-- The ends of the lines of a log, which depend on the server's platform.
inductive LineEnd
  | lf
  | crlf

def LineEnd.chars : LineEnd → List Char
  | lf   => ['\n']
  | crlf => ['\r', '\n']

theorem splitChars_line {e : LineEnd} (h : ∀ c ∈ a, c ≠ '\n' ∧ c ≠ '\r') :
    splitChars (a ++ (e.chars ++ b)) = (a :: (splitChars b).1, (splitChars b).2) := by
  induction a
  case nil => cases e <;> rfl
  case cons c a hi =>
    have ⟨⟨hn, hr⟩, ha⟩ := List.forall_mem_cons.mp h
    rw [List.cons_append, splitChars_cons hn (absurd · hr), hi ha]

-- What a server writes.
def written (e : LineEnd) (lines : List ChatLine) : List Char :=
  lines.flatMap fun line => line.chars ++ e.chars

theorem splitChars_written {e : LineEnd} {lines : List ChatLine} :
    splitChars (written e lines) = (lines.map ChatLine.chars, []) := by
  induction lines
  case nil => rfl
  case cons line lines hi =>
    rw [written, List.flatMap_cons, List.append_assoc, splitChars_line fun c => mem_chars,
      show lines.flatMap _ = written e lines from rfl, hi]
    rfl

-- The lines that are complete after each chunk of a log.
def completed : String → List String → List String
  | _, []                     => []
  | buffer, content :: chunks =>
    (splitLines (buffer ++ content)).1 ++ completed (splitLines (buffer ++ content)).2 chunks

-- No chunk ends more than 4096 units into a line.
def Kept : String → List String → Prop
  | _, []                     => True
  | buffer, content :: chunks =>
    (units (splitLines (buffer ++ content)).2).length ≤ 4096 ∧
      Kept (splitLines (buffer ++ content)).2 chunks

theorem sliceEnd_eq_self {s : String} {n : Nat} (h : (units s).length ≤ n) : sliceEnd s n = s := by
  rw [sliceEnd, Nat.sub_eq_zero_of_le h, List.drop_zero, units, ofUnits_flatMap_unitsOf,
    String.ofList_toList]

theorem splitChars_rest : (splitChars (splitChars a).2).1 = [] := by
  have h := congrArg Prod.fst (splitChars_append (a := a) (b := []))
  simpa using h

theorem toList_splitLines {s : String} :
    ((splitLines s).1.map String.toList = (splitChars s.toList).1) ∧
      (splitLines s).2.toList = (splitChars s.toList).2 := by
  simp [splitLines, Function.comp_def]

theorem completed_eq {buffer : String} {chunks : List String}
    (hb : (splitChars buffer.toList).1 = []) :
    (completed buffer chunks).map String.toList =
      (splitChars (buffer.toList ++ chunks.flatMap String.toList)).1 := by
  induction chunks generalizing buffer
  case nil => simp [completed, hb]
  case cons content chunks hi =>
    have ⟨hl, hr⟩ := toList_splitLines (s := buffer ++ content)
    have hb : (splitChars (splitLines (buffer ++ content)).2.toList).1 = [] := by
      rw [hr, splitChars_rest]
    rw [completed, List.map_append, hi hb, hl, hr, List.flatMap_cons, ← List.append_assoc,
      ← String.toList_append, splitChars_append (a := (buffer ++ content).toList)]

-- The chunks of a log carry the lines that the server has written.
theorem completed_written {e : LineEnd} {lines : List ChatLine} {chunks : List String}
    (h : chunks.flatMap String.toList = written e lines) :
    (completed "" chunks).filterMap parseChatLine = lines.map ChatLine.text := by
  have hc : (completed "" chunks).map String.toList =
      (splitChars ("".toList ++ chunks.flatMap String.toList)).1 := completed_eq rfl
  rw [String.toList_empty, List.nil_append, h, splitChars_written] at hc
  have hc : completed "" chunks = lines.map fun line => .ofList line.chars := by
    have := congrArg (List.map String.ofList) hc
    simpa [Function.comp_def] using this
  rw [hc, List.filterMap_map, ← List.filterMap_eq_map]
  congr 1
  funext line
  exact parseChatLine_chars line

end

end Chat
