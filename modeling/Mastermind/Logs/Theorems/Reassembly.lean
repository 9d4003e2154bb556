import Mastermind.Chat.Theorems.Recorded
import Mastermind.Players.Theorems.Buffered
import Mastermind.Players.Theorems.Evaluations
import Mastermind.Players.Theorems.FirstJoin
import Mastermind.Text.Lines

open Effects Effects.Prog Js Jobs
open Players (sliceEnd splitChars splitLines)

namespace Logs

-- The lines of a server among those that were noted.
def linesOf (id : ServerId) (notes : List (ServerId × String)) : List String :=
  (notes.filter fun (id', _) => id' = id).map Prod.snd

theorem linesOf_append {id : ServerId} {notes notes' : List (ServerId × String)} :
    linesOf id (notes ++ notes') = linesOf id notes ++ linesOf id notes' := by
  rw [linesOf, List.filter_append, List.map_append, linesOf, linesOf]

theorem linesOf_map {id id' : ServerId} {lines : List String} :
    linesOf id (lines.map (id', ·)) = if id' = id then lines else [] := by
  rw [linesOf, List.filter_map]
  by_cases h : id' = id <;> simp [h, Function.comp_def]

-- `lines.pop()?.slice(-4096)`
def keep (cs : List Char) : List Char :=
  (sliceEnd (.ofList cs) 4096).toList

-- The lines of a text have at most 4096 units.
def ShortLines (text : List Char) : Prop :=
  Lines.Short '\n' (fun cs => (cs.flatMap unitsOf).length) 4096 text

theorem splitChars_eq {cs : List Char} : splitChars cs = Lines.split '\r' '\n' cs := by
  fun_induction splitChars cs
  case case1 => rfl
  case case2 cs hi => rw [Lines.split, if_pos rfl, hi]
  case case3 cs hi => rw [Lines.split, if_neg (by decide), if_pos ⟨rfl, rfl⟩, Lines.split, if_pos rfl, hi]
  case case4 c cs hn hr last hs hi =>
    have hh : ¬(c = '\r' ∧ cs.head? = some '\n') := by
      rintro ⟨rfl, hh⟩
      cases cs <;> cases hh
      exact hr _ rfl rfl
    rw [Lines.split, if_neg hn, if_neg hh, ← hi, hs]
  case case5 c cs hn hr l ls last hs hi =>
    have hh : ¬(c = '\r' ∧ cs.head? = some '\n') := by
      rintro ⟨rfl, hh⟩
      cases cs <;> cases hh
      exact hr _ rfl rfl
    rw [Lines.split, if_neg hn, if_neg hh, ← hi, hs]

theorem keep_eq_self {cs : List Char} (h : (cs.flatMap unitsOf).length ≤ 4096) : keep cs = cs := by
  have hs : (units (.ofList cs)).length ≤ 4096 := by rwa [units, String.toList_ofList]
  rw [keep, Chat.sliceEnd_eq_self hs, String.toList_ofList]

theorem ofNat_ne {u : Nat} (h : u ≠ 10) : Char.ofNat u ≠ '\n' := by
  intro hc
  by_cases hv : u.isValidChar
  case pos =>
    have hn : Char.ofNat u = Char.ofNatAux u hv := dif_pos hv
    exact h (congrArg Char.toNat (hn.symm.trans hc))
  case neg =>
    have hz : Char.ofNat u = '\x00' := dif_neg hv
    exact absurd (hz.symm.trans hc) (by decide)

theorem mem_ofUnits {us : List Nat} (h : '\n' ∈ ofUnits us) : 10 ∈ us := by
  have hu {u} (h : '\n' = ofUnit u) : u = 10 := by
    by_contra hn
    rw [ofUnit] at h
    split at h
    case isTrue  => cases h
    case isFalse => exact ofNat_ne hn h.symm
  fun_induction ofUnits us
  case case1 => cases h
  case case2 u => exact List.mem_singleton.mpr (hu (List.mem_singleton.mp h)).symm
  case case3 u v us _ hi =>
    obtain h | h := List.mem_cons.mp h
    case inl => exact absurd h.symm (ofNat_ne (by omega))
    case inr => exact List.mem_cons_of_mem _ (List.mem_cons_of_mem _ (hi h))
  case case4 u v us _ hi =>
    obtain h | h := List.mem_cons.mp h
    case inl => exact hu h ▸ List.mem_cons_self
    case inr => exact List.mem_cons_of_mem _ (hi h)

theorem mem_of_mem_unitsOf {c : Char} (h : 10 ∈ unitsOf c) : c = '\n' := by
  rw [unitsOf] at h
  split at h
  case isTrue  => exact Char.toNat_inj.mp (List.mem_singleton.mp h).symm
  case isFalse => simp at h; omega

theorem not_mem_keep {cs : List Char} (h : '\n' ∉ cs) : '\n' ∉ keep cs := by
  intro hm
  rw [keep, sliceEnd, String.toList_ofList, units, String.toList_ofList] at hm
  obtain ⟨c, hc, hu⟩ := List.mem_flatMap.mp (List.mem_of_mem_drop (mem_ofUnits hm))
  exact h (mem_of_mem_unitsOf hu ▸ hc)

section

variable {S : System} {lines : S.State → List String} {buffer : S.State → String}
  {content? : S.Event → Option String} {I : S.State → Prop} {s : S.State} {es : List S.Event}

-- A system whose messages are chunks of a log, each of which completes some lines, or something else.
structure Examines (S : System) (lines : S.State → List String) (buffer : S.State → String)
    (content? : S.Event → Option String) (I : S.State → Prop) : Prop where
  next   : ∀ s e, I s → I (S.next s e)
  lines  : ∀ s e, I s → lines (S.next s e) =
    lines s ++ (content? e).elim [] fun content => (splitLines (buffer s ++ content)).1
  buffer : ∀ s e, I s → buffer (S.next s e) =
    (content? e).elim (buffer s) fun content => sliceEnd (splitLines (buffer s ++ content)).2 4096

theorem Examines.run (h : Examines S lines buffer content? I) (hs : I s) :
    lines (S.run s es) = lines s ++ (Lines.completed '\r' '\n' keep (buffer s).toList
      ((es.filterMap content?).map String.toList)).map .ofList := by
  induction es generalizing s
  case nil => exact (List.append_nil _).symm
  case cons e es hi =>
    rw [System.run_cons, hi (h.next s e hs), h.lines s e hs, h.buffer s e hs]
    cases hc : content? e
    case none =>
      rw [List.filterMap_cons_none hc, Option.elim_none, List.append_nil, Option.elim_none]
    case some content =>
      rw [List.filterMap_cons_some hc, List.map_cons, Lines.completed, List.map_append,
        ← splitChars_eq, ← String.toList_append, List.append_assoc]
      rfl

-- The text of the chunks.
def textOf (chunks : List String) : List Char :=
  chunks.flatMap String.toList

theorem Examines.run_lines (h : Examines S lines buffer content? I) (hs : I s) (hl : lines s = [])
    (hb : buffer s = "") (ht : ShortLines (textOf (es.filterMap content?))) :
    lines (S.run s es) = (splitLines (.ofList (textOf (es.filterMap content?)))).1 := by
  have hm (l l' : List Char) : (l.flatMap unitsOf).length ≤ ((l ++ l').flatMap unitsOf).length := by
    rw [List.flatMap_append, List.length_append]
    exact Nat.le_add_right _ _
  rw [ShortLines, textOf, List.flatMap_def] at ht
  rw [h.run hs, hl, hb, String.toList_empty, List.nil_append,
    Lines.completed_lines (fun _ => keep_eq_self) (fun _ => not_mem_keep) hm ht, ← List.flatMap_def,
    ← splitChars_eq]
  simp [splitLines, textOf]

end

end Logs

namespace Chat

-- The chunk of a server's log that a message brings.
def Message.content? (id : ServerId) : Message → Option String
  | .chunk id' content => if id' = id then some content else none
  | _                  => none

theorem buffer_next {lower : String → String} {s : Store} {id : ServerId} {server : ServerInstance}
    {e : Message} (hs : s.servers[id]? = some server) :
    ((messages lower).next s e).servers[id]? = some server ∧
    ((messages lower).next s e).buffer id =
      (e.content? id).elim (s.buffer id) fun content =>
        sliceEnd (splitLines (s.buffer id ++ content)).2 4096 := by
  obtain he | ⟨content, rfl⟩ := uploads_cases id e
  case inl =>
    have h : Unmoved server.orgId id s ((messages lower).next s e) := next_unmoved he
    have hc : e.content? id = none := by
      cases e
      case retry  => rfl
      case elapse => rfl
      case chunk id' content =>
        apply if_neg
        rintro rfl
        simp [uploads] at he
    rw [hc, h.servers, h.buffer]
    exact ⟨hs, rfl⟩
  case inr =>
    have h : Chunked server.orgId id content s
        ((parseChat lower server.orgId id server.name content).run [] s).state :=
      (wp_run_nil wp_parseChat).state
    simp only [hs, Message.content?, if_true, Option.elim_some]
    exact ⟨h.servers ▸ hs, h.buffer⟩

section

variable {lower : String → String} {orgId : OrgId} {id id' : ServerId} {name content line : String}
  {s : Store} {p : Store × List (ServerId × String)} {e : Message} {es : List Message}
  {server : ServerInstance}

theorem erase_parseChatNoting : (parseChatNoting lower orgId id name content).erase =
    parseChat lower orgId id name content := by
  simp only [parseChatNoting, parseChat, erase_bind, erase_silently, erase_forEachNoted,
    ← forEach_filterMap]
  rfl

-- The notes change nothing.
theorem examining_next : ((examining lower).next p e).1 = (messages lower).next p.1 e := by
  cases e
  case retry  => rfl
  case elapse => rfl
  case chunk id content =>
    cases hs : p.1.servers[id]?
    case none => simp only [hs]
    case some server =>
      simp only [hs, ← erase_parseChatNoting]
      exact run_erase.left.symm

theorem examining_run : ((examining lower).run p es).1 = (messages lower).run p.1 es := by
  induction es generalizing p
  case nil     => rfl
  case cons hi => rw [System.run_cons, System.run_cons, hi, examining_next]

theorem wp_handleLine :
    wp (under logs .none) (returns fun _ => True) (handleLine lower orgId id name line) s := by
  rw [handleLine]
  cases parseChatLine line
  case none => trivial
  case some => exact wp_returns_mono wp_handleChat fun _ _ => trivial

-- Each line that a chunk completes is noted, and what it says is handled.
theorem notes_parseChat : ((parseChatNoting lower orgId id name content).run [] p).state.2 =
    p.2 ++ (splitLines (p.1.buffer id ++ content)).1.map (id, ·) := by
  have h : wp (obeying (logs.noted (ServerId × String)) (Sum.elim (fun _ => True) fun _ => True))
      (returns fun p' => p'.2 = p.2 ++ (splitLines (p.1.buffer id ++ content)).1.map (id, ·))
      (parseChatNoting lower orgId id name content) p :=
    wp_silently_step rfl <| wp_silently_step rfl <| wp_forEachNoted fun _ _ => wp_handleLine
  exact (wp_run_obeying h fun c _ => by cases c <;> trivial).state

theorem examines : Logs.Examines (examining lower) (fun p => Logs.linesOf id p.2) (·.1.buffer id)
    (Message.content? id) (·.1.servers[id]? = some server) where
  next _ _ hs   := examining_next ▸ (buffer_next hs).left
  buffer _ _ hs := examining_next ▸ (buffer_next hs).right
  lines p e hs  := by
    cases e
    case retry  => exact (List.append_nil _).symm
    case elapse => exact (List.append_nil _).symm
    case chunk id' content =>
      by_cases hi : id' = id
      case pos =>
        subst hi
        simp only [hs, notes_parseChat, Logs.linesOf_append, Logs.linesOf_map, Message.content?,
          if_true, Option.elim_some]
      case neg =>
        simp only [Message.content?, hi, if_false, Option.elim_none, List.append_nil]
        split
        case h_1 => simp only [notes_parseChat, Logs.linesOf_append, Logs.linesOf_map, hi, if_false,
          List.append_nil]
        case h_2 => rfl

end

end Chat

namespace Players

theorem SameBuffers.lineBuffer {s s' : Store} {id : ServerId} (h : SameBuffers s s') :
    s'.lineBuffer id = s.lineBuffer id := by
  rw [Store.lineBuffer, h.left, Store.lineBuffer]

variable [Naming]

variable {s : Store} {id : ServerId} {server : ServerInstance} {e : Message} {orgId : OrgId}
  {name content : String} {p : Store × List (ServerId × String)} {es : List Message}

theorem lineBuffer_set {id' : ServerId} {text : String} :
    Store.lineBuffer (exec (.setLineBuffer id' text) s).2 id =
      if id' = id then text else s.lineBuffer id := by
  by_cases h : id' = id
  case pos => simp [Store.lineBuffer, exec, h]
  case neg =>
    have hb : (id == id') = false := by simpa using Ne.symm h
    rw [if_neg h, Store.lineBuffer, exec]
    simp only [List.lookup_cons, hb]
    exact congrArg (Option.getD · "") (lookup_filter h)

-- A chunk only changes the buffer of its server.
theorem wp_parsePlayers_buffer (id id' : ServerId) (orgId : OrgId) (name content : String) :
    wp (under roster .none) (fun _ s' => s'.servers = s.servers ∧ s'.lineBuffer id =
        if id' = id then sliceEnd (splitLines (s.lineBuffer id' ++ content)).2 4096
        else s.lineBuffer id)
      (parsePlayers orgId id' name content) s := by
  refine wp_step rfl ?_ fun _ _ => False.elim
  refine wp_step rfl ?_ fun _ _ => False.elim
  apply wp_mono (wp_unbuffered (.forEach fun _ => unbuffered_handleLine))
  intro _ s' h
  exact ⟨h.right, h.lineBuffer.trans lineBuffer_set⟩

theorem buffer_next (hs : s.servers[id]? = some server) :
    (messages.next s e).servers[id]? = some server ∧
    (messages.next s e).lineBuffer id =
      (e.content? id).elim (s.lineBuffer id) fun content =>
        sliceEnd (splitLines (s.lineBuffer id ++ content)).2 4096 := by
  have hsame {s' : Store} (h : SameBuffers s s') :
      s'.servers[id]? = some server ∧ s'.lineBuffer id = s.lineBuffer id :=
    ⟨h.right ▸ hs, h.lineBuffer⟩
  cases e
  case elapse => exact hsame ⟨rfl, rfl⟩
  case report =>
    simp only [Store.report]
    split
    case h_1 =>
      exact hsame <| wp_run_nil <| wp_unbuffered <| unbuffered_of_onTriggers
        onTriggers_completeItemGrant
    case h_2 => exact hsame ⟨rfl, rfl⟩
  case roster =>
    simp only
    split
    case h_1 => exact hsame (wp_run_nil (wp_unbuffered unbuffered_applyPlayerRoster))
    case h_2 => exact hsame ⟨rfl, rfl⟩
  case chunk id' content =>
    simp only
    split
    case h_1 server' _ =>
      have h := wp_run_nil (wp_parsePlayers_buffer (s := s) id id' server'.orgId server'.name content)
      refine ⟨h.left ▸ hs, h.right.trans ?_⟩
      by_cases hi : id' = id
      case pos => simp [Message.content?, hi]
      case neg => simp [Message.content?, hi]
    case h_2 hn =>
      have hi : id' ≠ id := by
        rintro rfl
        exact Option.some_ne_none _ (hs.symm.trans hn)
      rw [Message.content?, if_neg hi]
      exact ⟨hs, rfl⟩

theorem erase_parsePlayersNoting : (parsePlayersNoting orgId id name content).erase =
    parsePlayers orgId id name content := by
  simp only [parsePlayersNoting, parsePlayers, erase_bind, erase_silently, erase_forEachNoted,
    forEach_map]

-- The notes change nothing.
theorem examining_next : (examining.next p e).1 = messages.next p.1 e := by
  cases e
  case roster => rfl
  case report => rfl
  case elapse => rfl
  case chunk id content =>
    cases hs : p.1.servers[id]?
    case none => simp only [hs]
    case some server =>
      simp only [hs, ← erase_parsePlayersNoting]
      exact run_erase.left.symm

theorem examining_run : (examining.run p es).1 = messages.run p.1 es := by
  induction es generalizing p
  case nil     => rfl
  case cons hi => rw [System.run_cons, System.run_cons, hi, examining_next]

theorem wp_upsertPlayer {key : IdentityKey} {create : Player} {update : PlayerData} :
    wp (under roster .none) (returns fun _ => True) (send (.upsertPlayer id key create update)) s := by
  cases hk : s.keyed? id key
  case none   => exact wp_last (by simp only [exec, hk]; rfl) trivial fun _ _ => False.elim
  case some e => exact wp_last (by simp only [exec, hk]; rfl) trivial fun _ _ => False.elim

theorem Spares.succeeds {α : Type} {x : Service α} (h : Spares x) :
    wp (under roster .none) (returns fun _ => True) x s :=
  wp_returns_mono (h s) fun _ _ => trivial

-- No line makes the reader of a log fail, whatever the players are.
theorem wp_handleLine_returns {line : LogLine} :
    wp (under roster .none) (returns fun _ => True) (handleLine orgId id name line) s := by
  cases line
  case other => trivial
  case uuid =>
    apply wp_bind.mpr
    apply wp_reconcileNameFallback
    refine wp_step rfl ?_ fun _ _ => False.elim
    exact wp_bind_returns wp_upsertPlayer fun _ _ _ => trivial
  case joined =>
    refine wp_handleNamed rfl fun existing now _ _ => ?_
    refine wp_bind_returns wp_upsertPlayer fun _ _ _ => ?_
    refine wp_bind_returns spares_welcome.succeeds fun _ _ _ => ?_
    exact wp_bind_returns (wp_returns_mono (keeps_openSession _) fun _ _ => trivial)
      fun _ _ _ => spares_connect.succeeds
  case left =>
    refine wp_handleNamed rfl fun existing now _ he => ?_
    exact wp_returns_mono (wp_handleLeft rfl he) fun _ _ => trivial

-- Each line that a chunk completes is noted and handled.
theorem notes_parsePlayers : ((parsePlayersNoting orgId id name content).run [] p).state.2 =
    p.2 ++ (splitLines (p.1.lineBuffer id ++ content)).1.map (id, ·) := by
  have h : wp (obeying (roster.noted (ServerId × String)) (Sum.elim (fun _ => True) fun _ => True))
      (returns fun p' => p'.2 = p.2 ++ (splitLines (p.1.lineBuffer id ++ content)).1.map (id, ·))
      (parsePlayersNoting orgId id name content) p :=
    wp_silently_step rfl <| wp_silently_step rfl <| wp_forEachNoted fun _ _ => wp_handleLine_returns
  exact (wp_run_obeying h fun c _ => by cases c <;> trivial).state

theorem examines : Logs.Examines examining (fun p => Logs.linesOf id p.2) (·.1.lineBuffer id)
    (Message.content? id) (·.1.servers[id]? = some server) where
  next _ _ hs   := examining_next ▸ (buffer_next hs).left
  buffer _ _ hs := examining_next ▸ (buffer_next hs).right
  lines p e hs  := by
    cases e
    case roster => exact (List.append_nil _).symm
    case report => exact (List.append_nil _).symm
    case elapse => exact (List.append_nil _).symm
    case chunk id' content =>
      by_cases hi : id' = id
      case pos =>
        subst hi
        simp only [hs, notes_parsePlayers, Logs.linesOf_append, Logs.linesOf_map, Message.content?,
          if_true, Option.elim_some]
      case neg =>
        simp only [Message.content?, hi, if_false, Option.elim_none, List.append_nil]
        split
        case h_1 => simp only [notes_parsePlayers, Logs.linesOf_append, Logs.linesOf_map, hi, if_false,
          List.append_nil]
        case h_2 => rfl

end Players

namespace Logs

-- `combined.split(/\r?\n/)` and `lines.pop()?.slice(-limit)` on strings of UTF-16 units, which need not
-- consist of whole characters.
def splitUnits (limit : Nat) (buffer content : List Nat) : List (List Nat) × List Nat :=
  let (lines, last) := Lines.split 13 10 (buffer ++ content)
  (lines, last.rtake limit)

-- The units of pieces of a text.
def unitsOfPieces (p : List (List Char) × List Char) : List (List Nat) × List Nat :=
  (p.1.map (·.flatMap unitsOf), p.2.flatMap unitsOf)

theorem unitsOf_plain {c : Char} (hn : c ≠ '\n') :
    10 ∉ unitsOf c ∧ ((unitsOf c).getLast? = some 13 → c = '\r') := by
  refine ⟨fun hm => hn (mem_of_mem_unitsOf hm), fun hl => ?_⟩
  rw [unitsOf] at hl
  split at hl
  case isTrue  => exact Char.toNat_inj.mp (Option.some.inj hl)
  case isFalse => simp at hl; omega

theorem head_unitsOf {cs : List Char} :
    (cs.flatMap unitsOf).head? = some 10 ↔ cs.head? = some '\n' := by
  cases cs
  case nil => simp
  case cons c cs =>
    rw [List.flatMap_cons, List.head?_cons, Option.some.injEq]
    constructor
    case mpr => rintro rfl; rfl
    case mp  =>
      intro hh
      have hu : unitsOf c ≠ [] := by
        rw [unitsOf]
        split <;> exact List.cons_ne_nil _ _
      rw [List.head?_append_of_ne_nil _ hu] at hh
      exact mem_of_mem_unitsOf (List.mem_of_mem_head? hh)

-- Both kinds of strings have the same lines.
theorem split_units {cs : List Char} :
    Lines.split 13 10 (cs.flatMap unitsOf) = unitsOfPieces (Lines.split '\r' '\n' cs) := by
  induction cs
  case nil => rfl
  case cons c cs hi =>
    by_cases hn : c = '\n'
    case pos =>
      subst hn
      have hu : ('\n' :: cs).flatMap unitsOf = 10 :: cs.flatMap unitsOf := rfl
      rw [hu, Lines.split, if_pos rfl, Lines.split, if_pos rfl, hi]
      rfl
    case neg =>
      by_cases hr : c = '\r' ∧ cs.head? = some '\n'
      case pos =>
        have hu : (c :: cs).flatMap unitsOf = 13 :: cs.flatMap unitsOf := by rw [hr.left]; rfl
        rw [hu, Lines.split, if_neg (by decide), if_pos ⟨rfl, head_unitsOf.mpr hr.right⟩, hi,
          Lines.split, if_neg hn, if_pos hr]
      case neg =>
        obtain ⟨hm, hl⟩ := unitsOf_plain hn
        have hh : (unitsOf c).getLast? = some 13 → (cs.flatMap unitsOf).head? ≠ some 10 :=
          fun h hh => hr ⟨hl h, head_unitsOf.mp hh⟩
        rw [List.flatMap_cons, Lines.split_plain hm hh, hi, Lines.split, if_neg hn, if_neg hr]
        rcases Lines.split '\r' '\n' cs with ⟨_ | _, _⟩ <;> simp [unitsOfPieces]

-- The lines that are examined when a text comes in chunks.
def examinedUnits (limit : Nat) : List Nat → List (List Nat) → List (List Nat)
  | _, []                     => []
  | buffer, content :: chunks =>
    (splitUnits limit buffer content).1 ++
      examinedUnits limit (splitUnits limit buffer content).2 chunks

theorem examinedUnits_eq {limit : Nat} {buffer : List Nat} {chunks : List (List Nat)} :
    examinedUnits limit buffer chunks = Lines.completed 13 10 (·.rtake limit) buffer chunks := by
  induction chunks generalizing buffer
  case nil     => rfl
  case cons hi => simp only [examinedUnits, hi, splitUnits, Lines.completed]

theorem examinedUnits_lines {limit : Nat} {chunks : List (List Nat)}
    (h : Lines.Short 10 List.length limit chunks.flatten) :
    examinedUnits limit [] chunks = (Lines.split 13 10 chunks.flatten).1 := by
  rw [examinedUnits_eq]
  refine Lines.completed_lines (fun us h => ?_) (fun us h => ?_) (fun l l' => ?_) h
  case refine_1 => rw [List.rtake, Nat.sub_eq_zero_of_le h, List.drop_zero]
  case refine_2 => exact fun hm => h (List.mem_of_mem_drop hm)
  case refine_3 =>
    rw [List.length_append]
    exact Nat.le_add_right _ _

-- On whole characters, this is what the programs do.
theorem splitUnits_units {limit : Nat} {buffer content : String} :
    (splitUnits limit (units buffer) (units content)).1 =
      (splitLines (buffer ++ content)).1.map units := by
  have hu : units buffer ++ units content = (buffer ++ content).toList.flatMap unitsOf := by
    rw [units, units, String.toList_append, List.flatMap_append]
  have hs : (splitUnits limit (units buffer) (units content)).1 =
      (Lines.split 13 10 (units buffer ++ units content)).1 := rfl
  rw [hs, hu, split_units, ← splitChars_eq]
  simp [unitsOfPieces, splitLines, units]

-- The lines that are examined are those of the whole text, wherever it is cut: between two units of a
-- character, or between the chunks that the chat and the players are read from, with whatever else
-- happens in between.
theorem lines_reassembled [Players.Naming] :
    (∀ chunks : List (List Nat), Lines.Short 10 List.length 4096 chunks.flatten →
      examinedUnits 4096 [] chunks = (Lines.split 13 10 chunks.flatten).1) ∧
    (∀ buffer content : String, (splitUnits 4096 (units buffer) (units content)).1 =
      (splitLines (buffer ++ content)).1.map units) ∧
    (∀ (lower : String → String) (s : Chat.Store) (id : ServerId) (es : List Chat.Message),
      s.servers[id]?.isSome → s.buffer id = "" →
      ShortLines (textOf (es.filterMap (Chat.Message.content? id))) →
      ((Chat.examining lower).run (s, []) es).1 = (Chat.messages lower).run s es ∧
      linesOf id ((Chat.examining lower).run (s, []) es).2 =
        (splitLines (.ofList (textOf (es.filterMap (Chat.Message.content? id))))).1) ∧
    (∀ (s : Players.Store) (id : ServerId) (es : List Players.Message),
      s.servers[id]?.isSome → s.lineBuffer id = "" →
      ShortLines (textOf (es.filterMap (Players.Message.content? id))) →
      (Players.examining.run (s, []) es).1 = Players.messages.run s es ∧
      linesOf id (Players.examining.run (s, []) es).2 =
        (splitLines (.ofList (textOf (es.filterMap (Players.Message.content? id))))).1) := by
  refine ⟨fun _ => examinedUnits_lines, fun _ _ => splitUnits_units, fun lower s id es hs hb ht => ?_,
    fun s id es hs hb ht => ?_⟩
  case refine_1 =>
    have ⟨server, hs⟩ := Option.isSome_iff_exists.mp hs
    exact ⟨Chat.examining_run, Chat.examines.run_lines (s := (s, [])) hs rfl hb ht⟩
  case refine_2 =>
    have ⟨server, hs⟩ := Option.isSome_iff_exists.mp hs
    exact ⟨Players.examining_run, Players.examines.run_lines (s := (s, [])) hs rfl hb ht⟩

theorem shortLines_of_length {text : List Char} (h : (text.flatMap unitsOf).length ≤ 4096) :
    ShortLines text := by
  intro line _ ⟨l, l', hl⟩
  simp only [← hl, List.flatMap_append, List.length_append] at h
  dsimp only
  omega

attribute [local instance] Players.Naming.ascii

-- A chunk ends within a word, and the next one between a carriage return and its line feed.
def cutChunks : List String :=
  ["[12:00:01 INFO]: Steve joined the ga", "me\r", "\n[12:00:02] [Server]: <Steve> hello\r\n[12:00:03"]

theorem lines_reassembled_cut :
    linesOf 0 (Players.examining.run ({ servers := [{ orgId := 0, name := "Survival" }] }, [])
        (cutChunks.map (.chunk 0))).2 =
      ["[12:00:01 INFO]: Steve joined the game", "[12:00:02] [Server]: <Steve> hello"] ∧
    linesOf 0 ((Chat.examining toLowerCase).run ({ servers := [{ orgId := 0, name := "Survival" }] }, [])
        (cutChunks.map (.chunk 0))).2 =
      ["[12:00:01 INFO]: Steve joined the game", "[12:00:02] [Server]: <Steve> hello"] := by
  have hl : (textOf cutChunks |>.flatMap unitsOf).length ≤ 4096 := by decide +kernel
  have ht : (splitLines (.ofList (textOf cutChunks))).1 =
      ["[12:00:01 INFO]: Steve joined the game", "[12:00:02] [Server]: <Steve> hello"] := by
    decide +kernel
  have hs := shortLines_of_length hl
  have ⟨_, hp⟩ := lines_reassembled.right.right.right
    { servers := [{ orgId := 0, name := "Survival" }] } 0 (cutChunks.map (.chunk 0)) rfl rfl hs
  have ⟨_, hc⟩ := lines_reassembled.right.right.left toLowerCase
    { servers := [{ orgId := 0, name := "Survival" }] } 0 (cutChunks.map (.chunk 0)) rfl rfl hs
  exact ⟨hp.trans ht, hc.trans ht⟩

end Logs
