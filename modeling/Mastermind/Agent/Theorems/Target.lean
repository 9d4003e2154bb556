import Mastermind.Agent.GrantItems
import Mastermind.Donations.ShopGrants

open Js

namespace Agent

-- Trimming with any kind of white space.
section

variable {p : Char → Bool} {cs a b : List Char} {c : Char}

theorem rdropWhile_append (hc : ∀ c ∈ cs, p c = false) (hb : ∀ c ∈ b, p c = true) :
    (cs ++ b).rdropWhile p = cs := by
  have hs : cs.reverse.dropWhile p = cs.reverse := by
    cases hr : cs.reverse
    case nil       => rfl
    case cons d ds => simp [hc d (List.mem_reverse.mp (hr ▸ List.mem_cons_self))]
  rw [List.rdropWhile, List.reverse_append, List.dropWhile_append_of_pos (by simpa using hb), hs,
    List.reverse_reverse]

-- What is surrounded by white space and has none.
theorem trim_middle (ha : ∀ c ∈ a, p c = true) (hc : ∀ c ∈ cs, p c = false) (hb : ∀ c ∈ b, p c = true) :
    ((a ++ (cs ++ b)).dropWhile p).rdropWhile p = cs := by
  rw [List.dropWhile_append_of_pos ha]
  cases cs
  case nil         => rw [List.nil_append, List.dropWhile_eq_nil_iff.mpr hb, List.rdropWhile_nil]
  case cons c cs =>
    have hn : ¬p c = true := by simp [hc c]
    rw [List.cons_append, List.dropWhile_cons_of_neg hn, ← List.cons_append]
    exact rdropWhile_append hc hb

theorem trim_cases (p : Char → Bool) (cs : List Char) :
    ∃ a b, cs = a ++ ((cs.dropWhile p).rdropWhile p ++ b) ∧ (∀ c ∈ a, p c = true) ∧
      ∀ c ∈ b, p c = true := by
  refine ⟨cs.takeWhile p, (cs.dropWhile p).rtakeWhile p, ?_, ?_, ?_⟩
  case refine_1 => rw [List.rdropWhile_append_rtakeWhile, List.takeWhile_append_dropWhile]
  case refine_2 => exact fun _ => List.mem_takeWhile_imp
  case refine_3 => exact fun _ => List.mem_rtakeWhile_imp

-- What is not white space is not trimmed.
theorem mem_trim (hc : c ∈ cs) (hp : p c = false) : c ∈ (cs.dropWhile p).rdropWhile p := by
  have ⟨a, b, he, ha, hb⟩ := trim_cases p cs
  rw [he, List.mem_append, List.mem_append] at hc
  obtain hc | hc | hc := hc
  case inl     => simp [ha c hc] at hp
  case inr.inl => exact hc
  case inr.inr => simp [hb c hc] at hp

end

section

variable {c : Char} {cs : List Char}

theorem le_iff_toNat {c d : Char} : c ≤ d ↔ c.toNat ≤ d.toNat :=
  Iff.rfl

theorem toLower_of_le (h : 128 ≤ c.toNat) : c.toLower = c := by
  have hc : c.toNat = c.val.toNat := rfl
  change dite _ _ _ = c
  rw [dif_neg]
  simp only [UInt32.le_iff_toNat_le, Char.reduceVal, UInt32.reduceToNat]
  omega

-- The characters of a UUID in any case.
def isHexChar (c : Char) : Bool :=
  (radixDigit? 16 c).isSome || c = '-'

theorem isUUIDChar_of_le (h : 128 ≤ c.toNat) : isUUIDChar c = false := by
  have hn : c ≠ '-' := by
    rintro rfl
    exact absurd h (by decide)
  simp only [isUUIDChar, le_iff_toNat, hn, decide_false, Bool.or_false]
  simp
  omega

theorem isHexChar_of_le (h : 128 ≤ c.toNat) : isHexChar c = false := by
  have hn : c ≠ '-' := by
    rintro rfl
    exact absurd h (by decide)
  simp [isHexChar, radixDigit?, isDigit, le_iff_toNat, hn]
  split_ifs <;> omega

-- What holds of the characters of ASCII and of all others.
theorem char_cases {P : Char → Prop} (ha : ∀ n : Fin 128, P (Char.ofNat n))
    (hn : ∀ c : Char, 128 ≤ c.toNat → P c) (c : Char) : P c := by
  by_cases h : c.toNat < 128
  case neg => exact hn c (Nat.le_of_not_lt h)
  case pos => exact Char.ofNat_toNat c ▸ ha ⟨c.toNat, h⟩

-- What is checked for each character of ASCII.
theorem ascii_chars : ∀ n : Fin 128, let c := Char.ofNat n
    (isUUIDChar (lowerRune c) = isHexChar c) ∧
    (c.toLower.toLower = c.toLower) ∧
    (isHexChar c = true → Js.isSpace c = false ∧ Agent.isSpace c = false) ∧
    (isUUIDChar c = true → isHexChar c = true) := by
  decide +kernel

theorem isUUIDChar_lowerRune (c : Char) : isUUIDChar (lowerRune c) = isHexChar c := by
  revert c
  apply char_cases
  case ha => exact fun n => (ascii_chars n).left
  case hn =>
    intro c hc
    rw [isHexChar_of_le hc, lowerRune, toLower_of_le hc]
    split
    case isTrue  => rfl
    case isFalse =>
      split
      case isTrue  => rfl
      case isFalse => exact isUUIDChar_of_le hc

theorem lt_of_isHexChar (h : isHexChar c = true) : c.toNat < 128 := by
  by_contra hc
  simp [isHexChar_of_le (Nat.le_of_not_lt hc)] at h

theorem lowerRune_of_isHexChar (h : isHexChar c = true) : lowerRune c = c.toLower := by
  have := lt_of_isHexChar h
  rw [lowerRune, if_neg (by omega), if_neg (by omega)]

theorem toLower_toLower (c : Char) : c.toLower.toLower = c.toLower := by
  revert c
  apply char_cases
  case ha => exact fun n => (ascii_chars n).right.left
  case hn => exact fun c hc => by rw [toLower_of_le hc, toLower_of_le hc]

-- Neither end takes a character of a UUID for white space.
theorem isSpace_of_isHexChar : ∀ c, isHexChar c = true → Js.isSpace c = false ∧ Agent.isSpace c = false := by
  apply char_cases
  case ha => exact fun n => (ascii_chars n).right.right.left
  case hn => exact fun c hc h => by simp [isHexChar_of_le hc] at h

theorem isUUIDChar_toNat (h : isUUIDChar c = true) : c.toNat < 128 := by
  by_contra hc
  simp [isUUIDChar_of_le (Nat.le_of_not_lt hc)] at h

-- A UUID has as many bytes as characters.
theorem len_of_isUUIDChar (h : ∀ c ∈ cs, isUUIDChar c = true) : len cs = cs.length := by
  induction cs
  case nil          => rfl
  case cons c cs hi =>
    have ⟨hc, hcs⟩ := List.forall_mem_cons.mp h
    have hs : c.utf8Size = 1 := by
      have hc := isUUIDChar_toNat hc
      have hv : c.toNat = c.val.toNat := rfl
      rw [Char.utf8Size, if_pos]
      simp only [UInt32.le_iff_toNat_le]
      simp
      omega
    have hi : (cs.map Char.utf8Size).sum = cs.length := hi hcs
    simp only [len, List.map_cons, List.sum_cons, hs, hi, List.length_cons]
    omega

end

-- `/^[A-Za-z0-9_]{1,16}$/`, but not `all`
def isPlayerName (s : String) : Bool :=
  1 ≤ s.toList.length && s.toList.length ≤ 16 &&
  s.toList.all (fun c => c.isAlphanum || c = '_') && !equalsAll s

-- `/^[0-9a-fA-F-]{32,36}$/`
def isBareUUID (s : String) : Bool :=
  32 ≤ s.toList.length && s.toList.length ≤ 36 && s.toList.all isHexChar

-- A target that is one player, or none.
def SingleTarget (s : String) : Prop :=
  s = "" ∨ isPlayerName s = true ∨ isBareUUID s = true

-- The name of a payload, without what would separate commands.
def targetName (payload : Fields) : String :=
  sanitizeRCONArg (getString payload "player" (getString payload "name" ""))

-- The UUID of a payload.
def targetUUID (payload : Fields) : String :=
  let uuid := trimSpace (getString payload "uuid" "")
  if uuid = "" then
    uuidOfKey (trimSpace (getString payload "identityKey" (getString payload "identity_key" "")))
  else uuid

def SameUpToCase (s t : String) : Prop :=
  s.toList.map Char.toLower = t.toList.map Char.toLower

-- The payload of a name and a UUID.
def targetPayload (name uuid : Option String) : Fields :=
  [("name", (name.map Json.str).getD .null), ("uuid", (uuid.map Json.str).getD .null)]

-- The agent finds the target of the control plane.
def FindsTarget (name uuid : Option String) : Prop :=
  ∀ target, Donations.grantPlayerTarget name uuid = some target →
    SameUpToCase (grantPlayerTarget (targetPayload name uuid)) target

-- When the agent finds the target of the control plane. A name must not have white space around it
-- other than line ends. A UUID must have one of two lengths and must not have a byte order mark around
-- it, and comes into play only if nothing is left of the name or the name is `all`.
def Findable (name uuid : Option String) : Prop :=
  let name := name.getD ""
  let uuid := uuid.getD ""
  if isPlayerName (trim name) then sanitizeRCONArg name = trim name
  else if isBareUUID (trim uuid) then
    if sanitizeRCONArg name = "" ∨ equalsAll (sanitizeRCONArg name) = true then
      '\uFEFF' ∉ uuid.toList ∧
        ((trim uuid).toList.length = 32 ∨ (trim uuid).toList.length = 36)
    else SameUpToCase (sanitizeRCONArg name) (trim uuid)
  else True

section

variable {name uuid : Option String} {payload : Fields} {s t : String}

-- The end of `grantPlayerTarget`.
def bareTarget (uuid : String) : String :=
  let uuid := (trimSpace uuid).toList.map lowerRune
  if isMinecraftUUID uuid then .ofList uuid else ""

theorem bareTarget_cases (uuid : String) :
    (bareTarget uuid = "") ∨
    (isMinecraftUUID ((trimSpace uuid).toList.map lowerRune) = true ∧
      (bareTarget uuid).toList = (trimSpace uuid).toList.map lowerRune) := by
  rw [bareTarget]
  split
  case isTrue h  => exact .inr ⟨h, String.toList_ofList⟩
  case isFalse h => exact .inl rfl

theorem isMinecraftUUID_iff {cs : List Char} : isMinecraftUUID cs = true ↔
    (cs.length = 32 ∨ cs.length = 36) ∧ ∀ c ∈ cs, isUUIDChar c = true := by
  simp only [isMinecraftUUID, Bool.and_eq_true, Bool.or_eq_true, decide_eq_true_eq, List.all_eq_true]
  exact and_congr_left fun h => by rw [len_of_isUUIDChar h]

theorem isHexChar_of_isUUIDChar {c : Char} (h : isUUIDChar c = true) : isHexChar c = true := by
  revert c
  apply char_cases
  case ha => exact fun n => (ascii_chars n).right.right.right
  case hn => exact fun c hc h => by simp [isUUIDChar_of_le hc] at h

theorem singleTarget_bareTarget (uuid : String) : SingleTarget (bareTarget uuid) := by
  obtain h | ⟨h, ht⟩ := bareTarget_cases uuid
  case inl => exact .inl h
  case inr =>
    have ⟨hl, hc⟩ := isMinecraftUUID_iff.mp h
    refine .inr (.inr ?_)
    simp only [isBareUUID, ht, Bool.and_eq_true, decide_eq_true_eq, List.all_eq_true]
    exact ⟨by omega, fun c hm => isHexChar_of_isUUIDChar (hc c hm)⟩

theorem grantPlayerTarget_eq : grantPlayerTarget payload =
    if targetName payload ≠ "" ∧ equalsAll (targetName payload) = false then targetName payload
    else bareTarget (targetUUID payload) :=
  rfl

-- The agent's target is a single player if the name is.
theorem singleTarget_iff : SingleTarget (grantPlayerTarget payload) ↔
    equalsAll (targetName payload) = true ∨ SingleTarget (targetName payload) := by
  rw [grantPlayerTarget_eq]
  split
  case isTrue h  => simp [h.right]
  case isFalse h =>
    apply iff_of_true (singleTarget_bareTarget _)
    by_cases hn : targetName payload = ""
    case pos => exact .inr (.inl hn)
    case neg => exact .inl (Bool.eq_true_of_not_eq_false fun ha => h ⟨hn, ha⟩)

theorem targetName_targetPayload :
    targetName (targetPayload name uuid) = sanitizeRCONArg (name.getD "") := by
  cases name <;> rfl

theorem targetUUID_targetPayload :
    targetUUID (targetPayload name uuid) = trimSpace (uuid.getD "") := by
  have hu : getString (targetPayload name uuid) "uuid" "" = uuid.getD "" := by cases uuid <;> rfl
  have hk : getString (targetPayload name uuid) "identityKey"
    (getString (targetPayload name uuid) "identity_key" "") = "" := rfl
  rw [targetUUID, hu, hk]
  split
  case isTrue h  => rw [h]; rfl
  case isFalse h => rfl

theorem donations_grantPlayerTarget_eq : Donations.grantPlayerTarget name uuid =
    if isPlayerName (trim (name.getD "")) then some (trim (name.getD ""))
    else if isBareUUID (trim (uuid.getD "")) then some (trim (uuid.getD ""))
    else none := by
  have hn (s) : isPlayerName s = true ↔ 1 ≤ s.toList.length ∧ s.toList.length ≤ 16 ∧
      s.toList.all (fun c => c.isAlphanum || c = '_') ∧ !Donations.isAll s := by
    simp only [isPlayerName, Bool.and_eq_true, decide_eq_true_eq, and_assoc]
    exact Iff.rfl
  have hu (s) : isBareUUID s = true ↔ 32 ≤ s.toList.length ∧ s.toList.length ≤ 36 ∧
      s.toList.all fun c => (radixDigit? 16 c).isSome || c = '-' := by
    simp only [isBareUUID, Bool.and_eq_true, decide_eq_true_eq, and_assoc]
    exact Iff.rfl
  simp only [Donations.grantPlayerTarget, hn, hu]

theorem trim_sublist (s : String) : (trim s).toList.Sublist s.toList := by
  rw [trim, String.toList_ofList]
  exact (List.rdropWhile_prefix _ _).sublist.trans (List.dropWhile_sublist _)

theorem isPlayerName_iff : isPlayerName s = true ↔ (1 ≤ s.toList.length ∧ s.toList.length ≤ 16) ∧
    (∀ c ∈ s.toList, (c.isAlphanum || c = '_') = true) ∧ equalsAll s = false := by
  simp [isPlayerName, and_assoc]

theorem isBareUUID_iff : isBareUUID s = true ↔ (32 ≤ s.toList.length ∧ s.toList.length ≤ 36) ∧
    ∀ c ∈ s.toList, isHexChar c = true := by
  simp [isBareUUID]

theorem SameUpToCase.length_eq (h : SameUpToCase s t) : s.toList.length = t.toList.length := by
  simpa using congrArg List.length h

theorem length_bareTarget (uuid : String) : (bareTarget uuid).toList.length = 0 ∨
    32 ≤ (bareTarget uuid).toList.length := by
  obtain h | ⟨h, ht⟩ := bareTarget_cases uuid
  case inl => exact .inl (by rw [h]; rfl)
  case inr =>
    have ⟨hl, _⟩ := isMinecraftUUID_iff.mp h
    rw [ht]
    omega

-- The characters of a name pass, and so a name that is not changed by more than its case, is not
-- changed at all.
theorem findsTarget_name (h : isPlayerName (trim s) = true) :
    SameUpToCase
      (if sanitizeRCONArg s ≠ "" ∧ equalsAll (sanitizeRCONArg s) = false then sanitizeRCONArg s
        else bareTarget t) (trim s) ↔ sanitizeRCONArg s = trim s := by
  have ⟨hl, hc, ha⟩ := isPlayerName_iff.mp h
  constructor
  case mpr =>
    intro he
    have hn : trim s ≠ "" := fun h => by simp [h] at hl
    rw [he, if_pos ⟨hn, ha⟩]
    rfl
  case mp =>
    intro hs
    have hlen := hs.length_eq
    split at hlen
    case isFalse =>
      have := length_bareTarget t
      omega
    case isTrue =>
      have hf : (trim s).toList.filter (fun c => c ≠ ';' && c ≠ '\n' && c ≠ '\r') = (trim s).toList := by
        apply List.filter_eq_self.mpr
        intro c hm
        have hc := hc c hm
        rw [Bool.and_eq_true, Bool.and_eq_true]
        refine ⟨⟨?_, ?_⟩, ?_⟩ <;> rw [decide_eq_true_eq] <;> rintro rfl <;> exact absurd hc (by decide)
      have hsub := (trim_sublist s).filter (fun c => c ≠ ';' && c ≠ '\n' && c ≠ '\r')
      rw [hf] at hsub
      rw [sanitizeRCONArg, String.toList_ofList] at hlen
      have he := hsub.eq_of_length hlen.symm
      rw [sanitizeRCONArg, ← he, String.ofList_toList]

theorem findsTarget_uuid (h : isBareUUID (trim s) = true) :
    SameUpToCase (bareTarget (trimSpace s)) (trim s) ↔
      '\uFEFF' ∉ s.toList ∧ ((trim s).toList.length = 32 ∨ (trim s).toList.length = 36) := by
  have ⟨hl, hc⟩ := isBareUUID_iff.mp h
  constructor
  case mp =>
    intro hs
    have hlen := hs.length_eq
    obtain hb | ⟨hu, hb⟩ := bareTarget_cases (trimSpace s)
    case inl =>
      simp [hb] at hlen
      omega
    case inr =>
      have ⟨hlen', hch⟩ := isMinecraftUUID_iff.mp hu
      refine ⟨fun hm => ?_, by rw [← hlen, hb]; exact hlen'⟩
      have hm : '\uFEFF' ∈ (trimSpace (trimSpace s)).toList := by
        rw [trimSpace, String.toList_ofList]
        apply mem_trim _ (by decide)
        rw [trimSpace, String.toList_ofList]
        exact mem_trim hm (by decide)
      have := hch _ (List.mem_map_of_mem hm)
      rw [isUUIDChar_lowerRune] at this
      exact absurd this (by decide)
  case mpr =>
    intro ⟨hm, hlen⟩
    have hsp : ∀ c ∈ (trim s).toList, Agent.isSpace c = false := fun c hm =>
      (isSpace_of_isHexChar c (hc c hm)).right
    have ht : trimSpace s = trim s := by
      have ⟨a, b, he, ha, hb⟩ := trim_cases Js.isSpace s.toList
      have htc : (s.toList.dropWhile Js.isSpace).rdropWhile Js.isSpace = (trim s).toList :=
        String.toList_ofList.symm
      rw [htc] at he
      have hg : ∀ c ∈ s.toList, Js.isSpace c = true → Agent.isSpace c = true := by
        intro c hcm hj
        have hne : c.toNat ≠ 0xFEFF := by
          intro h
          rw [← Char.ofNat_toNat c, h] at hcm
          exact hm hcm
        simp only [Js.isSpace, Agent.isSpace, Bool.or_eq_true, Bool.and_eq_true, decide_eq_true_eq] at hj ⊢
        omega
      have hs := trim_middle (p := Agent.isSpace)
        (fun c hc => hg c (he ▸ List.mem_append_left _ hc) (ha c hc)) hsp
        (fun c hc => hg c (he ▸ List.mem_append_right _ (List.mem_append_right _ hc)) (hb c hc))
      rw [trimSpace, he, hs, String.ofList_toList]
    have htt : trimSpace (trim s) = trim s := by
      have hs := trim_middle (p := Agent.isSpace) (a := []) (b := []) nofun hsp nofun
      rw [List.nil_append, List.append_nil] at hs
      rw [trimSpace, hs, String.ofList_toList]
    have hu : isMinecraftUUID ((trim s).toList.map lowerRune) = true := by
      refine isMinecraftUUID_iff.mpr ⟨by simpa using hlen, fun c hm => ?_⟩
      have ⟨c', hm', hc'⟩ := List.mem_map.mp hm
      rw [← hc', isUUIDChar_lowerRune, hc c' hm']
    rw [bareTarget, ht, htt, if_pos hu, SameUpToCase, String.toList_ofList, List.map_map]
    apply List.map_congr_left
    intro c hm
    rw [Function.comp_apply, lowerRune_of_isHexChar (hc c hm), toLower_toLower]

theorem findsTarget_iff : FindsTarget name uuid ↔ Findable name uuid := by
  rw [FindsTarget, donations_grantPlayerTarget_eq, grantPlayerTarget_eq, targetName_targetPayload,
    targetUUID_targetPayload, Findable]
  by_cases hn : isPlayerName (trim (name.getD "")) = true
  case pos =>
    simp only [hn, if_true, Option.some.injEq, forall_eq']
    exact findsTarget_name hn
  case neg =>
    by_cases hu : isBareUUID (trim (uuid.getD "")) = true
    case neg => simp [hn, hu]
    case pos =>
      simp only [hn, hu, if_true, Bool.false_eq_true, if_false, Option.some.injEq, forall_eq']
      by_cases hs : sanitizeRCONArg (name.getD "") = "" ∨ equalsAll (sanitizeRCONArg (name.getD "")) = true
      case pos =>
        have hs' : ¬(sanitizeRCONArg (name.getD "") ≠ "" ∧
            equalsAll (sanitizeRCONArg (name.getD "")) = false) := by
          simpa [or_iff_not_imp_left] using hs
        rw [if_pos hs, if_neg hs']
        exact findsTarget_uuid hu
      case neg =>
        have hs' : sanitizeRCONArg (name.getD "") ≠ "" ∧
            equalsAll (sanitizeRCONArg (name.getD "")) = false := by
          simpa using hs
        rw [if_neg hs, if_pos hs']

end

-- The targets of the agent are single players if the names are, and the agent finds the targets of the
-- control plane that can be found.
theorem grantPlayerTarget_iff (payload : Fields) (name uuid : Option String) :
    (SingleTarget (grantPlayerTarget payload) ↔
      equalsAll (targetName payload) = true ∨ SingleTarget (targetName payload)) ∧
    (FindsTarget name uuid ↔ Findable name uuid) :=
  ⟨singleTarget_iff, findsTarget_iff⟩

-- A selector of all players passes, and a name is not trimmed.
theorem grantPlayerTarget_selector :
    (grantPlayerTarget [("player", .str "@a")] = "@a") ∧
    ¬SingleTarget (grantPlayerTarget [("player", .str "@a")]) ∧
    (grantPlayerTarget (targetPayload (some " Steve") none) = " Steve") ∧
    ¬FindsTarget (some " Steve") none := by
  refine ⟨by decide +kernel, ?_, by decide +kernel, fun h => ?_⟩
  case refine_1 => rintro (h | h | h) <;> exact absurd h (by decide +kernel)
  case refine_2 => exact absurd (h "Steve" (by decide +kernel)) (by unfold SameUpToCase; decide +kernel)

end Agent
