import Mastermind.Pairing.Service

open Effects Jobs

namespace Pairing

-- How far a call has got with a token: it has not found one, it has found an unused one, it has
-- created a host with it, or it has marked it as used.
inductive Stage
  | idle
  | found   (id : TokenId)
  | created (id : TokenId) (hostId : HostId)
  | marked  (id : TokenId)

def Stage.Open : Stage → Prop
  | idle | found _ => True
  | _              => False

-- Hosts are created with the token that was found, and a call that has created a host goes on to mark
-- the token as used and to sign a key.
def protocol : Prog.Environment controlPlane Stage where
  allows
    | .created id hostId, c => c = .useToken id hostId
    | .marked id, c         => ∃ key, c = .sign id key
    | .found id, c          => c = .now ∨ ∃ row, c = .createHost row ∧ row.pairedBy = id
    | .idle, c              =>
      (c matches .now | .findToken _ | .audit _) ∨
      ∃ row, c = .createToken row ∧ row.usedAt = none ∧ row.usedByHostId = none
  answers
    | _, .findToken _, .ok (some (id, _)), m' => m' = .found id
    | m, .now, _, m'                          => m' = m
    | _, .createHost row, .ok hostId, m'      => m' = .created row.pairedBy hostId
    | _, .useToken id _, .ok (), m'           => m' = .marked id
    | _, _, _, m'                             => m' = .idle
  ends _ _ := False

variable {hash : String → String} {α β : Type} {Q : Result Exception α → Stage → Prop} {m : Stage}

-- A call stops before it has created a host or after it has signed a key.
def Stops : Result Exception α → Stage → Prop :=
  fun _ m => m.Open

theorem wp_send {c : Cmd} {f : c.Ans → Service α} (ha : protocol.allows m c)
    (hf : ∀ a m', protocol.answers m c (.ok a) m' → (f a).wp protocol Stops m')
    (he : ∀ e m', protocol.answers m c (.error e) m' → m'.Open) :
    (send c >>= f).wp protocol Stops m := by
  refine ⟨ha, fun r m' hr => ?_, False.elim⟩
  cases r
  case ok a    => exact hf a m' hr
  case error e => exact he e m' hr

-- A part of a call that takes it to the stage `m₁`.
def Reaches (m₁ : Stage) : Result Exception α → Stage → Prop
  | .ok _, m => m = m₁
  | _, m     => m.Open

theorem wp_bind_reaches {m₁ : Stage} {p : Service α} {f : α → Service β}
    (h : p.wp protocol (Reaches m₁) m) (hf : ∀ a, (f a).wp protocol Stops m₁) :
    (p >>= f).wp protocol Stops m := by
  apply Prog.wp_bind.mpr
  apply Prog.wp_mono h
  intro r m hr
  cases r
  case ok a  => exact hr ▸ hf a
  case error => exact hr
  case ended => exact hr

theorem wp_hostName {id : TokenId} {name : Option String} :
    (hostName name).wp protocol (Reaches (.found id)) (.found id) := by
  rw [hostName]
  split
  case h_1 => rfl
  case h_2 =>
    refine ⟨.inl rfl, fun r m hr => ?_, False.elim⟩
    obtain rfl : m = .found id := hr
    cases r
    case ok    => rfl
    case error => trivial

theorem wp_signAgentKey {id : TokenId} {key : AgentKey} :
    (signAgentKey id key).wp protocol (Reaches .idle) (.marked id) := by
  refine ⟨⟨key, rfl⟩, fun r m hr => ?_, False.elim⟩
  obtain rfl : m = .idle := hr
  cases r
  case ok    => rfl
  case error => trivial

theorem wp_completePairing {id : TokenId} {row : PairingToken} {name : String}
    {clientIp : Option String} :
    (completePairing id row name clientIp).wp protocol Stops (.found id) := by
  refine wp_send (.inr ⟨_, rfl, rfl⟩) (fun hostId m hm => ?_) fun _ _ hm => hm ▸ trivial
  obtain rfl : m = .created id hostId := hm
  refine wp_send rfl (fun _ m hm => ?_) fun _ _ hm => hm ▸ trivial
  obtain rfl : m = .marked id := hm
  refine wp_bind_reaches wp_signAgentKey fun _ => ?_
  exact wp_send (.inl rfl) (fun _ _ hm => hm ▸ trivial) fun _ _ hm => hm ▸ trivial

theorem wp_pair {pairingToken : String} {name clientIp : Option String} :
    (pair hash pairingToken name clientIp).wp protocol Stops .idle := by
  refine wp_send (.inl rfl) (fun found m hm => ?_) fun _ _ hm => hm ▸ trivial
  cases found
  case none => exact hm ▸ trivial
  case some t =>
    obtain rfl : m = .found t.1 := hm
    simp only
    split
    case isTrue  => trivial
    case isFalse =>
      refine wp_send (.inl rfl) (fun now m hm => ?_) fun _ _ hm => hm ▸ trivial
      obtain rfl : m = .found t.1 := hm
      split
      case isTrue  => trivial
      case isFalse => exact wp_bind_reaches wp_hostName fun _ => wp_completePairing

theorem wp_createToken {orgId : OrgId} {userId : UserId} {expiresInSec : Option Nat}
    {plainToken : String} :
    (createToken hash orgId userId expiresInSec plainToken).wp protocol Stops .idle := by
  refine wp_send (.inl rfl) (fun now m hm => ?_) fun _ _ hm => hm ▸ trivial
  obtain rfl : m = .idle := hm
  refine ⟨.inr ⟨_, rfl, rfl, rfl⟩, fun r m hr => ?_, False.elim⟩
  obtain rfl : m = .idle := hr
  cases r <;> trivial

theorem wp_serve (q : Request) : (q.serve hash).wp protocol Stops .idle := by
  have hreturn : ∀ {α : Type} {p : Service α}, p.wp protocol Stops .idle →
      (do let _ ← p; return : Service Unit).wp protocol Stops .idle := fun h =>
    Prog.wp_bind_keeps h fun _ _ hm => hm
  cases q
  case pair        => exact hreturn wp_pair
  case createToken => exact hreturn wp_createToken

abbrev Requests :=
  Pool controlPlane Request Unit

-- What the stage of a call says about the database.
def Holds : Stage → Store → Prop
  | .idle, _              => True
  | .marked _, _          => True
  | .found id, s          => s.pairingTokens[id]?.isSome
  | .created id hostId, s =>
    s.pairingTokens[id]?.isSome ∧ ∃ host, s.hosts[hostId]? = some host ∧ host.pairedBy = id

abbrev Protocol (p : Requests) : Prop :=
  p.Follows (fun _ => protocol) (fun _ => Holds) fun _ => Stops

def marks (id : TokenId) : Cmd → Bool
  | .useToken id' _ => id' = id
  | _               => false

def signs (id : TokenId) : Cmd → Bool
  | .sign id' _ => id' = id
  | _           => false

def Stage.marks (id : TokenId) : Stage → Bool
  | created id' _ => id' = id
  | _             => false

def Stage.signs (id : TokenId) : Stage → Bool
  | marked id' => id' = id
  | _          => false

variable {id : TokenId} {prog : Service Unit} {s : Store} {c : Cmd} {p : Requests} {i : Nat}
  {q : Request}

theorem next_stage (id : TokenId) (h : prog.wp protocol Stops m) :
    (m.Open ∧ ∀ c, prog.next? = some c → marks id c = false ∧ signs id c = false) ∨
    (∃ id hostId, m = .created id hostId ∧ prog.next? = some (.useToken id hostId)) ∨
    (∃ id key, m = .marked id ∧ prog.next? = some (.sign id key)) := by
  cases prog
  case ret   => exact .inl ⟨h, nofun⟩
  case throw => exact .inl ⟨h, nofun⟩
  case call c k =>
    have ha := h.left
    cases m
    case created => exact .inr <| .inl ⟨_, _, rfl, congrArg some ha⟩
    case marked  =>
      have ⟨key, hc⟩ := ha
      exact .inr <| .inr ⟨_, key, rfl, congrArg some hc⟩
    case found =>
      refine .inl ⟨trivial, fun c hc => ?_⟩
      cases hc
      obtain rfl | ⟨_, rfl, _⟩ := ha <;> exact ⟨rfl, rfl⟩
    case idle =>
      refine .inl ⟨trivial, fun c' hc => ?_⟩
      cases hc
      obtain ha | ⟨_, rfl, _⟩ := ha
      case inl => cases c <;> first | exact ⟨rfl, rfl⟩ | nomatch ha
      case inr => exact ⟨rfl, rfl⟩

-- A call that has created a host is about to mark the token as used.
theorem marks_next (h : prog.wp protocol Stops m) : prog.next?.any (marks id) = m.marks id := by
  obtain ⟨ho, hc⟩ | ⟨_, _, rfl, hc⟩ | ⟨_, _, rfl, hc⟩ := next_stage id h
  case inr.inl => rw [hc]; rfl
  case inr.inr => rw [hc]; rfl
  case inl =>
    have hm : m.marks id = false := by cases m <;> first | rfl | exact ho.elim
    rw [hm, Option.any_eq_false]
    exact fun c h => by simp [hc c h]

-- A call that has marked the token as used is about to sign a key.
theorem signs_next (h : prog.wp protocol Stops m) : prog.next?.any (signs id) = m.signs id := by
  obtain ⟨ho, hc⟩ | ⟨_, _, rfl, hc⟩ | ⟨_, _, rfl, hc⟩ := next_stage id h
  case inr.inl => rw [hc]; rfl
  case inr.inr => rw [hc]; rfl
  case inl =>
    have hm : m.signs id = false := by cases m <;> first | rfl | exact ho.elim
    rw [hm, Option.any_eq_false]
    exact fun c h => by simp [hc c h]

namespace Store

def hostsOf (s : Store) (id : TokenId) : Nat :=
  s.hosts.countP (·.pairedBy = id)

def keysOf (s : Store) (id : TokenId) : Nat :=
  s.keys.countP (·.1 = id)

def isUsed (s : Store) (id : TokenId) : Bool :=
  s.pairingTokens[id]?.any (·.usedAt.isSome)

end Store

-- When a call creates a host, its token is unused and no other call has created a host that it has
-- still to enter in the token. The entering of a host in its token does not fail.
def Alone (p : Requests) : Pool.Event Request Nat → Prop
  | .serve i =>
    match p.next? i with
    | some (_, .createHost row) =>
      p.state.isUsed row.pairedBy = false ∧ p.pending (marks row.pairedBy) = 0
    | _ => True
  | .fail i => ¬(p.next? i matches some (_, .useToken ..))
  | _       => True

instance {e : Pool.Event Request Nat} : Decidable (Alone p e) := by
  unfold Alone
  split
  case h_1 => split <;> infer_instance
  case h_2 => infer_instance
  case h_3 => infer_instance

-- A token is used, or one call is about to mark it as used, if it has a host, and it is used if it
-- has a key.
structure SingleUse (s : Store) (id : TokenId) (marking signing : Nat) : Prop where
  once  : (s.isUsed id).toNat + marking ≤ 1
  hosts : s.hostsOf id ≤ (s.isUsed id).toNat + marking
  keys  : s.keysOf id + signing ≤ (s.isUsed id).toNat

-- The hosts that are entered in tokens have been created with these tokens.
def Recorded (s : Store) : Prop :=
  ∀ (id : TokenId) t hostId, s.pairingTokens[id]? = some t → t.usedByHostId = some hostId →
    ∃ host, s.hosts[hostId]? = some host ∧ host.pairedBy = id

-- What a step of a call does to the number of calls that are about to mark a token or to sign a key.
theorem pending_move {k} {r : Except Exception (Cmd.Ans c)} {m' : Stage} (id : TokenId) (s : Store)
    (hi : p.threads[i]? = some ⟨q, .call c k⟩) (hw : (Prog.call c k).wp protocol Stops m)
    (hk : (k r).wp protocol Stops m') :
    let p' : Requests := { state := s, threads := p.threads.set i ⟨q, k r⟩ }
    (p'.pending (marks id) + (m.marks id).toNat = p.pending (marks id) + (m'.marks id).toNat) ∧
    p'.pending (signs id) + (m.signs id).toNat = p.pending (signs id) + (m'.signs id).toNat := by
  have hm := Pool.pending_set (marks id) s (k r) hi
  have hs := Pool.pending_set (signs id) s (k r) hi
  rw [marks_next hk] at hm
  rw [signs_next hk] at hs
  exact ⟨marks_next hw ▸ hm, signs_next hw ▸ hs⟩

-- Tokens and hosts stay.
theorem Holds.exec (h : Holds m s) (c : Cmd) : Holds m (Pairing.exec c s).2 := by
  have ht : ∀ id : TokenId, s.pairingTokens[id]?.isSome →
      (Pairing.exec c s).2.pairingTokens[id]?.isSome := by
    intro id h
    cases c <;> simp only [Pairing.exec] <;> try exact h
    case createToken row =>
      obtain ⟨t, ht⟩ := Option.isSome_iff_exists.mp h
      rw [Table.getElem?_append_of_some ht]
      rfl
    case useToken => split <;> simpa using h
  have hh : ∀ (hostId : HostId) host, s.hosts[hostId]? = some host →
      (Pairing.exec c s).2.hosts[hostId]? = some host := by
    intro hostId host h
    cases c <;> simp only [Pairing.exec] <;> try exact h
    case createHost row => exact Table.getElem?_append_of_some h
    case useToken       => split <;> exact h
  cases m
  case idle    => trivial
  case marked  => trivial
  case found   => exact ht _ h
  case created =>
    have ⟨hs, host, hl, hp⟩ := h
    exact ⟨ht _ hs, host, hh _ _ hl, hp⟩

-- The host that a call has created is not entered in another token.
theorem canUse_created {hostId : HostId} (hr : Recorded s) (h : Holds (.created id hostId) s) :
    s.canUse id hostId = true := by
  have ⟨hs, host, hl, hp⟩ := h
  simp only [Store.canUse, hs, Bool.true_and, List.all_eq_true, Prod.forall, Bool.or_eq_true,
    decide_eq_true_eq]
  intro id' t hm
  by_cases hu : t.usedByHostId = some hostId
  case neg => exact .inr hu
  case pos =>
    have ⟨host', hl', hp'⟩ := hr id' t hostId (Table.mem_entries.mp hm) hu
    obtain rfl := Option.some.inj <| hl.symm.trans hl'
    exact .inl (hp'.symm.trans hp)

theorem findToken?_isSome {tokenHash : String} {t : TokenId × PairingToken}
    (h : s.findToken? tokenHash = some t) : s.pairingTokens[t.1]?.isSome := by
  have hm := Table.mem_entries.mp (List.mem_of_find?_eq_some h)
  rw [hm]
  rfl

-- What a command of a call can do.
inductive Moves (s : Store) : Stage → Cmd → Stage → Store → Prop
  | aside {m m' : Stage} {c : Cmd} {s' : Store} (ho : m.Open) (ho' : m'.Open)
    (hc : ∀ row, c ≠ .createHost row) (ht : s'.pairingTokens = s.pairingTokens)
    (hh : s'.hosts = s.hosts) (hk : s'.keys = s.keys) : Moves s m c m' s'
  | newToken {row : PairingToken} (hu : row.usedAt = none) (hn : row.usedByHostId = none) :
    Moves s .idle (.createToken row) .idle { s with pairingTokens := s.pairingTokens ++ [row] }
  | newHost {row : Host} (ht : s.pairingTokens[row.pairedBy]?.isSome) :
    Moves s (.found row.pairedBy) (.createHost row) (.created row.pairedBy s.hosts.length)
      { s with hosts := s.hosts ++ [row] }
  | mark {id : TokenId} {hostId : HostId} (hm : Holds (.created id hostId) s) :
    Moves s (.created id hostId) (.useToken id hostId) (.marked id)
      { s with pairingTokens := s.pairingTokens.modify id (.use s.clock hostId) }
  | sign {id : TokenId} {key : AgentKey} :
    Moves s (.marked id) (.sign id key) .idle { s with keys := s.keys ++ [(id, key)] }

theorem own_step (hr : Recorded s) (hm : Holds m s) (ha : protocol.allows m c) :
    ∃ m', protocol.answers m c (exec c s).1 m' ∧ Holds m' (exec c s).2 ∧
      Moves s m c m' (exec c s).2 := by
  cases m
  case created id hostId =>
    obtain rfl : c = .useToken id hostId := ha
    simp only [exec, canUse_created hr hm, if_true]
    exact ⟨.marked id, rfl, trivial, .mark hm⟩
  case marked id =>
    obtain ⟨key, rfl⟩ := ha
    exact ⟨.idle, rfl, trivial, .sign⟩
  case found id =>
    obtain rfl | ⟨row, rfl, rfl⟩ := ha
    case inl => exact ⟨.found id, rfl, hm, .aside trivial trivial nofun rfl rfl rfl⟩
    case inr =>
      have ht : s.pairingTokens[row.pairedBy]?.isSome := hm
      exact ⟨.created row.pairedBy s.hosts.length, rfl, ⟨ht, row, by simp [exec], rfl⟩, .newHost ht⟩
  case idle =>
    obtain ha | ⟨row, rfl, hu, hn⟩ := ha
    case inr => exact ⟨.idle, rfl, trivial, .newToken hu hn⟩
    case inl =>
      cases c
      case now         => exact ⟨.idle, rfl, trivial, .aside trivial trivial nofun rfl rfl rfl⟩
      case audit       => exact ⟨.idle, rfl, trivial, .aside trivial trivial nofun rfl rfl rfl⟩
      case createToken => simp at ha
      case createHost  => simp at ha
      case useToken    => simp at ha
      case sign        => simp at ha
      case findToken tokenHash =>
        cases ht : s.findToken? tokenHash <;> simp only [exec, ht]
        case none   => exact ⟨.idle, rfl, trivial, .aside trivial trivial nofun rfl rfl rfl⟩
        case some t =>
          have hs := findToken?_isSome ht
          exact ⟨.found t.1, rfl, hs, .aside trivial trivial nofun rfl rfl rfl⟩

theorem fail_step (ha : protocol.allows m c) (hn : ∀ id hostId, c ≠ .useToken id hostId) :
    ∃ m', protocol.answers m c (.error .storage) m' ∧ (m' = .idle ∨ (m' = m ∧ m.Open)) := by
  cases m
  case created => exact absurd ha (hn _ _)
  case marked  =>
    obtain ⟨key, rfl⟩ := ha
    exact ⟨.idle, rfl, .inl rfl⟩
  case found id =>
    obtain rfl | ⟨row, rfl, _⟩ := ha
    case inl => exact ⟨.found id, rfl, .inr ⟨rfl, trivial⟩⟩
    case inr => exact ⟨.idle, rfl, .inl rfl⟩
  case idle =>
    refine ⟨.idle, ?_, .inl rfl⟩
    cases c <;> rfl

theorem Recorded.move {m' : Stage} {s' : Store} (h : Recorded s) (hm : Moves s m c m' s') :
    Recorded s' := by
  intro id t hostId ht hu
  cases hm
  case aside ht' hh _ =>
    rw [ht'] at ht
    exact hh ▸ h id t hostId ht hu
  case sign => exact h id t hostId ht hu
  case newHost row _ =>
    have ⟨host, hl, hp⟩ := h id t hostId ht hu
    exact ⟨host, Table.getElem?_append_of_some hl, hp⟩
  case newToken row _ hn =>
    simp only [List.getElem?_append, List.getElem?_singleton] at ht
    split at ht
    case isTrue  => exact h id t hostId ht hu
    case isFalse =>
      split at ht
      case isTrue  => rw [← Option.some.inj ht, hn] at hu; nomatch hu
      case isFalse => nomatch ht
  case mark id' hostId' hm =>
    simp only [List.getElem?_modify] at ht
    split at ht
    case isFalse => exact h id t hostId (by simpa using ht) hu
    case isTrue he =>
      obtain ⟨t', _, rfl⟩ := Option.map_eq_some_iff.mp ht
      obtain rfl := Option.some.inj hu
      have ⟨_, host, hl, hp⟩ := hm
      exact ⟨host, hl, hp.trans he⟩

theorem isUsed_newToken {row : PairingToken} (h : row.usedAt = none) :
    Store.isUsed { s with pairingTokens := s.pairingTokens ++ [row] } id = s.isUsed id := by
  simp only [Store.isUsed, List.getElem?_append, List.getElem?_singleton]
  split
  case isTrue    => rfl
  case isFalse hl =>
    rw [List.getElem?_eq_none (Nat.le_of_not_lt hl)]
    split <;> simp [h]

theorem isUsed_mark (usedAt : Time) (hostId : HostId) (id' : TokenId)
    (h : s.pairingTokens[id]?.isSome) :
    Store.isUsed { s with pairingTokens := s.pairingTokens.modify id (.use usedAt hostId) } id' =
      (decide (id = id') || s.isUsed id') := by
  simp only [Store.isUsed, List.getElem?_modify]
  by_cases he : id = id'
  case neg => simp [he]
  case pos =>
    obtain ⟨t, ht⟩ := Option.isSome_iff_exists.mp h
    simp [← he, ht, PairingToken.use]

theorem SingleUse.lower {a b b' : Nat} (h : SingleUse s id a b) (hb : b' ≤ b) :
    SingleUse s id a b' :=
  ⟨h.once, h.hosts, (Nat.add_le_add_left hb _).trans h.keys⟩

-- What a command that is served does to the account of a token.
theorem SingleUse.move {m' : Stage} {s' : Store} {a a' b b' : Nat} (h : SingleUse s id a b)
    (hm : Moves s m c m' s')
    (hc : ∀ row, c = .createHost row → row.pairedBy = id → s.isUsed id = false ∧ a = 0)
    (hmarks : a' + (m.marks id).toNat = a + (m'.marks id).toNat)
    (hsigns : b' + (m.signs id).toNat = b + (m'.signs id).toNat) : SingleUse s' id a' b' := by
  have ⟨ho, hh, hk⟩ := h
  cases hm
  case aside hopen _ hopen' ht hh' hk' =>
    have hz : ∀ {m : Stage}, m.Open → m.marks id = false ∧ m.signs id = false := by
      intro m hm
      cases m <;> first | exact ⟨rfl, rfl⟩ | exact hm.elim
    rw [(hz hopen).left, (hz hopen').left] at hmarks
    rw [(hz hopen).right, (hz hopen').right] at hsigns
    obtain rfl : a' = a := hmarks
    obtain rfl : b' = b := hsigns
    constructor <;> simpa [Store.isUsed, Store.hostsOf, Store.keysOf, ht, hh', hk']
  case newToken row hu _ =>
    obtain rfl : a' = a := hmarks
    obtain rfl : b' = b := hsigns
    constructor <;> rw [isUsed_newToken hu] <;> assumption
  case newHost row _ =>
    obtain rfl : b' = b := hsigns
    by_cases he : row.pairedBy = id
    case neg =>
      obtain rfl : a' = a := by simpa [Stage.marks, he] using hmarks
      have hnew : Store.hostsOf { s with hosts := s.hosts ++ [row] } id = s.hostsOf id := by
        simp [Store.hostsOf, he]
      exact ⟨ho, hnew.trans_le hh, hk⟩
    case pos =>
      obtain ⟨hu, rfl⟩ := hc row rfl he
      obtain rfl : a' = 1 := by simpa [Stage.marks, he] using hmarks
      have hnew : Store.hostsOf { s with hosts := s.hosts ++ [row] } id = s.hostsOf id + 1 := by
        simp [Store.hostsOf, he]
      have hused : Store.isUsed { s with hosts := s.hosts ++ [row] } id = false := hu
      simp only [hu, Bool.toNat_false] at hh
      constructor
      case once  => simp [hused]
      case hosts => rw [hnew, hused]; simpa using hh
      case keys  => exact hk
  case mark id' hostId hm =>
    have hu := isUsed_mark s.clock hostId id hm.left
    by_cases he : id' = id
    case neg =>
      obtain rfl : a' = a := by simpa [Stage.marks, he] using hmarks
      obtain rfl : b' = b := by simpa [Stage.signs, he] using hsigns
      have hu : _ = s.isUsed id := hu.trans (by simp [he])
      exact ⟨hu ▸ ho, hu ▸ hh, hu ▸ hk⟩
    case pos =>
      have hmarks : a' + 1 = a := by simpa [Stage.marks, he] using hmarks
      have hsigns : b' = b + 1 := by simpa [Stage.signs, he] using hsigns
      have hu : _ = true := hu.trans (by simp [he])
      have hused : (s.isUsed id).toNat = 0 := by omega
      constructor <;> rw [hu]
      case once  => simp only [Bool.toNat_true]; omega
      case hosts => simp only [Store.hostsOf, Bool.toNat_true] at hh ⊢; omega
      case keys  => simp only [Store.keysOf, Bool.toNat_true] at hk ⊢; omega
  case sign id' key =>
    obtain rfl : a' = a := hmarks
    by_cases he : id' = id
    case neg =>
      obtain rfl : b' = b := by simpa [Stage.signs, he] using hsigns
      have hsame : Store.keysOf { s with keys := s.keys ++ [(id', key)] } id = s.keysOf id := by
        simp [Store.keysOf, he]
      exact ⟨ho, hh, hsame ▸ hk⟩
    case pos =>
      have hsigns : b' + 1 = b := by simpa [Stage.signs, he] using hsigns
      have hnew : Store.keysOf { s with keys := s.keys ++ [(id', key)] } id = s.keysOf id + 1 := by
        simp [Store.keysOf, he]
      have hle : s.keysOf id + 1 + b' ≤ (s.isUsed id).toNat := by omega
      exact ⟨ho, hh, hnew ▸ hle⟩

structure Safe (p : Requests) : Prop where
  calls    : Protocol p
  recorded : Recorded p.state
  single   : ∀ id, SingleUse p.state id (p.pending (marks id)) (p.pending (signs id))

theorem Safe.idle : Safe (Pool.idle {}) where
  calls    := .idle
  recorded := fun _ _ _ h => nomatch h
  single   := fun _ => ⟨Nat.zero_le _, Nat.le_refl _, Nat.le_refl _⟩

theorem Safe.start (h : Safe p) : Safe (p.start (Request.serve hash) q) where
  calls    := h.calls.start (m := .idle) trivial (wp_serve q)
  recorded := h.recorded
  single   := fun id => by
    have hm := p.pending_start (Request.serve hash) q (marks id)
    have hs := p.pending_start (Request.serve hash) q (signs id)
    rw [marks_next (wp_serve q)] at hm
    rw [signs_next (wp_serve q)] at hs
    have ⟨ho, hh, hk⟩ := h.single id
    exact ⟨hm ▸ ho, hm ▸ hh, hs ▸ hk⟩

theorem Safe.fail (h : Safe p) (hc : Alone p (.fail i)) : Safe (p.fail i) := by
  have hn : ∀ q c, p.next? i = some (q, c) → ∀ id hostId, c ≠ .useToken id hostId := by
    rintro q c hq id hostId rfl
    simp [Alone, hq] at hc
  constructor
  case recorded => simpa using h.recorded
  case calls =>
    refine h.calls.fail fun q c m hq hm ha => ?_
    have ⟨m', hr, he⟩ := fail_step ha (hn q c hq)
    refine ⟨m', hr, ?_⟩
    rcases he with rfl | ⟨rfl, _⟩
    case inl => trivial
    case inr => exact hm
  case single =>
    intro id
    obtain hs | ⟨q, c, k, hi, hs⟩ := p.fail_cases i <;> rw [hs]
    case inl => exact h.single id
    case inr =>
      have hn := hn q c (Pool.next?_eq_some.mpr ⟨k, hi⟩)
      have ⟨m, _, hw⟩ := h.calls i _ _ hi
      have ⟨m', hr, he⟩ := fail_step hw.left hn
      have ⟨hm, hs⟩ := pending_move id p.state hi hw (hw.right.left _ _ hr)
      have hmarks : m'.marks id = m.marks id ∧ (m'.signs id).toNat ≤ (m.signs id).toNat := by
        rcases he with rfl | ⟨rfl, _⟩
        case inr => exact ⟨rfl, Nat.le_refl _⟩
        case inl =>
          refine ⟨?_, Nat.zero_le _⟩
          cases m
          case created => exact absurd hw.left (hn _ _)
          all_goals rfl
      rw [hmarks.left] at hm
      have hle := Nat.le_of_add_le_add_right (hs.le.trans (Nat.add_le_add_left hmarks.right _))
      exact Nat.add_right_cancel hm ▸ (h.single id).lower hle

theorem Safe.serve (h : Safe p) (hc : Alone p (.serve i)) : Safe (p.serve i) := by
  have hmove : ∀ q c k, p.threads[i]? = some ⟨q, .call c k⟩ → ∃ m m', Moves p.state m c m' (exec c p.state).2 ∧
      (Prog.call c k).wp protocol Stops m ∧ (k (exec c p.state).1).wp protocol Stops m' := by
    intro q c k hi
    have ⟨m, hm, hw⟩ := h.calls i _ _ hi
    have ⟨m', hr, _, hmove⟩ := own_step h.recorded hm hw.left
    exact ⟨m, m', hmove, hw, hw.right.left _ _ hr⟩
  constructor
  case calls =>
    apply h.calls.serve
    constructor
    case other => exact fun q c m _ _ _ j q' prog m' _ hm' _ => hm'.exec c
    case own   =>
      intro q c m _ hm ha
      have ⟨m', hr, hm', _⟩ := own_step h.recorded hm ha
      exact ⟨m', hr, hm'⟩
  case recorded =>
    obtain hs | ⟨q, c, k, hi, hs⟩ := p.serve_cases i <;> rw [hs]
    case inl => exact h.recorded
    case inr =>
      have ⟨_, _, hmove, _⟩ := hmove q c k hi
      exact h.recorded.move hmove
  case single =>
    intro id
    obtain hs | ⟨q, c, k, hi, hs⟩ := p.serve_cases i <;> rw [hs]
    case inl => exact h.single id
    case inr =>
      have ⟨m, m', hmove, hw, hk⟩ := hmove q c k hi
      have ⟨hmarks, hsigns⟩ := pending_move id (exec c p.state).2 hi hw hk
      refine (h.single id).move hmove ?_ hmarks hsigns
      rintro row rfl rfl
      simpa [Alone, Pool.next?_eq_some.mpr ⟨k, hi⟩] using hc

theorem Safe.next {e : Pool.Event Request Nat} (h : Safe p) (hc : Alone p e) :
    Safe ((interleaved hash).next p e) := by
  cases e
  case start q => exact h.start
  case serve i => exact h.serve hc
  case fail i  => exact h.fail hc
  case world ms =>
    have hs := fun id => h.single id
    have hw := h.calls.world (s := p.state.elapse ms) fun _ m hm => by cases m <;> exact hm
    exact ⟨hw, h.recorded, fun id => ⟨(hs id).once, (hs id).hosts, (hs id).keys⟩⟩

-- In every run whose hosts are created in this way, a token yields at most one host and at most one
-- agent key.
theorem pairing_single_use {es : List (Pool.Event Request Nat)} (id : TokenId)
    (hm : (interleaved hash).Meets Alone (Pool.idle {}) es) :
    ((interleaved hash).run (Pool.idle {}) es).state.hostsOf id ≤ 1 ∧
    ((interleaved hash).run (Pool.idle {}) es).state.keysOf id ≤ 1 := by
  have h : Safe ((interleaved hash).run (Pool.idle {}) es) :=
    System.invariant (fun _ _ => Safe.next) .idle hm
  have ⟨ho, hh, hk⟩ := h.single id
  exact ⟨by omega, by omega⟩

-- The SHA-256 hash of the token of the runs below.
def digest (s : String) : String :=
  if s = "secret" then "2bb80d537b1da3e38bd30361aa855686bde0eacd7162fef6a25fe97bf527a25b" else s

-- An administrator creates a token.
def newToken : List (Pool.Event Request Nat) :=
  [.start (.createToken 0 0 none "secret"), .serve 0, .serve 0]

-- One agent pairs, another one comes too late.
def oneByOne : List (Pool.Event Request Nat) :=
  newToken ++ [.start (.pair "secret" (some "alpha") none)] ++ List.replicate 6 (.serve 1) ++
  [.start (.pair "secret" (some "beta") none), .serve 2]

theorem pairing_single_use_oneByOne :
    ((interleaved digest).run (Pool.idle {}) oneByOne).state.hostsOf 0 ≤ 1 ∧
    ((interleaved digest).run (Pool.idle {}) oneByOne).state.keysOf 0 ≤ 1 :=
  pairing_single_use 0 (by decide +kernel)

-- Two agents find the token unused before either of them has marked it.
def atOnce : List (Pool.Event Request Nat) :=
  newToken ++ [.start (.pair "secret" (some "alpha") none), .start (.pair "secret" (some "beta") none)] ++
  [.serve 1, .serve 2] ++ List.replicate 5 (.serve 1) ++ List.replicate 5 (.serve 2)

theorem pairing_used_twice :
    (((interleaved digest).run (Pool.idle {}) atOnce).state.hostsOf 0 = 2) ∧
    ((interleaved digest).run (Pool.idle {}) atOnce).state.keysOf 0 = 2 := by
  decide +kernel

end Pairing
