import Mathlib.Order.CompletePartialOrder
import Mathlib.Data.Set.Basic
import Mastermind.Players.Theorems.Store

open Effects Jobs

namespace Players

variable {s : Store} {serverInstanceId : ServerId} {key : IdentityKey} {name : String}
  {steamId : Option String} {canonicalId fallbackId : PlayerId} {canonical fallback : Player}

-- The fallback row gets the key of a better identity.
def Store.promote (s : Store) (fallbackId : PlayerId) (key : IdentityKey) (steamId : Option String) :
    Store :=
  let data : PlayerData := { identityKey := key, steamId := some steamId }
  { s with players := s.players.modify fallbackId (Row.modify data.apply) }

-- The fallback row is deleted, and the canonical row is updated.
def Store.merge (s : Store) (canonicalId fallbackId : PlayerId) (data : PlayerData) : Store :=
  { s with
    players   := (s.players.modify canonicalId (Row.modify data.apply)).modify fallbackId Row.kill
    sessions  :=
      (s.sessions.map fun r =>
        if r.live ∧ r.data.playerId = fallbackId then r.modify (.moveTo canonicalId) else r).map
      fun r => if r.data.playerId = fallbackId then r.kill else r
    donations := s.donations.map fun r => if r.data.playerId = fallbackId then r.kill else r
    fires     := s.fires.map fun r => if r.data.playerId = fallbackId then r.kill else r }

def Store.reconcile [Naming] (s : Store) (serverInstanceId : ServerId) (key : IdentityKey) (name : String)
    (steamId : Option String) : Store :=
  if key.isName then s
  else
    match s.keyed? serverInstanceId (fallbackKey name), s.keyed? serverInstanceId key with
    | none, _                                                   => s
    | some (fallbackId, _), none                                => s.promote fallbackId key steamId
    | some (fallbackId, fallback), some (canonicalId, canonical) =>
      s.merge canonicalId fallbackId (mergeData canonical fallback steamId)

theorem exec_mergeWrites [Naming] (hc : s.player? canonicalId = some canonical)
    (hf : s.player? fallbackId = some fallback) (hn : canonicalId ≠ fallbackId) :
    exec (.transaction (mergeWrites canonicalId canonical fallbackId fallback steamId)) s =
      (.ok (), s.merge canonicalId fallbackId (mergeData canonical fallback steamId)) := by
  have hc : live? s.players canonicalId = some canonical := hc
  have hf : live? s.players fallbackId = some fallback := hf
  simp [exec, mergeWrites, Write.exec, Store.player?, live?_modify, hc, hf, hn, Store.merge]

-- Rows with different keys are different.
theorem keyed?_ne {key' : IdentityKey} (h : key ≠ key')
    (hc : s.keyed? serverInstanceId key = some (canonicalId, canonical))
    (hf : s.keyed? serverInstanceId key' = some (fallbackId, fallback)) :
    canonicalId ≠ fallbackId := by
  intro he
  have ⟨hc, _, hk⟩ := keyed?_some hc
  have ⟨hf, _, hk'⟩ := keyed?_some hf
  have hp : canonical = fallback := Option.some.inj <| hc.symm.trans (he ▸ hf)
  exact h <| hk.symm.trans (hp ▸ hk')

theorem wp_reconcileNameFallback [Naming] {Q : Result Exception Unit → Store → Prop}
    (h : Q (.ok ()) (s.reconcile serverInstanceId key name steamId)) :
    Prog.wp (Prog.under roster .none) Q
      (reconcileNameFallback serverInstanceId key name steamId) s := by
  have hd : ∀ {c : Cmd} {s' : Store} fate, roster.local? c = false →
      Prog.Disturbance.none (B := roster) c fate → Q (.error roster.fault) s' ∧ Q .ended s' :=
    fun _ _ h => h.elim
  rw [Store.reconcile] at h
  rw [reconcileNameFallback]
  cases hk : key.isName
  case true  => simpa [hk] using h
  case false =>
    simp only [hk, Bool.false_eq_true, if_false] at h ⊢
    apply Prog.wp_step rfl _ hd
    cases hf : s.keyed? serverInstanceId (fallbackKey name)
    case none => simpa [hf] using h
    case some e =>
      obtain ⟨fallbackId, fallback⟩ := e
      rw [hf] at h
      apply Prog.wp_step rfl _ hd
      cases hc : s.keyed? serverInstanceId key
      case none =>
        have hp : live? s.players fallbackId = some fallback := (keyed?_some hf).left
        have hx : exec (.transaction [.updatePlayer fallbackId
            { identityKey := key, steamId := some steamId }]) s =
            (.ok (), s.promote fallbackId key steamId) := by
          simp [exec, Write.exec, Store.player?, hp, Store.promote]
        rw [hc] at h
        exact Prog.wp_last hx h hd
      case some e =>
        obtain ⟨canonicalId, canonical⟩ := e
        rw [hc] at h
        have hn : key ≠ fallbackKey name := fun hn => by simp [hn, fallbackKey, IdentityKey.isName] at hk
        exact Prog.wp_last
          (exec_mergeWrites (keyed?_some hc).left (keyed?_some hf).left (keyed?_ne hn hc hf)) h hd

-- What players hold: the donations, and what they were rewarded for.
def Store.donationsOf (s : Store) (id : PlayerId) : Set Nat :=
  { k | ∃ d, live? s.donations k = some d ∧ d.playerId = id }

def Store.firesOf (s : Store) (id : PlayerId) : Set (TriggerId × String) :=
  { m | ∃ k f, s.fire? k = some f ∧ f.playerId = id ∧ (f.triggerId, f.eventKey) = m }

-- Of two players one is left, and it holds what the two held.
structure Conserved (s s' : Store) (canonicalId fallbackId : PlayerId) (canonical fallback : Player)
    (id : PlayerId) (p : Player) : Prop where
  row       : s'.player? id = some p
  unique    : ∀ k ∈ [canonicalId, fallbackId], (s'.player? k).isSome ↔ k = id
  donations : s'.donationsOf id = s.donationsOf canonicalId ∪ s.donationsOf fallbackId
  fires     : s'.firesOf id = s.firesOf canonicalId ∪ s.firesOf fallbackId
  total     : p.totalDonatedCents = canonical.totalDonatedCents + fallback.totalDonatedCents
  supporter : p.supporter = (canonical.supporter || fallback.supporter)
  password  : p.portalPasswordHash.isSome =
    (canonical.portalPasswordHash.isSome || fallback.portalPasswordHash.isSome)

-- The fallback row holds nothing that the canonical one does not hold.
structure Covered (s : Store) (canonicalId fallbackId : PlayerId) (canonical fallback : Player) :
    Prop where
  donations : s.donationsOf fallbackId = ∅
  fires     : s.firesOf fallbackId ⊆ s.firesOf canonicalId
  total     : fallback.totalDonatedCents = 0
  supporter : fallback.supporter = true → canonical.supporter = true
  password  : fallback.portalPasswordHash.isSome = true → canonical.portalPasswordHash.isSome = true

variable {data : PlayerData}

theorem player?_merge {id : PlayerId} :
    (s.merge canonicalId fallbackId data).player? id =
      if id = fallbackId then none
      else if id = canonicalId then (s.player? id).map data.apply
      else s.player? id := by
  simp only [Store.player?, Store.merge, live?_kill, live?_modify, eq_comm]

theorem donation?_merge {k : Nat} :
    live? (s.merge canonicalId fallbackId data).donations k =
      (live? s.donations k).filter (·.playerId ≠ fallbackId) :=
  live?_cascade (p := fun d : Donation => d.playerId = fallbackId)

theorem fire?_merge {k : FireId} :
    (s.merge canonicalId fallbackId data).fire? k =
      (s.fire? k).filter (·.playerId ≠ fallbackId) :=
  live?_cascade (p := fun f : TriggerFire => f.playerId = fallbackId)

theorem donationsOf_merge (hn : canonicalId ≠ fallbackId) :
    (s.merge canonicalId fallbackId data).donationsOf canonicalId = s.donationsOf canonicalId := by
  ext k
  simp only [Store.donationsOf, donation?_merge, Set.mem_ofPred_eq, Option.filter_eq_some_iff,
    decide_eq_true_eq]
  constructor
  case mp  => exact fun ⟨d, hd, hp⟩ => ⟨d, hd.left, hp⟩
  case mpr => exact fun ⟨d, hd, hp⟩ => ⟨d, ⟨hd, hp ▸ hn⟩, hp⟩

theorem firesOf_merge (hn : canonicalId ≠ fallbackId) :
    (s.merge canonicalId fallbackId data).firesOf canonicalId = s.firesOf canonicalId := by
  ext m
  simp only [Store.firesOf, fire?_merge, Set.mem_ofPred_eq, Option.filter_eq_some_iff,
    decide_eq_true_eq]
  constructor
  case mp  => exact fun ⟨k, f, hf, hp⟩ => ⟨k, f, hf.left, hp⟩
  case mpr => exact fun ⟨k, f, hf, hp⟩ => ⟨k, f, ⟨hf, hp.left ▸ hn⟩, hp⟩

-- A donation belongs to one player.
theorem donationsOf_disjoint (hn : canonicalId ≠ fallbackId) :
    Disjoint (s.donationsOf canonicalId) (s.donationsOf fallbackId) := by
  apply Set.disjoint_left.mpr
  intro k ⟨d, hd, hc⟩ ⟨d', hd', hf⟩
  have he : d = d' := Option.some.inj <| hd.symm.trans hd'
  exact hn <| hc.symm.trans (he ▸ hf)

-- The canonical row stays, and what it holds is not touched by the merge.
theorem conserved_merge_iff (hc : s.player? canonicalId = some canonical)
    (hn : canonicalId ≠ fallbackId) :
    (∃ id p, Conserved s (s.merge canonicalId fallbackId data) canonicalId fallbackId canonical
      fallback id p) ↔ Covered s canonicalId fallbackId canonical fallback := by
  have hr : (s.merge canonicalId fallbackId data).player? canonicalId = some (data.apply canonical) := by
    simp [player?_merge, hn, hc]
  have hg : (s.merge canonicalId fallbackId data).player? fallbackId = none := by
    simp [player?_merge]
  constructor
  case mp =>
    intro ⟨id, p, h⟩
    obtain rfl : canonicalId = id := (h.unique canonicalId (by simp)).mp (by simp [hr])
    obtain rfl : data.apply canonical = p := Option.some.inj <| hr.symm.trans h.row
    have hd := (donationsOf_merge hn).symm.trans h.donations
    have hf := (firesOf_merge hn).symm.trans h.fires
    have ht : canonical.totalDonatedCents = _ := h.total
    have hs : canonical.supporter = _ := h.supporter
    have hp : canonical.portalPasswordHash.isSome = _ := h.password
    exact {
      donations := (donationsOf_disjoint hn).symm.eq_bot_of_le (Set.union_eq_left.mp hd.symm)
      fires     := Set.union_eq_left.mp hf.symm
      total     := by omega
      supporter := fun h => by simpa [h] using hs
      password  := fun h => by simpa [h] using hp }
  case mpr =>
    intro h
    refine ⟨canonicalId, data.apply canonical, ?_⟩
    exact {
      row       := hr
      unique    := by simp [hr, hg, hn.symm]
      donations := by rw [donationsOf_merge hn, h.donations, Set.union_empty]
      fires     := by rw [firesOf_merge hn, Set.union_eq_left.mpr h.fires]
      total     := by rw [h.total, Int.add_zero]; rfl
      supporter := (Bool.or_eq_left_iff_imp.mpr h.supporter).symm
      password  := (Bool.or_eq_left_iff_imp.mpr h.password).symm }

theorem run_reconcileNameFallback [Naming] :
    ((reconcileNameFallback serverInstanceId key name steamId).run [] s).state =
      s.reconcile serverInstanceId key name steamId :=
  Prog.wp_run_nil (wp_reconcileNameFallback (Q := fun _ s' => s' = _) rfl)

theorem reconcile_of_pair [Naming] (hk : key.isName = false)
    (hf : s.keyed? serverInstanceId (fallbackKey name) = some (fallbackId, fallback))
    (hc : s.keyed? serverInstanceId key = some (canonicalId, canonical)) :
    s.reconcile serverInstanceId key name steamId =
      s.merge canonicalId fallbackId (mergeData canonical fallback steamId) := by
  simp [Store.reconcile, hk, hf, hc]

-- A merge conserves what two players hold just if the row that is deleted holds nothing of its own.
theorem reconcileNameFallback_conserves_iff [Naming] (hk : key.isName = false)
    (hf : s.keyed? serverInstanceId (fallbackKey name) = some (fallbackId, fallback))
    (hc : s.keyed? serverInstanceId key = some (canonicalId, canonical)) :
    (∃ id p, Conserved s ((reconcileNameFallback serverInstanceId key name steamId).run [] s).state
      canonicalId fallbackId canonical fallback id p) ↔
    Covered s canonicalId fallbackId canonical fallback := by
  have hn : key ≠ fallbackKey name := fun hn => by simp [hn, fallbackKey, IdentityKey.isName] at hk
  rw [run_reconcileNameFallback, reconcile_of_pair hk hf hc]
  exact conserved_merge_iff (keyed?_some hc).left (keyed?_ne hn hc hf)

attribute [local instance] Naming.ascii

-- A player under a UUID, and the same player as a row without one that has been donated for.
def Player.known : Player where
  orgId            := 0
  serverInstanceId := 0
  identityKey      := .uuid "069a79f4-44e9-4726-a5be-fca90e38aaf5"
  name             := "Steve"
  firstSeenAt      := 0
  lastSeenAt       := 0

def Player.nameOnly (totalDonatedCents : Int) : Player where
  orgId             := 0
  serverInstanceId  := 0
  identityKey       := .name "steve"
  name              := "Steve"
  supporter         := 0 < totalDonatedCents
  totalDonatedCents := totalDonatedCents
  firstSeenAt       := 0
  lastSeenAt        := 0

def Store.twoRows (totalDonatedCents : Int) (donations : Table (Row Donation)) : Store where
  servers   := [{ orgId := 0, name := "Survival" }]
  players   := [⟨.known, true⟩, ⟨.nameOnly totalDonatedCents, true⟩]
  donations := donations

theorem reconcileNameFallback_conserves_twoRows :
    (∃ id p, Conserved (Store.twoRows 0 [])
      ((reconcileNameFallback 0 Player.known.identityKey "Steve" none).run [] (Store.twoRows 0 [])).state
      0 1 Player.known (Player.nameOnly 0) id p) ↔
    Covered (Store.twoRows 0 []) 0 1 Player.known (Player.nameOnly 0) :=
  reconcileNameFallback_conserves_iff rfl rfl rfl

-- The donation is deleted with the row.
theorem reconcileNameFallback_loses_donation :
    let s := Store.twoRows 500 [⟨{ playerId := 1, amountCents := 500 }, true⟩]
    s.keyed? 0 (fallbackKey "Steve") = some (1, Player.nameOnly 500) ∧
    s.keyed? 0 Player.known.identityKey = some (0, Player.known) ∧
    ¬∃ id p, Conserved s
      ((reconcileNameFallback 0 Player.known.identityKey "Steve" none).run [] s).state
      0 1 Player.known (Player.nameOnly 500) id p := by
  intro s
  have hf : s.keyed? 0 (fallbackKey "Steve") = some (1, Player.nameOnly 500) := rfl
  have hc : s.keyed? 0 Player.known.identityKey = some (0, Player.known) := rfl
  refine ⟨hf, hc, ?_⟩
  rw [run_reconcileNameFallback, reconcile_of_pair rfl hf hc,
    conserved_merge_iff (keyed?_some hc).left (by decide)]
  exact fun h => absurd h.total (by decide)

end Players
