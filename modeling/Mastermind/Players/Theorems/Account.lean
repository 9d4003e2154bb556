import Mastermind.Players.Theorems.View

open Effects Js Jobs Triggers

namespace Players

-- A Minecraft account on a server: its UUID and the names, in lower case, that it plays under.
structure Account where
  serverInstanceId : ServerId
  uuid             : String
  names            : List String

namespace Account

def hasKey (a : Account) : IdentityKey → Bool
  | .name n  => a.names.contains n
  | .uuid u  => u = a.uuid
  | .steam _ => false

def isCalled [Naming] (a : Account) (name : String) : Bool :=
  a.hasKey (fallbackKey name)

-- The rows that stand for the account.
def owns (a : Account) (i : ServerId × IdentityKey) : Bool :=
  i.1 = a.serverInstanceId && a.hasKey i.2

end Account

-- An enabled first-join trigger of a server, whose action is valid.
structure Trigger.Welcomes (t : Trigger) (servers : Table ServerInstance)
    (serverInstanceId : ServerId) : Prop where
  server    : servers[serverInstanceId]?.map (·.orgId) = some t.orgId
  serverId  : t.serverInstanceId = serverInstanceId
  enabled   : t.enabled = true
  eventType : t.eventType = TRIGGER_EVENT_FIRST_JOIN
  action    : (parseGrantItemsActionConfig (some t.actionConfig)).isOk = true

namespace View

def owned (v : View) (a : Account) (id : PlayerId) : Bool :=
  v.identities[id]?.any fun r => a.owns r.data

def alive (v : View) (a : Account) : Prop :=
  ∃ (id : PlayerId) (i : ServerId × IdentityKey),
    v.identities[id]? = some ⟨i, true⟩ ∧ a.owns i = true

-- The fires of a trigger for the rows of an account.
def rewards (v : View) (a : Account) (k : TriggerId) : Nat :=
  v.firstJoins.countP fun m => m.1 = k && v.owned a m.2.1

def rename (v : View) (id : PlayerId) (key : IdentityKey) : View :=
  { v with identities := v.identities.modify id fun r => { r with data := (r.data.1, key) } }

def kill (v : View) (id : PlayerId) : View :=
  { v with identities := v.identities.modify id Row.kill }

-- A new row, with the fires for it.
def add (v : View) (i : ServerId × IdentityKey) (marks : List Mark) : View :=
  { v with
    identities := v.identities ++ [⟨i, true⟩]
    firstJoins := v.firstJoins ++ marks }

end View

-- More fires.
def View.reward (v : View) (marks : List Mark) : View :=
  { v with firstJoins := v.firstJoins ++ marks }

theorem View.reward_add {v : View} {i : ServerId × IdentityKey} {marks : List Mark} :
    (v.add i []).reward marks = v.add i marks := by
  simp [View.add, View.reward]

theorem View.reward_nil {v : View} : v.reward [] = v := by
  simp [View.reward]

theorem View.reward_reward {v : View} {marks marks' : List Mark} :
    (v.reward marks).reward marks' = v.reward (marks ++ marks') := by
  simp [View.reward]

@[simp]
theorem View.firstJoins_rename {v : View} {id : PlayerId} {key : IdentityKey} :
    (v.rename id key).firstJoins = v.firstJoins :=
  rfl

@[simp]
theorem View.firstJoins_kill {v : View} {id : PlayerId} : (v.kill id).firstJoins = v.firstJoins :=
  rfl

-- The account has one fire of a trigger if it has been seen, and otherwise it is not known at all.
structure Settled (a : Account) (k : TriggerId) (seen : Bool) (v : View) : Prop where
  trigger : ∃ t, v.rules[k]? = some t ∧ t.Welcomes v.servers a.serverInstanceId
  range   : ∀ m ∈ v.firstJoins, m.2.1 < v.identities.length
  unseen  : seen = false → ∀ id, v.owned a id = false
  seen    : seen = true → v.alive a ∧ v.rewards a k = 1

variable {a : Account} {k : TriggerId} {seen : Bool} {v : View} {i : ServerId × IdentityKey}
  {id : PlayerId} {key : IdentityKey} {r : Row (ServerId × IdentityKey)}

theorem View.owned_of_some (h : v.identities[id]? = some r) : v.owned a id = a.owns r.data := by
  simp [View.owned, h]

theorem Settled.seen_of_owned (h : Settled a k seen v) (ho : v.owned a id = true) : seen = true := by
  cases seen
  case true  => rfl
  case false => rw [h.unseen rfl] at ho; nomatch ho

theorem Settled.alive_iff (h : Settled a k seen v) : v.alive a ↔ seen = true := by
  constructor
  case mpr => exact fun hs => (h.seen hs).left
  case mp =>
    intro ⟨id, i, hi, ha⟩
    exact h.seen_of_owned <| (View.owned_of_some hi).trans ha

theorem Settled.rewards_eq (h : Settled a k seen v) : v.rewards a k = seen.toNat := by
  cases seen
  case true  => exact (h.seen rfl).right
  case false => simp [View.rewards, h.unseen rfl]

-- Who owns a row does not change.
theorem Settled.rename (h : Settled a k seen v) (hi : v.identities[id]? = some r)
    (ho : a.owns (r.data.1, key) = a.owns r.data) : Settled a k seen (v.rename id key) := by
  have hget : ∀ id', (v.rename id key).identities[id']? =
      if id = id' then some { r with data := (r.data.1, key) } else v.identities[id']? := by
    intro id'
    simp only [View.rename, List.getElem?_modify]
    split
    case isTrue he => rw [← he, hi]; rfl
    case isFalse   => simp
  have howned : ∀ id', (v.rename id key).owned a id' = v.owned a id' := by
    intro id'
    rw [View.owned, hget]
    split
    case isTrue he => rw [← he, View.owned_of_some hi]; exact ho
    case isFalse   => rfl
  refine { trigger := h.trigger, range := ?_, unseen := fun hs id' => ?_, seen := fun hs => ?_ }
  case refine_1 => simpa [View.rename] using h.range
  case refine_2 => exact (howned id').trans (h.unseen hs id')
  case refine_3 =>
    have ⟨⟨id', i, hi', ha⟩, hr⟩ := h.seen hs
    refine ⟨?_, by simpa [View.rewards, howned] using hr⟩
    by_cases he : id = id'
    case neg => exact ⟨id', i, by rw [hget, if_neg he, hi'], ha⟩
    case pos =>
      obtain rfl : r = ⟨i, true⟩ := Option.some.inj <| hi.symm.trans (he ▸ hi')
      exact ⟨id', _, by rw [hget, if_pos he], ho.trans ha⟩

-- A row can go if another one is left that stands for the same account.
theorem Settled.kill {id' : PlayerId} {i' : ServerId × IdentityKey} (h : Settled a k seen v)
    (hi : v.identities[id]? = some ⟨i, true⟩) (hi' : v.identities[id']? = some ⟨i', true⟩)
    (hn : id' ≠ id) (ho : a.owns i = true → a.owns i' = true) : Settled a k seen (v.kill id) := by
  have howned : ∀ j, (v.kill id).owned a j = v.owned a j := by
    intro j
    simp only [View.owned, View.kill, List.getElem?_modify]
    split
    case isTrue he => rw [← he, hi]; rfl
    case isFalse   => simp
  refine { trigger := h.trigger, range := ?_, unseen := fun hs j => ?_, seen := fun hs => ?_ }
  case refine_1 => simpa [View.kill] using h.range
  case refine_2 => exact (howned j).trans (h.unseen hs j)
  case refine_3 =>
    have ⟨⟨j, i₁, hj, ha⟩, hr⟩ := h.seen hs
    refine ⟨?_, by simpa [View.rewards, howned] using hr⟩
    have hstays : ∀ j' ≠ id, ∀ i₂, v.identities[j']? = some ⟨i₂, true⟩ → a.owns i₂ = true →
        (v.kill id).alive a :=
      fun j' hj' i₂ hi₂ ha => ⟨j', i₂, by simpa [View.kill, List.getElem?_modify, hj'.symm] using hi₂, ha⟩
    by_cases he : j = id
    case neg => exact hstays j he i₁ hj ha
    case pos =>
      obtain rfl : i = i₁ := congrArg Row.data <| Option.some.inj <| hi.symm.trans (he ▸ hj)
      exact hstays id' hn i' hi' (ho ha)

theorem View.owned_add {marks : List Mark} {id : PlayerId} (h : id < v.identities.length) :
    (v.add i marks).owned a id = v.owned a id := by
  simp [View.owned, View.add, List.getElem?_append_left h]

theorem View.owned_add_self {marks : List Mark} :
    (v.add i marks).owned a v.identities.length = a.owns i := by
  simp [View.owned, View.add]

theorem View.owned_add_of_lt {marks : List Mark} {id : PlayerId} (h : v.identities.length < id) :
    (v.add i marks).owned a id = false := by
  have ha : (v.add i marks).identities[id]? = none :=
    List.getElem?_eq_none (by rw [View.add, List.length_append]; exact h)
  rw [View.owned, ha]
  rfl

-- A new row brings its own fires.
theorem Settled.rewards_add (h : Settled a k seen v) {marks : List Mark}
    (hm : ∀ m ∈ marks, m.2.1 = v.identities.length) :
    (v.add i marks).rewards a k =
      seen.toNat + if a.owns i = true then marks.countP (fun m => m.1 = k) else 0 := by
  have ho : (v.firstJoins.countP fun m => m.1 = k && (v.add i marks).owned a m.2.1) = seen.toNat := by
    rw [← h.rewards_eq]
    apply List.countP_congr
    intro m hm
    rw [View.owned_add (h.range m hm)]
  have hn : (marks.countP fun m => m.1 = k && (v.add i marks).owned a m.2.1) =
      if a.owns i = true then marks.countP (fun m => m.1 = k) else 0 := by
    have hc : ∀ m ∈ marks, (v.add i marks).owned a m.2.1 = a.owns i :=
      fun m h => hm m h ▸ View.owned_add_self
    split
    case isTrue ha  => exact List.countP_congr fun m h => by simp [hc m h, ha]
    case isFalse ha => exact List.countP_eq_zero.mpr fun m h => by simp [hc m h, ha]
  rw [View.rewards, View.add, List.countP_append]
  exact congrArg₂ (· + ·) ho hn

-- A new row of an account comes with a fire just if it is the first row of the account.
theorem Settled.add (h : Settled a k seen v) {marks : List Mark}
    (hm : ∀ m ∈ marks, m.2.1 = v.identities.length)
    (hc : a.owns i = true → seen.toNat + marks.countP (fun m => m.1 = k) = 1) :
    Settled a k (seen || a.owns i) (v.add i marks) := by
  have hr := h.rewards_add (i := i) hm
  refine { trigger := h.trigger, range := fun m hi => ?_, unseen := fun hs id => ?_, seen := fun hs => ?_ }
  case refine_1 =>
    have hl : m.2.1 < v.identities.length + 1 := by
      cases List.mem_append.mp hi
      case inl hi => exact Nat.lt_succ_of_lt (h.range m hi)
      case inr hi => exact hm m hi ▸ Nat.lt_succ_self _
    simpa [View.add] using hl
  case refine_2 =>
    have ⟨hs, hn⟩ := Bool.or_eq_false_iff.mp hs
    cases Nat.lt_trichotomy id v.identities.length
    case inl hl => exact (View.owned_add hl).trans (h.unseen hs id)
    case inr hl =>
      cases hl
      case inl he => exact he ▸ View.owned_add_self.trans hn
      case inr hl => exact View.owned_add_of_lt hl
  case refine_3 =>
    cases ha : a.owns i
    case true =>
      rw [hr, if_pos ha]
      exact ⟨⟨_, i, List.getElem?_concat_length, ha⟩, hc ha⟩
    case false =>
      have hs : seen = true := by simpa [ha] using hs
      have ⟨⟨id, i', hi, ha'⟩, _⟩ := h.seen hs
      rw [hr, hs, ha]
      exact ⟨⟨id, i', Table.getElem?_append_of_some hi, ha'⟩, rfl⟩

end Players
