import Mastermind.Servers.Discovery
import Mastermind.Effects.System

open Effects Js

namespace Servers

-- The effect of a report on the database.
def Store.sync (s : Store) (lower : String → String) (hostId : Nat) (dto : Report) : Store :=
  (upsertDiscoveredMinecraftInstance lower hostId dto s).2

-- The database under the reports of a host.
@[reducible]
def discovery (lower : String → String) (hostId : Nat) : System where
  State     := Store
  Event     := Report
  next s dto := s.sync lower hostId dto

-- The report brings the mark with which the agent takes an instance over.
def Report.marks (dto : Report) : Bool :=
  isDiscoveredManaged (dto.config.map fun c => .obj c.val.val)

-- Where both have a value, the report and the instance have the same one. An instance has always a
-- name.
def Report.Agrees (dto : Report) (row : ServerInstance) : Prop :=
  (∀ v ∈ trimmed dto.name, v = row.name) ∧
  (isUnset row.startCommand = true ∨
    ∀ v ∈ (trimmed dto.startCommand).map some, v = row.startCommand) ∧
  (isUnset row.rconHost = true ∨ ∀ v ∈ (trimmed dto.rconHost).map some, v = row.rconHost) ∧
  (row.rconPort.isNone = true ∨ ∀ v ∈ dto.rconPort, v = row.rconPort) ∧
  (isUnset row.rconPassword = true ∨
    ∀ v ∈ dto.rconPassword.map (Option.filter (· ≠ "")), v = row.rconPassword)

-- The instance still has the values that an operator has set.
def ServerInstance.Keeps (row₀ row : ServerInstance) : Prop :=
  row.name = row₀.name ∧
  (isUnset row₀.startCommand = true ∨ row.startCommand = row₀.startCommand) ∧
  (isUnset row₀.rconHost = true ∨ row.rconHost = row₀.rconHost) ∧
  (row₀.rconPort.isNone = true ∨ row.rconPort = row₀.rconPort) ∧
  (isUnset row₀.rconPassword = true ∨ row.rconPassword = row₀.rconPassword)

def Store.Keeps (id : Nat) (row₀ : ServerInstance) (s : Store) : Prop :=
  ∃ row, s.serverInstances[id]? = some row ∧ row₀.Keeps row

-- The instance that a report changes, if it does not create one.
def Store.matched (s : Store) (lower : String → String) (hostId : Nat) (dto : Report) :
    Option (Nat × ServerInstance) :=
  match s.hosts[hostId]?, s.getMinecraftGameTypeId lower with
  | some host, .ok gameTypeId =>
    existingInstance lower (s.instancesOf host hostId gameTypeId) (trimmed dto.installPath)
  | _, _ => none

-- A report that comes to an instance in the hands of the agent brings what the operator has set.
def Store.Respects (lower : String → String) (id : Nat) (row₀ : ServerInstance) (hostId : Nat)
    (s : Store) (dto : Report) : Prop :=
  ∀ row, s.matched lower hostId dto = some (id, row) → isDiscoveredManaged row.config = true →
    dto.Agrees row₀

-- A report has the same effect once as twice: it does not take an instance over which has other values,
-- and it creates one that it finds again and that has no value which the update writes in another way.
def Store.Repeatable (s : Store) (lower : String → String) (hostId : Nat) (dto : Report) : Prop :=
  match s.hosts[hostId]?, s.getMinecraftGameTypeId lower with
  | some host, .ok gameTypeId =>
    match existingInstance lower (s.instancesOf host hostId gameTypeId) (trimmed dto.installPath) with
    | some (_, row) => isDiscoveredManaged row.config = true ∨ dto.marks = false ∨ dto.Agrees row
    | none =>
      (trimmed dto.installPath ≠ none ∨ s.instancesOf host hostId gameTypeId = []) ∧
      dto.rconPassword ≠ some (some "") ∧ (dto.rconPort = some none → dto.marks = false)
  | _, _ => True

instance {dto : Report} {row : ServerInstance} : Decidable (dto.Agrees row) := by
  unfold Report.Agrees
  infer_instance

instance {s : Store} {lower : String → String} {hostId : Nat} {dto : Report} :
    Decidable (s.Repeatable lower hostId dto) := by
  unfold Store.Repeatable
  split
  case h_1 => split <;> infer_instance
  case h_2 => infer_instance

variable {s : Store} {hostId gameTypeId id : Nat} {host : Host} {dto : Report}
  {row row₀ : ServerInstance} {rows : List (Nat × ServerInstance)} {path : Option String}
  {lower : String → String}

section

variable {α : Type} {a m m₁ m₂ : Bool} {g : Option α} {unset : α → Bool} {x x₀ : α}

theorem overwrite_eq_self : overwrite a g x = x ↔ a = false ∨ ∀ v ∈ g, v = x := by
  cases a <;> cases g <;> simp [overwrite]

-- A field is stable, unless the second time it may be overwritten and the first time it could not.
theorem overwrite_overwrite_iff :
    overwrite (m₂ || unset (overwrite (m₁ || unset x) g x)) g (overwrite (m₁ || unset x) g x) =
      overwrite (m₁ || unset x) g x ↔
    m₁ = true ∨ m₂ = false ∨ unset x = true ∨ ∀ v ∈ g, v = x := by
  cases h : m₁ || unset x
  case true =>
    have hm : m₁ = true ∨ unset x = true := by simpa using h
    refine iff_of_true ?_ (by tauto)
    cases g
    case none   => simp [overwrite]
    case some v => simp [overwrite]
  case false =>
    have ⟨hm, hx⟩ : m₁ = false ∧ unset x = false := by simpa using h
    have ho : overwrite false g x = x := rfl
    rw [ho, hx, overwrite_eq_self]
    simp [hm]

-- A field that was set keeps its value, unless it may be overwritten with another one.
theorem overwrite_keeps_iff (h : unset x₀ = true ∨ x = x₀) :
    unset x₀ = true ∨ overwrite (m || unset x) g x = x₀ ↔
      (m = true → unset x₀ = true ∨ ∀ v ∈ g, v = x₀) := by
  cases hx : unset x₀
  case true => simp
  case false =>
    have he : x = x₀ := h.resolve_left (by simp [hx])
    rw [he, hx, overwrite_eq_self]
    cases m <;> simp

end

theorem nodup_incoming (c : Config) :
    ((configFields (c.val.val.lookup "discovery")).map Prod.fst).Nodup := by
  cases h : c.val.val.lookup "discovery"
  case none => exact List.nodup_nil
  case some v =>
    cases v
    case obj d => exact c.property d h
    all_goals exact List.nodup_nil

theorem mem_keys_of_lookup {a : Fields} {k : String} {v : Json} (h : a.lookup k = some v) :
    k ∈ a.map Prod.fst := by
  by_contra hk
  rw [Json.lookup_eq_none hk] at h
  nomatch h

-- A config that has been merged can be merged again.
theorem mergeConfig_mergeConfig {existing : Option Json} {incoming : Option Config} :
    mergeConfig (some (.obj (mergeConfig existing incoming))) incoming =
      mergeConfig existing incoming := by
  cases incoming
  case none => rfl
  case some c =>
    simp only [mergeConfig]
    generalize hd : Json.spread (configFields ((configFields existing).lookup "discovery"))
      (configFields (c.val.val.lookup "discovery")) = d
    generalize hb : Json.spread (configFields existing) c.val.val = b
    have hl {k : String} : (Json.setField "discovery" (.obj d) b).lookup k =
        if k = "discovery" then some (.obj d) else b.lookup k := Json.lookup_setField
    have hk : "discovery" ∈ (Json.setField "discovery" (.obj d) b).map Prod.fst :=
      mem_keys_of_lookup (hl.trans (if_pos rfl))
    have hs : Json.spread d (configFields (c.val.val.lookup "discovery")) = d :=
      hd ▸ Json.spread_spread (nodup_incoming c)
    change Json.setField "discovery"
      (.obj (Json.spread (configFields ((Json.setField "discovery" (.obj d) b).lookup "discovery"))
        (configFields (c.val.val.lookup "discovery"))))
      (Json.spread (Json.setField "discovery" (.obj d) b) c.val.val) = _
    rw [hl, if_pos rfl]
    change Json.setField "discovery" (.obj (Json.spread d _)) _ = _
    rw [hs, Json.setField_spread hk, Json.setField_setField]
    refine Json.spread_eq_self fun e he => ?_
    have ⟨hm, hne⟩ := List.mem_filter.mp he
    rw [hl, if_neg (by simpa using hne), ← hb, Json.lookup_spread c.val.property,
      Json.lookup_of_mem c.val.property hm, Option.some_or]

-- An instance that is not in the hands of the agent gets there by the mark of the report.
theorem isDiscoveredManaged_mergeConfig {existing : Option Json}
    (h : isDiscoveredManaged existing = false) :
    isDiscoveredManaged (some (.obj (mergeConfig existing dto.config))) = dto.marks := by
  rw [Report.marks]
  cases dto.config
  case none => exact h
  case some c =>
    change isTruthy ((configFields ((Json.setField "discovery" _ _).lookup "discovery")).lookup
      "managedByAgent") = isTruthy ((configFields (c.val.val.lookup "discovery")).lookup
      "managedByAgent")
    rw [Json.lookup_setField, if_pos rfl]
    change isTruthy ((Json.spread _ _).lookup "managedByAgent") = _
    rw [Json.lookup_spread (nodup_incoming c)]
    cases (configFields (c.val.val.lookup "discovery")).lookup "managedByAgent"
    case none   => exact h
    case some v => rfl

section

variable {α : Type} {a m m₁ m₂ : Bool} {g : Option α} {unset : α → Bool} {x : α}

theorem overwrite_name : overwrite m₂ g (overwrite m₁ g x) = overwrite m₁ g x ↔
    m₁ = true ∨ m₂ = false ∨ ∀ v ∈ g, v = x := by
  simpa using @overwrite_overwrite_iff _ m₁ m₂ g (fun _ => false) x

theorem overwrite_true : overwrite true g (overwrite true g x) = overwrite true g x :=
  overwrite_name.mpr (.inl rfl)

theorem overwrite_unset :
    overwrite (unset (overwrite (unset x) g x)) g (overwrite (unset x) g x) =
      overwrite (unset x) g x := by
  simpa using (@overwrite_overwrite_iff _ false false g unset x).mpr (.inr (.inl rfl))

theorem overwrite_getD : overwrite a g (g.getD x) = g.getD x := by
  cases a <;> cases g <;> rfl

theorem overwrite_some : overwrite a (g.map some) g = g := by
  cases a <;> cases g <;> rfl

theorem overwrite_some_getD : overwrite a (g.map some) (some (g.getD x)) = some (g.getD x) := by
  cases a <;> cases g <;> rfl

end

theorem ServerInstance.eq_iff {a b : ServerInstance} : a = b ↔
    a.orgId = b.orgId ∧ a.hostId = b.hostId ∧ a.gameTypeId = b.gameTypeId ∧ a.name = b.name ∧
    a.installPath = b.installPath ∧ a.startCommand = b.startCommand ∧ a.rconHost = b.rconHost ∧
    a.rconPort = b.rconPort ∧ a.rconPassword = b.rconPassword ∧ a.mapEmbedUrl = b.mapEmbedUrl ∧
    a.config = b.config := by
  cases a
  cases b
  simp

-- A second update changes nothing, unless the first one takes the instance over.
theorem update_update_iff : dto.update (dto.update row) = dto.update row ↔
    isDiscoveredManaged row.config = true ∨ dto.marks = false ∨ dto.Agrees row := by
  have hc : mergeConfig (dto.update row).config dto.config = mergeConfig row.config dto.config :=
    mergeConfig_mergeConfig
  have hk : dto.update (dto.update row) = dto.update row ↔ isDiscoveredManaged row.config = true ∨
      isDiscoveredManaged (dto.update row).config = false ∨ dto.Agrees row := by
    generalize hm : isDiscoveredManaged row.config = m
    generalize hn : isDiscoveredManaged (dto.update row).config = n
    rw [ServerInstance.eq_iff]
    simp only [Report.update] at hc hn ⊢
    simp only [hm, hn, hc, overwrite_true, overwrite_unset, overwrite_name,
      @overwrite_overwrite_iff _ _ _ _ isUnset, @overwrite_overwrite_iff _ _ _ _ Option.isNone,
      Report.Agrees, true_and, and_true, ← or_and_left]
  rw [hk]
  cases hm : isDiscoveredManaged row.config
  case true => simp
  case false =>
    have hn : isDiscoveredManaged (dto.update row).config = dto.marks :=
      isDiscoveredManaged_mergeConfig hm
    rw [hn]

-- The first update of a new instance changes what the two write in different ways: an empty password
-- and a port that is `null`.
theorem update_toInstance_iff :
    dto.update (dto.toInstance host hostId gameTypeId) = dto.toInstance host hostId gameTypeId ↔
      dto.rconPassword ≠ some (some "") ∧ (dto.rconPort = some none → dto.marks = false) := by
  have hm : isDiscoveredManaged (dto.toInstance host hostId gameTypeId).config = dto.marks :=
    isDiscoveredManaged_mergeConfig rfl
  have hc : mergeConfig (dto.toInstance host hostId gameTypeId).config dto.config =
      mergeConfig none dto.config := mergeConfig_mergeConfig
  have hport : overwrite (dto.marks || (some (dto.rconPort.join.getD 25575)).isNone) dto.rconPort
      (some (dto.rconPort.join.getD 25575)) = some (dto.rconPort.join.getD 25575) ↔
        (dto.rconPort = some none → dto.marks = false) := by
    rw [overwrite_eq_self]
    rcases dto.rconPort with _ | _ | port <;> simp
  have hpassword : overwrite (dto.marks || isUnset dto.rconPassword.join)
      (dto.rconPassword.map (Option.filter (· ≠ ""))) dto.rconPassword.join = dto.rconPassword.join ↔
        dto.rconPassword ≠ some (some "") := by
    rw [overwrite_eq_self]
    rcases dto.rconPassword with _ | _ | password
    case none      => simp
    case some.none => simp
    case some.some =>
      by_cases h : password = ""
      case pos => simp [h, isUnset]
      case neg => simp [h]
  rw [ServerInstance.eq_iff]
  simp only [Report.update, Report.toInstance] at hm hc ⊢
  simp only [hm, hc, overwrite_getD, overwrite_some, overwrite_some_getD, hport, hpassword,
    true_and, and_true, and_comm]

theorem mem_of_existingInstance (h : existingInstance lower rows path = some (id, row)) :
    (id, row) ∈ rows := by
  rw [existingInstance, Option.or_eq_some_iff] at h
  cases h
  case inl h =>
    cases path
    case none   => nomatch h
    case some _ => exact List.mem_of_find?_eq_some h
  case inr h =>
    have ⟨_, h⟩ := h
    split at h
    case isTrue  => exact List.mem_of_head? h
    case isFalse => nomatch h

-- The instance that a report has changed is the one that it finds again.
theorem existingInstance_update (hn : (rows.map Prod.fst).Nodup)
    (h : existingInstance lower rows (trimmed dto.installPath) = some (id, row)) :
    existingInstance lower (rows.map fun (k, r) => (k, if id = k then dto.update r else r))
      (trimmed dto.installPath) = some (id, dto.update row) := by
  have hp {path : String} (hd : trimmed dto.installPath = some path) :
      (dto.update row).installPath = some path := by
    simp [Report.update, overwrite, hd]
  generalize hd : trimmed dto.installPath = path at h hp ⊢
  have hsingle (hl : (if rows.length = 1 then rows.head? else none) = some (id, row)) :
      rows = [(id, row)] := by
    split at hl
    case isFalse => nomatch hl
    case isTrue hl' =>
      have ⟨e, he⟩ := List.length_eq_one_iff.mp hl'
      rw [he] at hl ⊢
      cases hl
      rfl
  rw [existingInstance, Option.or_eq_some_iff] at h
  cases h
  case inr h =>
    have ⟨_, hl⟩ := h
    rw [hsingle hl]
    cases path
    case none => simp [existingInstance, findMatchingDiscoveredInstance]
    case some path => simp [existingInstance, findMatchingDiscoveredInstance, hp rfl]
  case inl h =>
    cases path
    case none => nomatch h
    case some path =>
      have ⟨hm, as, bs, he, hf⟩ := List.find?_eq_some_iff_append.mp h
      have ha : ∀ e ∈ as, id ≠ e.1 := by
        rintro e ha rfl
        rw [he, List.map_append, List.map_cons] at hn
        exact (List.nodup_append.mp hn).2.2 _ (List.mem_map_of_mem ha) _ List.mem_cons_self rfl
      apply Option.or_eq_some_iff.mpr
      left
      apply List.find?_eq_some_iff_append.mpr
      refine ⟨by simp [hp rfl], as, bs.map fun (k, r) => (k, if id = k then dto.update r else r), ?_, hf⟩
      have hs : (as.map fun (k, r) => (k, if id = k then dto.update r else r)) = as := by
        apply (List.map_congr_left fun e hm => ?_).trans (List.map_id as)
        simp [ha e hm]
      rw [he, List.map_append, List.map_cons, hs]
      simp

-- A new instance is the one that its report finds again if the report has a path, or if it is the only
-- one.
theorem existingInstance_append (h : existingInstance lower rows (trimmed dto.installPath) = none) :
    existingInstance lower (rows ++ [(id, dto.toInstance host hostId gameTypeId)])
      (trimmed dto.installPath) =
        if trimmed dto.installPath ≠ none ∨ rows = [] then
          some (id, dto.toInstance host hostId gameTypeId)
        else none := by
  have hp : (dto.toInstance host hostId gameTypeId).installPath = trimmed dto.installPath := rfl
  generalize hd : trimmed dto.installPath = path at h hp ⊢
  have ⟨hf, hl⟩ := Option.or_eq_none_iff.mp h
  cases path
  case some path =>
    have hf : rows.find?
        (fun (_, row) => normalizePath lower row.installPath = normalizePath lower (some path)) = none := hf
    simp [existingInstance, findMatchingDiscoveredInstance, List.find?_append, hf, hp]
  case none =>
    cases rows
    case nil => simp [existingInstance, findMatchingDiscoveredInstance]
    case cons e rows => simp [existingInstance, findMatchingDiscoveredInstance]

theorem instancesOf_update :
    { s with serverInstances := s.serverInstances.modify id dto.update }.instancesOf host hostId
        gameTypeId =
      (s.instancesOf host hostId gameTypeId).map
        fun (k, r) => (k, if id = k then dto.update r else r) :=
  Table.filter_entries_modify fun _ _ => rfl

theorem instancesOf_append :
    { s with
      serverInstances := s.serverInstances ++ [dto.toInstance host hostId gameTypeId]
      }.instancesOf host hostId gameTypeId =
      s.instancesOf host hostId gameTypeId ++
        [(s.serverInstances.length, dto.toInstance host hostId gameTypeId)] := by
  simp [Store.instancesOf, Table.entries_append, Report.toInstance]

theorem nodup_instancesOf : ((s.instancesOf host hostId gameTypeId).map Prod.fst).Nodup :=
  (List.filter_sublist.map Prod.fst).nodup Table.entries_keys_nodup

theorem getElem?_of_existingInstance
    (h : existingInstance lower (s.instancesOf host hostId gameTypeId) path = some (id, row)) :
    s.serverInstances[id]? = some row :=
  Table.mem_entries.mp (List.mem_filter.mp (mem_of_existingInstance h)).left

section

variable (hh : s.hosts[hostId]? = some host) (hg : s.getMinecraftGameTypeId lower = .ok gameTypeId)

include hh hg

theorem sync_of_some
    (he : existingInstance lower (s.instancesOf host hostId gameTypeId) (trimmed dto.installPath) =
      some (id, row)) :
    s.sync lower hostId dto = { s with serverInstances := s.serverInstances.modify id dto.update } := by
  simp only [Store.sync, upsertDiscoveredMinecraftInstance, hh, hg, he]

theorem sync_of_none
    (he : existingInstance lower (s.instancesOf host hostId gameTypeId) (trimmed dto.installPath) = none) :
    s.sync lower hostId dto =
      { s with
        serverInstances := s.serverInstances ++ [dto.toInstance host hostId gameTypeId] } := by
  simp only [Store.sync, upsertDiscoveredMinecraftInstance, hh, hg, he]

end

-- What a report does: it is refused, or it creates an instance, or it updates the one that it matches.
inductive Synced (lower : String → String) (s : Store) (hostId : Nat) (dto : Report) : Prop
  | refused (hm : s.matched lower hostId dto = none) (hr : s.Repeatable lower hostId dto)
    (hs : ∀ dto, s.sync lower hostId dto = s)
  | created {host : Host} {gameTypeId : Nat} (hh : s.hosts[hostId]? = some host)
    (hg : s.getMinecraftGameTypeId lower = .ok gameTypeId)
    (he : existingInstance lower (s.instancesOf host hostId gameTypeId) (trimmed dto.installPath) = none)
  | updated {host : Host} {gameTypeId : Nat} {id : Nat} {row : ServerInstance}
    (hh : s.hosts[hostId]? = some host) (hg : s.getMinecraftGameTypeId lower = .ok gameTypeId)
    (he : existingInstance lower (s.instancesOf host hostId gameTypeId) (trimmed dto.installPath) =
      some (id, row))

theorem synced (lower : String → String) (s : Store) (hostId : Nat) (dto : Report) :
    Synced lower s hostId dto := by
  cases hh : s.hosts[hostId]?
  case none =>
    exact .refused (by simp [Store.matched, hh]) (by simp [Store.Repeatable, hh]) fun dto => by
      simp [Store.sync, upsertDiscoveredMinecraftInstance, hh]
  case some host =>
    cases hg : s.getMinecraftGameTypeId lower
    case error =>
      exact .refused (by simp [Store.matched, hh, hg]) (by simp [Store.Repeatable, hh, hg])
        fun dto => by simp [Store.sync, upsertDiscoveredMinecraftInstance, hh, hg]
    case ok gameTypeId =>
      cases he : existingInstance lower (s.instancesOf host hostId gameTypeId) (trimmed dto.installPath)
      case none   => exact .created hh hg he
      case some e => exact .updated hh hg he

theorem modify_eq_iff {t : Table ServerInstance} {f : ServerInstance → ServerInstance}
    (h : t[id]? = some row) : t.modify id f = t ↔ f row = row := by
  constructor
  case mp =>
    intro hm
    have hr : (t.modify id f)[id]? = some (f row) := by simp [h]
    rw [hm, h] at hr
    exact (Option.some.inj hr).symm
  case mpr =>
    intro hr
    apply List.ext_getElem?
    intro k
    rw [List.getElem?_modify]
    by_cases hk : id = k
    case pos => simp [← hk, h, hr]
    case neg => simp [hk]

theorem with_serverInstances_iff {t : Table ServerInstance} :
    { s with serverInstances := t } = s ↔ t = s.serverInstances := by
  cases s
  simp

-- A report that comes twice has the effect of one.
theorem sync_sync_iff : (s.sync lower hostId dto).sync lower hostId dto = s.sync lower hostId dto ↔
    s.Repeatable lower hostId dto := by
  cases synced lower s hostId dto
  case refused hr hs => exact iff_of_true (by rw [hs, hs]) hr
  case updated host gameTypeId id row hh hg he =>
    have hr := getElem?_of_existingInstance he
    have he' := existingInstance_update nodup_instancesOf he
    rw [← instancesOf_update] at he'
    have hr' : (s.serverInstances.modify id dto.update)[id]? = some (dto.update row) := by simp [hr]
    have hs := @sync_of_some { s with serverInstances := s.serverInstances.modify id dto.update }
      _ _ _ _ _ _ _ hh hg he'
    rw [sync_of_some hh hg he, hs, with_serverInstances_iff, modify_eq_iff hr', update_update_iff]
    simp only [Store.Repeatable, hh, hg, he]
  case created host gameTypeId hh hg he =>
    have he' := @existingInstance_append hostId gameTypeId s.serverInstances.length host _ _ _ he
    rw [← instancesOf_append] at he'
    have hh' : { s with
      serverInstances := s.serverInstances ++ [dto.toInstance host hostId gameTypeId]
      }.hosts[hostId]? = some host := hh
    rw [sync_of_none hh hg he]
    split at he'
    case isTrue hc =>
      rw [sync_of_some hh' hg he', with_serverInstances_iff,
        modify_eq_iff (getElem?_of_existingInstance he'), update_toInstance_iff]
      simp only [Store.Repeatable, hh, hg, he, hc, true_and]
    case isFalse hc =>
      rw [sync_of_none hh' hg he', with_serverInstances_iff]
      apply iff_of_false
      case ha => exact fun h => by simpa using congrArg List.length h
      case hb => simp only [Store.Repeatable, hh, hg, he, hc, false_and, not_false_eq_true]

-- An update respects the operator if it does not come to an instance in the hands of the agent, or
-- agrees with the operator.
theorem keeps_update_iff (h : row₀.Keeps row) :
    row₀.Keeps (dto.update row) ↔ (isDiscoveredManaged row.config = true → dto.Agrees row₀) := by
  have ⟨hname, hstart, hhost, hport, hpassword⟩ := h
  have hname : overwrite (isDiscoveredManaged row.config) (trimmed dto.name) row.name = row₀.name ↔
      (isDiscoveredManaged row.config = true → ∀ v ∈ trimmed dto.name, v = row₀.name) := by
    rw [hname, overwrite_eq_self]
    cases isDiscoveredManaged row.config <;> simp
  simp only [ServerInstance.Keeps, Report.update, hname, overwrite_keeps_iff hstart,
    overwrite_keeps_iff hhost, overwrite_keeps_iff hport, overwrite_keeps_iff hpassword,
    Report.Agrees, ← imp_and]

theorem keeps_sync_iff (h : s.Keeps id row₀) :
    (s.sync lower hostId dto).Keeps id row₀ ↔ s.Respects lower id row₀ hostId dto := by
  have ⟨row, hr, hk⟩ := h
  cases synced lower s hostId dto
  case refused hm hr hs =>
    rw [hs]
    refine iff_of_true h fun row hm' => ?_
    rw [hm] at hm'
    nomatch hm'
  case created host gameTypeId hh hg he =>
    have hm : s.matched lower hostId dto = none := by simp only [Store.matched, hh, hg, he]
    rw [sync_of_none hh hg he]
    refine iff_of_true ⟨row, Table.getElem?_append_of_some hr, hk⟩ fun row hm' => ?_
    rw [hm] at hm'
    nomatch hm'
  case updated host gameTypeId id' row' hh hg he =>
    have hm : s.matched lower hostId dto = some (id', row') := by simp only [Store.matched, hh, hg, he]
    have hr' := getElem?_of_existingInstance he
    rw [sync_of_some hh hg he]
    by_cases hi : id' = id
    case neg =>
      apply iff_of_true
      case ha => exact ⟨row, by simp [hi, hr], hk⟩
      case hb =>
        intro row hm'
        rw [hm] at hm'
        cases hm'
        exact absurd rfl hi
    case pos =>
      subst hi
      rw [hr] at hr'
      cases hr'
      have hu : (s.serverInstances.modify id' dto.update)[id']? = some (dto.update row) := by simp [hr]
      constructor
      case mp =>
        intro ⟨row₁, hr₁, hk₁⟩ row' hm'
        rw [hu] at hr₁
        rw [hm] at hm'
        cases hr₁
        cases hm'
        exact (keeps_update_iff hk).mp hk₁
      case mpr => exact fun h => ⟨_, hu, (keeps_update_iff hk).mpr (h row hm)⟩

-- The reports of a host: one that comes twice has the effect of one, if and only if it is repeatable.
-- An instance has the values that an operator has set in every state of a run, if and only if no report
-- that comes to it while it is in the hands of the agent brings another value.
theorem discovery_respects_iff (lower : String → String) (s : Store) (hostId : Nat) :
    (∀ dto, (s.sync lower hostId dto).sync lower hostId dto = s.sync lower hostId dto ↔
      s.Repeatable lower hostId dto) ∧
    ∀ id row reports, s.serverInstances[id]? = some row →
      ((discovery lower hostId).Throughout (Store.Keeps id row) s reports ↔
        (discovery lower hostId).Meets (Store.Respects lower id row hostId) s reports) := by
  constructor
  case left => exact fun _ => sync_sync_iff
  case right =>
    intro id row reports hr
    exact System.throughout_iff (fun _ _ h => keeps_sync_iff h)
      ⟨row, hr, rfl, .inr rfl, .inr rfl, .inr rfl, .inr rfl⟩

-- Lower-cases the letters of the English alphabet.
def lowerLetters (s : String) : String :=
  .ofList (s.toList.map Char.toLower)

-- A host with one instance, which an operator has created.
def manual : Store :=
  (create lowerLetters 0
    { name := "Survival", hostId := 0, gameType := "Minecraft", startCommand := "./run.sh" }
    { hosts := [{ orgId := 0, name := "box" }], gameTypes := [{ slug := "minecraft" }] }).2

-- What the agent of the host reports about it.
def found : Report where
  name         := "A Minecraft Server"
  installPath  := "/srv/minecraft"
  startCommand := "java -jar server.jar nogui"
  rconHost     := "127.0.0.1"
  rconPort     := some (some 25575)
  config       := some ⟨⟨[("discovery", .obj [("managedByAgent", .bool true)])], by simp⟩, by simp⟩

def names (s : Store) : List String :=
  s.serverInstances.map ServerInstance.name

-- A report without the mark.
def unmarked : Report :=
  { found with config := none }

-- The report sets the path and the RCON data, which the operator has left open, and nothing else, however
-- often it comes.
theorem discovery_respects_unmarked :
    ((manual.sync lowerLetters 0 unmarked).sync lowerLetters 0 unmarked =
      manual.sync lowerLetters 0 unmarked) ∧
    ((manual.sync lowerLetters 0 unmarked).serverInstances.map ServerInstance.installPath =
      [some "/srv/minecraft"]) ∧
    ∀ row, manual.serverInstances[0]? = some row →
      (discovery lowerLetters 0).Throughout (Store.Keeps 0 row) manual [unmarked, unmarked] := by
  refine ⟨((discovery_respects_iff lowerLetters manual 0).left unmarked).mpr (by decide +kernel),
    by decide +kernel, fun row hr => ?_⟩
  have hm : (manual.matched lowerLetters 0 unmarked).all (!isDiscoveredManaged ·.2.config) = true := by
    decide +kernel
  have hm' : ((manual.sync lowerLetters 0 unmarked).matched lowerLetters 0 unmarked).all
      (!isDiscoveredManaged ·.2.config) = true := by decide +kernel
  refine ((discovery_respects_iff lowerLetters manual 0).right 0 row _ hr).mpr
    ⟨fun row' h hmanaged => ?_, fun row' h hmanaged => ?_, trivial⟩
  case refine_1 => simp [h, hmanaged] at hm
  case refine_2 => simp [h, hmanaged] at hm'

-- The first report takes the instance over, the second one renames it.
theorem discovery_renames :
    ((manual.sync lowerLetters 0 found).sync lowerLetters 0 found ≠ manual.sync lowerLetters 0 found) ∧
    ∀ row, manual.serverInstances[0]? = some row →
      ¬(discovery lowerLetters 0).Throughout (Store.Keeps 0 row) manual [found, found] := by
  have h₀ : names manual = ["Survival"] := by decide +kernel
  have h₁ : names (manual.sync lowerLetters 0 found) = ["Survival"] := by decide +kernel
  have h₂ : names ((manual.sync lowerLetters 0 found).sync lowerLetters 0 found) =
    ["A Minecraft Server"] := by decide +kernel
  constructor
  case left =>
    intro h
    rw [h, h₁] at h₂
    nomatch h₂
  case right =>
    intro row hr ⟨_, _, row', hr', hname, _⟩
    have hn := congrArg (·[0]?) h₀
    have hn' := congrArg (·[0]?) h₂
    simp only [names, List.getElem?_map, hr, hr', Option.map_some, List.getElem?_cons_zero,
      Option.some.injEq] at hn hn'
    rw [hn, hn'] at hname
    nomatch hname

end Servers
