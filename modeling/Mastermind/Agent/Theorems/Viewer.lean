import Mastermind.Agent.Theorems.Config

open Effects Js Jobs

namespace Agent

variable {p : Fields} {id : ServerId} {i : ServerInstance} {type archive : String}

-- What the agent does the job of a queue entry on, where `archive` is the file that it downloads.
def targetOf (archive : String) (e : QueueJobData) : Target :=
  target e.type archive (decodePayload e.payload)

-- A payload that leaves the target of a job to the row of the server and to the archive: what it has
-- under a key that the agent reads, repeats what they give.
structure LeavesTarget (p : Fields) (id : ServerId) (i : ServerInstance) (type archive : String) :
    Prop where
  serverInstanceId : ∀ v, p.lookup "server_instance_id" = some v → stringOf (some v) = toString id
  installPath      : ∀ v, p.lookup "install_path" = some v → stringOf (some v) = i.installPath.getD ""
  startCommand     : ∀ v, p.lookup "start_command" = some v → stringOf (some v) = i.startCommand.getD ""
  stopCommand      : stringOf (p.lookup "stop_command") = ""
  rconHost         : hostOf ((p.lookup "rcon_host").or (i.rconHost.map .str)) (p.lookup "telnet_host") =
    hostOf (i.rconHost.map .str) none
  rconPort         : portOf ((p.lookup "rcon_port").or (i.rconPort.map fun (n : Int) => .num (.fin n)))
    (p.lookup "telnet_port") = portOf (i.rconPort.map fun (n : Int) => .num (.fin n)) none
  rconPassword     : passwordOf ((p.lookup "rcon_password").or (i.rconPassword.map .str))
    (p.lookup "telnet_password") = i.rconPassword.getD ""
  extra            : ∀ key, extraOf (p.lookup "update_command") ((p.lookup "config").or i.config)
    (p.lookup "extra") key = (objectOf i.config).lookup key
  source           : isUpload type = true → ∀ path, p.lookup "source_path" = some (.str path) →
    trimSpace path = trimSpace archive

theorem stringOf_or_eq_iff {a : Option Json} {s : Option String} :
    stringOf (a.or (s.map .str)) = stringOf (s.map .str) ↔ ∀ v, a = some v → stringOf (some v) = s.getD "" := by
  have hs : stringOf (s.map .str) = s.getD "" := by cases s <;> rfl
  cases a <;> simp [hs]

theorem passwordOf_map {s : Option String} : passwordOf (s.map .str) none = s.getD "" := by
  cases s
  case none   => rfl
  case some s => by_cases hs : s = "" <;> simp [passwordOf, stringOf, hs]

theorem extraOf_config {c : Option Json} {key : String} :
    extraOf none c none key = (objectOf c).lookup key := by
  have hn : (objectOf none).lookup key = none := rfl
  simp [extraOf, hn, stringOf]

-- A payload without the keys that the agent reads.
theorem LeavesTarget.of_keys (h : ∀ k ∈ "source_path" :: configKeys, p.lookup k = none) :
    LeavesTarget p id i type archive := by
  simp only [configKeys, List.forall_mem_cons] at h
  constructor <;> simp [h, stringOf, passwordOf_map, extraOf_config]

theorem mergedConfig_eq_iff :
    mergedConfig p id i = mergedConfig [] id i ∧
      (isUpload type = true → ∀ path, p.lookup "source_path" = some (.str path) →
        trimSpace path = trimSpace archive) ↔ LeavesTarget p id i type archive := by
  have hn (k : String) : ([] : Fields).lookup k = none := rfl
  have hi (a : Option Json) : stringOf (a.or (some (.str (toString id)))) = stringOf (some (.str (toString id))) ↔
      ∀ v, a = some v → stringOf (some v) = toString id := stringOf_or_eq_iff (s := some (toString id))
  simp only [mergedConfig, InstanceConfig.mk.injEq, hn, Option.none_or, hi, stringOf_or_eq_iff,
    passwordOf_map, funext_iff, extraOf_config]
  constructor
  case mp =>
    rintro ⟨⟨h₁, h₂, h₃, h₄, h₅, h₆, h₇, h₈⟩, h₉⟩
    exact ⟨h₁, h₂, h₃, h₄, h₅, h₆, h₇, h₈, h₉⟩
  case mpr =>
    rintro ⟨h₁, h₂, h₃, h₄, h₅, h₆, h₇, h₈, h₉⟩
    exact ⟨⟨h₁, h₂, h₃, h₄, h₅, h₆, h₇, h₈⟩, h₉⟩

section

variable {payload : Option Payload} {e e' : QueueJobData}

-- The configuration of an entry is merged from the payload and the row.
theorem config_targetOf (h : IsEntry id i type payload e) :
    (targetOf archive e).config = mergedConfig (payload.getD []) id i := by
  have ⟨f, hf, hl⟩ := fields_of_isEntry h
  simp only [targetOf, target, hf, withArchive, Option.getD_some]
  split
  case isFalse => exact payloadToConfig_merged fun k hk => hl k (not_mem_ownFields k hk)
  case isTrue  =>
    apply payloadToConfig_merged
    intro k hk
    have hn : k ≠ "archive_path" := fun h => absurd (h ▸ hk) (by decide)
    rw [Json.lookup_setField, if_neg hn, hl k (not_mem_ownFields k hk)]

-- An upload reads the file that the payload names, or the archive.
theorem uploadSource_eq_iff {f : Fields} (ha : trimSpace archive ≠ "")
    (hs : f.lookup "source_path" = p.lookup "source_path")
    (hf : f.lookup "archive_path" = some (.str archive)) :
    uploadSource f = .ok (.file (trimSpace archive)) ↔
      ∀ path, p.lookup "source_path" = some (.str path) → trimSpace path = trimSpace archive := by
  have hg : getString f "archive_path" "" = archive := by rw [getString, hf]
  have hp : trimSpace (getString f "source_path" archive) = trimSpace archive ↔
      ∀ path, p.lookup "source_path" = some (.str path) → trimSpace path = trimSpace archive := by
    rw [getString, hs]
    split
    case h_1 path h => simp [h]
    case h_2 h      => exact iff_of_true rfl fun path hl => absurd hl (h path)
  rw [← hp, uploadSource, hg]
  split
  case isTrue  => simp
  case isFalse h =>
    have h := not_not.mp h
    refine iff_of_false (fun he => ?_) fun hq => ha (hq.symm.trans h)
    split at he
    case isTrue  => nomatch he
    case isFalse => nomatch he

-- The target that the row of a server and an archive determine.
def rowTarget (id : ServerId) (i : ServerInstance) (type archive : String) : Target where
  config := mergedConfig [] id i
  source := if isUpload type then some (.ok (.file (trimSpace archive))) else none

theorem targetOf_eq_iff (h : IsEntry id i type payload e) (ha : trimSpace archive ≠ "") :
    targetOf archive e = rowTarget id i type archive ↔
      LeavesTarget (payload.getD []) id i type archive := by
  have ⟨f, hf, hl⟩ := fields_of_isEntry h
  have ht : e.type = type := h.left
  have hs : (targetOf archive e).source = (rowTarget id i type archive).source ↔
      (isUpload type = true → ∀ path, (payload.getD []).lookup "source_path" = some (.str path) →
        trimSpace path = trimSpace archive) := by
    simp only [targetOf, target, rowTarget, hf, ht, withArchive]
    split
    case isFalse h => exact iff_of_true rfl fun hu => absurd hu h
    case isTrue h =>
      have hp : (Json.setField "archive_path" (.str archive) f).lookup "source_path" =
          (payload.getD []).lookup "source_path" := by
        rw [Json.lookup_setField, if_neg (by decide), hl _ (by decide)]
        exact Option.or_none
      have hq : (Json.setField "archive_path" (.str archive) f).lookup "archive_path" =
          some (.str archive) := by
        rw [Json.lookup_setField, if_pos rfl]
      simpa [h] using uploadSource_eq_iff ha hp hq
  rw [← mergedConfig_eq_iff, ← hs, ← config_targetOf h, Target.ext_iff]
  exact Iff.rfl

end

-- The entries of a request for a job.
def requested (deps : External) (s : Store) (orgId : OrgId) (userId : UserId) (id : ServerId)
    (jobType : String) (payload : Option Record) : List QueueJobData :=
  enqueued ((createJob deps orgId userId id jobType (payload.map Subtype.val)).run [] s).log

-- Among some requests of a type that a viewer may use, one of them without a payload, the payload
-- makes no difference for the target of the job if and only if every payload leaves it alone.
theorem viewer_target_iff {deps : External} {s : Store} {orgId : OrgId} {userId : UserId}
    {jobType : String} {C : Option Record → Prop} (hi : s.serverInstances[id]? = some i)
    (ho : i.orgId = orgId) (ht : normalizeJobType jobType ∈ viewerAllowed)
    (ha : trimSpace archive ≠ "") (hc : C none) :
    (∀ p q, C p → C q → ∀ e ∈ requested deps s orgId userId id jobType p,
      ∀ e' ∈ requested deps s orgId userId id jobType q, targetOf archive e = targetOf archive e') ↔
    ∀ p, C p → LeavesTarget (Record.orEmpty p) id i (normalizeJobType jobType) archive := by
  have he p : ∃ e, requested deps s orgId userId id jobType p = [e] ∧
      (targetOf archive e = rowTarget id i (normalizeJobType jobType) archive ↔
        LeavesTarget (Record.orEmpty p) id i (normalizeJobType jobType) archive) :=
    (enqueued_createJob hi ho (Record.nodup_orEmpty p) ht).imp fun _ h =>
      ⟨h.left, targetOf_eq_iff h.right ha⟩
  constructor
  case mp =>
    intro h p hp
    have ⟨e, hm, hl⟩ := he p
    have ⟨e', hm', hl'⟩ := he none
    have hn : LeavesTarget (Record.orEmpty none) id i (normalizeJobType jobType) archive :=
      .of_keys fun _ _ => rfl
    have hq := h p none hp hc e (by simp [hm]) e' (by simp [hm'])
    exact hl.mp (hq.trans (hl'.mpr hn))
  case mpr =>
    intro h p q hp hq e hm e' hm'
    have ⟨d, hd, hl⟩ := he p
    have ⟨d', hd', hl'⟩ := he q
    cases List.mem_singleton.mp (hd ▸ hm)
    cases List.mem_singleton.mp (hd' ▸ hm')
    exact (hl.mpr (h p hp)).trans (hl'.mpr (h q hq)).symm

def uploadedMod : Record :=
  ⟨[("uploadId", .str "7"), ("filename", .str "mod.jar")], by decide⟩

theorem viewer_target_iff_uploadedMod :
    (requested sampleDeps sampleStore 0 0 0 "MOD_UPLOAD_PENDING" (some uploadedMod)).length = 1 ∧
    (requested sampleDeps sampleStore 0 0 0 "MOD_UPLOAD_PENDING" none).length = 1 ∧
    ∀ e ∈ requested sampleDeps sampleStore 0 0 0 "MOD_UPLOAD_PENDING" (some uploadedMod),
    ∀ e' ∈ requested sampleDeps sampleStore 0 0 0 "MOD_UPLOAD_PENDING" none,
      targetOf "/tmp/mod.zip" e = targetOf "/tmp/mod.zip" e' := by
  have ht : normalizeJobType "MOD_UPLOAD_PENDING" ∈ viewerAllowed := by decide
  have ha : trimSpace "/tmp/mod.zip" ≠ "" := by decide
  have hs : sampleStore.serverInstances[0]? = some sampleServer := rfl
  have hl : ∀ p, (p = none ∨ p = some uploadedMod) →
      LeavesTarget (Record.orEmpty p) 0 sampleServer (normalizeJobType "MOD_UPLOAD_PENDING")
        "/tmp/mod.zip" := by
    rintro p (rfl | rfl)
    case inl => exact .of_keys fun _ _ => rfl
    case inr => exact .of_keys (by simp [configKeys, Record.orEmpty, uploadedMod, Json.lookup_cons])
  refine ⟨by decide +kernel, by decide +kernel, ?_⟩
  exact (viewer_target_iff hs rfl ht ha (.inl rfl)).mpr hl _ _ (.inr rfl) (.inl rfl)

-- A viewer lists the files of any directory of the host.
theorem viewer_chooses_installPath :
    (requested sampleDeps sampleStore 0 0 0 "MOD_LIST" (some ⟨[("install_path", .str "/etc")], by decide⟩)).map
      (fun e => (targetOf "/tmp/mod.zip" e).config.installPath) = ["/etc"] ∧
    (requested sampleDeps sampleStore 0 0 0 "MOD_LIST" none).map
      (fun e => (targetOf "/tmp/mod.zip" e).config.installPath) = ["/srv/world"] := by
  decide +kernel

end Agent
