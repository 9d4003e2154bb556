import Mastermind.Agent.Theorems.ModUploads

open Effects Prog Js
open Files (Err Path Bytes Disk Node Tree Fs exec disk)

namespace Agent

-- The operations that change the stores.
inductive ModOp
  | quarantine (payload : Fields) (found : List (Path × Bytes))
  | restore    (payload : Fields)
  | delete     (payload : Fields)
  | approve    (payload : Fields)
  | reject     (payload : Fields)
  | upload     (payload : Fields) (isPending : Bool) (found : String → List (Path × Bytes))

namespace ModOp

def prog (l : Library) (cfg : InstanceConfig) : ModOp → Disk Fields
  | quarantine payload found       => quarantineMod l cfg payload found
  | restore payload                => restoreMod l cfg payload
  | delete payload                 => deleteMod l cfg payload
  | approve payload                => approvePendingMod l cfg payload
  | reject payload                 => rejectPendingMod l cfg payload
  | upload payload isPending found => uploadMod l cfg payload isPending found

-- The changes that an operation can make.
def Allows (l : Library) : ModOp → List (Slots.Change Slot Tree) → Prop
  | quarantine payload _, cs       => ∃ kind : ModKind, cs =
    [.move ⟨.active kind, payloadModName payload⟩ ⟨.quarantine kind, payloadModName payload⟩]
  | restore payload, cs            => Restored payload cs
  | delete payload, cs             => Deleted (payloadModName payload) cs
  | approve payload, cs            => Approved (payloadModName payload) cs
  | reject payload, cs             => cs = [.remove ⟨.pending, payloadModName payload⟩]
  | upload payload isPending _, cs => ∃ files, cs = added (uploadStore l payload isPending) files

-- The places from which an operation may remove a mod.
def Removes : ModOp → Slot → Prop
  | restore payload, a => isForced payload = true ∧ ∃ kind,
    a = ⟨.active kind, payloadModName payload⟩
  | delete payload, a  => a.name = payloadModName payload
  | reject payload, a  => a = ⟨.pending, payloadModName payload⟩
  | _, _               => False

-- The contents that an operation may bring in.
def Uploads : ModOp → Tree → Prop
  | upload .., t => ∃ data, t = fileTree data
  | _, _         => False

variable {l : Library} {cfg : InstanceConfig} {s : Fs} {op : ModOp}
  {cs before after : List (Slots.Change Slot Tree)} {a b x y : Slot} {t : Tree}

theorem wp_prog (l : Library) (cfg : InstanceConfig) (s : Fs) (op : ModOp) :
    (op.prog l cfg).wp (once disk) (fun _ m => ∃ cs, (cs = [] ∨ op.Allows l cs) ∧
    Changes (l.locate cfg.installPath) s cs m.1) (s, true) := by
  have hm {C : Fields → List (Slots.Change Slot Tree) → Prop} {prog : Disk Fields}
      (h : prog.wp (once disk) (Makes (l.locate cfg.installPath) s C) (s, true))
      (hc : ∀ report cs, C report cs → op.Allows l cs) :
      prog.wp (once disk) (fun _ m => ∃ cs, (cs = [] ∨ op.Allows l cs) ∧
        Changes (l.locate cfg.installPath) s cs m.1) (s, true) := by
    apply wp_mono h
    intro r m h
    cases r
    case ok report =>
      have ⟨cs, h, hs⟩ := h
      exact ⟨cs, .inr (hc report cs h), hs⟩
    case error => exact ⟨[], .inl rfl, trivial, h⟩
    case ended => exact ⟨[], .inl rfl, trivial, h⟩
  cases op
  case quarantine => exact hm wp_quarantineMod fun _ _ ⟨kind, h⟩ => ⟨kind, h.changes⟩
  case restore    => exact hm (wp_restoreMod fun _ _ h => nomatch h) fun _ _ => id
  case delete     => exact hm wp_deleteMod fun _ _ => id
  case approve    => exact hm wp_approvePendingMod fun _ _ => id
  case reject     => exact hm wp_rejectPendingMod fun _ _ => id
  case upload     =>
    apply wp_mono wp_uploadMod_used
    exact fun _ _ ⟨files, h⟩ => ⟨_, .inr ⟨files, rfl⟩, h⟩

-- A mod is removed before all other changes.
theorem Allows.removes (h : op.Allows l (before ++ .remove a :: after)) :
    before = [] ∧ op.Removes a := by
  cases op
  case quarantine =>
    have ⟨kind, h⟩ := h
    cases before <;> simp at h
  case restore =>
    obtain ⟨kind, h | ⟨hf, h⟩⟩ := h
    case inl => cases before <;> simp at h
    case inr =>
      cases before
      case nil           =>
        exact ⟨rfl, hf, kind, Slots.Change.remove.inj (List.head_eq_of_cons_eq h)⟩
      case cons c before => cases before <;> simp at h
  case delete =>
    have ⟨store, h⟩ := h
    cases before
    case nil  =>
      exact ⟨rfl, congrArg Slot.name (Slots.Change.remove.inj (List.head_eq_of_cons_eq h))⟩
    case cons => simp at h
  case approve =>
    have ⟨kind, h⟩ := h
    cases before <;> simp at h
  case reject =>
    have h : before ++ .remove a :: after = [.remove ⟨.pending, _⟩] := h
    cases before
    case nil  => exact ⟨rfl, Slots.Change.remove.inj (List.head_eq_of_cons_eq h)⟩
    case cons => simp at h
  case upload =>
    have ⟨files, h⟩ := h
    have hm : Slots.Change.remove a ∈ added _ files :=
      h ▸ List.mem_append_right _ List.mem_cons_self
    simp [added] at hm

-- Only mods of the same name take the place of each other.
def Named : Slots.Change Slot Tree → Prop
  | .move a b => a.name = b.name
  | _         => True

theorem Allows.named (h : op.Allows l cs) : ∀ c ∈ cs, Named c := by
  cases op
  case quarantine =>
    obtain ⟨kind, rfl⟩ := h
    simp [Named]
  case restore =>
    obtain ⟨kind, rfl | ⟨_, rfl⟩⟩ := h <;> simp [Named]
  case delete =>
    obtain ⟨store, rfl⟩ := h
    simp [Named]
  case approve =>
    obtain ⟨kind, rfl⟩ := h
    simp [Named]
  case reject =>
    obtain rfl : cs = _ := h
    simp [Named]
  case upload =>
    obtain ⟨files, rfl⟩ := h
    intro c hc
    have ⟨_, _, he⟩ := List.mem_map.mp hc
    exact he ▸ trivial

theorem name_of_follow (h : ∀ c ∈ cs, Named c) (hf : Slots.follow cs x = some y) :
    y.name = x.name := by
  induction cs generalizing x
  case nil => rw [Option.some.inj hf]
  case cons c cs hi =>
    obtain ⟨hc, h⟩ := List.forall_mem_cons.mp h
    obtain ⟨z, hz, hy⟩ := Option.bind_eq_some_iff.mp hf
    rw [hi h hy]
    cases c
    case move a b =>
      rw [Slots.Change.carry, Option.some.injEq] at hz
      rw [← hz]
      split
      case isTrue hx => rw [hx, hc]
      case isFalse   => rfl
    case remove a =>
      rw [Slots.Change.carry] at hz
      split at hz
      case isTrue  => cases hz
      case isFalse => rw [Option.some.inj hz]
    case add => rw [Option.some.inj hz]

theorem Allows.adds (h : op.Allows l cs) (hm : .add b t ∈ cs) : op.Uploads t := by
  cases op
  case quarantine =>
    obtain ⟨kind, rfl⟩ := h
    simp at hm
  case restore => obtain ⟨kind, rfl | ⟨_, rfl⟩⟩ := h <;> simp at hm
  case delete =>
    obtain ⟨store, rfl⟩ := h
    simp at hm
  case approve =>
    obtain ⟨kind, rfl⟩ := h
    simp at hm
  case reject =>
    obtain rfl : cs = _ := h
    simp at hm
  case upload =>
    obtain ⟨files, rfl⟩ := h
    have ⟨file, _, he⟩ := List.mem_map.mp hm
    exact ⟨file.2, (Slots.Change.add.inj he).right.symm⟩

end ModOp

-- The operations run one after the other, without errors of the file system.
def runMods (l : Library) (cfg : InstanceConfig) (s : Fs) : List ModOp → Fs
  | []        => s
  | op :: ops => runMods l cfg ((op.prog l cfg).run [] s).state ops

-- A sequence of operations moves mods. After the first operations, `track` tells where to.
structure Conserved (l : Library) (cfg : InstanceConfig) (s : Fs) (ops : List ModOp)
    (track : List ModOp → Slot → Option Slot) : Prop where
  start   : track [] = some
  stays   : ∀ before x y t, before <+: ops → stores (l.locate cfg.installPath) s x = some t →
    track before x = some y →
    y.name = x.name ∧ stores (l.locate cfg.installPath) (runMods l cfg s before) y = some t
  single  : ∀ before x x' y, before <+: ops →
    (stores (l.locate cfg.installPath) s x).isSome = true →
    (stores (l.locate cfg.installPath) s x').isSome = true → track before x = some y →
    track before x' = some y → x = x'
  -- A mod that is not tracked any more, has been removed by an operation that may do so.
  removed : ∀ before x, before <+: ops → (stores (l.locate cfg.installPath) s x).isSome = true →
    track before x = none → ∃ before' op a, before' ++ [op] <+: before ∧ track before' x = some a ∧
      op.Removes a
  -- An operation removes one mod at most.
  alone   : ∀ before op x x', before ++ [op] <+: ops →
    (stores (l.locate cfg.installPath) s x).isSome = true →
    (stores (l.locate cfg.installPath) s x').isSome = true → (track before x).isSome = true →
    (track before x').isSome = true → track (before ++ [op]) x = none →
    track (before ++ [op]) x' = none → x = x'
  origin  : ∀ before y t, before <+: ops →
    stores (l.locate cfg.installPath) (runMods l cfg s before) y = some t →
    (∃ x, stores (l.locate cfg.installPath) s x = some t ∧ track before x = some y) ∨
    ∃ op ∈ before, op.Uploads t

-- Mods are first moved by one operation and then by the others.
def trackCons (cs : List (Slots.Change Slot Tree)) (track : List ModOp → Slot → Option Slot) :
    List ModOp → Slot → Option Slot
  | [], x          => some x
  | _ :: before, x => (Slots.follow cs x).bind (track before)

section

variable {l : Library} {cfg : InstanceConfig} {s : Fs} {op : ModOp} {ops : List ModOp}
  {cs : List (Slots.Change Slot Tree)} {track : List ModOp → Slot → Option Slot}

theorem Conserved.nil : Conserved l cfg s [] fun _ => some where
  start := rfl
  stays before x y t hb hx hy := by
    obtain rfl := List.prefix_nil.mp hb
    exact Option.some.inj hy ▸ ⟨rfl, hx⟩
  single _ _ _ _ _ _ _ hy hy' := Option.some.inj (hy.trans hy'.symm)
  removed _ _ _ _ h           := nomatch h
  alone _ _ _ _ _ _ _ _ _ h _ := nomatch h
  origin before y t hb hy := by
    obtain rfl := List.prefix_nil.mp hb
    exact .inl ⟨y, hy, rfl⟩

-- One more operation in front of a sequence.
theorem Conserved.cons (ha : cs = [] ∨ op.Allows l cs)
    (hs : Changes (l.locate cfg.installPath) s cs ((op.prog l cfg).run [] s).state)
    (h : Conserved l cfg ((op.prog l cfg).run [] s).state ops track) :
    Conserved l cfg s (op :: ops) (trackCons cs track) := by
  have hn {x y : Slot} (hf : Slots.follow cs x = some y) : y.name = x.name := by
    cases ha
    case inl ha => exact ModOp.name_of_follow (by simp [ha]) hf
    case inr ha => exact ModOp.name_of_follow ha.named hf
  have hf {x z : Slot} {t : Tree} (hx : stores (l.locate cfg.installPath) s x = some t)
      (hz : Slots.follow cs x = some z) :
      stores (l.locate cfg.installPath) ((op.prog l cfg).run [] s).state z = some t := by
    rw [hs.right]
    exact Slots.applyAll_follow hs.left hx hz
  have hf' {x z : Slot} (hx : (stores (l.locate cfg.installPath) s x).isSome = true)
      (hz : Slots.follow cs x = some z) :
      (stores (l.locate cfg.installPath) ((op.prog l cfg).run [] s).state z).isSome = true := by
    have ⟨t, ht⟩ := Option.isSome_iff_exists.mp hx
    rw [hf ht hz]
    rfl
  -- What the first operation removes.
  have hr {x : Slot} (hx : Slots.follow cs x = none) :
      op.Removes x ∧ ∃ after, cs = .remove x :: after := by
    obtain ⟨before, a, after, rfl, hb⟩ := Slots.of_follow_none hx
    have ha : op.Allows l (before ++ .remove a :: after) := ha.resolve_left (by simp)
    obtain ⟨rfl, ho⟩ := ha.removes
    obtain rfl : x = a := Option.some.inj hb
    exact ⟨ho, after, rfl⟩
  constructor
  case start => rfl
  case stays =>
    intro before x y t hb hx hy
    cases before
    case nil => exact Option.some.inj hy ▸ ⟨rfl, hx⟩
    case cons op' before =>
      obtain rfl := (List.cons_prefix_cons.mp hb).left
      have hb := (List.cons_prefix_cons.mp hb).right
      have ⟨z, hz, hy⟩ := Option.bind_eq_some_iff.mp hy
      have ⟨hn', ht⟩ := h.stays before z y t hb (hf hx hz) hy
      exact ⟨hn'.trans (hn hz), ht⟩
  case single =>
    intro before x x' y hb hx hx' hy hy'
    cases before
    case nil => exact Option.some.inj (hy.trans hy'.symm)
    case cons op' before =>
      have ⟨z, hz, hy⟩ := Option.bind_eq_some_iff.mp hy
      have ⟨z', hz', hy'⟩ := Option.bind_eq_some_iff.mp hy'
      have hb := (List.cons_prefix_cons.mp hb).right
      obtain rfl := h.single before z z' y hb (hf' hx hz) (hf' hx' hz') hy hy'
      exact Slots.follow_inj hs.left hx hx' hz hz'
  case removed =>
    intro before x hb hx hn
    cases before
    case nil => nomatch hn
    case cons op' before =>
      obtain rfl := (List.cons_prefix_cons.mp hb).left
      have hb := (List.cons_prefix_cons.mp hb).right
      cases hz : Slots.follow cs x
      case none   => exact ⟨[], op', x, ⟨before, rfl⟩, rfl, (hr hz).left⟩
      case some z =>
        have hn : track before z = none := by rwa [trackCons, hz] at hn
        have ⟨before', op, a, hp, ht, ho⟩ := h.removed before z hb (hf' hx hz) hn
        refine ⟨op' :: before', op, a, List.cons_prefix_cons.mpr ⟨rfl, hp⟩, ?_, ho⟩
        rwa [trackCons, hz]
  case alone =>
    intro before op' x x' hb hx hx' hy hy' hn hn'
    cases before
    case nil =>
      have hz {x : Slot} (hn : trackCons cs track [op'] x = none) : Slots.follow cs x = none := by
        rw [trackCons, h.start] at hn
        cases hz : Slots.follow cs x
        case none => rfl
        case some => rw [hz] at hn; nomatch hn
      have ⟨_, _, he⟩ := hr (hz hn)
      have ⟨_, _, he'⟩ := hr (hz hn')
      exact Slots.Change.remove.inj (List.head_eq_of_cons_eq (he.symm.trans he'))
    case cons op'' before =>
      have hb := (List.cons_prefix_cons.mp hb).right
      have ⟨y, hy⟩ := Option.isSome_iff_exists.mp hy
      have ⟨y', hy'⟩ := Option.isSome_iff_exists.mp hy'
      have ⟨z, hz, hy⟩ := Option.bind_eq_some_iff.mp hy
      have ⟨z', hz', hy'⟩ := Option.bind_eq_some_iff.mp hy'
      have hn : track (before ++ [op']) z = none := by rwa [List.cons_append, trackCons, hz] at hn
      have hn' : track (before ++ [op']) z' = none := by
        rwa [List.cons_append, trackCons, hz'] at hn'
      obtain rfl := h.alone before op' z z' hb (hf' hx hz) (hf' hx' hz')
        (by rw [hy]; rfl) (by rw [hy']; rfl) hn hn'
      exact Slots.follow_inj hs.left hx hx' hz hz'
  case origin =>
    intro before y t hb hy
    cases before
    case nil => exact .inl ⟨y, hy, rfl⟩
    case cons op' before =>
      obtain rfl := (List.cons_prefix_cons.mp hb).left
      have hb := (List.cons_prefix_cons.mp hb).right
      cases h.origin before y t hb hy
      case inr h =>
        have ⟨op, hm, hu⟩ := h
        exact .inr ⟨op, List.mem_cons_of_mem _ hm, hu⟩
      case inl h =>
        have ⟨z, hz, hy⟩ := h
        rw [hs.right] at hz
        cases Slots.origin hs.left hz
        case inl h =>
          have ⟨x, hx, hf⟩ := h
          refine .inl ⟨x, hx, ?_⟩
          rwa [trackCons, hf]
        case inr h =>
          have ⟨before, b, after, he, _⟩ := h
          have ha : op'.Allows l cs := ha.resolve_left (by simp [he])
          have hm : .add b t ∈ cs := he ▸ List.mem_append_right _ List.mem_cons_self
          exact .inr ⟨op', List.mem_cons_self, ha.adds hm⟩

theorem conserved (l : Library) (cfg : InstanceConfig) (s : Fs) (ops : List ModOp) :
    ∃ track, Conserved l cfg s ops track := by
  induction ops generalizing s
  case nil => exact ⟨_, .nil⟩
  case cons op ops hi =>
    have ⟨cs, ha, hs⟩ := wp_once_used.mp (op.wp_prog l cfg s)
    have ⟨track, h⟩ := hi ((op.prog l cfg).run [] s).state
    exact ⟨_, h.cons ha hs⟩

end

section

variable {l : Library} {cfg : InstanceConfig} {s : Fs} {install : Path} {payload : Fields}
  {kind : ModKind} {node : Node}

theorem onMod_ok {α : Type} {name : String} {f : Path → Disk α}
    (hv : validateModEntryName name = .ok ()) (hi : installPath l cfg = .ok install) :
    onMod l cfg name f = f install := by
  rw [onMod, hv, hi]
  rfl

-- What is in the quarantine, comes back to a free place.
theorem wp_restore_back (hv : validateModEntryName (payloadModName payload) = .ok ())
    (hi : installPath l cfg = .ok install) (hk : payloadModKind l payload = some kind)
    (hn : s.get (quarantineDir install kind ++ [payloadModName payload]) = some node)
    (hl : node.isLink = false)
    (hfree : s.get (activeDir install kind ++ [payloadModName payload]) = none) :
    (restoreMod l cfg payload).wp (under disk .none) (returns fun s' => Changes install s
      [.move ⟨.quarantine kind, payloadModName payload⟩ ⟨.active kind, payloadModName payload⟩] s')
      s := by
  have hfind : (findQuarantinedMod install (payloadModName payload) (payloadModKind l payload)).wp
      (under disk .none) (fun r s' =>
        s' = s ∧ r = .ok (kind, quarantineDir install kind ++ [payloadModName payload])) s := by
    rw [findQuarantinedMod, hk, kindsOf, findMod]
    refine Files.wp_ask.mpr ?_
    simp only [exec, hn, hl]
    exact ⟨rfl, rfl⟩
  have hclear : (clearActive payload (activeDir install kind ++ [payloadModName payload])
      (payloadModName payload)).wp (under disk .none) (fun r s' => s' = s ∧ r = .ok ()) s := by
    rw [clearActive]
    refine Files.wp_ask.mpr ?_
    simp only [exec, hfree]
    exact ⟨rfl, rfl⟩
  obtain ⟨s', hx, hm, ha⟩ := stores_rename (slot_visible hv (.quarantine kind))
    (slot_visible hv (.active kind)) (by simp) hn hfree (activeDir_of_quarantined hn)
  rw [restoreMod, onMod_ok hv hi]
  refine wp_bind.mpr (wp_mono hfind ?_)
  rintro _ _ ⟨rfl, rfl⟩
  refine wp_bind.mpr (wp_mono hclear ?_)
  rintro _ _ ⟨rfl, rfl⟩
  refine wp_bind.mpr (wp_handle.mpr (wp_last hx ?_ fun _ _ h => h.elim))
  exact ⟨⟨hm, trivial⟩, ha⟩

-- What a successful quarantine leaves behind.
theorem Quarantined.placed {s' : Fs} {name : String} {report : Fields}
    {cs : List (Slots.Change Slot Tree)} (h : Quarantined l cfg s name kind report cs)
    (hc : Changes (l.locate cfg.installPath) s cs s') :
    (∃ node, s'.get (quarantineDir (l.locate cfg.installPath) kind ++ [name]) = some node ∧
      node.isLink = false) ∧
    s'.get (activeDir (l.locate cfg.installPath) kind ++ [name]) = none := by
  obtain rfl := h.changes
  obtain ⟨node, hn, hl⟩ := h.found
  have hx := slot_visible h.valid (.active kind)
  have hy := slot_visible h.valid (.quarantine kind)
  have hne : (⟨.active kind, name⟩ : Slot) ≠ ⟨.quarantine kind, name⟩ := by simp
  have hs := hc.right
  constructor
  case left =>
    have hq : stores (l.locate cfg.installPath) s' ⟨.quarantine kind, name⟩ =
        stores (l.locate cfg.installPath) s ⟨.active kind, name⟩ := by
      rw [hs]
      exact if_pos rfl
    rw [stores_eq hx hn] at hq
    obtain ⟨_, ht, _⟩ := stores_some hq
    have hg := congrFun ht []
    simp only [Fs.tree, List.append_nil] at hg
    exact ⟨node, hg.trans hn, hl⟩
  case right =>
    have ha : stores (l.locate cfg.installPath) s' ⟨.active kind, name⟩ = none := by
      rw [hs, Slots.applyAll, Slots.applyAll, Slots.Change.apply, if_neg hne, if_pos rfl]
    rw [stores_visible hx] at ha
    split at ha
    case isTrue    => cases ha
    case isFalse h => exact Option.not_isSome_iff_eq_none.mp h

-- A move and its reverse.
theorem restore_after_quarantine {found : List (Path × Bytes)} {payload' report : Fields}
    (hq : ((quarantineMod l cfg payload found).run [] s).result = .ok report)
    (hr : report.lookup "kind" = some (.str kind.folder))
    (hn : payloadModName payload' = payloadModName payload)
    (hk : payloadModKind l payload' = some kind) :
    (restoreMod l cfg payload').wp (under disk .none)
      (returns fun s' => stores (l.locate cfg.installPath) s' = stores (l.locate cfg.installPath) s)
      ((quarantineMod l cfg payload found).run [] s).state := by
  have h : Makes (l.locate cfg.installPath) s (fun report cs => ∃ kind,
      Quarantined l cfg s (payloadModName payload) kind report cs)
      ((quarantineMod l cfg payload found).run [] s).result
      (((quarantineMod l cfg payload found).run [] s).state, true) :=
    wp_once_used.mp wp_quarantineMod
  rw [hq] at h
  have ⟨cs, ⟨kind', hq⟩, hc⟩ := h
  obtain rfl : kind' = kind := by
    have he := hq.report.symm.trans hr
    simpa [folder_inj] using he
  have ⟨⟨node, hg, hl⟩, hfree⟩ := hq.placed hc
  obtain rfl := hq.changes
  have hv := hq.valid
  rw [← hn] at hg hfree hv hc
  apply wp_mono (wp_restore_back hv hq.install hk hg hl hfree)
  intro r s' h
  cases r
  case error => exact h.elim
  case ended => exact h.elim
  case ok    =>
    have hb : stores _ s' = _ := h.right
    exact (hb.trans (by rw [hc.right]; rfl)).trans (Slots.Change.move_back hc.left.left)

end

-- Mods are moved and never lost. What has been put into the quarantine, is restored exactly.
theorem mods_moved (l : Library) (cfg : InstanceConfig) (s : Fs) (ops : List ModOp) :
    (∃ track, Conserved l cfg s ops track) ∧
    ∀ payload found report payload' kind,
      ((quarantineMod l cfg payload found).run [] s).result = .ok report →
      report.lookup "kind" = some (.str kind.folder) →
      payloadModName payload' = payloadModName payload → payloadModKind l payload' = some kind →
      let restored :=
        (restoreMod l cfg payload').run [] ((quarantineMod l cfg payload found).run [] s).state
      restored.result.isOk = true ∧
      stores (l.locate cfg.installPath) restored.state = stores (l.locate cfg.installPath) s := by
  refine ⟨conserved l cfg s ops, ?_⟩
  intro payload found report payload' kind hq hr hn hk restored
  have h := wp_run_nil (restore_after_quarantine hq hr hn hk)
  change returns _ restored.result restored.state at h
  cases he : restored.result
  case ok    => exact ⟨rfl, by rwa [he] at h⟩
  case error => rw [he] at h; exact h.elim
  case ended => rw [he] at h; exact h.elim

def plainLibrary : Library where
  lower    := Char.toLower
  locate p := [p]
  unzip _  := none
  decode _ := none

def modded : InstanceConfig :=
  { installPath := "srv" }

-- A mod that is a directory, and another one.
def moddedFs : Fs :=
  .after [.mkdirAll ["srv", "mods", "sodium"], .create ["srv", "mods", "sodium", "mod.json"] true,
    .append ["srv", "mods", "sodium", "mod.json"] 7, .create ["srv", "mods", "lithium.jar"] true]

def sodium : Fields :=
  [("name", .str "sodium"), ("kind", .str "mods")]

theorem mods_moved_back :
    let quarantined := (quarantineMod plainLibrary modded sodium []).run [] moddedFs
    let restored := (restoreMod plainLibrary modded sodium).run [] quarantined.state
    quarantined.state.get ["srv", "mods", "sodium", "mod.json"] = none ∧
    quarantined.state.get ["srv", "mods", ".quarantine", "sodium", "mod.json"] = some (.file [7]) ∧
    restored.result.isOk = true ∧ stores ["srv"] restored.state = stores ["srv"] moddedFs := by
  have hq : ((quarantineMod plainLibrary modded sodium []).run [] moddedFs).result =
      .ok [("quarantined", .str "sodium"), ("folder", .str "sodium"), ("kind", .str "mods")] := by
    with_unfolding_all rfl
  exact ⟨by decide +kernel, by decide +kernel,
    (mods_moved plainLibrary modded moddedFs []).right sodium [] _ sodium .mods hq rfl rfl
      (by decide +kernel)⟩

end Agent
