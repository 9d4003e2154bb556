import Mastermind.Agent.Theorems.Mods

open Effects Prog Js
open Files (Err Path Bytes Disk Node Tree Fs Apart Leaves exec disk ask send inContext ignoreErrors
  removeAll writeAll)

namespace Agent

variable {l : Library} {cfg : InstanceConfig} {payload : Fields} {install : Path} {s s' : Fs}
  {used : Bool} {name : String} {dst zip destRoot : Path} {data d : Bytes} {α : Type}
  {Q : Result Err Unit → Fs × Bool → Prop} {e : ZipEntry} {entries : List ZipEntry}

-- A program can stop with an error and leave a file behind that has not been there before.
def Strands (s : Fs) (dst : Path) (Q : Result Err α → Fs × Bool → Prop) : Prop :=
  ∃ s' d, Writing s dst s' d ∧ ∃ e, Q (.error e) (s', true)

theorem serves_requireFree {err : Err} (h : s.get dst = none) :
    (requireFree dst err).wp (once disk) (yields fun _ s' => s' = s) (s, true) := by
  rw [requireFree]
  refine wp_ask_once.mpr ⟨?_, fun h => by cases h⟩
  simp only [exec, h]
  exact rfl

theorem exec_create (exclusive : Bool) (hs : s.get dst = none) (hr : s.HasRoom dst) :
    ∃ s', exec (.create dst exclusive) s = (.ok (), s') ∧ Writing s dst s' [] := by
  refine ⟨s.put dst (.file []) hr (.inr (.of_none hs)), ?_, if_pos rfl, fun _ hq => if_neg hq⟩
  simp only [exec, hs]
  exact dif_pos ⟨hr, .of_none hs⟩

theorem serves_writeAll (h : Writing s dst s' d) :
    (writeAll dst data).wp (once disk) (yields fun _ s₁ => Writing s dst s₁ (d ++ data))
      (s', true) := by
  apply wp_mono (wp_writeAll_once h)
  intro r m h
  cases r
  case ok    => exact h
  case error => nomatch h.left
  case ended => exact h

-- The file is complete when it is closed, and stays if that fails.
theorem strands_writeFile (h : (writeFile dst data).wp (once disk) Q (s, false))
    (hs : s.get dst = none) (hr : s.HasRoom dst) : Strands s dst Q := by
  rw [writeFile] at h
  obtain ⟨s₁, hx, hw⟩ := exec_create false hs hr
  have h := wp_served_once h hx
  have ha : (attempt (writeAll dst data)).wp (once disk)
      (yields fun r s₁ => r = .ok () ∧ Writing s dst s₁ data) (s₁, true) := by
    refine wp_attempt (wp_mono (serves_writeAll hw) ?_)
    intro r m h
    cases r
    case ok    => exact ⟨rfl, h⟩
    case error => exact h.elim
    case ended => exact h
  obtain ⟨_, s₂, ⟨rfl, hw⟩, h⟩ := wp_once_rest h ha
  exact ⟨s₂, data, hw, _, (wp_ask_once.mp h).right rfl⟩

section

variable {store : ModStore}

theorem strands_storeInline {b64 : String} {Q : Result Err (List String) → Fs × Bool → Prop}
    (h : (storeInline l b64 name destRoot).wp (once disk) Q (s, false))
    (hv : validateModEntryName name = .ok ()) (hs : s.get (destRoot ++ [name]) = none)
    (hr : s.HasRoom (destRoot ++ [name])) (hd : l.decode b64 = some data) :
    Strands s (destRoot ++ [name]) Q := by
  rw [storeInline, hv] at h
  have h : (requireFree (destRoot ++ [name]) _ >>= _).wp (once disk) Q (s, false) := h
  obtain ⟨_, _, he, h⟩ := wp_once_rest h (serves_requireFree hs)
  rw [he, hd] at h
  obtain ⟨s', d, hw, e, hq⟩ := strands_writeFile (wp_bind.mp h) hs hr
  exact ⟨s', d, hw, e, hq⟩

end

section

-- The copy of an entry that can be opened.
theorem serves_copyEntry (hs : s.get dst = none) (hz : (s.get zip).bind Node.data? = some data)
    (hw : Writing s dst s' []) :
    (attempt (copyEntry zip dst e)).wp (once disk) (yields fun r s₁ =>
      (∃ d, Writing s dst s₁ d) ∧
      r = if e.intact then .ok () else .error (.other "zip: checksum error")) (s', true) := by
  have hne : zip ≠ dst := by
    rintro rfl
    cases hs ▸ hz
  have hx : exec (.read zip) s' = (.ok data, s') := by simp only [exec, hw.rest zip hne, hz]
  rw [copyEntry]
  refine wp_attempt (wp_step_once hx (wp_bind_yields (serves_writeAll hw) ?_) fun h => by cases h)
  intro _ s₁ hw
  cases hi : e.intact
  case true  => exact ⟨⟨_, hw⟩, rfl⟩
  case false => exact ⟨⟨_, hw⟩, rfl⟩

theorem serves_close {err : Err → Disk Unit} :
    ((send (.close dst)).handle err).wp (once disk) (yields fun _ s' => s' = s) (s, true) :=
  wp_handle.mpr (wp_last_once rfl rfl fun h => nomatch h)

-- The extraction of an entry that can be opened, up to its end.
theorem wp_extractJar_end (h : (extractJar zip dst e).wp (once disk) Q (s, used))
    (hs : s.get dst = none) (hr : s.HasRoom dst) (hz : (s.get zip).bind Node.data? = some data)
    (ho : e.opens = true) :
    ∃ s' d, Writing s dst s' d ∧
      (finishCopy dst (if e.intact then .ok () else .error (.other "zip: checksum error"))).wp
        (once disk) Q (s', used) := by
  rw [extractJar] at h
  obtain ⟨_, _, he, h⟩ := wp_once_rest h (serves_requireFree hs)
  rw [he] at h
  have hx : exec (.read zip) s = (.ok data, s) := by simp only [exec, hz]
  have h := wp_served_once h hx
  rw [if_pos ho] at h
  obtain ⟨s₁, hx, hw⟩ := exec_create true hs hr
  have h := wp_served_once h hx
  obtain ⟨_, s₂, ⟨⟨d, hw⟩, hc⟩, h⟩ := wp_once_rest h (serves_copyEntry hs hz hw)
  rw [hc] at h
  obtain ⟨_, s₃, he, hf⟩ := wp_once_rest h serves_close
  rw [he] at hf
  exact ⟨s₂, d, hw, hf⟩

-- A copy that is broken stays if it cannot be removed.
theorem strands_extractJar (h : (extractJar zip dst e).wp (once disk) Q (s, false))
    (hs : s.get dst = none) (hr : s.HasRoom dst) (hz : (s.get zip).bind Node.data? = some data)
    (ho : e.opens = true) (hi : e.intact = false) : Strands s dst Q := by
  have ⟨s', d, hw, h⟩ := wp_extractJar_end h hs hr hz ho
  rw [hi] at h
  have h := wp_handle.mp (wp_bind.mp h)
  exact ⟨s', d, hw, _, (wp_perform_once.mp h).right rfl rfl⟩

-- A look for an entry may fail.
theorem fails_extractJars {Q : Result Err (List String) → Fs × Bool → Prop}
    (h : (extractJars l zip destRoot entries).wp (once disk) Q (s, false))
    (hn : entries.filter (isJar l) ≠ []) : ∃ err, Q (.error err) (s, true) := by
  induction entries
  case nil => exact (hn rfl).elim
  case cons e entries hi =>
    rw [extractJars] at h
    split at h
    case isTrue =>
      rw [extractJar] at h
      have h := wp_bind.mp (wp_bind.mp h)
      rw [requireFree] at h
      exact ⟨_, (wp_ask_once.mp h).right rfl⟩
    case isFalse hj =>
      rw [List.filter_cons_of_neg hj] at hn
      exact hi h hn

theorem strands_extractJars {Q : Result Err (List String) → Fs × Bool → Prop} {rest : List ZipEntry}
    (h : (extractJars l zip destRoot entries).wp (once disk) Q (s, false))
    (hz : (s.get zip).bind Node.data? = some data) (hj : entries.filter (isJar l) = e :: rest)
    (hs : s.get (destRoot ++ [e.modName]) = none) (hr : s.HasRoom (destRoot ++ [e.modName]))
    (ho : e.opens = true) (hi : e.intact = true → rest ≠ []) :
    Strands s (destRoot ++ [e.modName]) Q := by
  induction entries
  case nil => cases hj
  case cons e' entries ih =>
    rw [extractJars] at h
    split at h
    case isFalse he =>
      rw [List.filter_cons_of_neg he] at hj
      exact ih h hj
    case isTrue he =>
      rw [List.filter_cons_of_pos he] at hj
      obtain ⟨rfl, rfl⟩ := List.cons.inj hj
      cases hd : e'.intact
      case false =>
        obtain ⟨s', d, hw, err, hq⟩ := strands_extractJar (wp_bind.mp h) hs hr hz ho hd
        exact ⟨s', d, hw, err, hq⟩
      case true =>
        obtain ⟨s', d, hw, h⟩ := wp_extractJar_end (wp_bind.mp h) hs hr hz ho
        rw [hd] at h
        have h : (extractJars l zip destRoot entries >>= _).wp (once disk) Q (s', false) := h
        obtain ⟨err, hq⟩ := fails_extractJars (wp_bind.mp h) (hi hd)
        exact ⟨s', d, hw, err, hq⟩

theorem serves_openZip {text : String} (h : archived l s zip = some entries) :
    (inContext text (openZip l zip)).wp (once disk) (yields fun a s' => a = entries ∧ s' = s)
      (s, true) := by
  obtain ⟨data, hz, hu⟩ := Option.bind_eq_some_iff.mp h
  obtain ⟨node, hg, _⟩ := Option.bind_eq_some_iff.mp hz
  have ho : exec (.open zip) s = (.ok (), s) := by simp only [exec, hg]
  have hx : exec (.read zip) s = (.ok data, s) := by simp only [exec, hz]
  refine wp_handle.mpr ?_
  rw [openZip]
  refine wp_step_once ho (wp_step_once hx ?_ fun h => by cases h) fun h => by cases h
  rw [hu]
  exact ⟨rfl, rfl⟩

-- An upload leaves a mod behind.
def StrandsMod (s : Fs) (destRoot : Path)
    (Q : Result Err (List String) → Fs × Bool → Prop) : Prop :=
  ∃ name, validateModEntryName name = .ok () ∧ s.get (destRoot ++ [name]) = none ∧
    Strands s (destRoot ++ [name]) Q

theorem strands_extractJarsFromZip {Q : Result Err (List String) → Fs × Bool → Prop}
    (h : (extractJarsFromZip l zip destRoot).wp (once disk) Q (s, false))
    (ha : archived l s zip = some entries) (hl : Archive.Leftover l s destRoot entries)
    (hr : ∀ name, s.HasRoom (destRoot ++ [name])) : StrandsMod s destRoot Q := by
  rw [extractJarsFromZip] at h
  obtain ⟨_, _, ⟨ha', he⟩, h⟩ := wp_once_rest h (serves_openZip ha)
  rw [ha', he] at h
  obtain ⟨data, hz, hu⟩ := Option.bind_eq_some_iff.mp ha
  obtain ⟨e, rest, hj, hs, ho, hi⟩ := hl
  have hv : isJar l e = true := (List.mem_filter.mp (hj ▸ List.mem_cons_self)).right
  obtain ⟨s', d, hw, err, hq⟩ := strands_extractJars (wp_bind.mp h) hz hj hs (hr _) ho hi
  exact ⟨e.modName, isJar_valid hv, hs, s', d, hw, err, hq⟩

theorem strands_storeUpload {Q : Result Err (List String) → Fs × Bool → Prop}
    (h : (storeUpload l payload destRoot).wp (once disk) Q (s, false))
    (hl : Leftover l payload destRoot s) (hr : ∀ name, s.HasRoom (destRoot ++ [name])) :
    StrandsMod s destRoot Q := by
  rw [storeUpload] at h
  rw [Leftover] at hl
  split at hl
  case h_1 => exact hl.elim
  case h_2 b64 hb =>
    rw [hb] at h
    obtain ⟨hv, hs, hd⟩ := hl
    obtain ⟨data, hd⟩ := Option.isSome_iff_exists.mp hd
    exact ⟨_, hv, hs, strands_storeInline h hv hs (hr _) hd⟩
  case h_3 source hb =>
    obtain ⟨ha, entries, he, hl⟩ := hl
    simp only [hb, ha, if_true] at h
    exact strands_extractJarsFromZip h he hl hr

end

-- A search that nothing disturbs.
theorem serves_findMod {dir : ModKind → Path} {kinds : List ModKind} {kind : ModKind}
    {missing : Err}
    (h : firstKind s dir name kinds = some kind) : (findMod dir name missing kinds).wp (once disk)
    (yields fun a s' => a = (kind, dir kind ++ [name]) ∧ s' = s) (s, true) := by
  refine wp_mono (wp_and wp_findMod wp_once_kept) ?_
  rintro r m ⟨hf, hu⟩
  have hk := h.symm.trans (hf.first (hu rfl))
  cases r
  case error => nomatch hk
  case ended => nomatch hk
  case ok a  =>
    obtain ⟨kind', path⟩ := a
    obtain rfl : kind = kind' := Option.some.inj hk
    have ⟨hp, _⟩ := hf.found _ rfl
    exact ⟨congrArg _ hp, hf.state⟩

theorem serves_clearActive (hd : dst ≠ []) (hs : (s.get dst).isSome = true)
    (hf : isForced payload = true) : (clearActive payload dst name).wp (once disk)
    (yields fun _ s' => Cleared s dst s') (s, true) := by
  obtain ⟨node, hn⟩ := Option.isSome_iff_exists.mp hs
  rw [clearActive]
  refine wp_ask_once.mpr ⟨?_, fun h => by cases h⟩
  simp only [exec, hn, hf, if_true]
  apply wp_mono (wp_remove_used hd)
  intro r m h
  cases r
  case ok    => exact h
  case error => exact h.elim
  case ended => exact h.elim

-- The active mod is gone when the other one cannot be moved to its place.
theorem loses_restoreMod {Q : Result Err Fields → Fs × Bool → Prop}
    (h : (restoreMod l cfg payload).wp (once disk) Q (s, false))
    (hv : validateModEntryName (payloadModName payload) = .ok ())
    (hi : installPath l cfg = .ok install) (hr : Replaces l install payload s) :
    ∃ (x : Slot) (s' : Fs), x.visible = true ∧ (s.get (x.path install)).isSome = true ∧
      Cleared s (x.path install) s' ∧ ∃ e, Q (.error e) (s', true) := by
  obtain ⟨hf, kind, hk, hs⟩ := hr
  rw [restoreMod, onMod_ok hv hi] at h
  obtain ⟨_, _, ⟨ha, he⟩, h⟩ := wp_once_rest h (serves_findMod hk)
  rw [ha, he] at h
  obtain ⟨_, s₁, hc, h⟩ := wp_once_rest h (serves_clearActive (by simp) hs hf)
  have h := wp_handle.mp (wp_bind.mp h)
  exact ⟨⟨.active kind, _⟩, s₁, slot_visible hv _, hs, hc, _, (wp_perform_once.mp h).right rfl rfl⟩

-- The operations that are to leave the stores alone if they fail.
inductive ModMove
  | quarantine (payload : Fields) (found : List (Path × Bytes))
  | restore    (payload : Fields)
  | approve    (payload : Fields)
  | upload     (payload : Fields) (isPending : Bool) (found : String → List (Path × Bytes))

namespace ModMove

def op : ModMove → ModOp
  | quarantine payload found       => .quarantine payload found
  | restore payload                => .restore payload
  | approve payload                => .approve payload
  | upload payload isPending found => .upload payload isPending found

-- An operation that has made a change before one of its last steps.
def Endangered (l : Library) (cfg : InstanceConfig) (s : Fs) : ModMove → Prop
  | quarantine ..            => False
  | restore payload          =>
    validateModEntryName (payloadModName payload) = .ok () ∧ (installPath l cfg).isOk = true ∧
    Replaces l (l.locate cfg.installPath) payload s
  | approve _                => False
  | upload payload isPending _ =>
    (installPath l cfg).isOk = true ∧
    s.Passable (uploadDir l (l.locate cfg.installPath) payload isPending) ∧
    Leftover l payload (uploadDir l (l.locate cfg.installPath) payload isPending) s

end ModMove

-- The stores are the same after any error.
def Unharmed (l : Library) (cfg : InstanceConfig) (s : Fs) : Result Err Fields → Fs × Bool → Prop :=
  fun r m => onError (fun s' => stores (l.locate cfg.installPath) s' =
    stores (l.locate cfg.installPath) s) r m.1

theorem Makes.unharmed {C : Fields → List (Slots.Change Slot Tree) → Prop} {r : Result Err Fields}
    {m : Fs × Bool} (h : Makes (l.locate cfg.installPath) s C r m) : Unharmed l cfg s r m := by
  cases r
  case ok    => trivial
  case error => exact h
  case ended => trivial

theorem installPath_isOk : (installPath l cfg).isOk = true ↔
    installPath l cfg = .ok (l.locate cfg.installPath) := by
  constructor
  case mpr => exact fun h => by rw [h]; rfl
  case mp =>
    intro h
    cases hi : installPath l cfg
    case ok    => rw [installPath_eq hi]
    case error => rw [hi] at h; nomatch h

theorem wp_unharmed {op : ModMove} (h : ¬op.Endangered l cfg s) :
    (op.op.prog l cfg).wp (once disk) (Unharmed l cfg s) (s, false) := by
  cases op
  case quarantine payload found =>
    change (quarantineMod l cfg payload found).wp _ _ _
    exact wp_mono wp_quarantineMod fun _ _ => Makes.unharmed
  case approve payload =>
    change (approvePendingMod l cfg payload).wp _ _ _
    exact wp_mono wp_approvePendingMod fun _ _ => Makes.unharmed
  case restore payload =>
    change (restoreMod l cfg payload).wp _ _ _
    refine wp_mono (wp_restoreMod fun hv hi _ hr => ?_) fun _ _ => Makes.unharmed
    exact h ⟨hv, installPath_isOk.mpr hi, hr⟩
  case upload payload isPending found =>
    change (uploadMod l cfg payload isPending found).wp _ _ _
    cases hi : installPath l cfg
    case error =>
      rw [uploadMod, hi]
      exact rfl
    case ok install =>
      refine wp_mono (wp_uploadMod fun hp hl => ?_) fun _ _ => Makes.unharmed
      exact h ⟨by rw [hi]; rfl, hp, hl⟩

-- An entry that has been added has not been there before.
theorem Changes.added_ne {y : Slot} {t : Tree} (h : Changes install s [.add y t] s') :
    stores install s' ≠ stores install s := by
  intro he
  have hy : stores install s' y = some t := by
    rw [h.right]
    exact if_pos rfl
  have hn : stores install s y = none := h.left.left
  rw [he, hn] at hy
  nomatch hy

theorem Cleared.stores_ne {x : Slot} (hx : x.visible = true)
    (hs : (s.get (x.path install)).isSome = true)
    (h : Cleared s (x.path install) s') : stores install s' ≠ stores install s := by
  intro he
  have hn : stores install s' x = none := by
    rw [stores_remove hx h]
    exact if_pos rfl
  have ⟨node, hg⟩ := Option.isSome_iff_exists.mp hs
  rw [he, stores_eq hx hg] at hn
  nomatch hn

theorem harms_upload {isPending : Bool} {found : String → List (Path × Bytes)}
    (h : ModMove.Endangered l cfg s (.upload payload isPending found)) :
    ¬(uploadMod l cfg payload isPending found).wp (once disk) (Unharmed l cfg s) (s, false) := by
  intro hw
  obtain ⟨hi, hp, hl⟩ := h
  rw [uploadMod, installPath_isOk.mp hi] at hw
  change (send (.mkdirAll _) >>= _).wp _ _ _ at hw
  have hx : exec (.mkdirAll (uploadDir l (l.locate cfg.installPath) payload isPending)) s =
    (.ok (), s.makeAll (uploadDir l (l.locate cfg.installPath) payload isPending)) := if_pos hp
  have hw := wp_bind.mp (wp_served_once hw hx)
  have hd : (s.makeAll (uploadDir l (l.locate cfg.installPath) payload isPending)).get
      (uploadDir l (l.locate cfg.installPath) payload isPending) = some .dir :=
    if_pos (List.prefix_refl _)
  have hl := (leftover_makeAll hp).mpr hl
  have hr : ∀ name : String,
    (s.makeAll (uploadDir l (l.locate cfg.installPath) payload isPending)).HasRoom
      (uploadDir l (l.locate cfg.installPath) payload isPending ++ [name]) :=
    fun name => ⟨by simp, by simpa using hd⟩
  have h := strands_storeUpload hw hl hr
  obtain ⟨name, hv, hs, s', d, hw, e, hq⟩ := h
  rw [uploadDir_eq] at hs hw
  have hc :=
    Writing.changes (y := ⟨uploadStore l payload isPending, name⟩) (slot_visible hv _) hs hw
  exact hc.added_ne (hq.trans stores_makeAll.symm)

theorem harms {op : ModMove} (h : op.Endangered l cfg s) :
    ¬(op.op.prog l cfg).wp (once disk) (Unharmed l cfg s) (s, false) := by
  cases op
  case quarantine => exact h.elim
  case approve    => exact h.elim
  case upload     => exact harms_upload h
  case restore payload =>
    intro hw
    have ⟨hv, hi, hr⟩ := h
    have ⟨x, s', hx, hs, hc, e, hq⟩ := loses_restoreMod hw hv (installPath_isOk.mp hi) hr
    exact hc.stores_ne hx hs hq

theorem forall_error_iff {r : Result Err α} {I : Fs → Prop} :
    (∀ e, r = .error e → I s) ↔ onError I r s := by
  cases r
  case ok      => exact ⟨fun _ => trivial, fun _ _ h => nomatch h⟩
  case error e => exact ⟨fun h => h e rfl, fun h _ _ => h⟩
  case ended   => exact ⟨fun _ => trivial, fun _ _ h => nomatch h⟩

-- An operation leaves the stores alone after every failure, unless it is endangered.
theorem failed_move_iff (l : Library) (cfg : InstanceConfig) (s : Fs) (op : ModMove) :
    (∀ i e, ((op.op.prog l cfg).run (failingAt i) s).result = .error e →
      stores (l.locate cfg.installPath) ((op.op.prog l cfg).run (failingAt i) s).state =
        stores (l.locate cfg.installPath) s) ↔ ¬op.Endangered l cfg s := by
  have hw : (∀ i e, ((op.op.prog l cfg).run (failingAt i) s).result = .error e →
      stores (l.locate cfg.installPath) ((op.op.prog l cfg).run (failingAt i) s).state =
        stores (l.locate cfg.installPath) s) ↔
      (op.op.prog l cfg).wp (once disk) (Unharmed l cfg s) (s, false) := by
    refine Iff.trans ?_ wp_once_iff.symm
    exact forall_congr' fun _ => forall_error_iff (I := fun s' =>
      stores (l.locate cfg.installPath) s' = stores (l.locate cfg.installPath) s)
  rw [hw]
  exact ⟨fun h he => harms he h, wp_unharmed⟩

-- Two mods of the same name in one archive.
def twinLibrary : Library where
  lower    := Char.toLower
  locate p := [p]
  unzip _  := some [⟨"a/x.jar", false, true, [], true⟩, ⟨"b/x.jar", false, true, [], true⟩]
  decode _ := none

theorem upload_of_twins : ¬∀ (l : Library) (cfg : InstanceConfig) (s : Fs) (op : ModMove) (i : ℕ)
    (e : Err), ((op.op.prog l cfg).run (failingAt i) s).result = .error e →
      stores (l.locate cfg.installPath) ((op.op.prog l cfg).run (failingAt i) s).state =
        stores (l.locate cfg.installPath) s := by
  intro h
  let cfg : InstanceConfig := { installPath := "server" }
  have h := h twinLibrary cfg (Fs.after [.create ["mods.zip"] true])
    (.upload [("source_path", .str "mods.zip")] true fun _ => []) 20
    (.other "mod already exists: x.jar") (eq_of_errorOf (by decide +kernel))
  have h := congrArg Option.isSome (congrFun h ⟨.pending, "x.jar"⟩)
  exact absurd h (by decide +kernel)

end Agent
