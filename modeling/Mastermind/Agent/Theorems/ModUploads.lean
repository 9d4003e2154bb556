import Mastermind.Agent.Theorems.ModMoves

open Effects Prog Js
open Files (Err Path Bytes Disk Node Tree Fs Apart Leaves exec disk ask send inContext ignoreErrors
  removeAll writeAll)

namespace Agent

variable {l : Library} {cfg : InstanceConfig} {payload : Fields} {install : Path} {s s' : Fs}
  {used : Bool} {y : Slot} {name : String} {dst : Path} {data d : Bytes}

-- A file is being written, and nothing else has changed.
structure Writing (s : Fs) (dst : Path) (s' : Fs) (d : Bytes) : Prop where
  file : s'.get dst = some (.file d)
  rest : ∀ q, q ≠ dst → s'.get q = s.get q

-- A write stops early only at a step that fails.
def Written (s : Fs) (used : Bool) (dst : Path) (d : Bytes) : Result Err Unit → Fs × Bool → Prop
  | .ok _, m    => Writing s dst m.1 d
  | .error _, m => used = false ∧ m.2 = true ∧ ∃ d, Writing s dst m.1 d
  | .ended, _   => False

theorem wp_writeAll_once (h : Writing s dst s' d) :
    (writeAll dst data).wp (once disk) (Written s used dst (d ++ data)) (s', used) := by
  induction data generalizing s' d
  case nil =>
    rw [List.append_nil]
    exact h
  case cons byte data hi =>
    have hx : exec (.append dst byte) s' =
        (.ok (), s'.put dst (.file (d ++ [byte])) (.of_file h.file) (.inr (.of_file h.file))) := by
      simp only [exec, h.file, Node.data?, Node.write]
      exact dif_pos ⟨.of_file h.file, .of_file h.file⟩
    have hw : Writing s dst (s'.put dst (.file (d ++ [byte])) (.of_file h.file)
        (.inr (.of_file h.file))) (d ++ [byte]) :=
      ⟨if_pos rfl, fun q hq => (if_neg hq).trans (h.rest q hq)⟩
    have hi := hi hw
    rw [List.append_assoc] at hi
    exact wp_step_once hx hi fun hu => ⟨hu, rfl, d, h⟩

-- A new file is created, unless that fails.
theorem wp_create {α : Type} {exclusive : Bool} {f : Unit → Disk α}
    {Q : Result Err α → Fs × Bool → Prop}
    (hs : s.get dst = none) (hf : ∀ s', Writing s dst s' [] → (f ()).wp (once disk) Q (s', used))
    (he : ∀ e used, Q (.error e) (s, used)) :
    (send (.create dst exclusive) >>= f).wp (once disk) Q (s, used) := by
  by_cases h : s.HasRoom dst ∧ s.Bare dst
  case neg => exact wp_stop_once (dif_neg h) (he _ _) fun _ => he _ _
  case pos =>
    have hx : exec (.create dst exclusive) s =
        (.ok (), s.put dst (.file []) h.left (.inr h.right)) := by
      simp only [exec, hs]
      exact dif_pos h
    exact wp_step_once hx (hf _ ⟨if_pos rfl, fun _ hq => if_neg hq⟩) fun _ => he _ _

theorem wp_attempt {α : Type} {prog : Disk α} {Q : Result Err (Except Err α) → Fs × Bool → Prop}
    {m : Fs × Bool}
    (h : prog.wp (once disk) (fun r m => match r with
      | .ok a    => Q (.ok (.ok a)) m
      | .error e => Q (.ok (.error e)) m
      | .ended   => False) m) : (attempt prog).wp (once disk) Q m := by
  rw [attempt]
  refine wp_handle.mpr (wp_bind.mpr (wp_mono h ?_))
  intro r m h
  cases r
  case ok    => exact h
  case error => exact h
  case ended => exact h.elim

section

variable {α : Type} {C : α → List (Slots.Change Slot Tree) → Prop}

-- What has been written is removed again.
theorem wp_discard {e : Err} (hs : s.get dst = none) (hw : Writing s dst s' d) :
    (do
      ignoreErrors (send (.remove dst))
      .throw e : Disk α).wp (once disk) (Makes install s C) (s', true) := by
  have hn : dst ≠ [] := by
    rintro rfl
    cases hw.file.symm.trans s'.rooted
  have hx : exec (.remove dst) s' = (.ok (), s'.erase dst hn (.of_file hw.file)) := by
    simp only [exec, hw.file]
    exact dif_pos ⟨hn, .of_file hw.file⟩
  have hr : (s'.erase dst hn (.of_file hw.file)).get = s.get := by
    funext q
    by_cases hq : q = dst
    case pos => exact (if_pos hq).trans (hq ▸ hs.symm)
    case neg => exact (if_neg hq).trans (hw.rest q hq)
  refine wp_bind.mpr (wp_handle.mpr (wp_last_once hx ?_ fun h => by cases h))
  exact stores_congr fun q _ => congrFun hr q

theorem Writing.changes (hy : y.visible = true) (hs : s.get (y.path install) = none)
    (hw : Writing s (y.path install) s' d) : Changes install s [.add y (fileTree d)] s' := by
  have hg : ∀ q, s'.get q = if q = y.path install then some (.file d) else s.get q := by
    intro q
    split
    case isTrue hq  => rw [hq, hw.file]
    case isFalse hq => exact hw.rest q hq
  have ⟨hl, ha⟩ := stores_add hy hs hg
  exact ⟨⟨hl, trivial⟩, ha⟩

-- The end of a copy, whose failure is due to a step that has failed.
theorem wp_finishCopy {r : Except Err Unit} (hy : y.visible = true)
    (hs : s.get (y.path install) = none) (hw : Writing s (y.path install) s' d)
    (hr : ∀ e, r = .error e → used = true) :
    (finishCopy (y.path install) r).wp (once disk)
      (Makes install s fun _ cs => ∃ d, cs = [.add y (fileTree d)]) (s', used) := by
  cases r
  case ok _ => exact ⟨_, ⟨d, rfl⟩, hw.changes hy hs⟩
  case error e =>
    obtain rfl := hr e rfl
    exact wp_discard hs hw

-- What a copy into a new file can lead to.
def Copied (s : Fs) (dst : Path) : Result Err (Except Err Unit) → Fs × Bool → Prop
  | .ok r, m => (∃ d, Writing s dst m.1 d) ∧ ∀ e, r = .error e → m.2 = true
  | _, _     => False

theorem wp_copyData {src : Path} (hs : s.get dst = none) (hf : s.get src = some (.file data))
    (hw : Writing s dst s' []) :
    (attempt do
      let data ← send (.read src)
      writeAll dst data).wp (once disk) (Copied s dst) (s', used) := by
  have hne : src ≠ dst := by
    rintro rfl
    cases hs.symm.trans hf
  have hx : exec (.read src) s' = (.ok data, s') := by
    simp only [exec, (hw.rest src hne).trans hf]
    rfl
  refine wp_attempt (wp_step_once hx (wp_mono (wp_writeAll_once hw) ?_) ?_)
  case refine_1 =>
    intro r m h
    cases r
    case ok    => exact ⟨⟨_, h⟩, fun _ h => by cases h⟩
    case error => exact ⟨h.right.right, fun _ _ => h.right.left⟩
    case ended => exact h
  case refine_2 => exact fun _ => ⟨⟨_, hw⟩, fun _ _ => rfl⟩

theorem wp_copyFile {src : Path} (hy : y.visible = true) (hs : s.get (y.path install) = none) :
    (copyFile src (y.path install)).wp (once disk)
      (Makes install s fun _ cs => ∃ d, cs = [.add y (fileTree d)]) (s, used) := by
  have hl : (inContext "open source" (send (.lstat src))).wp (once disk)
      (fun r m => m.1 = s ∧ ∀ node, r = .ok node → s.get src = some node) (s, used) := by
    refine wp_handle.mpr (wp_perform_once.mpr ⟨?_, fun _ _ => ⟨rfl, fun _ h => by cases h⟩⟩)
    cases hg : s.get src
    case none =>
      simp only [exec, hg]
      exact ⟨rfl, fun _ h => by cases h⟩
    case some =>
      simp only [exec, hg]
      exact ⟨rfl, fun _ h => congrArg _ (Result.ok.inj h)⟩
  rw [copyFile]
  refine wp_bind.mpr (wp_mono hl ?_)
  rintro r ⟨s₀, used₀⟩ ⟨h, hg⟩
  obtain rfl : s₀ = s := h
  cases r
  case error => exact rfl
  case ended => exact rfl
  case ok node =>
    have hg := hg node rfl
    cases node
    case dir  => exact rfl
    case link => exact rfl
    case file data =>
      have hx : exec (.open src) s₀ = (.ok (), s₀) := by simp only [exec, hg]
      refine wp_step_once hx (wp_create hs (fun s₁ hw => ?_) fun _ _ => rfl) fun _ => rfl
      refine wp_bind.mpr (wp_mono (wp_copyData hs hg hw) ?_)
      rintro r ⟨s₂, used₂⟩ hc
      cases r
      case error => exact hc.elim
      case ended => exact hc.elim
      case ok copied =>
        obtain ⟨⟨d, hw⟩, hc⟩ := hc
        refine wp_ask_once.mpr ⟨?_, fun _ => ?_⟩
        case refine_1 =>
          refine wp_finishCopy hy hs hw fun e he => ?_
          cases copied
          case ok    => cases he
          case error => exact hc _ rfl
        case refine_2 => exact wp_finishCopy hy hs hw fun _ _ => rfl

-- A file is written to its end if a step has failed already.
theorem wp_writeFile (hy : y.visible = true) (hs : s.get (y.path install) = none) :
    (writeFile (y.path install) data).wp (once disk)
      (Makes install s fun _ cs => ∃ d, cs = [.add y (fileTree d)]) (s, true) := by
  rw [writeFile]
  refine wp_create hs (fun s₁ hw => ?_) fun _ _ => rfl
  have ha : (attempt (writeAll (y.path install) data)).wp (once disk)
      (fun r m => r = .ok (.ok ()) ∧ Writing s (y.path install) m.1 data) (s₁, true) := by
    refine wp_attempt (wp_mono (wp_writeAll_once hw) ?_)
    intro r m h
    cases r
    case ok    => exact ⟨rfl, h⟩
    case error => nomatch h.left
    case ended => exact h
  refine wp_bind.mpr (wp_mono (wp_and ha wp_once_kept) ?_)
  rintro _ ⟨s₂, used₂⟩ ⟨⟨rfl, hw⟩, hk⟩
  obtain rfl : used₂ = true := hk rfl
  exact wp_ask_once.mpr ⟨⟨_, ⟨data, rfl⟩, hw.changes hy hs⟩, fun h => nomatch h⟩

-- What the entries of an archive add to a store.
def added (store : ModStore) (files : List (String × Bytes)) : List (Slots.Change Slot Tree) :=
  files.map fun (name, data) => .add ⟨store, name⟩ (fileTree data)

-- The mods of an upload are new.
def Uploaded (store : ModStore) (folders : List String)
    (cs : List (Slots.Change Slot Tree)) : Prop :=
  ∃ files, folders = files.map Prod.fst ∧ cs = added store files

end

section

variable {store : ModStore} {filename b64 source : String}

-- A check that comes before any change.
theorem wp_checked {α : Type} {C : α → List (Slots.Change Slot Tree) → Prop} {r : Except Err Unit}
    {k : Disk α} (h : r = .ok () → k.wp (once disk) (Makes install s C) (s, used)) :
    ((ofExcept r : Disk Unit) >>= fun _ => k).wp (once disk) (Makes install s C) (s, used) := by
  cases r
  case error => exact rfl
  case ok    => exact h rfl

theorem wp_storeFile : (storeFile l source filename (store.dir install)).wp (once disk)
    (Makes install s (Uploaded store)) (s, used) := by
  rw [storeFile]
  refine wp_checked fun hv => wp_bind_looks wp_requireFree fun _ used₀ hf _ => ?_
  refine wp_bind_makes (wp_copyFile (y := ⟨store, filename⟩) (slot_visible hv store) hf) ?_
  rintro _ s₁ used₁ _ ⟨d, rfl⟩ hc
  exact ⟨_, ⟨[(filename, d)], rfl, rfl⟩, hc⟩

theorem wp_storeInline
    (hr : used = false → validateModEntryName filename = .ok () →
      s.get (store.dir install ++ [filename]) = none → l.decode b64 = none) :
    (storeInline l b64 filename (store.dir install)).wp (once disk)
      (Makes install s (Uploaded store)) (s, used) := by
  rw [storeInline]
  refine wp_checked fun hv => wp_bind_looks wp_requireFree fun _ used₀ hf hk => ?_
  cases hd : l.decode b64
  case none      => exact rfl
  case some data =>
    obtain rfl : used₀ = true := by
      cases used
      case true  => exact hk rfl
      case false => exact nomatch hd.symm.trans (hr rfl hv hf)
    refine wp_bind_makes (wp_writeFile (y := ⟨store, filename⟩) (slot_visible hv store) hf) ?_
    rintro _ s₁ used₁ _ ⟨d, rfl⟩ hc
    exact ⟨_, ⟨[(filename, d)], rfl, rfl⟩, hc⟩

end

section

variable {store : ModStore} {zip : Path} {e : ZipEntry} {entries : List ZipEntry}

-- The copy of an entry stops at a step that fails, or where the entry cannot be read.
def CopiedEntry (s : Fs) (dst : Path) (e : ZipEntry) :
    Result Err (Except Err Unit) → Fs × Bool → Prop
  | .ok r, m => (∃ d, Writing s dst m.1 d) ∧ ∀ err, r = .error err → m.2 = true ∨ e.intact = false
  | _, _     => False

theorem wp_copyEntry (hs : s.get dst = none) (hz : (s.get zip).bind Node.data? = some data)
    (hw : Writing s dst s' []) :
    (attempt (copyEntry zip dst e)).wp (once disk) (CopiedEntry s dst e) (s', used) := by
  have hne : zip ≠ dst := by
    rintro rfl
    cases hs ▸ hz
  have hx : exec (.read zip) s' = (.ok data, s') := by simp only [exec, hw.rest zip hne, hz]
  rw [copyEntry]
  refine wp_attempt (wp_step_once hx (wp_bind.mpr (wp_mono (wp_writeAll_once hw) ?_)) ?_)
  case refine_2 => exact fun _ => ⟨⟨_, hw⟩, fun _ _ => .inl rfl⟩
  case refine_1 =>
    rintro r ⟨s₁, used₁⟩ h
    cases r
    case error => exact ⟨h.right.right, fun _ _ => .inl h.right.left⟩
    case ended => exact h
    case ok    =>
      cases hi : e.intact
      case true  =>
        simp only [seqPost, if_true]
        exact ⟨⟨_, h⟩, fun _ h => by cases h⟩
      case false =>
        simp only [seqPost, Bool.false_eq_true, if_false]
        exact ⟨⟨_, h⟩, fun _ _ => .inr hi⟩

theorem isJar_valid (h : isJar l e = true) : validateModEntryName e.modName = .ok () := by
  rw [isJar, Bool.and_eq_true] at h
  cases hv : validateModEntryName e.modName
  case ok    => rfl
  case error => simp [hv, Except.isOk, Except.toBool] at h

theorem wp_extractJar (hv : validateModEntryName e.modName = .ok ())
    (hz : (s.get zip).bind Node.data? = some data)
    (hr : used = false → s.get (store.dir install ++ [e.modName]) = none → e.opens = true →
      e.intact = true) :
    (extractJar zip (store.dir install ++ [e.modName]) e).wp (once disk)
      (Makes install s fun _ cs =>
        s.get (store.dir install ++ [e.modName]) = none ∧ e.opens = true ∧
          ∃ d, cs = [.add ⟨store, e.modName⟩ (fileTree d)]) (s, used) := by
  have hy := slot_visible hv store
  have hx : exec (.read zip) s = (.ok data, s) := by simp only [exec, hz]
  rw [extractJar]
  refine wp_bind_looks wp_requireFree fun _ used₀ hf hk => wp_step_once hx ?_ fun _ => rfl
  split
  case isFalse   => exact rfl
  case isTrue ho =>
    refine wp_create hf (fun s₁ hw => ?_) fun _ _ => rfl
    refine wp_bind.mpr (wp_mono (wp_and (wp_copyEntry hf hz hw) wp_once_kept) ?_)
    rintro r ⟨s₂, used₂⟩ ⟨hc, hk₂⟩
    cases r
    case error => exact hc.elim
    case ended => exact hc.elim
    case ok copied =>
      obtain ⟨⟨d, hw⟩, hc⟩ := hc
      have hi : used₂ = false → e.intact = true := by
        intro hu
        cases used
        case true  => cases hu.symm.trans (hk₂ (hk rfl))
        case false => exact hr rfl hf ho
      have hc : ∀ err, copied = .error err → used₂ = true := by
        intro err he
        cases used₂
        case true  => rfl
        case false => simpa [hi rfl] using hc err he
      have hfinish (used' : Bool) (hu : used₂ = true → used' = true) :
          (finishCopy (store.dir install ++ [e.modName]) copied).wp (once disk)
            (Makes install s fun _ cs => s.get (store.dir install ++ [e.modName]) = none ∧
              e.opens = true ∧ ∃ d, cs = [.add ⟨store, e.modName⟩ (fileTree d)]) (s₂, used') := by
        have h := wp_finishCopy (y := ⟨store, e.modName⟩) hy hf hw fun err he => hu (hc err he)
        exact wp_mono h fun _ _ h => h.imp fun _ _ hd => ⟨hf, ho, hd⟩
      refine wp_bind.mpr (wp_handle.mpr (wp_last_once rfl ?_ fun _ => ?_))
      case refine_1 => exact hfinish used₂ id
      case refine_2 => exact hfinish true fun _ => rfl

theorem leaves_requireFree {Q : Path → Prop} {path : Path} {err : Err} :
    Leaves Q (requireFree path err) := by
  refine (Leaves.ask fun _ _ => id).bind fun r => ?_
  split
  case h_1 => exact .pure
  case h_2 => exact .throw

theorem leaves_attempt {α : Type} {Q : Path → Prop} {prog : Disk α} (h : Leaves Q prog) :
    Leaves Q (attempt prog) :=
  (h.bind fun _ => .pure).handle fun _ => .pure

theorem leaves_extractJar : Leaves (· ≠ dst) (extractJar zip dst e) := by
  have hread : Leaves (· ≠ dst) (send (.read zip)) := .send fun _ _ => id
  have hcopy : Leaves (· ≠ dst) (copyEntry zip dst e) := by
    refine hread.bind fun _ => (Leaves.writeAll fun _ => id).bind fun _ => ?_
    split
    case isTrue  => exact .pure
    case isFalse => exact .throw
  refine leaves_requireFree.bind fun _ => hread.bind fun _ => ?_
  split
  case isFalse => exact .throw
  case isTrue  =>
    have hcreate : Leaves (· ≠ dst) (send (.create dst true)) := .send fun _ => id
    have hclose : Leaves (· ≠ dst) (send (.close dst)) := .send fun _ _ => id
    have hremove : Leaves (· ≠ dst) (send (.remove dst)) := .send fun _ => id
    refine hcreate.bind fun _ => (leaves_attempt hcopy).bind fun copied =>
      hclose.ignoreErrors.bind fun _ => ?_
    cases copied
    case ok    => exact .pure
    case error => exact hremove.ignoreErrors.bind fun _ => .throw

-- The archive is still there after one of its entries has been extracted.
theorem wp_extractJar_zip (hv : validateModEntryName e.modName = .ok ())
    (hz : (s.get zip).bind Node.data? = some data)
    (hr : used = false → s.get (store.dir install ++ [e.modName]) = none → e.opens = true →
      e.intact = true) :
    (extractJar zip (store.dir install ++ [e.modName]) e).wp (once disk) (fun r m =>
      Makes install s
        (fun _ cs => s.get (store.dir install ++ [e.modName]) = none ∧ e.opens = true ∧
          ∃ d, cs = [.add ⟨store, e.modName⟩ (fileTree d)]) r m ∧
      (r.isOk = true → (m.1.get zip).bind Node.data? = some data)) (s, used) := by
  apply wp_mono (wp_and (wp_extractJar hv hz hr) (wp_leaves_once leaves_extractJar))
  rintro r m ⟨h, hl⟩
  refine ⟨h, fun hr => ?_⟩
  cases r
  case error => nomatch hr
  case ended => nomatch hr
  case ok    =>
    have ⟨_, ⟨hf, _⟩, _⟩ := h
    have hne : zip ≠ store.dir install ++ [e.modName] := by
      rintro rfl
      exact nomatch hf ▸ hz
    rw [hl zip hne, hz]

-- Some files have been added to a store.
def Adds (install : Path) (s : Fs) (store : ModStore) : Result Err (List String) → Fs × Bool → Prop
  | .ok folders, m => ∃ cs, Uploaded store folders cs ∧ Changes install s cs m.1
  | _, m           => ∃ files, Changes install s (added store files) m.1

-- After a failure, the mods that have been extracted stay.
theorem wp_extractJars_used (hz : (s.get zip).bind Node.data? = some data) :
    (extractJars l zip (store.dir install) entries).wp (once disk) (Adds install s store)
      (s, true) := by
  induction entries generalizing s
  case nil => exact ⟨[], ⟨[], rfl, rfl⟩, trivial, rfl⟩
  case cons e entries hi =>
    rw [extractJars]
    split
    case isFalse   => exact hi hz
    case isTrue hj =>
      refine wp_bind.mpr (wp_mono (wp_and
        (wp_extractJar_zip (isJar_valid hj) hz fun h => nomatch h) wp_once_kept) ?_)
      rintro r ⟨s₁, used₁⟩ ⟨⟨h, hz⟩, hk⟩
      obtain rfl : used₁ = true := hk rfl
      cases r
      case error => exact ⟨[], trivial, h⟩
      case ended => exact ⟨[], trivial, h⟩
      case ok    =>
        have ⟨_, ⟨_, _, d, rfl⟩, hc⟩ := h
        refine wp_bind.mpr (wp_mono (hi (hz rfl)) ?_)
        rintro r ⟨s₂, used₂⟩ h
        cases r
        case ok folders =>
          obtain ⟨_, ⟨files, rfl, rfl⟩, hc₂⟩ := h
          exact ⟨_, ⟨(e.modName, d) :: files, rfl, rfl⟩, hc.append hc₂⟩
        case error =>
          have ⟨files, hc₂⟩ := h
          exact ⟨(e.modName, d) :: files, hc.append hc₂⟩
        case ended =>
          have ⟨files, hc₂⟩ := h
          exact ⟨(e.modName, d) :: files, hc.append hc₂⟩

theorem extractJars_none {destRoot : Path} (h : entries.filter (isJar l) = []) :
    extractJars l zip destRoot entries = pure [] := by
  induction entries
  case nil => rfl
  case cons e entries hi =>
    have hj := List.filter_eq_nil_iff.mp h
    rw [extractJars, if_neg (hj e List.mem_cons_self)]
    exact hi (List.filter_eq_nil_iff.mpr fun e he => hj e (List.mem_cons_of_mem _ he))

-- If at most one mod can be extracted at all, and this one is intact, nothing is left after a
-- failure.
theorem wp_extractJars (hz : (s.get zip).bind Node.data? = some data)
    (hr : ∀ e rest, entries.filter (isJar l) = e :: rest →
      s.get (store.dir install ++ [e.modName]) = none → e.opens = true →
      e.intact = true ∧ rest = []) :
    (extractJars l zip (store.dir install) entries).wp (once disk)
      (Makes install s (Uploaded store)) (s, used) := by
  induction entries
  case nil => exact ⟨[], ⟨[], rfl, rfl⟩, trivial, rfl⟩
  case cons e entries hi =>
    rw [extractJars]
    split
    case isFalse hj =>
      rw [List.filter_cons_of_neg hj] at hr
      exact hi hr
    case isTrue hj =>
      have hr := hr e _ (List.filter_cons_of_pos hj)
      refine wp_bind_makes (wp_extractJar (isJar_valid hj) hz fun _ hf ho => (hr hf ho).left) ?_
      rintro _ s₁ used₁ _ ⟨hf, ho, d, rfl⟩ hc
      rw [extractJars_none (hr hf ho).right]
      exact ⟨_, ⟨[(e.modName, d)], rfl, rfl⟩, hc⟩

-- The entries of an archive.
def archived (l : Library) (s : Fs) (zip : Path) : Option (List ZipEntry) :=
  ((s.get zip).bind Node.data?).bind l.unzip

theorem wp_openZip {text : String} : (inContext text (openZip l zip)).wp (once disk)
    (Looks s fun entries => archived l s zip = some entries) (s, used) := by
  refine wp_handle.mpr ?_
  rw [openZip]
  have he : ∀ err used,
    handlePost (once disk) (Looks s fun entries => archived l s zip = some entries)
      (fun e => .throw (e.wrap text)) (.error err) (s, used) :=
    fun _ _ => ⟨rfl, fun _ h => nomatch h⟩
  cases hg : s.get zip
  case none =>
    have hx : exec (.open zip) s = (.error .notExist, s) := by simp only [exec, hg]
    exact wp_stop_once hx (he _ _) fun _ => he _ _
  case some node =>
    have hx : exec (.open zip) s = (.ok (), s) := by simp only [exec, hg]
    refine wp_step_once hx ?_ fun _ => he _ _
    cases hd : node.data?
    case none =>
      have hx : exec (.read zip) s = (.error (.other "cannot be read"), s) := by
        simp only [exec, hg, Option.bind_some, hd]
      exact wp_stop_once hx (he _ _) fun _ => he _ _
    case some data =>
      have hx : exec (.read zip) s = (.ok data, s) := by
        simp only [exec, hg, Option.bind_some, hd]
      refine wp_step_once hx ?_ fun _ => he _ _
      split
      case h_1         => exact he _ _
      case h_2 entries hu =>
        refine ⟨rfl, ?_⟩
        rintro _ ⟨⟩
        rw [archived, hg, Option.bind_some, hd]
        exact hu

-- What the archives that can leave something behind have in common.
def Archive.Leftover (l : Library) (s : Fs) (destRoot : Path) (entries : List ZipEntry) : Prop :=
  ∃ e rest, entries.filter (isJar l) = e :: rest ∧ s.get (destRoot ++ [e.modName]) = none ∧
    e.opens = true ∧ (e.intact = true → rest ≠ [])

theorem wp_extractJarsFromZip
    (hr : ∀ entries, archived l s zip = some entries →
      ¬Archive.Leftover l s (store.dir install) entries) :
    (extractJarsFromZip l zip (store.dir install)).wp (once disk)
      (Makes install s (Uploaded store)) (s, used) := by
  rw [extractJarsFromZip]
  refine wp_bind_looks wp_openZip fun entries used₀ ha _ => ?_
  have ⟨data, hz, _⟩ := Option.bind_eq_some_iff.mp ha
  have hr : ∀ e rest, entries.filter (isJar l) = e :: rest →
      s.get (store.dir install ++ [e.modName]) = none → e.opens = true →
      e.intact = true ∧ rest = [] := by
    intro e rest he hf ho
    by_contra hn
    exact hr entries ha ⟨e, rest, he, hf, ho, fun hi h => hn ⟨hi, h⟩⟩
  refine wp_bind_makes (wp_extractJars hz hr) ?_
  rintro folders s₁ used₁ cs hc hs
  split
  case isFalse   => exact ⟨cs, hc, hs⟩
  case isTrue hn =>
    obtain ⟨files, hf, rfl⟩ := hc
    obtain rfl : files = [] := List.map_eq_nil_iff.mp (hf ▸ hn)
    exact hs.right

theorem wp_extractJarsFromZip_used :
    (extractJarsFromZip l zip (store.dir install)).wp (once disk) (Adds install s store)
      (s, true) := by
  rw [extractJarsFromZip]
  refine wp_bind.mpr (wp_mono (wp_and wp_openZip wp_once_kept) ?_)
  rintro r ⟨s₀, used₀⟩ ⟨⟨hs, ha⟩, hk⟩
  obtain rfl : s₀ = s := hs
  obtain rfl : used₀ = true := hk rfl
  cases r
  case error => exact ⟨[], trivial, rfl⟩
  case ended => exact ⟨[], trivial, rfl⟩
  case ok entries =>
    have ⟨data, hz, _⟩ := Option.bind_eq_some_iff.mp (ha entries rfl)
    refine wp_bind.mpr (wp_mono (wp_extractJars_used hz) ?_)
    rintro r ⟨s₁, used₁⟩ h
    cases r
    case error => exact h
    case ended => exact h
    case ok folders =>
      have ⟨cs, hc, hs⟩ := h
      dsimp only [seqPost]
      split
      case isFalse => exact ⟨cs, hc, hs⟩
      case isTrue  =>
        obtain ⟨files, _, rfl⟩ := hc
        exact ⟨files, hs⟩

end

def uploadStore (l : Library) (payload : Fields) (isPending : Bool) : ModStore :=
  if isPending then .pending else .quarantine (uploadKind l payload)

-- An upload that leaves something behind if one of its last steps fails.
@[irreducible]
def Leftover (l : Library) (payload : Fields) (destRoot : Path) (s : Fs) : Prop :=
  match uploadSource payload with
  | .error _           => False
  | .ok (.inline b64)  =>
    validateModEntryName (uploadName payload) = .ok () ∧
    s.get (destRoot ++ [uploadName payload]) = none ∧ (l.decode b64).isSome = true
  | .ok (.file source) =>
    isArchive l source (uploadName payload) = true ∧
    ∃ entries, archived l s (l.locate source) = some entries ∧
      Archive.Leftover l s destRoot entries

section

variable {isPending : Bool} {store : ModStore} {found : String → List (Path × Bytes)}

theorem uploadDir_eq :
    uploadDir l install payload isPending = (uploadStore l payload isPending).dir install := by
  cases isPending <;> rfl

theorem wp_storeUpload (hr : ¬Leftover l payload (store.dir install) s) :
    (storeUpload l payload (store.dir install)).wp (once disk)
      (Makes install s (Uploaded store)) (s, used) := by
  rw [storeUpload]
  rw [Leftover] at hr
  split
  case h_1 => exact rfl
  case h_2 b64 hs =>
    rw [hs] at hr
    refine wp_storeInline fun _ hv hf => ?_
    by_contra hd
    exact hr ⟨hv, hf, Option.isSome_iff_ne_none.mpr hd⟩
  case h_3 source hs =>
    rw [hs] at hr
    split
    case isTrue ha  => exact wp_extractJarsFromZip fun entries he hl => hr ⟨ha, entries, he, hl⟩
    case isFalse    => exact wp_storeFile

theorem Makes.adds {r : Result Err (List String)} {m : Fs × Bool}
    (h : Makes install s (Uploaded store) r m) : Adds install s store r m := by
  cases r
  case ok    => exact h
  case error => exact ⟨[], trivial, h⟩
  case ended => exact ⟨[], trivial, h⟩

theorem wp_storeUpload_used : (storeUpload l payload (store.dir install)).wp (once disk)
    (Adds install s store) (s, true) := by
  rw [storeUpload]
  split
  case h_1 => exact ⟨[], trivial, rfl⟩
  case h_2 => exact wp_mono (wp_storeInline fun h => nomatch h) fun _ _ => Makes.adds
  case h_3 =>
    split
    case isTrue  => exact wp_extractJarsFromZip_used
    case isFalse => exact wp_mono wp_storeFile fun _ _ => Makes.adds

theorem wp_stageUploadedJars {folders : List String} :
    (stageUploadedJars install found folders).wp (once disk)
      (returns fun m => stores install m.1 = stores install s) (s, used) := by
  refine wp_forEach (I := fun _ (m : Fs × Bool) => stores install m.1 = stores install s) ?_ rfl
  rintro name _ ⟨s', used'⟩ hs
  have hq : (stageConfigTemplatesForJar install name (found name)).wp (once disk)
      (fun _ m => stores install m.1 = stores install s) (s', used') :=
    wp_mono (wp_leaves_once leaves_stage) fun _ _ h => (stores_congr h).trans hs
  exact wp_ignore_once (B := disk) (I := fun s' => stores install s' = stores install s) hq

theorem archived_makeAll {p zip : Path} (hp : s.Passable p) :
    archived l (s.makeAll p) zip = archived l s zip := by
  by_cases hz : zip <+: p
  case neg =>
    have hg : (s.makeAll p).get zip = s.get zip := if_neg hz
    rw [archived, archived, hg]
  case pos =>
    have hg : (s.makeAll p).get zip = some .dir := if_pos hz
    rw [archived, archived, hg]
    cases hp zip ((List.mem_inits _ _).mpr hz)
    case inl h => rw [h]; rfl
    case inr h => rw [h]

theorem leftover_makeAll {p : Path} (hp : s.Passable p) :
    Leftover l payload p (s.makeAll p) ↔ Leftover l payload p s := by
  have hg : ∀ name : String, (s.makeAll p).get (p ++ [name]) = s.get (p ++ [name]) := by
    intro name
    refine if_neg fun h => ?_
    have hl := h.length_le
    simp at hl
  rw [Leftover, Leftover]
  split
  case h_1 => exact Iff.rfl
  case h_2 => rw [hg]
  case h_3 => simp only [archived_makeAll hp, Archive.Leftover, hg]

-- What comes before and after the storing of an upload does not change the stores.
theorem wp_uploadMod_of {Q : Result Err (List String) → Fs × Bool → Prop}
    {Q' : Result Err Fields → Fs × Bool → Prop}
    (hs : s.Passable (uploadDir l (l.locate cfg.installPath) payload isPending) →
      (storeUpload l payload (uploadDir l (l.locate cfg.installPath) payload isPending)).wp
        (once disk) Q
        (s.makeAll (uploadDir l (l.locate cfg.installPath) payload isPending), used))
    (hok : ∀ folders report m m', Q (.ok folders) m →
      stores (l.locate cfg.installPath) m'.1 = stores (l.locate cfg.installPath) m.1 →
      Q' (.ok report) m')
    (he : ∀ e m, Q (.error e) m → Q' (.error e) m) (hn : ∀ m, Q .ended m → Q' .ended m)
    (hsame : ∀ e used, Q' (.error e) (s, used)) :
    (uploadMod l cfg payload isPending found).wp (once disk) Q' (s, used) := by
  rw [uploadMod]
  cases hi : installPath l cfg
  case error => exact hsame _ _
  case ok install =>
    obtain rfl := installPath_eq hi
    by_cases hd : s.Passable (uploadDir l (l.locate cfg.installPath) payload isPending)
    case neg => exact wp_stop_once (if_neg hd) (hsame _ _) fun _ => hsame _ _
    case pos =>
      refine wp_step_once (if_pos hd) ?_ fun _ => hsame _ _
      refine wp_bind.mpr (wp_mono (hs hd) ?_)
      rintro r ⟨s₁, used₁⟩ h
      cases r
      case error => exact he _ _ h
      case ended => exact hn _ h
      case ok folders =>
        refine wp_bind.mpr (wp_mono wp_stageUploadedJars ?_)
        rintro r m hr
        cases r
        case error => exact hr.elim
        case ended => exact hr.elim
        case ok    => exact hok folders _ _ _ h hr

theorem wp_uploadMod
    (hr : s.Passable (uploadDir l (l.locate cfg.installPath) payload isPending) →
      ¬Leftover l payload (uploadDir l (l.locate cfg.installPath) payload isPending) s) :
    (uploadMod l cfg payload isPending found).wp (once disk) (Makes (l.locate cfg.installPath) s
      fun _ cs => ∃ folders, Uploaded (uploadStore l payload isPending) folders cs) (s, used) := by
  rw [uploadDir_eq] at hr
  apply wp_uploadMod_of (Q := Makes (l.locate cfg.installPath) s
    (Uploaded (uploadStore l payload isPending)))
  case hs =>
    intro hp
    rw [uploadDir_eq] at hp ⊢
    rw [← makes_congr stores_makeAll]
    exact wp_storeUpload (mt (leftover_makeAll hp).mp (hr hp))
  case hok =>
    intro folders report m m' ⟨cs, hc, hs⟩ he
    exact ⟨cs, ⟨folders, hc⟩, hs.left, he.trans hs.right⟩
  case he    => exact fun _ _ h => h
  case hn    => exact fun _ h => h
  case hsame => exact fun _ _ => rfl

-- An upload that no failing step disturbs adds mods, even if it stops with an error.
theorem wp_uploadMod_used :
    (uploadMod l cfg payload isPending found).wp (once disk) (fun _ m => ∃ files,
      Changes (l.locate cfg.installPath) s (added (uploadStore l payload isPending) files) m.1)
      (s, true) := by
  have hm : stores (l.locate cfg.installPath)
      (s.makeAll ((uploadStore l payload isPending).dir (l.locate cfg.installPath))) =
      stores (l.locate cfg.installPath) s := stores_makeAll
  apply wp_uploadMod_of (Q := Adds (l.locate cfg.installPath)
    (s.makeAll (uploadDir l (l.locate cfg.installPath) payload isPending))
    (uploadStore l payload isPending))
  case hs =>
    intro hp
    rw [uploadDir_eq]
    exact wp_storeUpload_used
  case hok =>
    intro folders report m m' ⟨_, ⟨files, _, rfl⟩, hs⟩ he
    rw [uploadDir_eq] at hs
    have hs := hs.of_same hm
    exact ⟨files, hs.left, he.trans hs.right⟩
  case he =>
    intro e m ⟨files, hs⟩
    rw [uploadDir_eq] at hs
    exact ⟨files, hs.of_same hm⟩
  case hn =>
    intro m ⟨files, hs⟩
    rw [uploadDir_eq] at hs
    exact ⟨files, hs.of_same hm⟩
  case hsame => exact fun _ _ => ⟨[], trivial, rfl⟩

end

end Agent
