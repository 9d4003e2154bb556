import Mastermind.Agent.Saves

open Effects Prog Files

namespace Agent

-- What copying makes of a node.
def copied (node : Node) : Node :=
  match node.data? with
  | none      => node
  | some data => .file data

theorem copied_eq {node : Node} (h : node.isLink = false) : copied node = node := by
  match node with
  | .dir    => rfl
  | .file _ => rfl

-- The nodes below `src` that are `done` have been copied to `dst`, where nothing has been before.
structure CopyOf (s : Fs) (src dst : Path) (done : List Path) (s' : Fs) : Prop where
  nodes : ∀ r, s'.get (dst ++ r) = if r ∈ done then (s.get (src ++ r)).map copied else none
  above : ∀ q, q <+: dst → q ≠ dst → s'.get q = s.get q ∨ s'.get q = some .dir
  other : ∀ q, Apart q dst → s'.get q = s.get q

-- All nodes that lie above a node have been copied as directories.
def Reached (s' : Fs) (dst : Path) (done : List Path) (r : Path) : Prop :=
  ∀ r₀, r₀ <+: r → r₀ ≠ r → r₀ ∈ done ∧ s'.get (dst ++ r₀) = some .dir

section

variable {s s' : Fs} {src dst r : Path} {done rest : List Path} {n : Node} {D : Disturbance disk}

-- The order of a walk.
theorem walk_split {before after : List (Path × Node)}
    (hw : s.walk src = before ++ (r, n) :: after)
    (hc : CopyOf s src dst (before.map Prod.fst) s') :
    s.get (src ++ r) = some n ∧ r ∉ before.map Prod.fst ∧
    (∀ t, r ++ t ∈ before.map Prod.fst → False) ∧ Reached s' dst (before.map Prod.fst) r := by
  have hg : s.get (src ++ r) = some n := Fs.mem_walk.mp (by simp [hw])
  have hm : s.below src = before.map Prod.fst ++ r :: after.map Prod.fst := by
    rw [← Fs.map_walk, hw, List.map_append, List.map_cons]
  have hs := hm ▸ s.sorted_below (p := src)
  have hn := hm ▸ s.nodup_below (p := src)
  rw [List.pairwise_append] at hs
  have hlt : ∀ t, r ++ t ∈ before.map Prod.fst → False := by
    intro t ht
    have hle := hs.right.right _ ht _ List.mem_cons_self
    have he := le_antisymm hle (le_of_isPrefix (List.prefix_append r t))
    rw [he] at ht
    exact (List.nodup_append.mp hn).right.right _ ht _ List.mem_cons_self rfl
  refine ⟨hg, fun h => hlt [] (by simpa using h), hlt, ?_⟩
  intro r₀ hp hne
  have hd : s.get (src ++ r₀) = some .dir := by
    apply Fs.get_of_isPrefix (q := src ++ r)
    case h  => exact (List.prefix_append_right_inj src).mpr hp
    case hn => simpa using hne
    case hq => simp [hg]
  have hb : r₀ ∈ s.below src := Fs.mem_below.mpr (by simp [hd])
  have hb : r₀ ∈ before.map Prod.fst := by
    rw [hm, List.mem_append, List.mem_cons] at hb
    obtain hb | rfl | hb := hb
    case inl     => exact hb
    case inr.inl => exact absurd rfl hne
    case inr.inr =>
      have hle := (List.pairwise_cons.mp hs.right.left).left _ hb
      exact absurd (le_antisymm (le_of_isPrefix hp) hle) hne
  exact ⟨hb, by rw [hc.nodes, if_pos hb, hd]; rfl⟩

namespace CopyOf

theorem passable (hc : CopyOf s src dst done s') (hp : s.Passable dst) (hr : Reached s' dst done r)
    (hn : s'.get (dst ++ r) = none ∨ s'.get (dst ++ r) = some .dir) : s'.Passable (dst ++ r) := by
  intro q hq
  rw [List.mem_inits] at hq
  by_cases hd : dst <+: q
  case pos =>
    have ⟨r₀, h₀⟩ := hd
    subst h₀
    have hq := (List.prefix_append_right_inj dst).mp hq
    by_cases he : r₀ = r
    case pos => exact he ▸ hn
    case neg => exact .inr (hr r₀ hq he).right
  case neg =>
    have hq : q <+: dst := by
      cases List.prefix_or_prefix_of_prefix hq (List.prefix_append dst r)
      case inl h => exact h
      case inr h => exact absurd h hd
    have hne : q ≠ dst := by
      rintro rfl
      exact hd (List.prefix_refl _)
    cases hc.above q hq hne
    case inl h => exact h ▸ hp q ((List.mem_inits _ _).mpr hq)
    case inr h => exact .inr h

-- The directories on the way have been made already.
theorem get_makeAll (hr : Reached s' dst done r) (r' : Path) :
    (s'.makeAll (dst ++ r)).get (dst ++ r') = if r' = r then some .dir else s'.get (dst ++ r') := by
  simp only [Fs.makeAll, List.prefix_append_right_inj]
  by_cases he : r' = r
  case pos => rw [if_pos he, if_pos (he ▸ List.prefix_refl _)]
  case neg =>
    rw [if_neg he]
    split
    case isTrue hp => exact (hr r' hp he).right.symm
    case isFalse   => rfl

theorem makeAll (hc : CopyOf s src dst done s') (r : Path) :
    (∀ q, q <+: dst → q ≠ dst → (s'.makeAll (dst ++ r)).get q = s.get q ∨
      (s'.makeAll (dst ++ r)).get q = some .dir) ∧
    ∀ q, Apart q dst → (s'.makeAll (dst ++ r)).get q = s.get q := by
  constructor
  case left =>
    intro q hq _
    exact .inr (if_pos (hq.trans (List.prefix_append _ _)))
  case right =>
    intro q hq
    have hn : ¬q <+: dst ++ r := (hq.symm.below r).right
    exact (if_neg hn).trans (hc.other q hq)

-- One more node.
theorem snoc (hc : CopyOf s src dst done s') (hg : s.get (src ++ r) = some n)
    {s₁ : Fs} (hn : ∀ r', s₁.get (dst ++ r') =
      if r' = r then some (copied n) else s'.get (dst ++ r'))
    (ha : ∀ q, q <+: dst → q ≠ dst → s₁.get q = s.get q ∨ s₁.get q = some .dir)
    (ho : ∀ q, Apart q dst → s₁.get q = s.get q) : CopyOf s src dst (done ++ [r]) s₁ where
  above := ha
  other := ho
  nodes := by
    intro r'
    rw [hn, hc.nodes]
    by_cases he : r' = r
    case pos => simp [he, hg]
    case neg => simp [he]

theorem copyNode (hc : CopyOf s src dst done s') (hs : s.get src = some .dir)
    (ha : Apart src dst) (hp : s.Passable dst) (hg : s.get (src ++ r) = some n)
    (hl : n ≠ .link none) (hd : ∀ t, r ++ t ∈ done → False) (hr : Reached s' dst done r) :
    (copyNode src dst (r, n)).wp (under disk D)
      (unlessDisturbed D (CopyOf s src dst (done ++ [r]))) s' := by
  have hn : s'.get (dst ++ r) = none := by
    rw [hc.nodes, if_neg fun h => hd [] (by simpa using h)]
  obtain ⟨hm, ho⟩ := hc.makeAll r
  cases hk : n.data?
  case none =>
    obtain rfl : n = .dir := by
      cases n
      case dir    => rfl
      case file   => cases hk
      case link d =>
        cases d
        case none => exact absurd rfl hl
        case some => cases hk
    have hx : exec (.mkdirAll (dst ++ r)) s' = (.ok (), s'.makeAll (dst ++ r)) :=
      if_pos <| hc.passable hp hr (.inl hn)
    exact wp_unless_last hx (hc.snoc hg (get_makeAll hr) hm ho)
  case some data =>
    have hne : n ≠ .dir := by
      rintro rfl
      cases hk
    have hr₀ : r ≠ [] := by
      rintro rfl
      rw [List.append_nil, hs] at hg
      exact hne (Option.some.inj hg).symm
    have hx : exec (.open (src ++ r)) s' = (.ok (), s') := by
      simp only [exec, hc.other _ (ha.below r), hg]
    have hc₁ : Agent.copyNode src dst (r, n) = (do
        send (.open (src ++ r))
        send (.mkdirAll (dst ++ r).dropLast)
        copyData (src ++ r) (dst ++ r)) := by
      cases n
      case dir  => cases hk
      case file => rfl
      case link => rfl
    rw [hc₁]
    apply wp_unless_step hx
    -- The directory of the file is there.
    rw [List.dropLast_append_of_ne_nil hr₀]
    have hlt : r.dropLast ≠ r := fun h => by
      have := congrArg List.length h
      have := List.length_pos_iff.mpr hr₀
      rw [List.length_dropLast] at *
      omega
    obtain ⟨_, hdir⟩ := hr _ (List.dropLast_prefix r) hlt
    have hrd : Reached s' dst done r.dropLast := by
      intro r₁ h₁ hne₁
      have hle := h₁.length_le
      refine hr r₁ (h₁.trans (List.dropLast_prefix r)) ?_
      rintro rfl
      rw [List.length_dropLast] at hle
      have := List.length_pos_iff.mpr hr₀
      omega
    have hx : exec (.mkdirAll (dst ++ r.dropLast)) s' = (.ok (), s'.makeAll (dst ++ r.dropLast)) :=
      if_pos <| hc.passable hp hrd (.inr hdir)
    apply wp_unless_step hx
    obtain ⟨hm, ho⟩ := hc.makeAll r.dropLast
    have hnodes : ∀ r', (s'.makeAll (dst ++ r.dropLast)).get (dst ++ r') = s'.get (dst ++ r') := by
      intro r'
      rw [get_makeAll hrd]
      split
      case isTrue h => rw [h, hdir]
      case isFalse  => rfl
    generalize s'.makeAll (dst ++ r.dropLast) = s₁ at hm ho hnodes
    have hn₁ : s₁.get (dst ++ r) = none := (hnodes r).trans hn
    have hroom : s₁.HasRoom (dst ++ r) := by
      refine ⟨by simp [hr₀], ?_⟩
      rw [List.dropLast_append_of_ne_nil hr₀, hnodes, hdir]
    have hx : exec (.create (dst ++ r) false) s₁ =
        (.ok (), s₁.put (dst ++ r) (.file []) hroom (.inr (.of_none hn₁))) := by
      simp only [exec, hn₁]
      exact dif_pos ⟨hroom, .of_none hn₁⟩
    apply wp_unless_step hx
    have hx : exec (.read (src ++ r)) (s₁.put (dst ++ r) (.file []) hroom (.inr (.of_none hn₁))) =
        (.ok data, s₁.put (dst ++ r) (.file []) hroom (.inr (.of_none hn₁))) := by
      have hne : src ++ r ≠ dst ++ r := fun he => ha.left (by
        cases List.prefix_or_prefix_of_prefix (List.prefix_append src r) (he ▸ List.prefix_append dst r)
        case inl h => exact h
        case inr h => exact absurd h ha.right)
      have hg : (s₁.put (dst ++ r) (.file []) hroom (.inr (.of_none hn₁))).get (src ++ r) = some n :=
        (if_neg hne).trans ((ho _ (ha.below r)).trans hg)
      simp only [exec, hg, Option.bind_some, hk]
    apply wp_unless_step hx
    apply wp_unless_bind (wp_writeAll (if_pos rfl))
    intro _ s₂ hw
    apply wp_unless_last (rfl : exec (.close (dst ++ r)) s₂ = (.ok (), s₂))
    have hcopied : copied n = .file data := by rw [copied, hk]
    have hput : ∀ q, s₂.get q = if q = dst ++ r then some (.file data) else s₁.get q := by
      intro q
      rw [hw q]
      split
      case isTrue       => rfl
      case isFalse hq => exact if_neg hq
    apply hc.snoc hg
    case hn =>
      intro r'
      rw [hput, hnodes, hcopied]
      simp
    case ha =>
      intro q hq hne
      rw [hput, if_neg fun he => hne (List.IsPrefix.eq_of_length_le hq (by simp [he]))]
      exact hm q hq hne
    case ho =>
      intro q hq
      have hne : q ≠ dst ++ r := fun he => hq.right (by simp [he])
      rw [hput, if_neg hne]
      exact ho q hq

end CopyOf

-- A copy is complete if nothing disturbs it and all links can be read.
theorem wp_copyDir (hs : s.get src = some .dir) (ha : Apart src dst) (hp : s.Passable dst)
    (hd : s.get dst = none) (hl : ∀ r, s.get (src ++ r) ≠ some (.link none)) :
    (copyDir src dst).wp (under disk D) (unlessDisturbed D (CopyOf s src dst (s.below src))) s := by
  have hx : exec (.lstat src) s = (.ok .dir, s) := by simp only [exec, hs]
  apply wp_unless_step hx
  apply wp_unless_step (rfl : exec (.walk src) s = (.ok (s.walk src), s))
  let I (after : List (Path × Node)) (s' : Fs) : Prop :=
    ∃ before, s.walk src = before ++ after ∧ CopyOf s src dst (before.map Prod.fst) s'
  have hi : (forEach (copyNode src dst) (s.walk src)).wp (under disk D)
      (unlessDisturbed D (I [])) s := by
    apply wp_unless_forEach (B := disk) (I := I)
    case hs =>
      refine ⟨[], rfl, ?_, fun _ _ _ => .inl rfl, fun _ _ => rfl⟩
      intro r
      cases hg : s.get (dst ++ r)
      case none => simp
      case some =>
        have := Fs.isSome_of_isPrefix (List.prefix_append dst r) (by rw [hg]; rfl)
        simp [hd] at this
    case h =>
      rintro ⟨r, n⟩ after s' ⟨before, hw, hc⟩
      obtain ⟨hg, _, hlt, hr⟩ := walk_split hw hc
      apply wp_mono (hc.copyNode hs ha hp hg (fun h => hl r (h ▸ hg)) hlt hr)
      intro res s₁ h
      cases res
      case error => exact h
      case ended => exact h
      case ok    =>
        have h : CopyOf s src dst (before.map Prod.fst ++ [r]) s₁ := h
        exact ⟨before ++ [(r, n)], by simp [hw], by simpa using h⟩
  apply wp_mono hi
  intro res s' h
  cases res
  case error => exact h
  case ended => exact h
  case ok    =>
    obtain ⟨before, hw, hc⟩ := h
    rw [List.append_nil] at hw
    rwa [← hw, Fs.map_walk] at hc

-- A copy cannot be finished where its directory cannot be made.
theorem wp_copyDir_blocked (hs : s.get src = some .dir) (hp : ¬s.Passable dst) :
    (copyDir src dst).wp (under disk D) (onOk fun _ => False) s := by
  have hx : exec (.lstat src) s = (.ok .dir, s) := by simp only [exec, hs]
  refine wp_step hx ?_ fun _ _ _ => ⟨trivial, trivial⟩
  refine wp_step (rfl : exec (.walk src) s = (.ok (s.walk src), s)) ?_ fun _ _ _ => ⟨trivial, trivial⟩
  have hm : ([], Node.dir) ∈ s.walk src := Fs.mem_walk.mpr (by rwa [List.append_nil])
  have hs := s.sorted_below (p := src)
  rw [← Fs.map_walk] at hs
  -- The walk begins with the directory itself.
  cases hw : s.walk src
  case nil          => simp [hw] at hm
  case cons e nodes =>
    obtain ⟨r, n⟩ := e
    rw [hw] at hm hs
    have hn : (r, n) = ([], .dir) := by
      cases List.mem_cons.mp hm
      case inl h => exact h.symm
      case inr h =>
        have hl := (List.pairwise_cons.mp hs).left [] (List.mem_map.mpr ⟨_, h, rfl⟩)
        have hr : r = [] := le_antisymm hl (le_of_isPrefix List.nil_prefix)
        have hg : s.get (src ++ r) = some n := Fs.mem_walk.mp (by simp [hw])
        simp_all
    have hx : exec (.mkdirAll (dst ++ [])) s = (.error (.other "not a directory"), s) := by
      rw [List.append_nil]
      exact if_neg hp
    rw [hn]
    exact wp_step_error hx trivial fun _ _ _ => ⟨trivial, trivial⟩

-- A copy that is finished is complete.
theorem wp_copyDir_onOk (hs : s.get src = some .dir) (ha : Apart src dst) (hd : s.get dst = none)
    (hl : ∀ r, s.get (src ++ r) ≠ some (.link none)) :
    (copyDir src dst).wp (under disk D) (onOk (CopyOf s src dst (s.below src))) s := by
  by_cases hp : s.Passable dst
  case pos => exact wp_unless_onOk (wp_copyDir hs ha hp hd hl)
  case neg =>
    apply wp_mono (wp_copyDir_blocked hs hp)
    intro res _ h
    cases res
    case ok    => exact h.elim
    case error => trivial
    case ended => trivial

-- The tree of a complete copy.
theorem CopyOf.tree (h : CopyOf s src dst (s.below src) s') (r : Path) :
    s'.get (dst ++ r) = (s.get (src ++ r)).map copied := by
  rw [h.nodes]
  split
  case isTrue     => rfl
  case isFalse hn =>
    rw [Fs.mem_below, Option.not_isSome_iff_eq_none] at hn
    rw [hn, Option.map_none]

end

-- Copying changes nothing apart from the destination.
theorem leaves_copyDir {src dst : Path} {Q : Path → Prop} (h : ∀ q, Q q → Apart q dst) :
    Leaves Q (copyDir src dst) := by
  have hm : ∀ r q, Q q → ¬q <+: dst ++ r := fun r q hq => ((h q hq).symm.below r).right
  have hn : ∀ r q, Q q → q ≠ dst ++ r := fun r q hq he => (h q hq).right (by simp [he])
  have hw : ∀ r, Leaves Q (copyData (src ++ r) (dst ++ r)) := fun r =>
    (Leaves.send (hn r)).bind fun _ => (Leaves.send fun _ _ => id).bind fun _ =>
      (Leaves.writeAll (hn r)).bind fun _ => .send fun _ _ => id
  have hc : ∀ n, Leaves Q (copyNode src dst n) := by
    intro (r, n)
    have hf : Leaves Q (do
        send (.open (src ++ r))
        send (.mkdirAll (dst ++ r).dropLast)
        copyData (src ++ r) (dst ++ r)) := by
      refine (Leaves.send fun _ _ => id).bind fun _ => (Leaves.send ?_).bind fun _ => hw r
      exact fun q hq he => hm r q hq (he.trans (List.dropLast_prefix _))
    match n with
    | .dir    => exact .send (hm r)
    | .file _ => exact hf
    | .link _ => exact hf
  exact (Leaves.send fun _ _ => id).bind fun _ => (Leaves.send fun _ _ => id).bind fun _ =>
    .forEach hc

end Agent
