import Mathlib.Data.List.Nodup
import Mastermind.Orgs.Service

open Effects Jobs

namespace Orgs

-- How far a call has got: it has read the membership that it is about to delete, and it may have found
-- that the organisation has other administrators.
inductive Stage
  | idle
  | found   (userId : UserId) (orgId : OrgId) (membership : Membership)
  | cleared (userId : UserId) (orgId : OrgId) (membership : Membership)

-- Administrators are only deleted after the administrators have been counted.
def protocol : Prog.Environment controlPlane Stage where
  allows
    | .idle, c           => ∃ userId orgId, c = .findMembership userId orgId
    | .found u o m, c    =>
      c = .findRole "admin" ∨ c = .countAdmins o ∨ (c = .deleteMembership u o m ∧ m.role ≠ "admin")
    | .cleared u o m, c  => c = .deleteMembership u o m
  answers
    | _, .findMembership u o, .ok (some m), m'    => m' = .found u o m
    | m, .findRole _, .ok _, m'                   => m' = m
    | .found u o m, .countAdmins _, .ok n, m'     => m' = if n ≤ 1 then .idle else .cleared u o m
    | _, _, _, m'                                 => m' = .idle
  ends _ _ := False

def Stage.Open : Stage → Prop
  | cleared .. => False
  | _          => True

variable {α : Type} {userId : UserId} {orgId : OrgId} {membership : Membership} {m : Stage}

-- A call does not stop between the count of the administrators and the deletion.
def Stops : Result Exception α → Stage → Prop :=
  fun _ m => m.Open

theorem wp_send {c : Cmd} {f : c.Ans → Service α} (ha : protocol.allows m c)
    (hf : ∀ a m', protocol.answers m c (.ok a) m' → (f a).wp protocol Stops m')
    (he : ∀ e m', protocol.answers m c (.error e) m' → m'.Open) :
    (send c >>= f).wp protocol Stops m := by
  refine ⟨ha, fun r m' hr => ?_, False.elim⟩
  cases r
  case ok a    => exact hf a m' hr
  case error e => exact he e m' hr

theorem wp_removeMember (h : protocol.allows m (.deleteMembership userId orgId membership)) :
    (removeMember orgId userId membership).wp protocol Stops m := by
  refine wp_send h (fun _ m' hm => ?_) fun _ m' hm => ?_
  all_goals cases m <;> cases hm <;> trivial

theorem wp_deleteAccount {actingUserId : UserId} :
    (deleteAccount orgId userId actingUserId).wp protocol Stops .idle := by
  rw [deleteAccount]
  split
  case isTrue  => trivial
  case isFalse =>
    refine wp_send ⟨_, _, rfl⟩ (fun found m hm => ?_) fun _ _ hm => hm ▸ trivial
    cases found
    case none => exact hm ▸ trivial
    case some membership =>
      obtain rfl : m = .found userId orgId membership := hm
      simp only
      split
      case isFalse hn => exact wp_removeMember (.inr <| .inr ⟨rfl, hn⟩)
      case isTrue  =>
        refine wp_send (.inl rfl) (fun adminRole m hm => ?_) fun _ _ hm => hm ▸ trivial
        obtain rfl : m = .found userId orgId membership := hm
        cases adminRole
        case false => trivial
        case true  =>
          refine wp_send (.inr <| .inl rfl) (fun n m hm => ?_) fun _ _ hm => hm ▸ trivial
          obtain rfl : m = if n ≤ 1 then .idle else .cleared userId orgId membership := hm
          split
          case isTrue  => trivial
          case isFalse => exact wp_removeMember rfl

abbrev Requests :=
  Pool controlPlane Request (String × Bool)

-- The membership that a call has read has not got another role.
def Holds : Stage → Store → Prop
  | .idle, _ => True
  | .found u o m, s | .cleared u o m, s =>
    ∀ row ∈ s.userOrgs.rows, row.key = (u, o) → row.role = m.role

abbrev Protocol (p : Requests) : Prop :=
  p.Follows (fun _ => protocol) (fun _ => Holds) fun _ => Stops

-- The deletion of an administrator.
def removesAdmin (orgId : OrgId) : Cmd → Bool
  | .deleteMembership _ o m => o = orgId && m.role = "admin"
  | _                       => false

def Stage.removesAdmin (orgId : OrgId) : Stage → Bool
  | cleared _ o m => o = orgId && m.role = "admin"
  | _             => false

variable {prog : Service (String × Bool)} {s : Store} {c : Cmd} {p : Requests} {q : Request} {i : Nat}

-- A call is about to delete an administrator when it has counted the administrators.
theorem removesAdmin_next (h : prog.wp protocol Stops m) :
    prog.next?.any (removesAdmin orgId) = m.removesAdmin orgId := by
  cases prog
  case ret   => cases m <;> first | rfl | exact False.elim h
  case throw => cases m <;> first | rfl | exact False.elim h
  case call c k =>
    have ha := h.left
    cases m
    case idle    => obtain ⟨_, _, rfl⟩ := ha; rfl
    case cleared => cases ha; rfl
    case found   =>
      obtain rfl | rfl | ⟨rfl, hn⟩ := ha
      case inl     => rfl
      case inr.inl => rfl
      case inr.inr => simp [Prog.next?, removesAdmin, Stage.removesAdmin, hn]

-- When the administrators are counted, the call is either refused, or there are at least two more
-- administrators than calls that are about to delete one.
def Spares (p : Requests) : Pool.Event Request Empty → Prop
  | .serve i =>
    match p.next? i with
    | some (_, .countAdmins orgId) =>
      p.state.adminCount orgId ≤ 1 ∨ p.pending (removesAdmin orgId) + 2 ≤ p.state.adminCount orgId
    | _ => True
  | _ => True

instance {e : Pool.Event Request Empty} : Decidable (Spares p e) := by
  unfold Spares
  split
  case h_1 => split <;> infer_instance
  case h_2 => infer_instance

section

variable {rows : List UserOrg} {f : UserOrg → Bool} {k : UserId × OrgId}

theorem countP_delete_eq (h : ∀ row ∈ rows, row.key = k → f row = false) :
    (rows.filter (·.key ≠ k)).countP f = rows.countP f := by
  rw [List.countP_filter]
  refine List.countP_congr fun row hm => ?_
  by_cases hk : row.key = k
  case pos => simp [hk, h row hm hk]
  case neg => simp [hk]

theorem countP_delete_le (h : (rows.map UserOrg.key).Nodup) :
    rows.countP f ≤ (rows.filter (·.key ≠ k)).countP f + 1 := by
  induction rows
  case nil => exact Nat.zero_le _
  case cons row rows hi =>
    have ⟨hm, hn⟩ := List.nodup_cons.mp h
    by_cases hk : row.key = k
    case neg =>
      have := hi hn
      simp only [ne_eq, hk, not_false_eq_true, decide_true, List.filter_cons_of_pos, List.countP_cons]
      simp only [ne_eq] at this
      omega
    case pos =>
      have hrest : ∀ row' ∈ rows, row'.key ≠ k := fun row' hm' he =>
        hm <| List.mem_map.mpr ⟨row', hm', he.trans hk.symm⟩
      have hf : rows.filter (·.key ≠ k) = rows := List.filter_eq_self.mpr (by simpa using hrest)
      rw [List.filter_cons_of_neg (by simp [hk]), hf, List.countP_cons]
      split <;> omega

end

-- Deleting a membership takes away one administrator at most.
theorem adminCount_delete (hm : Holds (.cleared userId orgId membership) s) (o : OrgId) :
    s.adminCount o ≤
      (exec (.deleteMembership userId orgId membership) s).2.adminCount o +
      ((Stage.cleared userId orgId membership).removesAdmin o).toNat := by
  simp only [exec]
  split
  case isFalse => exact Nat.le_add_right _ _
  case isTrue  =>
    simp only [Store.adminCount, UserOrgs.delete]
    cases hr : (Stage.cleared userId orgId membership).removesAdmin o
    case true  => exact countP_delete_le s.userOrgs.unique
    case false =>
      refine (countP_delete_eq fun row hrow hk => ?_).ge.trans (Nat.le_add_right _ _)
      have hrole := hm row hrow hk
      have ho : row.orgId = orgId := congrArg Prod.snd hk
      simpa [Stage.removesAdmin, ho, hrole] using hr

theorem Holds.exec (h : Holds m s) : Holds m (Orgs.exec c s).2 := by
  have hs : (Orgs.exec c s).2.userOrgs.rows ⊆ s.userOrgs.rows := by
    cases c <;> try exact fun _ hm => hm
    case deleteMembership =>
      simp only [Orgs.exec]
      split
      case isTrue  => exact List.filter_subset_self _
      case isFalse => exact fun _ hm => hm
  cases m
  case idle    => trivial
  case found   => exact fun row hm => h row (hs hm)
  case cleared => exact fun row hm => h row (hs hm)

theorem holds_found (h : s.membership? userId orgId = some membership) :
    Holds (.found userId orgId membership) s := by
  simp only [Store.membership?, Option.bind_eq_bind, Option.bind_eq_some_iff] at h
  obtain ⟨row, hf, user, _, he⟩ := h
  obtain rfl := Option.some.inj he
  intro row' hm' hk'
  have hk : row.key = (userId, orgId) := by simpa using List.find?_some hf
  have hm : row ∈ s.userOrgs.rows := List.mem_of_find?_eq_some hf
  have he := List.inj_on_of_nodup_map s.userOrgs.unique hm' hm (hk'.trans hk.symm)
  exact congrArg UserOrg.role he

-- What an allowed command does to an organisation in which `a` other calls are about to delete an
-- administrator.
theorem own_step (hm : Holds m s) (ha : protocol.allows m c) :
    ∃ m', protocol.answers m c (exec c s).1 m' ∧ Holds m' (exec c s).2 ∧
      ∀ orgId a, (c = .countAdmins orgId → s.adminCount orgId ≤ 1 ∨ a + 2 ≤ s.adminCount orgId) →
        a + (m.removesAdmin orgId).toNat + 1 ≤ s.adminCount orgId →
        a + (m'.removesAdmin orgId).toNat + 1 ≤ (exec c s).2.adminCount orgId := by
  cases m
  case idle =>
    obtain ⟨u, o, rfl⟩ := ha
    cases hf : s.membership? u o <;> simp only [exec, hf]
    case none   => exact ⟨.idle, rfl, trivial, fun _ _ _ h => h⟩
    case some m =>
      exact ⟨.found u o m, rfl, holds_found hf, fun _ _ _ h => h⟩
  case found u o m =>
    obtain rfl | rfl | ⟨rfl, hn⟩ := ha
    case inl     => exact ⟨.found u o m, rfl, hm, fun _ _ _ h => h⟩
    case inr.inl =>
      refine ⟨if s.adminCount o ≤ 1 then .idle else .cleared u o m, rfl, ?_, fun orgId a hc h => ?_⟩
      case refine_1 =>
        split
        case isTrue  => trivial
        case isFalse => exact hm
      case refine_2 =>
        simp only [exec]
        split
        case isTrue  => exact h
        case isFalse hle =>
          by_cases ho : o = orgId
          case neg => simpa [Stage.removesAdmin, ho] using h
          case pos =>
            subst ho
            have := hc rfl
            have := Bool.toNat_le ((Stage.cleared u o m).removesAdmin o)
            omega
    case inr.inr =>
      refine ⟨.idle, ?_, trivial, fun orgId a _ h => ?_⟩
      case refine_1 =>
        simp only [exec]
        split <;> rfl
      case refine_2 =>
        have hd := adminCount_delete hm orgId
        have hz : (Stage.cleared u o m).removesAdmin orgId = false := by
          simp [Stage.removesAdmin, hn]
        rw [hz] at hd
        exact h.trans hd
  case cleared u o m =>
    obtain rfl : c = .deleteMembership u o m := ha
    refine ⟨.idle, ?_, trivial, fun orgId a _ h => ?_⟩
    case refine_1 =>
      simp only [exec]
      split <;> rfl
    case refine_2 =>
      have hd := adminCount_delete hm orgId
      simp only [Stage.removesAdmin, Bool.toNat_false] at h hd ⊢
      omega

-- An organisation has more administrators than calls that are about to delete one.
structure Safe (orgId : OrgId) (p : Requests) : Prop where
  calls  : Protocol p
  spared : p.pending (removesAdmin orgId) + 1 ≤ p.state.adminCount orgId

theorem Safe.start (h : Safe orgId p) : Safe orgId (p.start Request.serve q) where
  calls  := h.calls.start (m := .idle) trivial wp_deleteAccount
  spared := by
    have hw : (Request.serve q).wp protocol Stops .idle := wp_deleteAccount
    rw [Pool.pending_start, removesAdmin_next hw]
    exact h.spared

theorem Safe.fail (h : Safe orgId p) : Safe orgId (p.fail i) := by
  have hans : ∀ m c, protocol.answers m c (.error .storage) .idle := by
    intro m c
    cases m <;> cases c <;> rfl
  constructor
  case calls => exact h.calls.fail fun _ c m _ _ _ => ⟨.idle, hans m c, trivial⟩
  case spared =>
    obtain hs | ⟨q, c, k, hi, hs⟩ := p.fail_cases i <;> rw [hs]
    case inl => exact h.spared
    case inr =>
      have ⟨m, _, hw⟩ := h.calls i _ _ hi
      have ⟨a, ha, ha'⟩ := Pool.pending_others (removesAdmin orgId) hi
      rw [ha', removesAdmin_next (hw.right.left _ _ (hans m c))]
      exact (Nat.succ_le_succ (ha ▸ Nat.le_add_right _ _)).trans h.spared

theorem Safe.serve (h : Safe orgId p) (hc : Spares p (.serve i)) : Safe orgId (p.serve i) := by
  constructor
  case calls =>
    apply h.calls.serve
    constructor
    case other => exact fun q c m _ _ _ j q' prog m' _ hm' _ => hm'.exec
    case own   =>
      intro q c m _ hm ha
      have ⟨m', hr, hm', _⟩ := own_step hm ha
      exact ⟨m', hr, hm'⟩
  case spared =>
    obtain hs | ⟨q, c, k, hi, hs⟩ := p.serve_cases i <;> rw [hs]
    case inl => exact h.spared
    case inr =>
      have ⟨m, hm, hw⟩ := h.calls i _ _ hi
      have ⟨m', hr, _, hstep⟩ := own_step hm hw.left
      have ⟨a, ha, ha'⟩ := Pool.pending_others (removesAdmin orgId) hi
      have hn : removesAdmin orgId c = m.removesAdmin orgId := removesAdmin_next hw
      rw [ha', removesAdmin_next (hw.right.left _ _ hr)]
      refine hstep orgId a ?_ (hn ▸ ha ▸ h.spared)
      rintro rfl
      simpa [Spares, Pool.next?_eq_some.mpr ⟨k, hi⟩, ha, removesAdmin] using hc

theorem Safe.next {e : Pool.Event Request Empty} (h : Safe orgId p) (hc : Spares p e) :
    Safe orgId (interleaved.next p e) := by
  cases e
  case start q => exact h.start
  case serve i => exact h.serve hc
  case fail i  => exact h.fail
  case world e => exact e.elim

-- An organisation that has an administrator keeps one in every run whose calls are cleared in this
-- way.
theorem admin_remains {es : List (Pool.Event Request Empty)} (ha : 0 < s.adminCount orgId)
    (hm : interleaved.Meets Spares (Pool.idle s) es) :
    0 < (interleaved.run (Pool.idle s) es).state.adminCount orgId := by
  have h : Safe orgId (Pool.idle s) := ⟨.idle, ha⟩
  have hs : Safe orgId (interleaved.run (Pool.idle s) es) :=
    System.invariant (fun _ _ => Safe.next) h hm
  exact Nat.lt_of_lt_of_le (Nat.succ_pos _) hs.spared

-- An organisation with two administrators.
def Store.pairOfAdmins : Store where
  roles    := ["admin", "operator", "viewer"]
  users    := [⟨"a@example.org", none, some 0, none, 1⟩, ⟨"b@example.org", none, some 0, some 0, 1⟩]
  userOrgs := ⟨[⟨0, 0, "admin"⟩, ⟨1, 0, "admin"⟩], by decide⟩

-- One administrator deletes the other, who has no time to do the same.
def oneDeletes : List (Pool.Event Request Empty) :=
  [.start ⟨0, 1, 0⟩, .serve 0, .serve 0, .serve 0, .serve 0, .start ⟨0, 0, 1⟩, .serve 1, .serve 1,
   .serve 1, .serve 1]

theorem admin_remains_oneDeletes :
    0 < (interleaved.run (Pool.idle .pairOfAdmins) oneDeletes).state.adminCount 0 :=
  admin_remains (by decide) (by decide +kernel)

-- Two administrators delete each other at the same time.
theorem admins_lost_bothDelete :
    (0 < Store.pairOfAdmins.adminCount 0) ∧
    (interleaved.run (Pool.idle .pairOfAdmins) [.start ⟨0, 1, 0⟩, .start ⟨0, 0, 1⟩, .serve 0, .serve 1,
      .serve 0, .serve 1, .serve 0, .serve 1, .serve 0, .serve 1]).state.adminCount 0 = 0 := by
  decide +kernel

end Orgs
