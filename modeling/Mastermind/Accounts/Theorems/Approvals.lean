import Mastermind.Accounts.Theorems.Access

open Effects Prog Jobs Orgs

namespace Accounts

variable {deps : External} {s s' : Store} {c : Cmd} {row : User} {orgId : OrgId} {role : String}
  {es : List (Pool.Event Request World)} {p : Pool controlPlane Request (Option Auth.AccessToken)}

-- What has been the case at some time: administrators, members and verified emails.
structure History where
  admin    : UserId → OrgId → Prop
  member   : UserId → OrgId → Prop
  verified : UserId → Prop

-- Someone who has been an administrator of an organisation has approved an account that has been a
-- member of it, with a verified email.
def History.Approves (H : History) (approvedById : Option UserId) (id : UserId) : Prop :=
  ∃ userId orgId, approvedById = some userId ∧ H.admin userId orgId ∧ H.member id orgId ∧
    H.verified id

-- The state is part of the history.
structure Store.Within (H : History) (s : Store) : Prop where
  admin    : ∀ userId orgId, s.role? userId orgId = some "admin" → H.admin userId orgId
  member   : ∀ userId orgId role, s.role? userId orgId = some role → H.member userId orgId
  verified : ∀ (id : UserId) user, s.users[id]? = some user → user.emailVerifiedAt.isSome →
    H.verified id

-- How requests approve accounts, given what they have read.
def witnessed (H : History) : Environment controlPlane Unit where
  allows
    | _, .setApproval id (some _) approvedById _ => H.Approves approvedById id
    | _, .createUser row orgId _                 =>
      (∃ userId, row.approvedById = some userId ∧ H.admin userId orgId) ∧
        row.emailVerifiedAt.isSome
    | _, .register _ row _ _                     => row.approvedAt = none
    | _, _                                       => True
  answers
    | _, .findMember userId orgId, .ok (some role), _      => role = "admin" → H.admin userId orgId
    | _, .findAccount userId orgId, .ok (some account), _  =>
      H.member userId orgId ∧ (account.user.emailVerifiedAt.isSome → H.verified userId)
    | _, _, _, _                                           => True
  ends _ _ := False

section

variable {H : History} {α β : Type}

abbrev Witnesses (H : History) (prog : Service α) : Prop :=
  prog.wp (witnessed H) (fun _ _ => True) ()

-- A command that approves nothing.
def Cmd.Meek : Cmd → Prop
  | setApproval .. | createUser .. | register .. => False
  | _                                            => True

theorem witnesses_meek {prog : Service α} (h : prog.Only Cmd.Meek) : Witnesses H prog := by
  apply h.wp (I := fun _ => True)
  case ha => exact fun _ c hc _ => by cases c <;> trivial
  case hc => exact fun _ _ _ _ _ _ _ => trivial
  case hs => trivial

theorem Witnesses.bind {prog : Service α} {f : α → Service β} (h : Witnesses H prog)
    (hf : ∀ a, Witnesses H (f a)) : Witnesses H (prog >>= f) :=
  wp_bind_keeps (I := fun _ => True) h fun a _ _ => hf a

theorem Witnesses.send {c : Cmd} {f : c.Ans → Service α} (hc : (witnessed H).allows () c)
    (hf : ∀ a, (witnessed H).answers () c (.ok a) () → Witnesses H (f a)) :
    Witnesses H (send c >>= f) := by
  refine wp_bind.mpr <| wp_perform.mpr ⟨hc, fun r _ hr => ?_, False.elim⟩
  cases r
  case ok a  => exact hf a hr
  case error => trivial

theorem resolveRole_meek {name : String} : (resolveRole name).Only Cmd.Meek :=
  .bind (.perform trivial) fun _ => .ite .pure (.perform trivial)

theorem sendVerification_meek {userId : UserId} {orgId : OrgId} {email : String} :
    (sendVerification userId orgId email).Only Cmd.Meek :=
  .bind (.perform trivial) fun _ => .bind (.perform trivial) fun _ => .perform trivial

theorem jwtAuthGuard_meek {token : Auth.AccessToken} : (jwtAuthGuard token).Only Cmd.Meek := by
  refine .handle (.bind (.perform trivial) fun user => ?_) fun _ => .throw
  cases user
  case none => exact .throw
  case some => exact .ite .pure .throw

theorem witnesses_register {r : Registration} : Witnesses H (register deps r) := by
  refine .send trivial fun found _ => ?_
  split
  case isTrue  => trivial
  case isFalse =>
    refine .bind (witnesses_meek ?_) fun orgId => .bind (witnesses_meek resolveRole_meek) fun _ => ?_
    · refine .bind (.perform trivial) fun orgId => ?_
      cases orgId
      case none => exact .perform trivial
      case some => exact .pure
    · refine .send trivial fun _ _ => .send trivial fun _ _ => .send rfl fun _ _ => ?_
      exact witnesses_meek (.ite sendVerification_meek .pure)

-- A handler for administrators gets to know that its user is one.
theorem witnesses_asAdmin {token : Auth.AccessToken} {orgId : OrgId}
    {handler : UserId → Service Unit}
    (h : ∀ userId, H.admin userId orgId → Witnesses H (handler userId)) :
    Witnesses H (asAdmin token orgId handler) := by
  refine .bind (witnesses_meek jwtAuthGuard_meek) fun userId => ?_
  refine wp_bind_assoc.mp <| Witnesses.send trivial fun role hr => ?_
  cases role
  case none      => trivial
  case some role =>
    change Witnesses H (requireOrgRoleGuard ["admin"] role >>= fun _ => handler userId)
    rw [requireOrgRoleGuard]
    split
    case isFalse   => trivial
    case isTrue ha => exact h userId (hr (by simpa using ha))

theorem witnesses_createAccount {orgId : OrgId} {userId : UserId} {input : AccountInput}
    (h : H.admin userId orgId) : Witnesses H (createAccount deps orgId userId input) := by
  refine .send trivial fun found _ => ?_
  split
  case isTrue  => trivial
  case isFalse =>
    refine .bind (witnesses_meek resolveRole_meek) fun _ => .send trivial fun _ _ => ?_
    exact .send ⟨⟨userId, rfl, h⟩, rfl⟩ fun _ _ => trivial

theorem witnesses_setAccountApproval {orgId : OrgId} {accountId userId : UserId} {approved : Bool} :
    Witnesses H (setAccountApproval orgId accountId userId approved) := by
  rw [setAccountApproval]
  split
  case isTrue  => trivial
  case isFalse =>
    refine .send trivial fun actor ha => .send trivial fun target ht => ?_
    split
    case isTrue     => trivial
    case isFalse hn =>
      obtain rfl : actor = some "admin" := not_not.mp hn
      cases target
      case none        => trivial
      case some target =>
        simp only
        split
        case isTrue  => trivial
        case isFalse =>
          split
          case isTrue     => trivial
          case isFalse hv =>
            split
            case isTrue  => trivial
            case isFalse =>
              split
              case isTrue  => trivial
              case isFalse =>
                refine .send trivial fun approvedAt _ => ?_
                refine wp_perform.mpr ⟨?_, fun r _ _ => by cases r <;> trivial, False.elim⟩
                cases approved
                case false => trivial
                case true  =>
                  refine ⟨userId, orgId, rfl, ha rfl, ht.left, ht.right ?_⟩
                  exact Option.isSome_iff_ne_none.mpr fun he => hv ⟨rfl, he⟩

theorem witnesses_serve (q : Request) : Witnesses H (q.serve deps) := by
  cases q
  case login c =>
    refine .bind (witnesses_meek ?_) fun _ => trivial
    exact .translate (fun _ _ => trivial) (Only.always (p := Auth.login deps.toExternal c))
  case register r => exact .bind witnesses_register fun _ => trivial
  case verifyEmail userId orgId =>
    refine .bind (witnesses_meek (.bind (.perform trivial) fun account => ?_)) fun _ => trivial
    cases account
    case none => exact .throw
    case some => exact .ite .throw (.bind (.perform trivial) fun _ => .perform trivial)
  case resendVerification email =>
    refine .bind (witnesses_meek (.bind (.perform trivial) fun found => ?_)) fun _ => trivial
    split
    case h_2 => exact .pure
    case h_1 =>
      refine .ite .pure <| .bind (.perform trivial) fun _ => .ite .pure ?_
      exact .bind (.perform trivial) fun _ => .ite sendVerification_meek .pure
  case changePassword token currentPassword newPassword salt =>
    refine .bind (witnesses_meek jwtAuthGuard_meek) fun userId => ?_
    refine .bind (witnesses_meek (.bind (.perform trivial) fun user => ?_)) fun _ => trivial
    split
    case h_1 => exact .throw
    case h_2 => exact .ite .throw (.ite .throw (.perform trivial))
  case createOrg token name slug =>
    refine .bind (witnesses_meek jwtAuthGuard_meek) fun userId => ?_
    refine .bind (witnesses_meek (.bind (.perform trivial) fun _ => .ite .throw ?_)) fun _ => trivial
    exact .bind resolveRole_meek fun _ => .bind (.perform trivial) fun _ => .pure
  case createAccount token orgId input =>
    exact .bind (witnesses_asAdmin fun _ h => witnesses_createAccount h) fun _ => trivial
  case setAccountApproval token orgId accountId approved =>
    exact .bind (witnesses_asAdmin fun _ _ => witnesses_setAccountApproval) fun _ => trivial
  case deleteAccount token orgId accountId =>
    refine .bind (witnesses_asAdmin fun userId _ => witnesses_meek ?_) fun _ => trivial
    refine .ite .throw (.bind (.perform trivial) fun account => ?_)
    cases account
    case none => exact .throw
    case some =>
      refine .ite (.bind (.perform trivial) fun _ => .bind ?_ fun _ => .ite .throw ?_) ?_
      · exact .ite (.perform trivial) .pure
      · exact .perform trivial
      · exact .perform trivial
  case resetAccountPassword token orgId accountId newPassword salt =>
    refine .bind (witnesses_asAdmin fun userId _ => witnesses_meek ?_) fun _ => trivial
    refine .ite .throw (.bind (.perform trivial) fun actor => .bind (.perform trivial) fun target => ?_)
    refine .ite .throw ?_
    cases target
    case none => exact .throw
    case some => exact .ite .throw (.perform trivial)

-- An account is not approved, has been approved from the start or has been approved by someone.
def Approvals (H : History) (s₀ s : Store) : Prop :=
  ∀ (id : UserId) user, s.users[id]? = some user → user.approvedAt.isSome →
    (∃ user₀, s₀.users[id]? = some user₀ ∧ user.approvedAt = user₀.approvedAt ∧
      user.approvedById = user₀.approvedById) ∨ H.Approves user.approvedById id

-- What an edit does to the approval of an account.
theorem edit_approval {id : UserId} {f : User → User} (user : User) (h : c.edit? = some (id, f)) :
    ((f user).approvedAt = user.approvedAt ∧ (f user).approvedById = user.approvedById) ∨
    (f user).approvedAt = none ∨
    ∃ approvedAt approvedById audit, c = .setApproval id (some approvedAt) approvedById audit ∧
      (f user).approvedById = approvedById := by
  cases c
  case deleteMembership =>
    simp only [Cmd.edit?, Option.ite_none_right_eq_some, Option.some.injEq, Prod.mk.injEq] at h
    obtain ⟨-, -, rfl⟩ := h
    exact .inr (.inl rfl)
  case setApproval id approvedAt approvedById audit =>
    cases h
    cases approvedAt
    case none => exact .inr (.inl rfl)
    case some => exact .inr (.inr ⟨_, _, _, rfl, rfl⟩)
  all_goals cases h <;> exact .inl ⟨rfl, rfl⟩

theorem role_of_mem {id : UserId} (h : { userId := id, orgId, role } ∈ s.userOrgs.rows) :
    ∃ role', s.role? id orgId = some role' := by
  have hs : (s.userOrgs.rows.find? (·.key = (id, orgId))).isSome :=
    List.find?_isSome.mpr ⟨_, h, by simp [Orgs.UserOrg.key]⟩
  obtain ⟨m, hf⟩ := Option.isSome_iff_exists.mp hs
  exact ⟨m.role, by simp [Store.role?, UserOrgs.find?, hf]⟩

theorem exec_approvals {s₀ : Store} (h : Approvals H s₀ s) (ha : (witnessed H).allows () c)
    (hw : (exec c s).2.Within H) : Approvals H s₀ (exec c s).2 := by
  intro id user hu hs
  obtain he | ⟨id', f, hf, he⟩ | ⟨row, hr, he⟩ := exec_users c s
  case inl => exact h id user (he ▸ hu) hs
  case inr.inl =>
    rw [he, List.getElem?_modify] at hu
    obtain ⟨user, hu', rfl⟩ := Option.map_eq_some_iff.mp hu
    by_cases hi : id' = id
    case neg =>
      simp only [hi, if_false] at hs ⊢
      exact h id user hu' hs
    case pos =>
      subst hi
      simp only [if_true] at hs ⊢
      obtain ⟨hat, hby⟩ | hn | ⟨approvedAt, approvedById, audit, rfl, hby⟩ :=
        edit_approval user hf
      case inl        => rw [hat, hby]; exact h id' user hu' (hat ▸ hs)
      case inr.inl    => simp [hn] at hs
      case inr.inr    => exact .inr (hby ▸ ha)
  case inr.inr =>
    have hv := hw.verified id user hu
    rw [he, List.getElem?_append] at hu
    split at hu
    case isTrue    => exact h id user hu hs
    case isFalse hl =>
      obtain ⟨hi, rfl⟩ : id = s.users.length ∧ row = user := by
        rw [List.getElem?_singleton] at hu
        split at hu
        case isTrue hz =>
          have hle : id ≤ s.users.length := Nat.sub_eq_zero_iff_le.mp hz
          exact ⟨Nat.le_antisymm hle (Nat.le_of_not_lt hl), Option.some.inj hu⟩
        case isFalse   => cases hu
      subst hi
      cases c
      case register =>
        cases hr
        simp [show _ = none from ha] at hs
      case createUser row orgId role =>
        cases hr
        obtain ⟨⟨userId, hby, hadmin⟩, hverified⟩ := ha
        refine .inr ⟨userId, orgId, hby, hadmin, ?_, hv hverified⟩
        obtain hc | ⟨t, hc, ht⟩ := exec_createUser row orgId role s
        case inl => simpa [hc] using congrArg List.length he
        case inr =>
          have hm : { userId := s.users.length, orgId, role } ∈
              (exec (.createUser row orgId role) s).2.userOrgs.rows := by simp [hc, ht]
          obtain ⟨role', hrole⟩ := role_of_mem hm
          exact hw.member _ _ role' hrole
      all_goals cases hr

theorem next_approvals {s₀ : Store} {e : Pool.Event Request World}
    (h : p.Abides (witnessed H) (Approvals H s₀)) (hp : p.state.Within H)
    (hn : ((interleaved deps).next p e).state.Within H) :
    ((interleaved deps).next p e).Abides (witnessed H) (Approvals H s₀) := by
  cases e
  case start q => exact h.start (witnesses_serve q)
  case world w =>
    refine h.world ?_
    cases w <;> exact h.state
  case fail i =>
    refine h.fail fun c _ => ?_
    cases c <;> trivial
  case serve i =>
    change (p.serve i).Abides _ _
    change (p.serve i).state.Within H at hn
    obtain hs | ⟨q, c, k, hi, hs⟩ := p.serve_cases i <;> rw [hs] at hn ⊢
    case inl => exact h
    case inr =>
      have ha := (h.threads _ (List.mem_of_getElem? hi)).1
      refine h.set hi ?_ (exec_approvals h.state ha hn)
      cases c
      case findMember userId orgId =>
        let r := p.state.role? userId orgId
        change (witnessed H).answers () (.findMember userId orgId) (.ok r) ()
        cases hr : r
        case none => trivial
        case some => rintro rfl; exact hp.admin _ _ hr
      case findAccount userId orgId =>
        let r := p.state.account? userId orgId
        change (witnessed H).answers () (.findAccount userId orgId) (.ok r) ()
        cases hr : r
        case none => trivial
        case some account =>
          simp only [r, Store.account?, Option.bind_eq_bind, Option.bind_eq_some_iff,
            Option.pure_def, Option.some.injEq] at hr
          obtain ⟨role, hrole, user, hu, rfl⟩ := hr
          exact ⟨hp.member _ _ role hrole, hp.verified _ user hu⟩
      all_goals trivial

end

-- Something has been the case at some time of a run.
def Ever (deps : External) (s : Store) (es : List (Pool.Event Request World)) (P : Store → Prop) :
    Prop :=
  ∃ es₁ es₂, es = es₁ ++ es₂ ∧ P ((interleaved deps).run (Pool.idle s) es₁).state

-- An account that is approved has been approved from the start, or it has a verified email and has
-- been approved by someone who was an administrator of an organisation that it was a member of.
theorem approved_by_admin {s : Store} {id : UserId} {user : User}
    (hu : ((interleaved deps).run (Pool.idle s) es).state.users[id]? = some user)
    (ha : user.approvedAt.isSome) :
    (∃ user₀, s.users[id]? = some user₀ ∧ user.approvedAt = user₀.approvedAt ∧
      user.approvedById = user₀.approvedById) ∨
    (user.emailVerifiedAt.isSome ∧
      ∃ userId orgId, user.approvedById = some userId ∧
        Ever deps s es (fun s => s.role? userId orgId = some "admin") ∧
        Ever deps s es fun s => (s.role? id orgId).isSome) := by
  let H : History := {
    admin    := fun userId orgId => Ever deps s es fun s => s.role? userId orgId = some "admin"
    member   := fun userId orgId => Ever deps s es fun s => (s.role? userId orgId).isSome
    verified := fun id => Ever deps s es fun s =>
      s.users[id]?.any (·.emailVerifiedAt.isSome) }
  have hw (es₁ es₂) (he : es = es₁ ++ es₂) :
      ((interleaved deps).run (Pool.idle s) es₁).state.Within H := by
    constructor
    case admin    => exact fun userId orgId hr => ⟨es₁, es₂, he, hr⟩
    case member   => exact fun userId orgId role hr => ⟨es₁, es₂, he, by simp [hr]⟩
    case verified => exact fun id user hu hv => ⟨es₁, es₂, he, by simp [hu, hv]⟩
  have hm : (interleaved deps).Meets
      (fun p e => p.state.Within H ∧ ((interleaved deps).next p e).state.Within H)
      (Pool.idle s) es := by
    refine System.meets_of_split fun es₁ e es₂ he => ⟨hw es₁ (e :: es₂) he, ?_⟩
    have := hw (es₁ ++ [e]) es₂ (by simp [he])
    rwa [System.run_append] at this
  have h : ((interleaved deps).run (Pool.idle s) es).Abides (witnessed H) (Approvals H s) :=
    System.invariant (fun _ _ h hc => next_approvals h hc.left hc.right)
      (Pool.Abides.idle fun _ user₀ hu _ => .inl ⟨user₀, hu, rfl, rfl⟩) hm
  obtain h | ⟨userId, orgId, hby, hadmin, hmember, hverified⟩ := h.state id user hu ha
  case inl => exact .inl h
  case inr =>
    refine .inr ⟨?_, userId, orgId, hby, hadmin, hmember⟩
    obtain ⟨es₁, es₂, rfl, hv⟩ := hverified
    obtain ⟨user₁, hu₁, hv⟩ := (Option.any_eq_true _ _).mp hv
    obtain ⟨user₂, hu₂, hs⟩ :=
      Store.Keeps.run deps ((interleaved deps).run (Pool.idle s) es₁) es₂ id user₁ hu₁
    rw [System.run_append] at hu
    cases hu.symm.trans hu₂
    exact hs.verified hv

theorem approved_by_admin_admitted :
    ∃ userId orgId, some 0 = some userId ∧
      Ever .open .founded (signedIn ++ admitted) (fun s => s.role? userId orgId = some "admin") ∧
      Ever .open .founded (signedIn ++ admitted) fun s => (s.role? 1 orgId).isSome := by
  let user : User := {
    email := "new@example.org", passwordHash := some "new secret", emailVerifiedAt := some 0
    approvedAt := some 0, approvedById := some 0, authVersion := 2
    registeredFrom := some ⟨"registration-ip-lifetime", "203.0.113.8"⟩ }
  have hu : ((interleaved .open).run (Pool.idle .founded) (signedIn ++ admitted)).state.users[1]? =
      some user := by
    decide +kernel
  obtain ⟨_, hn, -⟩ | h := approved_by_admin hu rfl
  case inl => cases hn
  case inr => exact h.right

end Accounts
