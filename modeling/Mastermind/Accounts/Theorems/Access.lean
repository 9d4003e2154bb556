import Mastermind.Accounts.Service

open Effects Prog Jobs Orgs

namespace Accounts

-- The change that a command makes to an account.
def Cmd.edit? : Cmd → Option (UserId × (User → User))
  | setPassword id passwordHash                  => some (id, .setPassword passwordHash)
  | resetPassword id passwordHash _              => some (id, .setPassword passwordHash)
  | setApproval id approvedAt approvedById _     => some (id, .setApproval approvedAt approvedById)
  | deleteMembership id _ account                =>
    if account.orgsCount = 1 then some (id, .disable) else none
  | verifyEmail id emailVerifiedAt               =>
    some (id, fun user => { user with emailVerifiedAt := some emailVerifiedAt })
  | verificationSent id emailVerificationSentAt  =>
    some (id, fun user => { user with emailVerificationSentAt := some emailVerificationSentAt })
  | _                                            => none

-- The account that a command creates.
def Cmd.row? : Cmd → Option User
  | register _ row _ _ => some row
  | createUser row _ _ => some row
  | _                  => none

-- What requests create accounts with: no administrators, and registrations are those that are counted.
def Cmd.Enrols : Cmd → Prop
  | register ipHash row _ role => row.registeredFrom = some ipHash ∧ role ≠ "admin"
  | createUser row _ role      => row.registeredFrom = none ∧ role ≠ "admin"
  | _                          => True

variable {s s' : Store} {c : Cmd} {row : User} {orgId : OrgId} {role : String}

theorem rows_addMember {m : Orgs.UserOrg} {t t' : UserOrgs} (h : addMember? t m = some t') :
    t'.rows = t.rows ++ [m] := by
  unfold addMember? at h
  split at h
  case isTrue  => cases h
  case isFalse => cases h; rfl

theorem createUser_eq (h : s.createUser? row orgId role = some s') :
    ∃ t, s' = { s with users := s.users ++ [row], userOrgs := t } ∧
      t.rows = s.userOrgs.rows ++ [{ userId := s.users.length, orgId, role }] := by
  unfold Store.createUser? at h
  split at h
  case isTrue  => cases h
  case isFalse =>
    obtain ⟨t, ht, rfl⟩ := Option.map_eq_some_iff.mp h
    exact ⟨t, rfl, rows_addMember ht⟩

theorem createOrg_eq {org : Org} {founder : Option UserId}
    (h : s.createOrg? org founder = some s') :
    ∃ t, s' = { s with orgs := s.orgs ++ [org], userOrgs := t } ∧
      ((t.rows = s.userOrgs.rows) ∨
        ∃ m, t.rows = s.userOrgs.rows ++ [m] ∧ m.orgId = s.orgs.length) := by
  unfold Store.createOrg? at h
  split at h
  case isTrue  => cases h
  case isFalse =>
    cases founder
    case none => cases h; exact ⟨_, rfl, .inl rfl⟩
    case some =>
      simp only at h
      split at h
      case isTrue  => cases h
      case isFalse =>
        obtain ⟨t, ht, rfl⟩ := Option.map_eq_some_iff.mp h
        exact ⟨t, rfl, .inr ⟨_, rows_addMember ht, rfl⟩⟩

-- A registration creates an account with its membership and counts it, if it does anything.
theorem exec_register (ipHash : Auth.Key) (row : User) (orgId : OrgId) (role : String) (s : Store) :
    ((exec (.register ipHash row orgId role) s).2 = s) ∨
    (s.quotas ipHash < 2 ∧ ∃ t,
      (exec (.register ipHash row orgId role) s).2 = { s with
        users    := s.users ++ [row]
        userOrgs := t
        quotas   := Function.update s.quotas ipHash (s.quotas ipHash + 1) } ∧
      t.rows = s.userOrgs.rows ++ [{ userId := s.users.length, orgId, role }]) := by
  simp only [exec]
  split
  case isFalse   => exact .inl rfl
  case isTrue hq =>
    split
    case h_2       => exact .inl rfl
    case h_1 s' hs =>
      obtain ⟨t, rfl, ht⟩ := createUser_eq hs
      exact .inr ⟨hq, t, rfl, ht⟩

theorem exec_createUser (row : User) (orgId : OrgId) (role : String) (s : Store) :
    ((exec (.createUser row orgId role) s).2 = s) ∨ ∃ t,
      (exec (.createUser row orgId role) s).2 = { s with
        users := s.users ++ [row], userOrgs := t } ∧
      t.rows = s.userOrgs.rows ++ [{ userId := s.users.length, orgId, role }] := by
  simp only [exec]
  split
  case h_2       => exact .inl rfl
  case h_1 s' hs => exact .inr (createUser_eq hs)

theorem exec_createOrg (org : Org) (founder : Option UserId) (s : Store) :
    ((exec (.createOrg org founder) s).2 = s) ∨ ∃ t,
      (exec (.createOrg org founder) s).2 = { s with orgs := s.orgs ++ [org], userOrgs := t } ∧
      ((t.rows = s.userOrgs.rows) ∨
        ∃ m, t.rows = s.userOrgs.rows ++ [m] ∧ m.orgId = s.orgs.length) := by
  simp only [exec]
  split
  case h_2       => exact .inl rfl
  case h_1 s' hs => exact .inr (createOrg_eq hs)

-- What a command can do to the accounts.
theorem exec_users (c : Cmd) (s : Store) :
    ((exec c s).2.users = s.users) ∨
    (∃ id f, c.edit? = some (id, f) ∧ (exec c s).2.users = s.users.modify id f) ∨
    ∃ row, c.row? = some row ∧ (exec c s).2.users = s.users ++ [row] := by
  cases c
  case register ipHash row orgId role =>
    obtain h | ⟨-, t, h, -⟩ := exec_register ipHash row orgId role s <;> rw [h]
    case inl => exact .inl rfl
    case inr => exact .inr (.inr ⟨_, rfl, rfl⟩)
  case createUser row orgId role =>
    obtain h | ⟨t, h, -⟩ := exec_createUser row orgId role s <;> rw [h]
    case inl => exact .inl rfl
    case inr => exact .inr (.inr ⟨_, rfl, rfl⟩)
  case createOrg org founder =>
    obtain h | ⟨t, h, -⟩ := exec_createOrg org founder s <;> rw [h]
    case inl => exact .inl rfl
    case inr => exact .inl rfl
  case deleteMembership id orgId account =>
    simp only [exec]
    split
    case isFalse => exact .inl rfl
    case isTrue  =>
      by_cases hc : account.orgsCount = 1
      case pos => exact .inr (.inl ⟨id, .disable, by simp [Cmd.edit?, hc], by simp [hc]⟩)
      case neg => exact .inl (by simp [hc])
  all_goals
    first
    | exact .inl rfl
    | simp only [exec]
      split
      case isTrue  => first | exact .inl rfl | exact .inr (.inl ⟨_, _, rfl, rfl⟩)
      case isFalse => exact .inl rfl

-- The organisations only become more.
theorem exec_orgs (c : Cmd) (s : Store) : s.orgs.length ≤ (exec c s).2.orgs.length := by
  cases c
  case createOrg org founder =>
    obtain h | ⟨t, h, -⟩ := exec_createOrg org founder s <;> simp [h]
  case createUser row orgId role =>
    obtain h | ⟨t, h, -⟩ := exec_createUser row orgId role s <;> rw [h]
  case register ipHash row orgId role =>
    obtain h | ⟨-, t, h, -⟩ := exec_register ipHash row orgId role s <;> rw [h]
  all_goals
    first
    | exact le_rfl
    | simp only [exec]
      split <;> exact le_rfl

theorem exec_users_length (c : Cmd) (s : Store) : s.users.length ≤ (exec c s).2.users.length := by
  obtain h | ⟨_, _, _, h⟩ | ⟨_, _, h⟩ := exec_users c s <;> simp [h]

-- The members of an organisation that exists are its members from before, and new accounts that are
-- no administrators.
structure Store.Joins (s s' : Store) : Prop where
  users : s.users.length ≤ s'.users.length
  orgs  : s.orgs.length ≤ s'.orgs.length
  rows  : ∀ m ∈ s'.userOrgs.rows, m.orgId < s.orgs.length →
    m ∈ s.userOrgs.rows ∨ (s.users.length ≤ m.userId ∧ m.role ≠ "admin")

namespace Store.Joins

theorem refl (s : Store) : s.Joins s where
  users := le_rfl
  orgs  := le_rfl
  rows  := fun _ hm _ => .inl hm

theorem trans {s₁ s₂ s₃ : Store} (h : s₁.Joins s₂) (h' : s₂.Joins s₃) : s₁.Joins s₃ where
  users := h.users.trans h'.users
  orgs  := h.orgs.trans h'.orgs
  rows  := by
    intro m hm ho
    obtain hm | ⟨hu, ha⟩ := h'.rows m hm (ho.trans_le h.orgs)
    case inl => exact h.rows m hm ho
    case inr => exact .inr ⟨h.users.trans hu, ha⟩

theorem of_rows (hu : s.users.length ≤ s'.users.length) (ho : s.orgs.length ≤ s'.orgs.length)
    (hr : s'.userOrgs.rows.Sublist s.userOrgs.rows) : s.Joins s' where
  users := hu
  orgs  := ho
  rows  := fun _ hm _ => .inl (hr.subset hm)

theorem of_member {m : Orgs.UserOrg} (hu : s.users.length ≤ s'.users.length)
    (ho : s.orgs.length ≤ s'.orgs.length) (hr : s'.userOrgs.rows = s.userOrgs.rows ++ [m])
    (hm : (s.users.length ≤ m.userId ∧ m.role ≠ "admin") ∨ m.orgId = s.orgs.length) :
    s.Joins s' where
  users := hu
  orgs  := ho
  rows  := by
    intro m' hm' ho
    rw [hr, List.mem_append, List.mem_singleton] at hm'
    obtain hm' | rfl := hm'
    case inl => exact .inl hm'
    case inr =>
      obtain hm | hm := hm
      case inl => exact .inr hm
      case inr => exact absurd hm ho.ne

theorem exec (c : Cmd) (s : Store) (hc : c.Enrols) : s.Joins (Accounts.exec c s).2 := by
  have hu := exec_users_length c s
  have ho := exec_orgs c s
  cases c
  case createOrg org founder =>
    obtain h | ⟨t, h, hr⟩ := exec_createOrg org founder s <;> rw [h] at hu ho ⊢
    case inl => exact .refl s
    case inr =>
      obtain hr | ⟨m, hr, hm⟩ := hr
      case inl => exact .of_rows hu ho (hr ▸ .refl _)
      case inr => exact .of_member hu ho hr (.inr hm)
  case createUser row orgId role =>
    obtain h | ⟨t, h, hr⟩ := exec_createUser row orgId role s <;> rw [h] at hu ho ⊢
    case inl => exact .refl s
    case inr => exact .of_member hu ho hr (.inl ⟨le_rfl, hc.right⟩)
  case register ipHash row orgId role =>
    obtain h | ⟨-, t, h, hr⟩ := exec_register ipHash row orgId role s <;> rw [h] at hu ho ⊢
    case inl => exact .refl s
    case inr => exact .of_member hu ho hr (.inl ⟨le_rfl, hc.right⟩)
  case deleteMembership userId orgId account =>
    refine .of_rows hu ho ?_
    simp only [Accounts.exec]
    split
    case isTrue  => exact List.filter_sublist
    case isFalse => exact .refl _
  all_goals
    refine .of_rows hu ho ?_
    first
    | exact .refl _
    | simp only [Accounts.exec]
      split <;> exact .refl _

theorem world (w : World) (s : Store) : s.Joins (w.apply s) := by
  cases w
  case configure =>
    exact .of_rows le_rfl (by simp [World.apply]) (.refl _)
  all_goals exact .of_rows le_rfl le_rfl (.refl _)

end Store.Joins

-- A site where every challenge is solved and a password is its own hash.
def External.open : External where
  toLowerCase                   := Jobs.toLowerCase
  verifyMathChallenge _ _       := true
  verifyRecaptcha     _ _ _     := .ok true
  verifyPassword password hash  := password = hash
  DUMMY_PASSWORD_HASH           := ""
  makePasswordHash _ password   := password

-- An organisation with one administrator.
def Store.founded : Store where
  roles    := ["admin", "operator", "viewer"]
  users    := [{
    email := "admin@example.org", passwordHash := some "old secret", emailVerifiedAt := some 0
    approvedAt := some 0 }]
  orgs     := [{ name := "Default", slug := "default" }]
  userOrgs := ⟨[⟨0, 0, "admin"⟩], by decide⟩

def adminLogin : Auth.Credentials where
  email              := "Admin@example.org"
  password           := "old secret"
  ip                 := "203.0.113.7"
  mathChallengeToken := ""
  mathAnswer         := ""

-- The administrator signs in.
def signedIn : List (Pool.Event Request World) :=
  .start (.login adminLogin) :: List.replicate 6 (.serve 0)

-- Somebody registers, and the administrator approves the new account.
def admitted : List (Pool.Event Request World) :=
  .start (.register {
    email := "new@example.org", password := "new secret", ip := "203.0.113.8", salt := "" }) ::
  List.replicate 6 (.serve 1) ++
  .start (.setAccountApproval ⟨0, 0, 1⟩ 0 1 true) :: List.replicate 6 (.serve 2)

variable {deps : External} {es : List (Pool.Event Request World)}
  {p : Pool controlPlane Request (Option Auth.AccessToken)}

section

variable {userId : UserId} {token : Auth.AccessToken} {orgId : OrgId}

theorem resolveRole_enrols {name : String} : (resolveRole name).Only Cmd.Enrols :=
  .bind (.perform trivial) fun _ => .ite .pure (.perform trivial)

theorem sendVerification_enrols {email : String} :
    (sendVerification userId orgId email).Only Cmd.Enrols :=
  .bind (.perform trivial) fun _ => .bind (.perform trivial) fun _ => .perform trivial

theorem register_enrols {r : Registration} : (register deps r).Only Cmd.Enrols := by
  refine .bind (.perform trivial) fun found => .ite .pure <| .bind ?org fun orgId => ?account
  case org =>
    refine .bind (.perform trivial) fun orgId => ?_
    cases orgId
    case none => exact .perform trivial
    case some => exact .pure
  case account =>
    refine .bind resolveRole_enrols fun _ => .bind (.perform trivial) fun _ => ?_
    refine .bind (.perform trivial) fun _ => .bind (.perform ⟨rfl, by simp⟩) fun _ => ?_
    exact .ite sendVerification_enrols .pure

theorem createAccount_enrols {input : AccountInput} :
    (createAccount deps orgId userId input).Only Cmd.Enrols := by
  refine .bind (.perform trivial) fun found => .ite .throw <| .bind resolveRole_enrols fun _ => ?_
  have hr : input.role.name ≠ "admin" := by cases input.role <;> simp [AccountRole.name]
  exact .bind (.perform trivial) fun _ => .bind (.perform ⟨rfl, hr⟩) fun _ => .pure

theorem jwtAuthGuard_enrols : (jwtAuthGuard token).Only Cmd.Enrols := by
  refine .handle (.bind (.perform trivial) fun user => ?_) fun _ => .throw
  cases user
  case none => exact .throw
  case some => exact .ite .pure .throw

theorem asAdmin_enrols {handler : UserId → Service Unit} (h : ∀ userId, (handler userId).Only Cmd.Enrols) :
    (asAdmin token orgId handler).Only Cmd.Enrols := by
  refine .bind jwtAuthGuard_enrols fun userId =>
    .bind (.bind (.perform trivial) fun role => ?_) fun _ => ?_
  case refine_1 =>
    cases role
    case none => exact .throw
    case some => exact .pure
  case refine_2 => exact .bind (.ite .pure .throw) fun _ => h userId

-- Every request makes sure whom it lets into an organisation.
theorem serve_enrols (q : Request) : (q.serve deps).Only Cmd.Enrols := by
  cases q
  case login c =>
    have h : ((Auth.login deps.toExternal c).translate signIn).Only Cmd.Enrols :=
      Only.translate (fun _ _ => trivial) Only.always
    exact .bind h fun _ => .pure
  case register r => exact .bind register_enrols fun _ => .pure
  case verifyEmail userId orgId =>
    refine .bind (.bind (.perform trivial) fun account => ?_) fun _ => .pure
    cases account
    case none => exact .throw
    case some => exact .ite .throw (.bind (.perform trivial) fun _ => .perform trivial)
  case resendVerification email =>
    refine .bind (.bind (.perform trivial) fun found => ?_) fun _ => .pure
    split
    case h_2 => exact .pure
    case h_1 =>
      refine .ite .pure <| .bind (.perform trivial) fun _ => .ite .pure ?_
      exact .bind (.perform trivial) fun _ => .ite sendVerification_enrols .pure
  case changePassword token currentPassword newPassword salt =>
    refine .bind jwtAuthGuard_enrols fun userId => .bind ?_ fun _ => .pure
    refine .bind (.perform trivial) fun user => ?_
    split
    case h_1 => exact .throw
    case h_2 => exact .ite .throw (.ite .throw (.perform trivial))
  case createOrg token name slug =>
    refine .bind jwtAuthGuard_enrols fun userId => .bind ?_ fun _ => .pure
    refine .bind (.perform trivial) fun _ => ?_
    exact .ite .throw <| .bind resolveRole_enrols fun _ => .bind (.perform trivial) fun _ => .pure
  case createAccount token orgId input =>
    exact .bind (asAdmin_enrols fun _ => createAccount_enrols) fun _ => .pure
  case setAccountApproval token orgId accountId approved =>
    refine .bind (asAdmin_enrols fun userId => .ite .throw ?_) fun _ => .pure
    refine .bind (.perform trivial) fun actor => .bind (.perform trivial) fun target => .ite .throw ?_
    cases target
    case none => exact .throw
    case some =>
      refine .ite .throw <| .ite .throw <| .ite .throw <| .ite .pure ?_
      exact .bind (.perform trivial) fun _ => .perform trivial
  case deleteAccount token orgId accountId =>
    refine .bind (asAdmin_enrols fun userId => .ite .throw ?_) fun _ => .pure
    refine .bind (.perform trivial) fun account => ?_
    cases account
    case none => exact .throw
    case some =>
      refine .ite (.bind (.perform trivial) fun adminRole => ?_) (.perform trivial)
      exact .bind (.ite (.perform trivial) .pure) fun _ => .ite .throw (.perform trivial)
  case resetAccountPassword token orgId accountId newPassword salt =>
    refine .bind (asAdmin_enrols fun userId => .ite .throw ?_) fun _ => .pure
    refine .bind (.perform trivial) fun actor => .bind (.perform trivial) fun target => .ite .throw ?_
    cases target
    case none => exact .throw
    case some => exact .ite .throw (.perform trivial)

end

-- Nobody who has an account joins an organisation that exists, nobody's role in it changes, and
-- nobody becomes one of its administrators.
theorem memberships_fixed {s : Store} {es₁ es₂ : List (Pool.Event Request World)} {m : Orgs.UserOrg}
    (hm : m ∈ ((interleaved deps).run (Pool.idle s) (es₁ ++ es₂)).state.userOrgs.rows)
    (ho : m.orgId < ((interleaved deps).run (Pool.idle s) es₁).state.orgs.length) :
    m ∈ ((interleaved deps).run (Pool.idle s) es₁).state.userOrgs.rows ∨
    (((interleaved deps).run (Pool.idle s) es₁).state.users.length ≤ m.userId ∧ m.role ≠ "admin") := by
  rw [System.run_append] at hm
  have hi : ((interleaved deps).run (Pool.idle s) es₁).Issues Cmd.Enrols :=
    System.always (fun _ _ h => h.next serve_enrols) .idle
  have hj : Store.Joins ((interleaved deps).run (Pool.idle s) es₁).state
      ((interleaved deps).run ((interleaved deps).run (Pool.idle s) es₁) es₂).state :=
    hi.run_state serve_enrols Store.Joins.refl (fun _ _ _ h h' => h.trans h') .exec .world
  exact hj.rows m hm ho

theorem memberships_fixed_admitted :
    (⟨1, 0, "viewer"⟩ : Orgs.UserOrg) ∈
      ((interleaved .open).run (Pool.idle .founded) signedIn).state.userOrgs.rows ∨
    (((interleaved .open).run (Pool.idle .founded) signedIn).state.users.length ≤ 1 ∧
      "viewer" ≠ "admin") :=
  have hm : (⟨1, 0, "viewer"⟩ : Orgs.UserOrg) ∈
      ((interleaved .open).run (Pool.idle .founded) (signedIn ++ admitted)).state.userOrgs.rows := by
    decide +kernel
  memberships_fixed hm (by decide +kernel)

-- What may become of an account: a session rests on nothing that changes without a new version.
structure User.Succeeds (user user' : User) : Prop where
  email    : user'.email = user.email
  verified : user.emailVerifiedAt.isSome → user'.emailVerifiedAt.isSome
  version  : user.authVersion ≤ user'.authVersion
  same     : user'.authVersion = user.authVersion →
    user'.passwordHash = user.passwordHash ∧ user'.approvedAt = user.approvedAt

namespace User.Succeeds

variable {user user' : User}

theorem refl (user : User) : user.Succeeds user where
  email    := rfl
  verified := id
  version  := le_rfl
  same _   := ⟨rfl, rfl⟩

theorem trans {u₁ u₂ u₃ : User} (h : u₁.Succeeds u₂) (h' : u₂.Succeeds u₃) : u₁.Succeeds u₃ where
  email    := h'.email.trans h.email
  verified := fun hv => h'.verified (h.verified hv)
  version  := h.version.trans h'.version
  same     := by
    intro hs
    have h₁ := h.version
    have h₂ := h'.version
    have ⟨hp, ha⟩ := h'.same (by omega)
    have ⟨hp', ha'⟩ := h.same (by omega)
    exact ⟨hp.trans hp', ha.trans ha'⟩

theorem renewed (he : user'.email = user.email) (hv : user'.emailVerifiedAt = user.emailVerifiedAt)
    (hn : user'.authVersion = user.authVersion + 1) : user.Succeeds user' where
  email    := he
  verified := fun h => hv ▸ h
  version  := by omega
  same     := fun h => by omega

theorem edit {id : UserId} {f : User → User} (h : c.edit? = some (id, f)) :
    user.Succeeds (f user) := by
  cases c
  case deleteMembership =>
    simp only [Cmd.edit?, Option.ite_none_right_eq_some, Option.some.injEq, Prod.mk.injEq] at h
    obtain ⟨-, -, rfl⟩ := h
    exact renewed rfl rfl rfl
  case verifyEmail => cases h; exact { refl user with verified := fun _ => rfl }
  case verificationSent => cases h; exact { refl user with }
  case setPassword   => cases h; exact renewed rfl rfl rfl
  case resetPassword => cases h; exact renewed rfl rfl rfl
  case setApproval   => cases h; exact renewed rfl rfl rfl
  all_goals cases h

end User.Succeeds

-- No account disappears.
def Store.Keeps (s s' : Store) : Prop :=
  ∀ (id : UserId) user, s.users[id]? = some user →
    ∃ user', s'.users[id]? = some user' ∧ user.Succeeds user'

namespace Store.Keeps

theorem refl (s : Store) : s.Keeps s :=
  fun _ user h => ⟨user, h, .refl user⟩

theorem trans {s₁ s₂ s₃ : Store} (h : s₁.Keeps s₂) (h' : s₂.Keeps s₃) : s₁.Keeps s₃ := by
  intro id user hu
  obtain ⟨user₂, hu₂, hs⟩ := h id user hu
  obtain ⟨user₃, hu₃, hs'⟩ := h' id user₂ hu₂
  exact ⟨user₃, hu₃, hs.trans hs'⟩

theorem exec (c : Cmd) (s : Store) : s.Keeps (Accounts.exec c s).2 := by
  intro id user hu
  obtain h | ⟨id', f, hf, h⟩ | ⟨row, _, h⟩ := exec_users c s <;> rw [h]
  case inl => exact ⟨user, hu, .refl user⟩
  case inr.inl =>
    rw [List.getElem?_modify, hu]
    by_cases hi : id' = id
    case pos => exact ⟨f user, by simp [hi], .edit hf⟩
    case neg => exact ⟨user, by simp [hi], .refl user⟩
  case inr.inr => exact ⟨user, Table.getElem?_append_of_some hu, .refl user⟩

theorem world (w : World) (s : Store) : s.Keeps (w.apply s) := by
  cases w <;> exact fun _ user h => ⟨user, h, .refl user⟩

theorem run (deps : External) (p : Pool controlPlane Request (Option Auth.AccessToken))
    (es : List (Pool.Event Request World)) : p.state.Keeps ((interleaved deps).run p es).state :=
  Pool.run_state refl (fun _ _ _ h h' => h.trans h') exec world

end Store.Keeps

-- What a login has read: an account as it was at that moment.
abbrev Reading :=
  Option (UserId × Auth.User)

-- A login reads one account, by its email.
def reading : Environment Auth.controlPlane Reading where
  allows _ _ := True
  answers
    | _, .findUser email, .ok found, m' =>
      m' = found ∧ ∀ id user, found = some (id, user) → user.email = email
    | m, _, _, m' => m' = m
  ends _ _ := False

-- A command that reads no account.
def Blind : Auth.Cmd → Prop
  | .findUser _ => False
  | _           => True

-- What the account has to be like that a login opens a session for.
structure Opens (deps : Auth.External) (c : Auth.Credentials) (token : Auth.AccessToken)
    (user : Auth.User) : Prop where
  email    : user.email = Auth.normalizedEmail deps.toLowerCase c.email
  version  : token.authVersion = user.authVersion
  approved : user.approvedAt.isSome
  password : ∃ hash, user.passwordHash = some hash ∧ deps.verifyPassword c.password hash = true

-- A login that returns a token has read the account of the token.
def Opened (deps : Auth.External) (c : Auth.Credentials) :
    Result Auth.Exception Auth.AccessToken → Reading → Prop
  | .ok token, m => ∃ user, m = some (token.userId, user) ∧ Opens deps c token user
  | _, _         => True

section

variable {α β : Type} {m : Reading} {Q : Result Auth.Exception β → Reading → Prop}
  {authDeps : Auth.External} {lower : String → String} {email ip : String}

theorem reading_blind {c : Auth.Cmd} {r : Except Auth.Exception c.Ans} {m' : Reading} (h : Blind c)
    (hr : reading.answers m c r m') : m' = m := by
  cases c <;> first | exact h.elim | exact hr

-- A part of a login that reads no account.
theorem wp_blind {p : Auth.Service α} {f : α → Auth.Service β} (h : p.Only Blind)
    (hf : ∀ a, (f a).wp reading Q m) (hq : ∀ e, Q (.error e) m) :
    (p >>= f).wp reading Q m := by
  have hp : p.wp reading (fun r m' => m' = m ∧ r ≠ .ended) m := by
    induction p generalizing m
    case ret   => exact ⟨rfl, fun h => by cases h⟩
    case throw => exact ⟨rfl, fun h => by cases h⟩
    case call c k hi =>
      refine ⟨trivial, fun r m' hr => ?_, False.elim⟩
      obtain rfl := reading_blind h.left hr
      exact hi _ (h.right r) hf hq
  apply wp_bind.mpr
  apply wp_mono hp
  rintro r _ ⟨rfl, hr⟩
  cases r
  case ok a    => exact hf a
  case error e => exact hq e
  case ended   => exact absurd rfl hr

theorem throwActiveLockout_blind {state : Auth.AccountLockoutState} :
    Only Blind (Auth.throwActiveLockout state : Auth.Service α) :=
  .bind (.perform trivial) fun _ => .throw

theorem recordLoginFailure_blind : Only Blind (Auth.recordLoginFailure lower email ip) :=
  .bind (.bind (.perform trivial) fun _ => .perform trivial) fun _ =>
    .bind (.perform trivial) fun _ => .bind (.perform trivial) fun _ => .pure

theorem failLogin_blind {message : String} :
    Only Blind (Auth.failLogin lower email ip message : Auth.Service α) := by
  refine .bind recordLoginFailure_blind fun lockout => ?_
  cases lockout
  case none => exact .throw
  case some => exact throwActiveLockout_blind

theorem wp_failLogin {message : String} (hq : ∀ e, Q (.error e) m) :
    (Auth.failLogin lower email ip message : Auth.Service β).wp reading Q m := by
  refine wp_blind recordLoginFailure_blind (fun lockout => ?_) hq
  cases lockout
  case none => exact hq _
  case some => exact wp_blind (.perform trivial) (fun _ => hq _) hq

theorem assertLoginAllowed_blind : Only Blind (Auth.assertLoginAllowed lower email ip) := by
  refine .bind (.perform trivial) fun _ => .bind (.perform trivial) fun blocked => ?_
  cases blocked
  case none => exact .pure
  case some => exact .throw

theorem findSecurityOrg_blind {user : Option (UserId × Auth.User)} :
    Only Blind (Auth.findSecurityOrg user) := by
  rw [Auth.findSecurityOrg]
  split
  case h_2 => exact .perform trivial
  case h_1 =>
    refine .bind (.perform trivial) fun org => ?_
    cases org
    case none => exact .perform trivial
    case some => exact .pure

theorem checkRecaptcha_blind {token : Option String} {org : Option Auth.Org} :
    Only Blind (Auth.checkRecaptcha authDeps email ip token org) := by
  rw [Auth.checkRecaptcha]
  split
  case h_1 => exact .pure
  case h_2 => exact .bind .ofExcept fun _ => .ite .pure failLogin_blind

theorem awaitsVerification_blind {user : Auth.User} : Only Blind (Auth.awaitsVerification user) := by
  rw [Auth.awaitsVerification]
  split
  case h_1 => exact .perform trivial
  case h_2 => exact .pure

-- An account is admitted with its own version, and only if it is approved.
theorem wp_admission {id : UserId} {user : Auth.User} {f : Auth.AccessToken → Auth.Service β}
    (hf : user.approvedAt.isSome → ∀ orgId, (f ⟨id, orgId, user.authVersion⟩).wp reading Q m)
    (hq : ∀ e, Q (.error e) m) : (Auth.admission id user >>= f).wp reading Q m := by
  rw [Auth.admission, ← wp_bind_assoc]
  refine wp_blind awaitsVerification_blind (fun unverified => ?_) hq
  split
  case isTrue  => exact hq _
  case isFalse =>
    split
    case isTrue    => exact hq _
    case isFalse h =>
      cases user.firstOrgId
      case none       => exact hq _
      case some orgId => exact hf (Option.isSome_iff_ne_none.mpr h) orgId

theorem wp_login {c : Auth.Credentials} :
    (Auth.login authDeps c).wp reading (Opened authDeps c) none := by
  have hq {m : Reading} : ∀ e, Opened authDeps c (.error e) m := fun _ => trivial
  rw [Auth.login]
  refine wp_blind assertLoginAllowed_blind (fun _ => ?_) hq
  split
  case isTrue  => exact wp_failLogin hq
  case isFalse =>
    refine wp_bind.mpr <| wp_perform.mpr ⟨trivial, fun r m hr => ?_, False.elim⟩
    cases r
    case error    => trivial
    case ok found =>
      obtain ⟨rfl, he⟩ := hr
      change wp reading _ _ m
      refine wp_blind findSecurityOrg_blind (fun securityOrg => ?_) hq
      refine wp_blind checkRecaptcha_blind (fun _ => ?_) hq
      cases m
      case none       => exact wp_failLogin hq
      case some found =>
        obtain ⟨id, user⟩ := found
        simp only [Option.bind_some]
        by_cases hn : user.passwordHash.getD "" = ""
        case pos =>
          rw [if_pos (.inl hn)]
          exact wp_failLogin hq
        case neg =>
          simp only [hn, false_or, if_false]
          split
          case isTrue     => exact wp_failLogin hq
          case isFalse hv =>
            refine wp_admission (fun ha orgId => ?_) hq
            refine wp_blind (.perform trivial) (fun _ => ?_) hq
            refine wp_blind (.handle (.perform trivial) fun _ => .pure) (fun _ => ?_) hq
            refine ⟨user, rfl, he id user rfl, rfl, ha, ?_⟩
            cases hp : user.passwordHash
            case none      => simp [hp] at hn
            case some hash => exact ⟨hash, rfl, by simpa [hp] using hv⟩

end

-- What a request has read of an account before it returns a token.
def session : Environment controlPlane Reading where
  allows _ _ := True
  answers
    | m, .auth c, r, m' => reading.answers m c (signIn.read c r) m'
    | m, _, _, m'       => m' = m
  ends _ _ := False

def Session (deps : External) :
    Request → Result Exception (Option Auth.AccessToken) → Reading → Prop
  | .login c, .ok (some token), m =>
    ∃ user, m = some (token.userId, user) ∧ Opens deps.toExternal c token user
  | _, _, _ => True

theorem wp_serve (q : Request) : (q.serve deps).wp session (Session deps q) none := by
  cases q
  case login c =>
    apply wp_bind.mpr
    apply wp_translate (E := reading)
    case ha => exact fun _ _ h => h
    case hr => exact fun _ _ _ _ h => h
    case he => exact fun _ _ h => h
    case h  =>
      apply wp_mono wp_login
      intro r m hr
      cases r
      case ok    => exact hr
      case error => trivial
      case ended => trivial
  all_goals
    have h := fun {α : Type} (prog : Service α) => Only.always.wp (p := prog) (E := session)
      (I := fun _ => True) (s := none) (fun _ _ _ _ => trivial) (fun _ _ _ _ _ _ _ => trivial) trivial
    exact wp_mono (h _) fun _ _ _ => trivial

-- What a request has read is an earlier state of the account.
def Stands (m : Reading) (s : Store) : Prop :=
  ∀ id read, m = some (id, read) →
    ∃ user user' orgId, read = User.view user orgId ∧ s.users[id]? = some user' ∧ user.Succeeds user'

theorem Stands.keeps {m : Reading} (h : Stands m s) (hk : s.Keeps s') : Stands m s' := by
  intro id read hm
  obtain ⟨user, user', orgId, hr, hu, hs⟩ := h id read hm
  obtain ⟨user'', hu', hs'⟩ := hk id user' hu
  exact ⟨user, user'', orgId, hr, hu', hs.trans hs'⟩

theorem session_error {m : Reading} {e : Exception} : session.answers m c (.error e) m := by
  cases c
  case auth c => cases c <;> rfl
  all_goals rfl

-- An account that a login finds is the account as it is.
theorem findUser_view {email : String} {id : UserId} {read : Auth.User}
    (h : s.view.users.entries.find? (·.2.email = email) = some (id, read)) :
    (read.email = email) ∧ ∃ user orgId, read = User.view user orgId ∧ s.users[id]? = some user := by
  refine ⟨by simpa using List.find?_some h, ?_⟩
  have hm : (s.users.mapIdx fun id user => user.view (s.firstOrg? id))[id]? = some read :=
    Table.mem_entries.mp (List.mem_of_find?_eq_some h)
  rw [List.getElem?_mapIdx] at hm
  obtain ⟨user, hu, rfl⟩ := Option.map_eq_some_iff.mp hm
  exact ⟨user, _, rfl, hu⟩

theorem session_exec {m : Reading} (h : Stands m s) :
    ∃ m', session.answers m c (exec c s).1 m' ∧ Stands m' (exec c s).2 := by
  have hk := h.keeps (.exec c s)
  cases c
  case auth c =>
    cases c
    case findUser email =>
      refine ⟨_, ⟨rfl, fun id read hf => (findUser_view hf).left⟩, fun id read hf => ?_⟩
      obtain ⟨-, user, orgId, hr, hu⟩ := findUser_view hf
      exact ⟨user, user, orgId, hr, hu, .refl user⟩
    all_goals exact ⟨m, rfl, hk⟩
  all_goals exact ⟨m, rfl, hk⟩

theorem next_follows {e : Pool.Event Request World}
    (h : p.Follows (fun _ => session) (fun _ => Stands) (Session deps)) :
    ((interleaved deps).next p e).Follows (fun _ => session) (fun _ => Stands) (Session deps) := by
  cases e
  case start q => exact h.start (m := none) (fun _ _ hm => by cases hm) (wp_serve q)
  case world w => exact h.world fun _ _ hm => hm.keeps (.world w _)
  case fail i  => exact h.fail fun _ _ m _ hm _ => ⟨m, session_error, hm⟩
  case serve i =>
    apply h.serve
    constructor
    case own   => exact fun _ _ _ _ hm _ => session_exec hm
    case other => exact fun _ c _ _ _ _ _ _ _ _ _ hm _ => hm.keeps (.exec c _)

deriving instance DecidableEq for Auth.Credentials, Auth.AccessToken

def issued? : Thread controlPlane Request (Option Auth.AccessToken) →
    Option (Auth.Credentials × Auth.AccessToken)
  | ⟨.login c, .ret (some token)⟩ => some (c, token)
  | _                             => none

-- A login has returned a token.
def Issued (p : Pool controlPlane Request (Option Auth.AccessToken)) (c : Auth.Credentials)
    (token : Auth.AccessToken) : Prop :=
  some (c, token) ∈ p.threads.map issued?

instance {c : Auth.Credentials} {token : Auth.AccessToken} : Decidable (Issued p c token) :=
  inferInstanceAs (Decidable (some (c, token) ∈ p.threads.map issued?))

theorem mem_of_issued {c : Auth.Credentials} {token : Auth.AccessToken} (h : Issued p c token) :
    ⟨.login c, .ret (some token)⟩ ∈ p.threads := by
  obtain ⟨t, ht, hi⟩ := List.mem_map.mp h
  unfold issued? at hi
  split at hi
  case h_1 => cases hi; exact ht
  case h_2 => cases hi

-- Whether the guard lets a token pass.
def Store.accepts (s : Store) (token : Auth.AccessToken) : Bool :=
  s.users[token.userId]?.any (·.accepts token.authVersion)

theorem jwtAuthGuard_accepts {token : Auth.AccessToken} :
    ((jwtAuthGuard token).run [] s).result.isOk = s.accepts token := by
  have hw : (jwtAuthGuard token).wp (under controlPlane .none)
      (fun r _ => r.isOk = s.accepts token) s := by
    refine wp_handle.mpr (wp_step rfl ?_ fun _ _ => False.elim)
    cases hu : s.users[token.userId]?
    case none => simp [Store.accepts, hu, handlePost, Result.isOk]
    case some user =>
      cases ha : user.accepts token.authVersion <;>
        simp [Store.accepts, hu, ha, handlePost, Result.isOk]
  exact wp_run_nil hw

-- A session that is accepted has been accepted ever since the login has returned its token, and the
-- password that has opened it is still the password of the account.
theorem session_stands {s : Store} {es₁ es₂ : List (Pool.Event Request World)}
    {c : Auth.Credentials} {token : Auth.AccessToken}
    (hi : Issued ((interleaved deps).run (Pool.idle s) es₁) c token)
    (ha : ((interleaved deps).run (Pool.idle s) (es₁ ++ es₂)).state.accepts token) :
    ((interleaved deps).run (Pool.idle s) es₁).state.accepts token ∧
    ∃ user hash,
      ((interleaved deps).run (Pool.idle s) (es₁ ++ es₂)).state.users[token.userId]? = some user ∧
      (user.email = Auth.normalizedEmail deps.toLowerCase c.email) ∧
      (user.passwordHash = some hash) ∧ deps.verifyPassword c.password hash = true := by
  have hf : ((interleaved deps).run (Pool.idle s) es₁).Follows (fun _ => session) (fun _ => Stands)
      (Session deps) :=
    System.always (fun _ _ => next_follows) Pool.Follows.idle
  obtain ⟨i, hi⟩ := List.mem_iff_getElem?.mp (mem_of_issued hi)
  obtain ⟨m, hm, user, hr, ho⟩ := hf i _ _ hi
  obtain ⟨first, user₁, orgId, rfl, hu₁, hs₁⟩ := hm _ _ hr
  rw [System.run_append] at ha ⊢
  obtain ⟨user₂, hu₂, hs₂⟩ :=
    Store.Keeps.run deps ((interleaved deps).run (Pool.idle s) es₁) es₂ token.userId user₁ hu₁
  simp only [Store.accepts, hu₂, Option.any_some, User.accepts, Bool.and_eq_true,
    decide_eq_true_eq] at ha
  obtain ⟨⟨ha, hp⟩, hv⟩ := ha
  have hv₁ : first.authVersion = token.authVersion := ho.version.symm
  have hle₁ := hs₁.version
  have hle₂ := hs₂.version
  obtain ⟨hp₁, ha₁⟩ := hs₁.same (by omega)
  obtain ⟨hp₂, ha₂⟩ := hs₂.same (by omega)
  obtain ⟨hash, hh, hverify⟩ := ho.password
  refine ⟨?_, user₂, hash, hu₂, ?_, ?_, hverify⟩
  case refine_1 =>
    have hv : user₁.authVersion = token.authVersion := by omega
    rw [hp₂] at hp
    rw [ha₂] at ha
    simp only [Store.accepts, hu₁, Option.any_some, User.accepts, ha, hp, hv, decide_true,
      Bool.and_self]
  case refine_2 => exact (hs₂.email.trans hs₁.email).trans ho.email
  case refine_3 => exact (hp₂.trans hp₁).trans hh

theorem session_stands_admitted :
    ((interleaved .open).run (Pool.idle .founded) signedIn).state.accepts ⟨0, 0, 1⟩ ∧
    ∃ user hash,
      ((interleaved .open).run (Pool.idle .founded) (signedIn ++ admitted)).state.users[0]? =
        some user ∧
      (user.email = Auth.normalizedEmail toLowerCase "Admin@example.org") ∧
      (user.passwordHash = some hash) ∧ decide ("old secret" = hash) = true :=
  @session_stands .open .founded signedIn admitted adminLogin ⟨0, 0, 1⟩ (by decide +kernel)
    (by decide +kernel)

-- The number of accounts that have been registered from a network.
def Store.registrations (s : Store) (ipHash : Auth.Key) : Nat :=
  s.users.countP (·.registeredFrom = some ipHash)

-- The quotas count the registrations, and there are at most two.
def Store.Counted (s : Store) : Prop :=
  ∀ ipHash, s.registrations ipHash = s.quotas ipHash ∧ s.quotas ipHash ≤ 2

namespace Store.Counted

theorem edit_registeredFrom {id : UserId} {f : User → User} (h : c.edit? = some (id, f))
    (user : User) : (f user).registeredFrom = user.registeredFrom := by
  cases c
  case deleteMembership =>
    simp only [Cmd.edit?, Option.ite_none_right_eq_some, Option.some.injEq, Prod.mk.injEq] at h
    obtain ⟨-, -, rfl⟩ := h
    rfl
  all_goals cases h <;> rfl

theorem countP_modify {id : UserId} {f : User → User} {P : User → Bool} {users : Table User}
    (hf : ∀ user, P (f user) = P user) : (users.modify id f).countP P = users.countP P := by
  cases hu : users[id]?
  case none =>
    rw [List.modify_eq_self]
    exact List.getElem?_eq_none_iff.mp hu
  case some user =>
    have := Table.countP_modify (f := f) (p := P) hu
    rw [hf user] at this
    omega

-- A command other than a registration counts no registrations.
theorem exec_quotas (h : ∀ ipHash row orgId role, c ≠ .register ipHash row orgId role) :
    (Accounts.exec c s).2.quotas = s.quotas := by
  cases c
  case register => exact absurd rfl (h _ _ _ _)
  case createUser row orgId role =>
    obtain hs | ⟨t, hs, -⟩ := exec_createUser row orgId role s <;> rw [hs]
  case createOrg org founder =>
    obtain hs | ⟨t, hs, -⟩ := exec_createOrg org founder s <;> rw [hs]
  all_goals
    first
    | rfl
    | simp only [Accounts.exec]
      split <;> rfl

theorem of_users (h : s.Counted) (hq : s'.quotas = s.quotas)
    (hu : ∀ ipHash, s'.registrations ipHash = s.registrations ipHash) : s'.Counted := by
  intro ipHash
  rw [hu, hq]
  exact h ipHash

theorem exec (h : s.Counted) (he : c.Enrols) : (Accounts.exec c s).2.Counted := by
  by_cases hc : ∀ ipHash row orgId role, c ≠ .register ipHash row orgId role
  case pos =>
    refine h.of_users (exec_quotas hc) fun ipHash => ?_
    obtain hu | ⟨id, f, hf, hu⟩ | ⟨row, hr, hu⟩ := exec_users c s <;>
      simp only [Store.registrations, hu]
    case inr.inl =>
      exact countP_modify fun user => by rw [edit_registeredFrom hf]
    case inr.inr =>
      have hn : row.registeredFrom = none := by
        cases c
        case register   => exact absurd rfl (hc _ _ _ _)
        case createUser => cases hr; exact he.left
        all_goals cases hr
      simp [hn]
  case neg =>
    simp only [ne_eq, not_forall, not_not] at hc
    obtain ⟨ipHash, row, orgId, role, rfl⟩ := hc
    obtain hs | ⟨hq, t, hs, -⟩ := exec_register ipHash row orgId role s <;> rw [hs]
    case inl => exact h
    case inr =>
      intro ipHash'
      obtain ⟨hr, hle⟩ := h ipHash'
      simp only [Store.registrations, List.countP_append, List.countP_singleton, he.left] at hr ⊢
      by_cases hi : ipHash = ipHash'
      case pos =>
        subst hi
        simp only [Function.update_self, decide_true, if_true]
        omega
      case neg =>
        simp only [Function.update_of_ne (Ne.symm hi), Option.some.injEq, hi, decide_false,
          Bool.false_eq_true, if_false]
        omega

theorem world (w : World) (h : s.Counted) : (w.apply s).Counted := by
  cases w <;> exact h

end Store.Counted

-- At most two accounts are ever registered from one network, and the attempts that fail are not
-- counted.
theorem registrations_counted {s : Store} (h : s.Counted) :
    ((interleaved deps).run (Pool.idle s) es).state.Counted := by
  let R (s s' : Store) := s.Counted → s'.Counted
  have hr : R s ((interleaved deps).run (Pool.idle s) es).state :=
    Pool.Issues.idle.run_state serve_enrols (fun _ h => h) (fun _ _ _ h h' hs => h' (h hs))
      (fun _ _ hc hs => hs.exec hc) fun w _ => .world w
  exact hr h

theorem registrations_counted_admitted :
    ((interleaved .open).run (Pool.idle .founded) (signedIn ++ admitted)).state.Counted :=
  registrations_counted fun _ => ⟨rfl, Nat.zero_le _⟩

end Accounts
