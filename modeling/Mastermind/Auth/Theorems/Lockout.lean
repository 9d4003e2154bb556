import Mastermind.Auth.Login

open Effects Jobs

namespace Auth

def Store.blockedUntil? (s : Store) (lower : String → String) (email : String) : Option Time :=
  (s.limits (accountKey lower email)).bind (·.blockedUntil)

-- Whether `assertLoginAllowed` lets an attempt pass.
def accepts (s : Store) (lower : String → String) (email ip : String) : Bool :=
  ((assertLoginAllowed lower email ip).run [] s).result.isOk

variable {deps : External} {lower : String → String} {email ip : String} {s : Store} {p : Logins}
  {t : Time} {c : Cmd} {row : AuthRateLimit} {q : Credentials} {i : Nat} {e : Pool.Event Credentials World}

-- An attempt passes if neither the account nor the address is blocked.
theorem accepts_eq : accepts s lower email ip =
    (s.blocked? [accountKey lower email, (ipBucket ip).key] s.clock).isNone := by
  have hw : (assertLoginAllowed lower email ip).wp (Prog.under controlPlane .none)
      (fun r _ => r.isOk = (s.blocked? [accountKey lower email, (ipBucket ip).key] s.clock).isNone) s := by
    refine Prog.wp_step rfl ?_ fun _ _ => False.elim
    refine Prog.wp_step rfl ?_ fun _ _ => False.elim
    cases s.blocked? [accountKey lower email, (ipBucket ip).key] s.clock
    case none => rfl
    case some => rfl
  exact Prog.wp_run_nil hw

theorem not_accepts (h : s.blockedUntil? lower email = some t) (ht : s.clock < t) :
    accepts s lower email ip = false := by
  have hb : (s.blocked? [accountKey lower email, (ipBucket ip).key] s.clock).isSome := by
    rw [Store.blocked?, List.isSome_max?_iff]
    refine List.ne_nil_of_mem (a := t) <| List.mem_filter.mpr ⟨?_, by simpa using ht⟩
    exact List.mem_filterMap.mpr ⟨accountKey lower email, List.mem_cons_self, h⟩
  rw [accepts_eq, Option.isNone_eq_false_iff]
  exact hb

theorem accepts_of_unblocked (h : s.blockedUntil? lower email = none)
    (hi : s.blocked? [(ipBucket ip).key] s.clock = none) : accepts s lower email ip = true := by
  rw [Store.blockedUntil?] at h
  rw [accepts_eq, Option.isNone_iff_eq_none]
  simpa [Store.blocked?, h] using hi

-- A command that leaves the accounts to `recordLoginFailure` and `recordLoginSuccess`.
def Cmd.Apart : Cmd → Prop
  | .incrementWindow bucket _ => bucket.key.label = "login-ip"
  | _                         => True

section

open Prog

theorem throwActiveLockout_apart {α : Type} {state : AccountLockoutState} :
    Only Cmd.Apart (throwActiveLockout state : Service α) :=
  .bind (.perform trivial) fun _ => .throw

theorem failLogin_apart {α : Type} {message : String} :
    Only Cmd.Apart (failLogin lower email ip message : Service α) := by
  have hrecord : Only Cmd.Apart (recordLoginFailure lower email ip) :=
    .bind (.bind (.perform trivial) fun _ => .perform rfl) fun _ =>
      .bind (.perform trivial) fun _ => .bind (.perform trivial) fun _ => .pure
  refine .bind hrecord fun lockout => ?_
  cases lockout
  case none => exact .throw
  case some => exact throwActiveLockout_apart

theorem findSecurityOrg_apart {user : Option (UserId × User)} :
    Only Cmd.Apart (findSecurityOrg user) := by
  rw [findSecurityOrg]
  split
  case h_2 => exact .perform trivial
  case h_1 =>
    refine .bind (.perform trivial) fun org => ?_
    cases org
    case none => exact .perform trivial
    case some => exact .pure

theorem checkRecaptcha_apart {token : Option String} {org : Option Org} :
    Only Cmd.Apart (checkRecaptcha deps email ip token org) := by
  rw [checkRecaptcha]
  split
  case h_1 => exact .pure
  case h_2 => exact .bind .ofExcept fun _ => .ite .pure failLogin_apart

theorem admission_apart {userId : UserId} {user : User} : Only Cmd.Apart (admission userId user) := by
  have hmail : Only Cmd.Apart (awaitsVerification user) := by
    rw [awaitsVerification]
    split
    case h_1 => exact .perform trivial
    case h_2 => exact .pure
  refine .bind hmail fun _ => .ite .throw <| .ite .throw ?_
  split
  case h_1 => exact .throw
  case h_2 => exact .pure

theorem login_apart : Only Cmd.Apart (login deps q) := by
  have hallowed email ip : Only Cmd.Apart (assertLoginAllowed deps.toLowerCase email ip) := by
    refine .bind (.perform trivial) fun _ => .bind (.perform trivial) fun blocked => ?_
    cases blocked
    case none => exact .pure
    case some => exact .throw
  refine .bind (hallowed _ _) fun _ => .ite failLogin_apart ?_
  refine .bind (.perform trivial) fun user => .bind findSecurityOrg_apart fun _ => ?_
  refine .bind checkRecaptcha_apart fun _ => ?_
  cases user
  case none => exact failLogin_apart
  case some =>
    refine .ite failLogin_apart <| .bind admission_apart fun _ => .bind (.perform trivial) fun _ => ?_
    exact .bind (.handle (.perform trivial) fun _ => .pure) fun _ => .pure

end

theorem limits_self {key : Key} {r : Option AuthRateLimit} : (s.setLimit key r).limits key = r := by
  simp [Store.setLimit]

theorem limits_ne {key key' : Key} {r : Option AuthRateLimit} (h : key' ≠ key) :
    (s.setLimit key r).limits key' = s.limits key' := by
  simp [Store.setLimit, h]

-- What a command can do to the row of an account.
theorem exec_limits (lower : String → String) (s : Store) (email : String) (h : c.Apart) :
    ((exec c s).2.limits (accountKey lower email) = s.limits (accountKey lower email)) ∨
    (c = .deleteLimit (accountKey lower email) ∧ (exec c s).2.limits (accountKey lower email) = none) ∨
    ∃ now, c = .recordFailure (accountKey lower email) now ∧
      (exec c s).2.limits (accountKey lower email) =
        some (recordFailure now (s.limits (accountKey lower email))) := by
  cases c
  case incrementWindow bucket now =>
    have hn : accountKey lower email ≠ bucket.key := fun he => by
      have hl : bucket.key.label = "login-ip" := h
      rw [← he] at hl
      simp [accountKey] at hl
    exact .inl (limits_ne hn)
  case recordFailure key now =>
    by_cases hk : accountKey lower email = key
    case pos =>
      subst hk
      exact .inr <| .inr ⟨now, rfl, limits_self⟩
    case neg => exact .inl (limits_ne hk)
  case deleteLimit key =>
    by_cases hk : accountKey lower email = key
    case pos =>
      subst hk
      exact .inr <| .inl ⟨rfl, limits_self⟩
    case neg => exact .inl (limits_ne hk)
  all_goals exact .inl rfl

-- The row of an account that is blocked counts no failures, and it has been blocked before.
def AuthRateLimit.Settled (row : AuthRateLimit) : Prop :=
  row.blockedUntil.isSome → row.failures = 0 ∧ 0 < row.lockoutLevel

def Settled (lower : String → String) (email : String) (s : Store) : Prop :=
  ∀ row, s.limits (accountKey lower email) = some row → row.Settled

theorem recordFailure_settled {now : Time} (r : Option AuthRateLimit) :
    (recordFailure now r).Settled := by
  intro ht
  cases r
  case none   => nomatch ht
  case some r =>
    simp only [recordFailure] at ht ⊢
    split at ht
    case isFalse   => nomatch ht
    case isTrue hf => simp [hf]

theorem Settled.exec (h : Settled lower email s) (hc : c.Apart) :
    Settled lower email (Auth.exec c s).2 := by
  intro row hr
  obtain he | ⟨_, he⟩ | ⟨now, _, he⟩ := exec_limits lower s email hc
  case inl     => exact h row (he ▸ hr)
  case inr.inl => nomatch he.symm.trans hr
  case inr.inr => exact Option.some.inj (he.symm.trans hr) ▸ recordFailure_settled _

-- The failure of an attempt on an account that is blocked is the first one that its row counts, so
-- that it lifts the block.
theorem recordFailure_lifts {now : Time} (h : row.Settled) (hb : row.blockedUntil = some t) :
    (recordFailure now (some row)).blockedUntil = none := by
  have hf := (h (by simp [hb])).left
  simp [recordFailure, hf]

-- A failed attempt on an account reaches the upsert of `recordLoginFailure`.
def recordsFailure (lower : String → String) (email : String) (p : Logins) (i : Nat) : Bool :=
  match p.next? i with
  | some (_, .recordFailure key _) => key = accountKey lower email
  | _                              => false

-- No failure of an account is recorded before a given time.
def NoFailure (lower : String → String) (email : String) (t : Time) (p : Logins) :
    Pool.Event Credentials World → Prop
  | .serve i => p.state.clock < t → recordsFailure lower email p i = false
  | _        => True

instance : Decidable (NoFailure lower email t p e) := by
  unfold NoFailure
  split <;> infer_instance

-- No login to an account is successful.
def Fails (lower : String → String) (email : String) (p : Logins) : Pool.Event Credentials World → Prop
  | .serve i =>
    match p.next? i with
    | some (_, .deleteLimit key) => key ≠ accountKey lower email
    | _                          => True
  | _ => True

instance : Decidable (Fails lower email p e) := by
  unfold Fails
  split
  case h_1 => split <;> infer_instance
  case h_2 => infer_instance

-- An account is locked until a given time.
def Locked (lower : String → String) (email : String) (t : Time) (s : Store) : Prop :=
  s.clock < t → s.blockedUntil? lower email = some t

theorem exec_clock : (exec c s).2.clock = s.clock := by
  cases c <;> rfl

theorem Locked.serve (h : Locked lower email t p.state) (hi : p.Issues Cmd.Apart)
    (hc : NoFailure lower email t p (.serve i)) (hf : Fails lower email p (.serve i)) :
    Locked lower email t (p.serve i).state := by
  obtain hs | ⟨q, c, k, hk, hs⟩ := p.serve_cases i <;> rw [hs]
  case inl => exact h
  case inr =>
    have hn : p.next? i = some (q, c) := Pool.next?_eq_some.mpr ⟨k, hk⟩
    intro hclock
    rw [exec_clock] at hclock
    obtain he | ⟨rfl, _⟩ | ⟨now, rfl, he⟩ := exec_limits lower p.state email (hi.next? hn)
    case inl     => rw [Store.blockedUntil?, he]; exact h hclock
    case inr.inl => simp [Fails, hn] at hf
    case inr.inr => simp [NoFailure, recordsFailure, hn, hclock] at hc

theorem cleanup_limits {cutoff : Time} (ht : Settled lower email s)
    (h : s.blockedUntil? lower email = some t) : (s.cleanup cutoff).blockedUntil? lower email = some t := by
  have ⟨row, hr, hb⟩ := Option.bind_eq_some_iff.mp h
  have ⟨_, hl⟩ := ht row hr (by simp [hb])
  simp [Store.blockedUntil?, Store.cleanup, hr, Option.filter, Nat.ne_of_gt hl, hb]

theorem Locked.world {w : World} (h : Locked lower email t s) (ht : Settled lower email s) :
    Locked lower email t (w.apply s) := by
  intro hc
  cases w
  case elapse ms => exact h (Nat.lt_of_le_of_lt (Nat.le_add_right _ ms) hc)
  case cleanup   => exact cleanup_limits ht (h hc)

structure Sound (lower : String → String) (email : String) (p : Logins) : Prop where
  issues  : p.Issues Cmd.Apart
  settled : Settled lower email p.state

theorem Sound.next (h : Sound lower email p) : Sound lower email ((interleaved deps).next p e) := by
  have ⟨hi, ht⟩ := h
  cases e
  case start q => exact ⟨hi.start login_apart, ht⟩
  case fail i  => exact ⟨hi.fail, by simpa using ht⟩
  case serve i =>
    refine ⟨hi.serve, ?_⟩
    obtain hs | ⟨q, c, k, hk, hs⟩ := p.serve_cases i <;> simp only [hs]
    case inl => exact ht
    case inr => exact ht.exec <| hi.next? (Pool.next?_eq_some.mpr ⟨k, hk⟩)
  case world w =>
    refine ⟨hi, ?_⟩
    cases w
    case elapse  => exact ht
    case cleanup => exact fun row hr => ht row (Option.filter_eq_some_iff.mp hr).left

theorem Sound.run {es : List (Pool.Event Credentials World)} (hs : s.limits = fun _ => none) :
    Sound lower email ((interleaved deps).run (Pool.idle s) es) :=
  System.always (fun _ _ => Sound.next) ⟨.idle, fun _ hr => by simp [Pool.idle, hs] at hr⟩

theorem Locked.next (h : Locked lower email t p.state) (hs : Sound lower email p)
    (hc : NoFailure lower email t p e ∧ Fails lower email p e) :
    Locked lower email t ((interleaved deps).next p e).state := by
  cases e
  case start q => exact h
  case fail i  => simpa using h
  case serve i => exact h.serve hs.issues hc.left hc.right
  case world w => exact h.world hs.settled

-- A failure that is recorded during a lockout.
theorem Sound.lifts (hs : Sound lower email p) (ht : p.state.blockedUntil? lower email = some t)
    (hr : recordsFailure lower email p i = true) :
    (p.serve i).state.blockedUntil? lower email = none := by
  unfold recordsFailure at hr
  split at hr
  case h_2 => nomatch hr
  case h_1 q key now hn =>
    cases of_decide_eq_true hr
    have ⟨k, hk⟩ := Pool.next?_eq_some.mp hn
    have ⟨row, hrow, hb⟩ := Option.bind_eq_some_iff.mp ht
    rw [Pool.serve_of_call hk]
    simp only [exec, Store.blockedUntil?, limits_self, hrow, Option.bind_some]
    exact recordFailure_lifts (hs.settled row hrow) hb

-- Once an account is locked until a time `t`, it accepts no attempt before `t` in any run in which no
-- login is successful and no failure is recorded before `t`. A failure that is recorded ends the
-- lockout at once, for every address that is not blocked itself.
theorem lockout_stands {es : List (Pool.Event Credentials World)} (hs : s.limits = fun _ => none)
    (ht : ((interleaved deps).run (Pool.idle s) es).state.blockedUntil? deps.toLowerCase email =
      some t) :
    (∀ es' ip,
      (interleaved deps).Meets (Fails deps.toLowerCase email)
        ((interleaved deps).run (Pool.idle s) es) es' →
      (interleaved deps).Meets (NoFailure deps.toLowerCase email t)
        ((interleaved deps).run (Pool.idle s) es) es' →
      ((interleaved deps).run (Pool.idle s) (es ++ es')).state.clock < t →
      accepts ((interleaved deps).run (Pool.idle s) (es ++ es')).state deps.toLowerCase email ip =
        false) ∧
    ∀ i ip,
      recordsFailure deps.toLowerCase email ((interleaved deps).run (Pool.idle s) es) i = true →
      let s' := ((interleaved deps).run (Pool.idle s) (es ++ [.serve i])).state
      s'.blocked? [(ipBucket ip).key] s'.clock = none → accepts s' deps.toLowerCase email ip = true := by
  have hsound : Sound deps.toLowerCase email ((interleaved deps).run (Pool.idle s) es) := .run hs
  constructor
  case left =>
    intro es' ip hf hc hb
    rw [System.run_append] at hb ⊢
    have hrun := System.invariant (S := interleaved deps)
      (I := fun p => Sound deps.toLowerCase email p ∧ Locked deps.toLowerCase email t p.state)
      (fun _ _ h hc => ⟨h.left.next, h.right.next h.left hc⟩) ⟨hsound, fun _ => ht⟩ (hc.and hf)
    exact not_accepts (hrun.right hb) hb
  case right =>
    intro i ip hr s' hi
    have hs' : s' = (((interleaved deps).run (Pool.idle s) es).serve i).state :=
      congrArg Pool.state System.run_append
    exact accepts_of_unblocked (hs' ▸ hsound.lifts ht hr) hi

-- A site where no challenge is ever solved.
def External.closed : External where
  toLowerCase           := Jobs.toLowerCase
  verifyMathChallenge _ _   := false
  verifyRecaptcha     _ _ _ := .ok false
  verifyPassword      _ _   := false
  DUMMY_PASSWORD_HASH       := ""

def guess : Credentials where
  email              := "admin@example.org"
  password           := "guess"
  ip                 := "203.0.113.7"
  mathChallengeToken := ""
  mathAnswer         := ""

-- A number of attempts pass the check before the first of them fails.
def attempts (n : Nat) : List (Pool.Event Credentials World) :=
  List.replicate n (.start guess) ++
  (List.range n).flatMap fun i => [.serve i, .serve i]

-- An attempt that has passed the check fails.
def failure (i : Nat) : List (Pool.Event Credentials World) :=
  List.replicate 4 (.serve i)

-- Four attempts pass the check, and the first three of them fail. The failure of the fourth one is about
-- to be recorded.
def locked : List (Pool.Event Credentials World) :=
  attempts 4 ++ [0, 1, 2].flatMap failure ++ List.replicate 3 (.serve 3)

-- An attempt that comes later is refused. The failure of the fourth one would lift the lockout.
theorem lockout_stands_refused :
    (accepts ((interleaved .closed).run (Pool.idle {})
      (locked ++ [.world (.elapse 299999), .start guess, .serve 4, .serve 4])).state toLowerCase
        "admin@example.org" "203.0.113.7" = false) ∧
    accepts ((interleaved .closed).run (Pool.idle {}) (locked ++ [.serve 3])).state toLowerCase
      "admin@example.org" "203.0.113.7" = true :=
  have ht : ((interleaved .closed).run (Pool.idle {}) locked).state.blockedUntil? toLowerCase
      "admin@example.org" = some 300000 := by decide +kernel
  have h := lockout_stands rfl ht
  ⟨h.left _ _ (by decide +kernel) (by decide +kernel) (by decide +kernel),
    h.right 3 _ (by decide +kernel) (by decide +kernel)⟩

-- The failure of a fourth attempt, which has passed the check before the account was locked, lifts
-- the lockout at once.
theorem lockout_lifted_fourthFailure :
    (((interleaved .closed).run (Pool.idle {})
      (attempts 4 ++ [0, 1, 2].flatMap failure)).state.blockedUntil? toLowerCase "admin@example.org" =
        some 300000) ∧
    accepts ((interleaved .closed).run (Pool.idle {})
      (attempts 4 ++ [0, 1, 2].flatMap failure ++ failure 3)).state toLowerCase "admin@example.org"
        "203.0.113.7" = true := by
  decide +kernel

end Auth
