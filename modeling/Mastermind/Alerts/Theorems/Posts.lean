import Mastermind.Alerts.Theorems.Limits

open Effects Prog Jobs Limits

namespace Alerts

-- A program has the right to a number of requests for a key. A message that is let through adds to it
-- what the attempts to send it can take.
def permits (key : RateLimitKey) : Environment controlPlane Nat where
  allows n c       := ∀ post, c = .post post → post.key = key → 0 < n
  answers n c r n' := n' = n + granted key c r - (if requests key c then 1 else 0)
  ends _ _         := False
where
  granted (key : RateLimitKey) : (c : Cmd) → Except Exception c.Ans → Nat
    | .tryConsumeRateLimit k, .ok true => if k = key then DISCORD_RETRY_ATTEMPTS else 0
    | _, _ => 0
  requests (key : RateLimitKey) : Cmd → Bool
    | .post post => post.key = key
    | _          => false

section

variable {α β : Type} {key : RateLimitKey}

-- A program that makes no request for the key without a right to it.
def Entitled (key : RateLimitKey) (p : Service α) : Prop :=
  ∀ n, p.wp (permits key) (fun _ _ => True) n

theorem Entitled.pure {a : α} : Entitled key (pure a : Service α) :=
  fun _ => trivial

theorem Entitled.throw {e : Exception} : Entitled key (.throw e : Service α) :=
  fun _ => trivial

theorem Entitled.bind {p : Service α} {f : α → Service β} (h : Entitled key p)
    (hf : ∀ a, Entitled key (f a)) : Entitled key (p >>= f) := by
  intro n
  refine wp_bind.mpr (wp_mono (h n) fun r m _ => ?_)
  cases r
  case ok a  => exact hf a m
  case error => trivial
  case ended => trivial

theorem Entitled.send {c : Cmd} (h : ∀ post, c ≠ .post post) : Entitled key (send c) :=
  fun _ => ⟨fun post hc => absurd hc (h post), fun r _ _ => by cases r <;> trivial, fun h => h.elim⟩

theorem Entitled.forEach {f : α → Service Unit} {xs : List α} (h : ∀ x, Entitled key (f x)) :
    Entitled key (.forEach f xs) := by
  induction xs
  case nil          => exact .pure
  case cons x xs hi => exact (h x).bind fun _ => hi

end

variable {key : RateLimitKey}

-- What is left of the attempts needs a right to each of them.
theorem wp_attempts {post : Post} {last : PostResult} {delay n m : Nat} (h : post.key = key → n ≤ m) :
    (DiscordService.attempts post last delay n).wp (permits key) (fun _ _ => True) m := by
  induction n generalizing last delay m
  case zero => trivial
  case succ n hi =>
    refine ⟨fun p hp hk => ?_, fun r m' hr => ?_, fun h => h.elim⟩
    case refine_1 =>
      cases hp
      have := h hk
      omega
    case refine_2 =>
      have hm : post.key = key → n ≤ m' := by
        intro hk
        have := h hk
        have : m' = m + 0 - (if decide (post.key = key) then 1 else 0) := hr
        simp only [hk, decide_true, ite_true] at this
        omega
      cases r
      case error => trivial
      case ok r =>
        cases r
        case ok => trivial
        case error statusCode error =>
          change wp (permits key) (fun _ _ => True)
            (if DiscordService.retries statusCode then do
              Alerts.send (.sleep delay)
              DiscordService.attempts post (.error statusCode error)
                (min (delay * 2) DISCORD_RETRY_MAX_MS) n
            else return .error statusCode error) m'
          split
          case isFalse => trivial
          case isTrue =>
            refine ⟨fun _ hc => (nomatch hc), fun r m'' hr => ?_, fun h => h.elim⟩
            cases r
            case error => trivial
            case ok =>
              have hr : m'' = m' := hr
              exact hi (hr ▸ hm)

theorem entitled_send {webhookUrl : String} {payload : DiscordWebhookPayload} {k : RateLimitKey} :
    Entitled key (DiscordService.send webhookUrl payload k) := by
  intro n
  refine ⟨fun _ hc => (nomatch hc), fun r m hr => ?_, fun h => h.elim⟩
  cases r
  case error => trivial
  case ok admitted =>
    cases admitted
    case false => trivial
    case true =>
      refine wp_attempts fun hk => ?_
      have hr : m = n + (if k = key then DISCORD_RETRY_ATTEMPTS else 0) - 0 := hr
      rw [if_pos hk] at hr
      omega

variable {upper lower : String → String} {parseUrl : String → Option AlertsService.URL}

open AlertsService

theorem entitled_auditAlert {orgId : OrgId} {type : AlertType} {success : Bool} {error : Option String} :
    Entitled key (auditAlert orgId type success error) :=
  .send fun _ hc => nomatch hc

theorem entitled_sendToRules {type : AlertType} {context : AlertContext} :
    Entitled key (sendToRules upper lower type context) := by
  refine .bind (.send fun _ hc => nomatch hc) fun org => ?_
  refine .bind (.send fun _ hc => nomatch hc) fun rules => ?_
  refine .bind (.send fun _ hc => nomatch hc) fun now => .forEach fun rule => ?_
  rw [sendRule]
  split
  case h_1 => exact .pure
  case h_2 => exact .bind entitled_send fun _ => entitled_auditAlert

theorem entitled_testRule {orgId : OrgId} {ruleId : RuleId} {userId : UserId} :
    Entitled key (testRule lower parseUrl orgId ruleId userId) := by
  refine .bind (.send fun _ hc => nomatch hc) fun rule => ?_
  cases rule
  case none => exact .throw
  case some rule =>
    dsimp only
    split
    case isTrue => exact .pure
    case isFalse =>
      split
      case h_1 => exact .pure
      case h_2 =>
        split
        case isTrue => exact .pure
        case isFalse =>
          refine .bind (.send fun _ hc => nomatch hc) fun now => ?_
          refine .bind entitled_send fun result => ?_
          exact .bind (.send fun _ hc => nomatch hc) fun _ => .pure

theorem entitled_sendAlert {type : AlertType} {context : AlertContext} :
    Entitled key (sendAlert type context) := by
  refine .bind (.send fun _ hc => nomatch hc) fun org => ?_
  dsimp only
  split
  case h_1 => exact .bind entitled_auditAlert fun _ => .pure
  case h_2 =>
    refine .bind (.send fun _ hc => nomatch hc) fun now => ?_
    exact .bind entitled_send fun _ => .bind entitled_auditAlert fun _ => .pure

theorem entitled_serve (q : Request) : Entitled key (serve upper lower parseUrl q) := by
  cases q
  case createRule => exact .bind (.send fun _ hc => nomatch hc) fun _ => .pure
  case updateRule =>
    refine .bind (.send fun _ hc => nomatch hc) fun rule => ?_
    cases rule
    case none => exact .throw
    case some => exact .send fun _ hc => nomatch hc
  case deleteRule =>
    refine .bind (.send fun _ hc => nomatch hc) fun rule => ?_
    cases rule
    case none => exact .throw
    case some => exact .send fun _ hc => nomatch hc
  case testRule => exact .bind entitled_testRule fun _ => .pure
  case alert    => exact .bind entitled_sendAlert fun _ => .pure
  case relay    => exact .bind entitled_send fun _ => .pure
  case matching type context =>
    rw [serve, sendMatchingRules]
    split
    case h_1 => exact entitled_sendToRules
    case h_2 =>
      refine .bind (.send fun _ hc => nomatch hc) fun admitted => ?_
      cases admitted
      case true  => exact entitled_sendToRules
      case false => exact .pure

-- The requests that were made and those that programs have a right to are covered by the messages
-- that were let through.
def Covered (key : RateLimitKey) (n : Nat) (s : Store) : Prop :=
  s.postsOf key + n ≤ DISCORD_RETRY_ATTEMPTS * (accepted (s.sendsOf key)).length

-- The other commands have nothing to do with it.
theorem exec_histories {c : Cmd} {s : Store} (hp : ∀ post, c ≠ .post post)
    (hc : ∀ k, c ≠ .tryConsumeRateLimit k) :
    (exec c s).2.posts = s.posts ∧ (exec c s).2.sends = s.sends := by
  cases c
  case post post               => exact absurd rfl (hp post)
  case tryConsumeRateLimit key => exact absurd rfl (hc key)
  all_goals
    rw [exec]
    try split
    all_goals exact ⟨rfl, rfl⟩

theorem covered_other {c : Cmd} {s : Store} {m rest : Nat} (hr : Covered key (m + rest) s)
    (hp : ∀ post, c ≠ .post post) (hc : ∀ k, c ≠ .tryConsumeRateLimit k) :
    ∃ m', (permits key).answers m c (exec c s).1 m' ∧ Covered key (m' + rest) (exec c s).2 := by
  obtain ⟨hp', hs'⟩ := exec_histories (s := s) hp hc
  refine ⟨_, rfl, ?_⟩
  rw [Covered, Store.postsOf, Store.sendsOf, hp', hs']
  have hg : permits.granted key c (exec c s).1 = 0 := by
    cases c
    case tryConsumeRateLimit k => exact absurd rfl (hc k)
    all_goals rfl
  have hr : s.postsOf key + (m + rest) ≤
      DISCORD_RETRY_ATTEMPTS * (accepted (s.sendsOf key)).length := hr
  rw [hg]
  exact Nat.le_trans (Nat.add_le_add_left (Nat.add_le_add_right (Nat.sub_le ..) rest) _) hr

theorem covered_exec {c : Cmd} {s : Store} {m rest : Nat} (ha : (permits key).allows m c)
    (hr : Covered key (m + rest) s) :
    ∃ m', (permits key).answers m c (exec c s).1 m' ∧ Covered key (m' + rest) (exec c s).2 := by
  cases c
  case tryConsumeRateLimit k =>
    refine ⟨_, rfl, ?_⟩
    change s.postsOf key + (m + permits.granted key (.tryConsumeRateLimit k)
      (.ok (s.tryConsumeRateLimit k).1) - 0 + rest) ≤ DISCORD_RETRY_ATTEMPTS *
        (accepted (decisionsOf key ((k, s.clock, (s.tryConsumeRateLimit k).1) :: s.sends))).length
    have hr : s.postsOf key + (m + rest) ≤
        DISCORD_RETRY_ATTEMPTS * (accepted (decisionsOf key s.sends)).length := hr
    by_cases hk : key = k
    case neg =>
      rw [decisionsOf_cons_of_ne hk]
      have hg : permits.granted key (.tryConsumeRateLimit k) (.ok (s.tryConsumeRateLimit k).1) = 0 := by
        cases (s.tryConsumeRateLimit k).1
        case false => rfl
        case true  => exact if_neg (Ne.symm hk)
      omega
    case pos =>
      subst hk
      rw [decisionsOf_cons_self]
      cases (s.tryConsumeRateLimit key).1
      case false => exact hr
      case true =>
        have hg : permits.granted key (.tryConsumeRateLimit key) (.ok true) = DISCORD_RETRY_ATTEMPTS :=
          if_pos rfl
        rw [accepted_cons_true, List.length_cons, Nat.mul_succ]
        omega
  case post post =>
    refine ⟨_, rfl, ?_⟩
    rw [Covered] at hr
    have hp : Store.postsOf { s with posts := post :: s.posts } key =
        s.postsOf key + (if permits.requests key (.post post) then 1 else 0) := by
      simp [Store.postsOf, List.countP_cons, permits.requests]
    change Store.postsOf { s with posts := post :: s.posts } key +
      (m + 0 - (if permits.requests key (.post post) then 1 else 0) + rest) ≤
        DISCORD_RETRY_ATTEMPTS * (accepted (s.sendsOf key)).length
    rw [hp]
    split
    case isFalse => exact hr
    case isTrue hk =>
      have := ha post rfl (of_decide_eq_true hk)
      omega
  all_goals exact covered_other hr (fun _ hc => nomatch hc) (fun _ hc => nomatch hc)

theorem covered_fail {c : Cmd} {s : Store} {m rest : Nat} (hr : Covered key (m + rest) s) :
    ∃ m', (permits key).answers m c (.error .storage) m' ∧ Covered key (m' + rest) s := by
  refine ⟨_, rfl, ?_⟩
  have hg : permits.granted key c (.error .storage) = 0 := by cases c <;> rfl
  rw [Covered] at hr ⊢
  omega

section

variable {s : Store} {es : List (requests upper lower parseUrl).Event}

theorem covered_run (h : s.Booted) (key : RateLimitKey) :
    Pool.Shares (fun _ => permits key) (Covered key) (fun _ _ _ => True)
      ((requests upper lower parseUrl).run (.idle s) es) := by
  refine System.always (S := requests upper lower parseUrl) (fun p e hp => ?_) (.idle ?_)
  case refine_2 =>
    rw [Covered, Store.postsOf, h.posts]
    exact Nat.zero_le _
  case refine_1 =>
    cases e
    case start q  => exact hp.start (entitled_serve q 0)
    case serve i  => exact hp.serve fun _ _ _ _ _ => covered_exec
    case fail i   => exact hp.fail fun _ _ _ _ _ => covered_fail
    case world ms => exact hp.world fun _ => id

-- No more requests are made for a key than the attempts that the messages let through can take.
theorem posts_le_attempts (h : s.Booted) (key : RateLimitKey) :
    ((requests upper lower parseUrl).run (.idle s) es).state.postsOf key ≤
      3 * (accepted (((requests upper lower parseUrl).run (.idle s) es).state.sendsOf key)).length := by
  have hs : Pool.Shares _ _ _ ((requests upper lower parseUrl).run (.idle s) es) := covered_run h key
  obtain ⟨_, _, _, hc⟩ := hs
  exact Nat.le_of_add_right_le hc

end

-- The first two requests are answered with an error.
def outage : Store :=
  { discord := fun n => if n < 2 then .error (some 503) "Service Unavailable" else .ok }

-- A message that is sent with all its attempts.
def threeAttempts : List (requests id id fun _ => none).Event :=
  .start (.relay "https://discord.com" {} (.donation 0)) :: .replicate 6 (.serve 0)

theorem posts_le_attempts_retried :
    let s := ((requests id id fun _ => none).run (.idle outage) threeAttempts).state
    (s.postsOf (.donation 0) ≤ 3 * (accepted (s.sendsOf (.donation 0))).length) ∧
    s.postsOf (.donation 0) = 3 ∧ (accepted (s.sendsOf (.donation 0))).length = 1 :=
  ⟨posts_le_attempts ⟨rfl, rfl, rfl, rfl, rfl⟩ (.donation 0), by decide +kernel⟩

end Alerts
