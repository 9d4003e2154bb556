import Mastermind.Players.Theorems.Desk
import Mastermind.Players.Theorems.FirstJoin

open Effects Js Jobs Triggers

namespace Players

section

variable [Naming]

-- A command that does not touch the desk.
def Aside (c : Cmd) : Prop :=
  ∀ s, (exec c s).2.desk = s.desk

variable {s : Store} {d : Desk} {id : FireId} {fire : TriggerFire} {data : FireData}

theorem exec_updateFire (hf : s.fire? id = some fire) :
    exec (.updateFire id data) s =
      (.ok (), { s with fires := s.fires.modify id (Row.modify data.apply) }) := by
  rw [exec, hf]

section

open Effects.Prog

variable {triggerId : TriggerId} {trigger : Trigger} {player : TriggerPlayer} {eventKey : String}
  {action : GrantItemsActionConfig} {recordFire : Bool} {rows : List FireRow} {orgId : OrgId}
  {serverInstanceId : ServerId}

theorem wp_aside {α : Type} {p : Service α} (h : Only Aside p) (hs : s.desk = d) :
    wp (under roster .none) (fun _ s' => s'.desk = d) p s :=
  h.wp_under (fun s _ hc hs => (hc s).trans hs) hs

theorem aside_touchTrigger {now : Time} : Aside (.touchTrigger triggerId now) := by
  intro s
  rw [exec]
  split <;> rfl

theorem wp_updateFire (hf : s.fire? id = some fire) :
    wp (under roster .none) (returns fun s' => s'.desk = s.desk.update id data)
      (updateFire (some id) data) s := by
  have hx : exec (.updateFire id data) s = _ := exec_updateFire hf
  exact wp_last hx rfl fun _ _ => False.elim

theorem wp_exhaustedFire (hf : s.fire? id = some fire) :
    wp (under roster .none) (fun r s' => s' = s ∧ (r = .ok none ∨ r = .ok (some (id, fire))))
      (exhaustedFire (some id)) s := by
  refine wp_step rfl ?_ fun _ _ => False.elim
  rw [hf]
  simp only
  split
  case isTrue  => exact ⟨rfl, .inr rfl⟩
  case isFalse => exact ⟨rfl, .inl rfl⟩

-- A fire that nothing is on its way for gets a job, or it does not.
theorem wp_giveItems (h : Orderly s.desk) (hi : s.desk.Idle id) (hf : s.fire? id = some fire)
    (hs : fire.status ≠ .delivered) :
    wp (under roster .none) (fun _ s' => Served s.desk s'.desk id)
      (giveItems triggerId trigger player eventKey action recordFire (some id)) s := by
  have hupdate : ∀ data, wp (under roster .none) (fun _ s' => Served s.desk s'.desk id)
      (updateFire (some id) data) s := fun data =>
    wp_mono (wp_updateFire hf) fun _ s' hr => by rw [hr.state]; exact .update h hi hf hs
  rw [giveItems]
  split
  case isTrue  => exact hupdate _
  case isFalse =>
    refine wp_bind.mpr <| wp_mono (wp_exhaustedFire hf) ?_
    rintro r s ⟨rfl, rfl | rfl⟩
    case inr => exact hupdate _
    case inl =>
      let job : Job := {
        orgId            := trigger.orgId
        createdById      := trigger.createdById
        serverInstanceId := trigger.serverInstanceId
        type             := "TRIGGER_GRANT_ITEMS"
        payload          := grantPayload triggerId (some id) player eventKey action }
      cases hserver : s.servers[trigger.serverInstanceId]?.any (·.orgId = trigger.orgId)
      case false =>
        have hx : exec (.enqueueInternalJob trigger.orgId trigger.createdById trigger.serverInstanceId
            "TRIGGER_GRANT_ITEMS" (grantPayload triggerId (some id) player eventKey action)) s =
            (.error .storage, s) := by simp [exec, hserver]
        exact wp_step_error hx (Served.refl h) fun _ _ => False.elim
      case true =>
        have hx : exec (.enqueueInternalJob trigger.orgId trigger.createdById trigger.serverInstanceId
            "TRIGGER_GRANT_ITEMS" (grantPayload triggerId (some id) player eventKey action)) s =
            (.ok s.jobs.length, { s with jobs := s.jobs ++ [job] }) := by simp [exec, hserver, job]
        refine wp_step hx ?_ fun _ _ => False.elim
        have hf' : Store.fire? { s with jobs := s.jobs ++ [job] } id = some fire := hf
        refine wp_bind_keeps ?_ fun _ s' hs' => ?_
        case refine_1 =>
          refine wp_mono (wp_updateFire hf') fun _ s' hr => ?_
          rw [hr.state]
          exact .enqueue h hi hf hs rfl rfl
        case refine_2 =>
          have htail : Only Aside (if recordFire ∧ (some id).isSome then do
              let now ← send .now
              send (.touchTrigger triggerId now)
            else return) :=
            .ite (.bind (.perform fun _ => rfl) fun _ => .perform aside_touchTrigger) .pure
          exact wp_mono (wp_aside htail rfl) fun _ _ he => he ▸ hs'

theorem wp_retry (h : Orderly s.desk) (hf : s.fire? id = some fire) (hp : fire.status = .pending)
    (hid : player.id = fire.playerId) :
    wp (under roster .none) (fun _ s' => Served s.desk s'.desk id)
      (enqueueGrantItems fire.triggerId trigger player fire.eventKey false) s := by
  rw [enqueueGrantItems]
  split
  case h_1 => exact Served.refl h
  case h_2 =>
    obtain ⟨f, hfired⟩ := fired?_of_fire h hf
    apply wp_bind.mpr
    refine wp_step rfl ?_ fun _ _ => False.elim
    rw [hid, hfired]
    have hi := h.idle_of_status hf (by simp [hp])
    exact wp_giveItems h hi hf (by simp [hp])

theorem wp_fireOnce_desk (h : Orderly s.desk) :
    wp (under roster .none) (fun _ s' => Orderly s'.desk ∧ s.desk.Keeps s'.desk)
      (fireOnce triggerId trigger player eventKey) s := by
  have hsame : Orderly s.desk ∧ s.desk.Keeps s.desk := ⟨h, .refl⟩
  refine wp_step rfl ?_ fun _ _ => False.elim
  cases hn : s.fired? triggerId player.id eventKey
  case some => exact hsame
  case none =>
    simp only [enqueueGrantItems]
    split
    case h_1 => exact hsame
    case h_2 action _ =>
      let fire : TriggerFire := {
        triggerId, playerId := player.id, eventKey
        status := if player.online then .queued else .pending, createdAt := s.clock }
      let s₁ : Store := { s with fires := s.fires ++ [⟨fire, true⟩] }
      have hx : exec (.createFire triggerId player.id eventKey
          (if player.online then .queued else .pending)) s = (.ok s.fires.length, s₁) := by
        simp [exec, hn, fire, s₁]
      have hc : Orderly s₁.desk := h.create fun k f hf => fired?_none_mark hn hf
      have hi : s₁.desk.Idle s.fires.length := h.idle_create
      have hf : s₁.fire? s.fires.length = some fire := by simp [Store.fire?, live?_append, s₁]
      have hs : fire.status ≠ .delivered := by
        simp only [fire]
        split <;> rintro ⟨⟩
      have hgive : wp (under roster .none) (fun _ s' => Orderly s'.desk ∧ s.desk.Keeps s'.desk)
          (giveItems triggerId trigger player eventKey action true (some s.fires.length)) s₁ :=
        wp_mono (wp_giveItems hc hi hf hs) fun _ _ hr =>
          ⟨hr.orderly, Desk.Keeps.create.trans hr.keeps⟩
      apply wp_bind.mpr
      apply wp_handle.mpr
      exact wp_step hx hgive fun _ _ => False.elim

theorem wp_retryFires (h : Orderly s.desk) (hr : ∀ row ∈ rows, Waits s row)
    (hn : (rows.map Prod.fst).Nodup) :
    wp (under roster .none) (fun _ s' => Orderly s'.desk ∧ s.desk.Keeps s'.desk)
      (retryFires rows) s := by
  induction rows generalizing s
  case nil => exact ⟨h, .refl⟩
  case cons row rows hi =>
    obtain ⟨id, fire, trigger, playerId, p⟩ := row
    have ⟨hm, hn⟩ := List.nodup_cons.mp hn
    have hw := hr _ List.mem_cons_self
    have hrow : wp (under roster .none) (fun _ s' => Served s.desk s'.desk id)
        (ignoreErrors (enqueueGrantItems fire.triggerId trigger (.ofRow playerId p) fire.eventKey false))
        s := wp_handle_keeps (wp_retry h hw.fire hw.status hw.player) fun _ _ hs => hs
    refine wp_bind_via hrow (fun _ hs => ⟨hs.orderly, hs.keeps⟩) fun _ s' hs => ?_
    have hrest : ∀ row ∈ rows, Waits s' row := by
      intro row hrow
      have hw := hr row <| List.mem_cons_of_mem _ hrow
      have hne : row.1 ≠ id := fun he => hm <| List.mem_map.mpr ⟨row, hrow, he⟩
      exact ⟨(hs.frame row.1 hne).trans hw.fire, hw.status, hw.player⟩
    exact wp_mono (hi hs.orderly hrest hn) fun _ _ hr => ⟨hr.left, hs.keeps.trans hr.right⟩

theorem wp_retryPendingItemGrantsForPlayer {playerId : PlayerId} (h : Orderly s.desk) :
    wp (under roster .none) (fun _ s' => Orderly s'.desk ∧ s.desk.Keeps s'.desk)
      (retryPendingItemGrantsForPlayer playerId) s := by
  refine wp_step rfl ?_ fun _ _ => False.elim
  exact wp_retryFires h (fun row hm => waits_of_mem (List.mem_of_mem_take hm))
    (pendingFires_nodup.sublist <| (List.take_sublist _ _).map _)

theorem wp_retryPendingItemGrants (h : Orderly s.desk)
    (hi : ∀ e ∈ s.fires.entries, s.isStale orgId serverInstanceId (s.clock - 5 * 60000) e.2 = true →
      s.desk.Idle e.1) :
    wp (under roster .none) (fun _ s' => Orderly s'.desk ∧ s.desk.Keeps s'.desk)
      (retryPendingItemGrants orgId serverInstanceId) s := by
  refine wp_step rfl ?_ fun _ _ => False.elim
  refine wp_step rfl ?_ fun _ _ => False.elim
  refine wp_step rfl ?_ fun _ _ => False.elim
  refine wp_mono (wp_retryFires (h.reset hi) (fun row hm => waits_of_mem (List.mem_of_mem_take hm))
    (pendingFires_nodup.sublist <| (List.take_sublist _ _).map _)) fun _ _ hr => ?_
  exact ⟨hr.left, keeps_reset.trans hr.right⟩

-- The outcome of a job settles the fire that has waited for it.
theorem wp_completeItemGrant {payload : GrantPayload} (h : Orderly s.desk)
    (hi : ∀ id, payload.triggerFireId = some id → s.desk.Idle id ∧
      ∀ fire, s.fire? id = some fire → fire.status ≠ .delivered)
    (runStatus : RunStatus) (output : String) :
    wp (under roster .none) (fun _ s' => Orderly s'.desk ∧ s.desk.Keeps s'.desk)
      (completeItemGrant payload runStatus output) s := by
  rw [completeItemGrant]
  split
  case h_1 => exact ⟨h, .refl⟩
  case h_2 id hid =>
    obtain ⟨hi, hs⟩ := hi id hid
    refine wp_step rfl ?_ fun _ _ => False.elim
    cases hf : s.fire? id
    case none => exact ⟨h, .refl⟩
    case some fire =>
      have hupdate : ∀ data, wp (under roster .none) (fun _ s' => Orderly s'.desk ∧ s.desk.Keeps s'.desk)
          (updateFire (some id) data) s := fun data =>
        wp_mono (wp_updateFire hf) fun _ s' hr => by
          rw [hr.state]
          exact ⟨h.update hi, .update hf (hs fire hf)⟩
      simp only
      split
      case isTrue  => exact hupdate _
      case isFalse => split <;> exact hupdate _

end

instance : Decidable (d.Idle id) :=
  inferInstanceAs <| Decidable (∀ job ∈ d.jobs, job.isFor id = true → job.reported = true)

-- No fire is reset that a job is on its way for.
def Undisturbed (s : Store) : GrantOp → Prop
  | .retryPendingItemGrants orgId serverInstanceId =>
    ∀ e ∈ s.fires.entries, s.isStale orgId serverInstanceId (s.clock - 5 * 60000) e.2 = true →
      s.desk.Idle e.1
  | _ => True

instance : ∀ s e, Decidable (Undisturbed s e)
  | s, .retryPendingItemGrants orgId serverInstanceId =>
    inferInstanceAs <| Decidable (∀ e ∈ s.fires.entries,
      s.isStale orgId serverInstanceId (s.clock - 5 * 60000) e.2 = true → s.desk.Idle e.1)
  | _, .fireOnce ..                        => .isTrue trivial
  | _, .retryPendingItemGrantsForPlayer .. => .isTrue trivial
  | _, .completeItemGrant ..               => .isTrue trivial
  | _, .elapse ..                          => .isTrue trivial
  | _, .others ..                          => .isTrue trivial

theorem Orderly.next {e : GrantOp} (h : Orderly s.desk) (hc : Undisturbed s e) :
    Orderly (grants.next s e).desk ∧ s.desk.Keeps (grants.next s e).desk := by
  cases e
  case elapse => exact ⟨h, .refl⟩
  case fireOnce => exact Prog.wp_run_nil (wp_fireOnce_desk h)
  case retryPendingItemGrants =>
    dsimp only
    exact Prog.wp_run_nil (wp_retryPendingItemGrants h hc)
  case retryPendingItemGrantsForPlayer =>
    exact Prog.wp_run_nil (wp_retryPendingItemGrantsForPlayer h)
  case completeItemGrant j runStatus output =>
    simp only [Store.report]
    split
    case h_2 => exact ⟨h, .refl⟩
    case h_1 job hj =>
      have hclose : Orderly (s.closeJob j).desk := h.close
      have hwait : ∀ id, job.payload.triggerFireId = some id → (s.closeJob j).desk.Idle id ∧
          ∀ fire, (s.closeJob j).fire? id = some fire → fire.status ≠ .delivered := by
        intro id hid
        have ho := outstanding_openJob hj hid
        refine ⟨h.idle_close ho, fun fire hf hd => ?_⟩
        have hq : fire.status = .queued := h.queued id j fire ho hf
        cases hq.symm.trans hd
      have hnext := wp_completeItemGrant hclose hwait
      obtain ⟨ho, hk⟩ := Prog.wp_run_nil (hnext runStatus output)
      exact ⟨ho, Desk.Keeps.close.trans hk⟩
  case others players triggers deleted =>
    refine ⟨?_, .of_map fun r hr => by split <;> exact hr⟩
    apply h.of_fires
    case hl => exact List.length_map _
    case hf =>
      intro k f hk
      change live? (s.fires.map fun r => if r.data.playerId ∈ deleted then r.kill else r) k = some f at hk
      have hc := live?_cascade (t := s.fires) (k := k) (p := fun f => f.playerId ∈ deleted)
      have hk := hc.symm.trans hk
      have hf := (Option.filter_eq_some_iff.mp hk).left
      exact ⟨f, hf, rfl, .inl rfl⟩

-- No fire is reset that a job is on its way for, so each fire has one job at a time.
theorem Orderly.run {es : List GrantOp} (h : Orderly s.desk) (hm : grants.Meets Undisturbed s es) :
    Orderly (grants.run s es).desk ∧ s.desk.Keeps (grants.run s es).desk :=
  System.invariant (S := grants) (I := fun s' => Orderly s'.desk ∧ s.desk.Keeps s'.desk)
    (fun _ _ hs hc => ⟨(hs.left.next hc).left, hs.right.trans (hs.left.next hc).right⟩) ⟨h, .refl⟩ hm

-- A fire has at most one job that has not been reported, and once it is delivered it stays delivered
-- and gets no further job.
theorem grants_once {es es' : List GrantOp} (hf : s.fires = []) (hj : s.jobs = [])
    (hm : grants.Meets Undisturbed s (es ++ es')) :
    (∀ id j j', (grants.run s es).desk.Outstanding id j → (grants.run s es).desk.Outstanding id j' →
      j = j') ∧
    (grants.run s es).desk.Keeps (grants.run s (es ++ es')).desk := by
  have ⟨hm, hm'⟩ := System.meets_append.mp hm
  have ho := ((Orderly.empty hf hj).run hm).left
  rw [System.run_append]
  exact ⟨ho.single, (ho.run hm').right⟩

end

attribute [local instance] Naming.ascii

-- A player on a server that gives a bread to those who join it for the first time.
def Player.alex : Player where
  orgId            := 0
  serverInstanceId := 0
  identityKey      := .uuid "ec561538-f3fd-461d-aff5-086b22154bce"
  name             := "Alex"
  online           := true
  firstSeenAt      := 1000000
  lastSeenAt       := 1000000

def Store.visited : Store :=
  { Store.welcoming with players := [⟨.alex, true⟩] }

-- Alex is away when the trigger fires, and again when the bread is given for the first time.
def secondAttempt : List GrantOp :=
  [.fireOnce 0 .bread { TriggerPlayer.ofRow 0 .alex with online := false } eventKeyForFirstJoin,
   .retryPendingItemGrantsForPlayer 0,
   .completeItemGrant 0 .success "No player was found",
   .retryPendingItemGrants 0 0,
   .completeItemGrant 1 .success "Gave 1 [Bread] to Alex"]

theorem grants_once_secondAttempt :
    (∀ id j j', (grants.run .visited secondAttempt).desk.Outstanding id j →
      (grants.run .visited secondAttempt).desk.Outstanding id j' → j = j') ∧
    (grants.run .visited secondAttempt).desk.Keeps
      (grants.run .visited (secondAttempt ++ [.elapse 300001, .retryPendingItemGrants 0 0])).desk :=
  grants_once rfl rfl (by decide +kernel)

-- After five minutes the grant is repeated, though the first job may still be on its way.
theorem grants_twice :
    let s := grants.run .visited [
      .fireOnce 0 .bread (.ofRow 0 .alex) eventKeyForFirstJoin,
      .elapse 300001,
      .retryPendingItemGrants 0 0]
    s.desk.Outstanding 0 0 ∧ s.desk.Outstanding 0 1 :=
  ⟨⟨_, rfl, rfl, rfl⟩, ⟨_, rfl, rfl, rfl⟩⟩

end Players
