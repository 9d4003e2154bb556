import Mastermind.Agent.Give
import Mastermind.Donations.ShopGrants

open Effects Prog Js Donations

namespace Agent

-- How the control plane classifies the report of a grant.
def JobReport.outcome (r : JobReport) : GrantOutcome :=
  classifyGrantOutput (some (r.output ++ " " ++ r.errorMessage)) r.status

-- A grant that is run against a console which replies in a given way.
def granting (payload : Fields) (replies : Nat → Reply) : Run rcon Granted :=
  (grantItems payload).run [] { replies }

-- The reply counts as a delivery.
def Reply.Delivers (r : Reply) : Prop :=
  grantOutputMeansDelivered r.out = true

instance {r : Reply} : Decidable r.Delivers :=
  inferInstanceAs (Decidable (_ = _))

-- A grant of which the whole list is given again has not given anything.
def RetriesNothing (payload : Fields) (replies : Nat → Reply) : Prop :=
  (reportGrant (granting payload replies).result).outcome = .retry →
    ∀ e ∈ (granting payload replies).state.sent, ¬e.2.Delivers

-- The error names a bad item or a bad command, and no absent player.
def GivesUp (error : String) : Prop :=
  mentions (" " ++ error) ["no player was found", "player not found", "must be online",
    "that player cannot be found"] = false ∧
  (mentions (" " ++ error) ["there is no such item", "unknown item", "invalid item",
    "expected item"] = true ∨
   mentions (" " ++ error) ["incorrect argument", "syntax error",
    "unknown or incomplete command"] = true)

-- All items are accepted, or the first reply is no delivery, or the reply that ends the grant is one
-- for which the control plane gives up.
def FirstOrLast (n : Nat) (replies : Nat → Reply) : Prop :=
  (∀ i < n, (replies i).refusal = none) ∨ ¬(replies 0).Delivers ∨
    ∃ i < n, (∀ j < i, (replies j).refusal = none) ∧
      ∃ error, (replies i).refusal = some error ∧ GivesUp error

variable {s : Console} {player : String} {items : List GrantItem} {outputs delivered : List String}
  {payload : Fields} {replies : Nat → Reply} {n : Nat}

theorem Reply.delivers_of_refusal {r : Reply} (h : r.refusal = none) : r.Delivers := by
  unfold refusal at h
  grind [Delivers]

-- What the loop leads to: it ends with the first reply that is refused, or it gives all items.
inductive GaveItems (s : Console) (n : Nat) {α : Type} : Result String α → Console → Prop
  | refused {i : Nat} {error : String} {s' : Console} (hi : i < n)
    (accepted : ∀ j < i, (s.replies (s.sent.length + j)).refusal = none)
    (refusal : (s.replies (s.sent.length + i)).refusal = some error)
    (sent : s'.sent.map Prod.snd =
      s.sent.map Prod.snd ++ (List.range (i + 1)).map fun j => s.replies (s.sent.length + j)) :
    GaveItems s n (.error error) s'
  | given {a : α} {s' : Console}
    (accepted : ∀ j < n, (s.replies (s.sent.length + j)).refusal = none) : GaveItems s n (.ok a) s'

-- The items after one that is given.
theorem GaveItems.succ {α : Type} {r : Result String α} {s' : Console} {cmd : String}
    (h : GaveItems { s with sent := s.sent ++ [(cmd, s.replies s.sent.length)] } n r s')
    (hr : (s.replies s.sent.length).refusal = none) : GaveItems s (n + 1) r s' := by
  have hl (j : Nat) : (s.sent ++ [(cmd, s.replies s.sent.length)]).length + j = s.sent.length + (j + 1) := by
    simp only [List.length_append, List.length_singleton]
    omega
  cases h
  case refused i error hi haccepted hrefusal hsent =>
    simp only [hl] at hsent hrefusal haccepted
    refine .refused (i := i + 1) (Nat.succ_lt_succ hi) (fun j hj => ?_) hrefusal ?_
    case refine_1 =>
      cases j
      case zero   => exact hr
      case succ j => exact haccepted j (Nat.lt_of_succ_lt_succ hj)
    case refine_2 =>
      rw [hsent, List.range_succ_eq_map (n := i + 1)]
      simp [Function.comp_def]
  case given a haccepted =>
    simp only [hl] at haccepted
    refine .given fun j hj => ?_
    cases j
    case zero   => exact hr
    case succ j => exact haccepted j (Nat.lt_of_succ_lt_succ hj)

theorem wp_giveItems :
    (giveItems player items outputs delivered).wp (under rcon .none) (GaveItems s items.length) s := by
  induction items generalizing s outputs delivered
  case nil => exact .given fun _ hj => nomatch hj
  case cons item items hi =>
    rw [giveItems]
    refine wp_step rfl ?_ fun _ _ h => h.elim
    dsimp only
    split
    case h_1 error hr =>
      exact .refused (i := 0) (Nat.succ_pos _) (fun _ hj => nomatch hj) hr (by simp)
    case h_2 hr => exact wp_mono hi fun _ _ h => h.succ hr

theorem wp_tell {message : String} {Q : Result String Unit → Console → Prop}
    (h : ∀ s, Q (.ok ()) s) : (tell player message).wp (under rcon .none) Q s := by
  rw [tell]
  split
  case isTrue  => exact h _
  case isFalse => exact wp_step rfl (h _) fun _ _ h => h.elim

theorem wp_finishGrant {message : String} {given : List String × List String}
    {Q : Result String Granted → Console → Prop} (h : ∀ g s, Q (.ok g) s) :
    (finishGrant player message given).wp (under rcon .none) Q s :=
  wp_bind.mpr (wp_tell fun _ => h _ _)

theorem grantItems_eq (hp : grantPlayerTarget payload ≠ "")
    (hi : grantItemsFromPayload payload = .ok items) :
    grantItems payload = giveItems (grantPlayerTarget payload) items [] [] >>=
      finishGrant (grantPlayerTarget payload) (trimSpace (getString payload "message" "")) := by
  simp only [grantItems, if_neg hp, hi]

-- The message to the player changes nothing about what was given.
theorem GaveItems.finish {message : String} {r : Result String (List String × List String)}
    {s' : Console} (h : GaveItems s n r s') :
    seqPost (under rcon .none) (GaveItems s n) (finishGrant player message) r s' := by
  cases h
  case refused hn haccepted hrefusal hsent => exact .refused hn haccepted hrefusal hsent
  case given haccepted                     => exact wp_finishGrant fun _ _ => .given haccepted

theorem gaveItems_granting (hp : grantPlayerTarget payload ≠ "")
    (hi : grantItemsFromPayload payload = .ok items) :
    GaveItems { replies } items.length (granting payload replies).result
      (granting payload replies).state := by
  rw [granting, grantItems_eq hp hi]
  exact wp_run_nil (wp_bind.mpr (wp_mono wp_giveItems fun _ _ h => h.finish))

theorem outcome_given {g : Granted} : (reportGrant (.ok g)).outcome = .delivered := by
  change JobReport.outcome { status := "success", output := "", errorMessage := "" } = _
  decide +kernel

theorem outcome_refused {error : String} : (reportGrant (.error error)).outcome =
    classifyGrantOutput (some (" " ++ error)) "failed" :=
  rfl

-- A grant that has failed is retried, unless the control plane gives it up.
theorem outcome_retry_iff {error : String} :
    (reportGrant (.error error)).outcome = .retry ↔ ¬GivesUp error := by
  have hs : ("failed" = "success") = False := by simp
  simp only [outcome_refused, GivesUp, classifyGrantOutput, Option.getD_some, hs, if_false]
  split_ifs <;> simp_all

theorem not_delivers_of_first (h : ¬(replies 0).Delivers) (hi : ∀ j < n, (replies j).refusal = none) :
    n = 0 := by
  by_contra hn
  exact h (Reply.delivers_of_refusal (hi 0 (Nat.pos_of_ne_zero hn)))

-- A retried grant has given nothing if and only if it was the first item that was refused, and without
-- a delivery.
theorem retried_gave_nothing_iff (hp : grantPlayerTarget payload ≠ "")
    (hi : grantItemsFromPayload payload = .ok items) (replies : Nat → Reply) :
    RetriesNothing payload replies ↔ FirstOrLast items.length replies := by
  have h := @gaveItems_granting _ _ replies hp hi
  rw [RetriesNothing]
  generalize (granting payload replies).result = r, (granting payload replies).state = s' at h ⊢
  cases h
  case given g haccepted =>
    simp only [List.length_nil, Nat.zero_add] at haccepted
    rw [outcome_given]
    exact ⟨fun _ => .inl haccepted, fun _ h => nomatch h⟩
  case refused i error hn haccepted hrefusal hsent =>
    simp only [List.length_nil, Nat.zero_add, List.map_nil, List.nil_append] at hsent hrefusal haccepted
    have hm : (∀ e ∈ s'.sent, ¬e.2.Delivers) ↔ ∀ j < i + 1, ¬(replies j).Delivers := by
      have hf : (∀ e ∈ s'.sent, ¬e.2.Delivers) ↔ ∀ r ∈ s'.sent.map Prod.snd, ¬Reply.Delivers r := by
        constructor
        case mp =>
          intro h r hr
          have ⟨e, he, hr⟩ := List.mem_map.mp hr
          exact hr ▸ h e he
        case mpr => exact fun h e he => h _ (List.mem_map_of_mem he)
      rw [hf, hsent]
      simp
    rw [outcome_retry_iff, hm]
    constructor
    case mp =>
      intro h
      by_cases hg : GivesUp error
      case pos => exact .inr (.inr ⟨i, hn, haccepted, error, hrefusal, hg⟩)
      case neg => exact .inr (.inl (h hg 0 (Nat.succ_pos i)))
    case mpr =>
      intro h hg j hj
      rcases h with h | h | ⟨i', _, ha, error', hr, hg'⟩
      case inl =>
        rw [h i hn] at hrefusal
        nomatch hrefusal
      case inr.inl =>
        have hz := not_delivers_of_first h haccepted
        have hj : j = 0 := by omega
        exact hj ▸ h
      case inr.inr =>
        have he : i' = i := by
          cases Nat.lt_trichotomy i' i
          case inl hlt => rw [haccepted i' hlt] at hr; nomatch hr
          case inr h =>
            cases h
            case inl h   => exact h
            case inr hlt => rw [ha i hlt] at hrefusal; nomatch hrefusal
        rw [he, hrefusal] at hr
        cases hr
        exact absurd hg' hg

-- Two items for a player.
def reward : Fields :=
  [("player", .str "Steve"), ("items", .arr [
    .obj [("name", .str "minecraft:apple"), ("quantity", .ofNat 1)],
    .obj [("name", .str "minecraft:bread"), ("quantity", .ofNat 2)]])]

def offline : Reply where
  out := "No player was found"

def gaveApple : Reply where
  out := "Gave 1 [Apple] to Steve"

theorem retried_gave_nothing_offline : RetriesNothing reward fun _ => offline := by
  have hi : grantItemsFromPayload reward = .ok [⟨"minecraft:apple", 1⟩, ⟨"minecraft:bread", 2⟩] := by
    decide +kernel
  exact (retried_gave_nothing_iff (by decide +kernel) hi _).mpr (.inr (.inl (by decide +kernel)))

-- The player leaves after the first item.
theorem retried_gave_apple : ¬RetriesNothing reward fun i => if i = 0 then gaveApple else offline := by
  intro h
  have hr : (reportGrant (granting reward fun i => if i = 0 then gaveApple else offline).result).outcome =
    .retry := by decide +kernel
  have hs : ("give Steve minecraft:apple 1", gaveApple) ∈
      (granting reward fun i => if i = 0 then gaveApple else offline).state.sent := by decide +kernel
  exact h hr _ hs (by decide +kernel)

end Agent
