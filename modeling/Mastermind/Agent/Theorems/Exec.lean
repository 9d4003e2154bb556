import Mastermind.Agent.Theorems.Rcon

open Pieces (Uncut)

namespace Agent.Rcon

section

variable {α : Type} {a : α} {x r z w : List α} {xs : List (List α)} {k : Nat}

-- A list that stays the same when it is moved to the right, consists of what it is moved by.
theorem replicate_append (h : List.replicate (k + 1) a ++ x ++ w = x ++ z) :
    (∀ b ∈ x, b = a) ∧ z = List.replicate (k + 1) a ++ w := by
  induction x
  case nil =>
    rw [List.append_nil, List.nil_append] at h
    exact ⟨nofun, h.symm⟩
  case cons b x hi =>
    have ⟨hb, ht⟩ : a = b ∧ List.replicate k a ++ b :: x ++ w = x ++ z := List.cons.inj h
    subst hb
    have hr : List.replicate (k + 1) a ++ x ++ w = x ++ z := by
      rw [List.replicate_succ', ← ht]
      simp
    have ⟨hx, hz⟩ := hi hr
    exact ⟨List.forall_mem_cons.mpr ⟨rfl, hx⟩, hz⟩

theorem all_of_joined (h : List.replicate k a ++ xs.flatMap (a :: ·) = xs.flatten ++ r) :
    ∀ b ∈ xs.flatten ++ r, b = a := by
  induction xs generalizing k
  case nil =>
    rw [List.flatMap_nil, List.append_nil, List.flatten_nil, List.nil_append] at h
    rw [List.flatten_nil, List.nil_append, ← h]
    exact fun b hb => List.eq_of_mem_replicate hb
  case cons x xs hi =>
    have hr : List.replicate (k + 1) a ++ x ++ xs.flatMap (a :: ·) = x ++ (xs.flatten ++ r) := by
      rw [← List.append_assoc, ← List.flatten_cons, ← h, List.replicate_succ']
      simp
    have ⟨hx, hz⟩ := replicate_append hr
    rw [List.flatten_cons, List.append_assoc]
    exact List.forall_mem_append.mpr ⟨hx, hi hz.symm⟩

-- Texts that are joined are the same as the texts and what follows them, if there is nothing but
-- separators.
theorem joined_iff : xs.flatMap (a :: ·) = xs.flatten ++ r ↔
    (∀ b ∈ xs.flatten ++ r, b = a) ∧ r.length = xs.length := by
  have hl : (xs.flatMap (a :: ·)).length = xs.flatten.length + xs.length := by
    induction xs
    case nil => rfl
    case cons x xs hi =>
      simp only [List.flatMap_cons, List.length_append, List.length_cons, List.flatten_cons, hi]
      omega
  constructor
  case mp =>
    intro h
    refine ⟨all_of_joined (k := 0) h, ?_⟩
    rw [h, List.length_append] at hl
    omega
  case mpr =>
    rintro ⟨ha, hr⟩
    have hj : ∀ b ∈ xs.flatMap (a :: ·), b = a := by
      intro b hb
      have ⟨x, hx, hb⟩ := List.mem_flatMap.mp hb
      obtain rfl | hb := List.mem_cons.mp hb
      case inl => rfl
      case inr => exact ha b (List.mem_append_left _ (List.mem_flatten.mpr ⟨x, hx, hb⟩))
    rw [List.eq_replicate_iff.mpr ⟨hl, hj⟩]
    refine (List.eq_replicate_iff.mpr ⟨?_, ha⟩).symm
    rw [List.length_append, hr]

end

-- The packets that are taken for the reply: those up to the first short one.
def taken : List Bytes → List Bytes
  | []      => []
  | p :: ps => if p.length < 4000 then [p] else p :: taken ps

-- The packets of a reply that are not empty.
def filled (payloads : List Bytes) : List Bytes :=
  payloads.filter (· ≠ [])

-- The bytes after the packets that are taken.
def left (ps : List Bytes) : Bytes :=
  (ps.drop (taken ps).length).flatten

theorem taken_append (ps : List Bytes) : (taken ps).flatten ++ left ps = ps.flatten := by
  have h : taken ps ++ ps.drop (taken ps).length = ps := by
    induction ps
    case nil => rfl
    case cons p ps hi =>
      rw [taken]
      split
      case isTrue  => rfl
      case isFalse => exact congrArg (p :: ·) hi
  rw [left, ← List.flatten_append, h]

theorem joinResponses_cons {p : Bytes} {ps : List Bytes} :
    joinResponses (p :: ps) = p ++ ps.flatMap ((10 : UInt8) :: ·) := by
  have h : [10].intercalate (p :: ps) = p ++ ps.flatMap ((10 : UInt8) :: ·) := by
    induction ps generalizing p
    case nil => simp
    case cons p' ps hi => simp [List.intercalate_cons_cons, hi]
  cases ps
  case nil  => exact (List.append_nil p).symm
  case cons => exact h

theorem flatten_filled (payloads : List Bytes) : (filled payloads).flatten = payloads.flatten := by
  induction payloads
  case nil => rfl
  case cons p ps hi =>
    cases p
    case nil  => exact hi
    case cons => exact congrArg (_ ++ ·) hi

-- What the loop makes of the payloads that it receives.
def collect (out payloads : List Bytes) : Except Exception Bytes :=
  let parts := out ++ taken (filled payloads)
  if parts ≠ [] then .ok (joinResponses parts) else .error .read

namespace Client

variable {c : Client} {reqID : Int32} {replies : List Packet} {out : List Bytes}

theorem execLoop_error {c' : Client} {e : Exception} (h : c.recv = (.error e, c')) :
    c.execLoop reqID out = (if out ≠ [] then .ok (joinResponses out) else .error e, c') := by
  rw [execLoop]
  split
  case h_1 he => cases h.symm.trans he; rfl
  case h_2 he => cases h.symm.trans he

theorem execLoop_ok {c' : Client} {payload : Bytes} (h : c.recv = (.ok (reqID, payload), c')) :
    c.execLoop reqID out =
      if payload = [] then c'.execLoop reqID out
      else if payload.length < 4000 then (.ok (joinResponses (out ++ [payload])), c')
      else c'.execLoop reqID (out ++ [payload]) := by
  rw [execLoop]
  split
  case h_1 he => cases h.symm.trans he
  case h_2 he =>
    cases h.symm.trans he
    by_cases hp : payload = []
    case pos => rw [if_neg fun h => h.right hp, if_pos hp]
    case neg => rw [if_pos ⟨rfl, hp⟩, if_neg hp]

theorem execLoop_uncut (h : Uncut c.incoming (replies.flatMap Packet.parts))
    (hr : ∀ r ∈ replies, r.requestID = reqID ∧ r.payload.length ≤ 4102) :
    (c.execLoop reqID out).1 = collect out (replies.map (·.payload.takeWhile (· ≠ 0))) := by
  induction replies generalizing c out
  case nil =>
    have hc : c.recv = (.error .read, c) := by
      rw [recv, read, if_neg (by decide), Pieces.uncut_nil.mp h]
      rfl
    rw [execLoop_error hc, collect]
    simp [filled, taken]
  case cons r replies hi =>
    obtain ⟨⟨rfl, hl⟩, hr⟩ := List.forall_mem_cons.mp hr
    have ha := parts_ne_nil_append replies (List.not_mem_nil (a := []))
    rw [List.append_nil] at ha
    obtain ⟨_, hc, hu⟩ := recv_uncut h ha hl
    rw [execLoop_ok hc, List.map_cons]
    split
    case isTrue hz =>
      rw [hi hu hr, hz]
      rfl
    case isFalse hz =>
      have hf {ps : List Bytes} : filled (r.payload.takeWhile (· ≠ 0) :: ps) =
          r.payload.takeWhile (· ≠ 0) :: filled ps :=
        List.filter_cons_of_pos (by simpa using hz)
      split
      case isTrue hs =>
        rw [collect, hf, taken, if_pos hs, if_pos (by simp)]
      case isFalse hs =>
        rw [hi hu hr, collect, collect, hf, taken, if_neg hs, List.append_assoc]
        rfl

theorem exec_uncut {command : Bytes} (replies : List Packet) (hb : c.broken = false)
    (h : Uncut c.incoming (replies.flatMap Packet.parts))
    (hr : ∀ r ∈ replies, r.requestID = c.requestID + 1 ∧ r.payload.length ≤ 4102) :
    (c.exec command).1 = collect [] (replies.map (·.payload.takeWhile (· ≠ 0))) := by
  simp only [exec, nextID, send, hb, Bool.false_eq_true, if_false]
  exact execLoop_uncut h hr

end Client

-- The reply can be told from the packets that are taken for it.
structure Whole (payloads : List Bytes) : Prop where
  plain    : ∀ payload ∈ payloads, 0 ∉ payload
  nonempty : filled payloads ≠ []
  newlines : ∀ b ∈ (filled payloads).tail.flatten, b = 10
  length   : (left (filled payloads)).length + 1 = (taken (filled payloads)).length

theorem collect_iff {payloads : List Bytes} (hp : ∀ payload ∈ payloads, 0 ∉ payload) :
    collect [] payloads = .ok payloads.flatten ↔ Whole payloads := by
  have hw : Whole payloads ↔ filled payloads ≠ [] ∧ (∀ b ∈ (filled payloads).tail.flatten, b = 10) ∧
      (left (filled payloads)).length + 1 = (taken (filled payloads)).length :=
    ⟨fun ⟨_, h₁, h₂, h₃⟩ => ⟨h₁, h₂, h₃⟩, fun ⟨h₁, h₂, h₃⟩ => ⟨hp, h₁, h₂, h₃⟩⟩
  rw [hw, ← flatten_filled, collect, List.nil_append]
  generalize filled payloads = q
  cases q
  case nil => simp [taken]
  case cons p ps =>
    have ⟨os, ho⟩ : ∃ os, taken (p :: ps) = p :: os := by
      rw [taken]
      split
      case isTrue  => exact ⟨[], rfl⟩
      case isFalse => exact ⟨_, rfl⟩
    have hf : os.flatten ++ left (p :: ps) = ps.flatten := by
      have hf := taken_append (p :: ps)
      rw [ho, List.flatten_cons, List.flatten_cons, List.append_assoc] at hf
      exact List.append_cancel_left hf
    rw [ho, if_pos (List.cons_ne_nil _ _), joinResponses_cons, Except.ok.injEq, List.flatten_cons,
      List.append_cancel_left_eq, ← hf, joined_iff, List.tail_cons, List.length_cons]
    simp [hf]

theorem taken_sublist (ps : List Bytes) : (taken ps).Sublist ps := by
  induction ps
  case nil => exact .refl _
  case cons p ps hi =>
    rw [taken]
    split
    case isTrue  => exact List.Sublist.cons_cons p (List.nil_sublist ps)
    case isFalse => exact hi.cons_cons p

theorem mem_joinResponses {b : UInt8} {ps : List Bytes} (h : b ∈ joinResponses ps) :
    b = 10 ∨ ∃ p ∈ ps, b ∈ p := by
  cases ps
  case nil => nomatch h
  case cons p ps =>
    rw [joinResponses_cons] at h
    obtain h | h := List.mem_append.mp h
    case inl => exact .inr ⟨p, List.mem_cons_self, h⟩
    case inr =>
      have ⟨q, hq, h⟩ := List.mem_flatMap.mp h
      obtain h | h := List.mem_cons.mp h
      case inl => exact .inl h
      case inr => exact .inr ⟨q, List.mem_cons_of_mem p hq, h⟩

-- A null byte never comes out.
theorem collect_plain {out : Bytes} {payloads : List Bytes}
    (h : collect [] (payloads.map (·.takeWhile (· ≠ 0))) = .ok out) : 0 ∉ out := by
  rw [collect, List.nil_append] at h
  split at h
  case isFalse => nomatch h
  case isTrue =>
    rw [← Except.ok.inj h]
    intro hz
    obtain hz | ⟨p, hp, hz⟩ := mem_joinResponses hz
    case inl => nomatch hz
    case inr =>
      have hp := (List.mem_filter.mp ((taken_sublist _).subset hp)).left
      have ⟨payload, _, hp⟩ := List.mem_map.mp hp
      rw [← hp] at hz
      exact absurd (List.mem_takeWhile_imp hz) (by decide)

-- A reply is returned as it is if there is one packet of it that is not empty. Packets that follow
-- are dropped or joined to it, which is no difference only if all of them are newlines.
theorem exec_whole_iff (c : Client) (command : Bytes) (replies : List Packet)
    (hb : c.broken = false) (h : Uncut c.incoming (replies.flatMap Packet.parts))
    (hr : ∀ r ∈ replies, r.requestID = c.requestID + 1 ∧ r.payload.length ≤ 4096) :
    (c.exec command).1 = .ok (replies.map (·.payload)).flatten ↔
      Whole (replies.map (·.payload)) := by
  have hr : ∀ r ∈ replies, r.requestID = c.requestID + 1 ∧ r.payload.length ≤ 4102 :=
    fun r h => (hr r h).imp_right fun h => by omega
  have hm : replies.map (·.payload.takeWhile (· ≠ 0)) =
      (replies.map (·.payload)).map (·.takeWhile (· ≠ 0)) := by rw [List.map_map]; rfl
  rw [Client.exec_uncut replies hb h hr, hm]
  generalize replies.map (·.payload) = payloads
  by_cases hp : ∀ payload ∈ payloads, 0 ∉ payload
  case pos =>
    rw [List.map_congr_left fun p h => takeWhile_plain (hp p h), List.map_id']
    exact collect_iff hp
  case neg =>
    refine iff_of_false (fun hc => hp fun p hm hz => ?_) fun hw => hp hw.plain
    exact collect_plain hc (List.mem_flatten.mpr ⟨p, hm, hz⟩)

theorem exec_whole_iff_short :
    let c : Client := { requestID := 1, incoming := [packet 2 typeResponse [0x6F, 0x6B]] }
    (c.exec [0x6C]).1 = .ok [0x6F, 0x6B] := by
  refine (exec_whole_iff _ [0x6C] [⟨2, typeResponse, [0x6F, 0x6B]⟩] rfl (uncut_packets _) ?_).mpr ?_
  case refine_1 =>
    intro r hr
    obtain rfl := List.mem_singleton.mp hr
    exact ⟨rfl, by decide⟩
  case refine_2 => exact ⟨by simp, by decide, List.forall_mem_nil _, by decide⟩

-- A reply that is empty is waited for until the deadline has passed.
theorem exec_whole_fails :
    let c : Client := { requestID := 1, incoming := [packet 2 typeResponse []] }
    (c.exec [0x6C]).1 ≠ .ok [] := by
  intro c
  have h : (c.exec [0x6C]).1 = collect [] [[]] := by
    refine Client.exec_uncut [⟨2, typeResponse, []⟩] rfl (uncut_packets _) fun r hr => ?_
    obtain rfl := List.mem_singleton.mp hr
    exact ⟨rfl, by decide⟩
  rw [h]
  nofun

end Agent.Rcon
