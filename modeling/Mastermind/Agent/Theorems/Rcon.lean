import Mathlib.Data.List.TakeWhile
import Mastermind.Agent.Rcon

open Pieces (Uncut)

namespace Agent.Rcon

-- A packet that is sent.
structure Packet where
  requestID : Int32
  typ       : Int32
  payload   : Bytes
  deriving DecidableEq

namespace Packet

def bytes (p : Packet) : Bytes :=
  packet p.requestID p.typ p.payload

-- A packet is read in two parts.
def parts (p : Packet) : List Bytes :=
  [putUint32 (.ofNat (p.payload.length + 10)), body p.requestID p.typ p.payload]

-- A packet that can be received.
structure Fits (p : Packet) : Prop where
  length : p.payload.length ≤ 4102
  plain  : 0 ∉ p.payload

end Packet

section

variable {id typ : Int32} {payload : Bytes} {n : UInt32} {p : Packet} {ps : List Packet}

theorem length_putUint32 : (putUint32 n).length = 4 :=
  Endian.length_little

theorem uint32_putUint32 : uint32 (putUint32 n) = n := by
  rw [uint32, putUint32, Endian.ofLittle_little n.toNat_lt]
  exact UInt32.ofNat_toNat

-- The length field has 32 bits.
theorem toNat_length (p : Packet) :
    (uint32 (putUint32 (.ofNat (p.payload.length + 10)))).toNat =
      (p.payload.length + 10) % 2 ^ 32 := by
  rw [uint32_putUint32]
  exact UInt32.toNat_ofNat'

theorem toNat_uint32 {bs : Bytes} (h : bs.length = 4) :
    (uint32 bs).toNat = Endian.ofLittle bs := by
  have hl := Endian.ofLittle_lt bs
  rw [h] at hl
  exact UInt32.toNat_ofNat_of_lt hl

theorem length_body : (body id typ payload).length = payload.length + 10 := by
  simp only [body, List.length_append, length_putUint32, List.length_singleton]
  omega

theorem take_body : (body id typ payload).take 4 = putUint32 id.toUInt32 := by
  simp only [body, List.append_assoc]
  exact List.take_left' length_putUint32

theorem drop_body : (body id typ payload).drop 8 = payload ++ [0] ++ [0] := by
  rw [body, List.append_assoc]
  exact List.drop_left' (by simp only [List.length_append, length_putUint32])

theorem takeWhile_payload :
    (payload ++ [0] ++ [0]).takeWhile (· ≠ 0) = payload.takeWhile (· ≠ 0) := by
  induction payload
  case nil => rfl
  case cons b bs hi =>
    simp only [List.cons_append, List.takeWhile_cons]
    split
    case isTrue  => rw [hi]
    case isFalse => rfl

theorem takeWhile_plain (h : 0 ∉ payload) : payload.takeWhile (· ≠ 0) = payload :=
  List.takeWhile_eq_self_iff.mpr fun _ hb => decide_eq_true fun hz => h (hz ▸ hb)

theorem bytes_eq : p.bytes = p.parts.flatten := by
  have hl : 4 + 4 + (p.payload ++ [0]).length + 1 = p.payload.length + 10 := by
    rw [List.length_append, List.length_singleton]
    omega
  rw [Packet.bytes, packet, hl]
  simp only [Packet.parts, List.flatten_cons, List.flatten_nil, List.append_nil]

theorem parts_ne_nil : [] ∉ p.parts := by
  intro h
  have hm : ∀ part ∈ p.parts, 4 ≤ part.length := by
    simp only [Packet.parts, List.forall_mem_cons, length_putUint32, length_body]
    exact ⟨Nat.le_refl 4, by omega, fun _ h => nomatch h⟩
  exact absurd (hm _ h) (by decide)

-- Each packet comes whole.
theorem uncut_packets (ps : List Packet) :
    Uncut (ps.map Packet.bytes) (ps.flatMap Packet.parts) := by
  refine ⟨ps.map Packet.parts, rfl, ?_, ?_⟩
  case refine_1 =>
    intro h
    have ⟨_, _, hp⟩ := List.mem_map.mp h
    nomatch hp
  case refine_2 =>
    rw [List.map_map]
    exact List.map_congr_left fun _ _ => bytes_eq

theorem parts_ne_nil_append (ps : List Packet) {after : List Bytes} (h : [] ∉ after) :
    [] ∉ ps.flatMap Packet.parts ++ after := by
  rw [List.mem_append]
  rintro (hm | hm)
  case inl =>
    have ⟨_, _, hm⟩ := List.mem_flatMap.mp hm
    exact parts_ne_nil hm
  case inr => exact h hm

end

namespace Client

variable {c c₁ c₂ : Client} {lenBuf rest part : Bytes} {parts after : List Bytes} {p : Packet}

theorem read_uncut (h : Uncut c.incoming (part :: parts)) (hn : part ≠ []) (hp : [] ∉ parts) :
    ∃ incoming, c.read part.length = (.ok part, { c with incoming }) ∧ Uncut incoming parts := by
  have ⟨incoming, hr, hu⟩ := h.read hp
  refine ⟨incoming, ?_, hu⟩
  rw [read, if_neg (mt List.length_eq_zero_iff.mp hn), hr]
  simp

theorem recv_ok (h₁ : c.read 4 = (.ok lenBuf, c₁))
    (h₂ : c₁.read (uint32 lenBuf).toNat = (.ok rest, c₂))
    (hl : 10 ≤ (uint32 lenBuf).toNat) (hu : (uint32 lenBuf).toNat ≤ 4112) :
    c.recv = (.ok ((uint32 (rest.take 4)).toInt32, (rest.drop 8).takeWhile (· ≠ 0)), c₂) := by
  have hu : ¬4096 + 16 < uint32 lenBuf := by
    rw [UInt32.lt_iff_toNat_lt]
    exact Nat.not_lt_of_le hu
  have hl : ¬uint32 lenBuf < 10 := by
    rw [UInt32.lt_iff_toNat_lt]
    exact Nat.not_lt_of_le hl
  rw [recv, h₁]
  simp only [if_neg hu, h₂, if_neg hl]

theorem read_error {e : Exception} {n : Nat} (h : c.read n = (.error e, c₁)) : e = .read := by
  rw [read] at h
  split at h
  case isTrue => cases h
  case isFalse =>
    split at h
    case h_1 => exact (Except.error.inj (Prod.mk.inj h).left).symm
    case h_2 => cases h

-- A packet is refused as too large because of its length field, and for no other reason.
theorem recv_tooLarge (h₁ : c.read 4 = (.ok lenBuf, c₁)) :
    c.recv.1 = .error tooLarge ↔ 4112 < (uint32 lenBuf).toNat := by
  have hu : 4096 + 16 < uint32 lenBuf ↔ 4112 < (uint32 lenBuf).toNat := UInt32.lt_iff_toNat_lt
  rw [← hu, recv, h₁]
  constructor
  case mpr => exact fun h => by simp only [if_pos h]
  case mp =>
    intro h
    by_contra hn
    simp only [if_neg hn] at h
    split at h
    case h_1 e _ he => cases (read_error he).symm.trans (Except.error.inj h)
    case h_2 =>
      split at h
      case isTrue  => exact absurd (Except.error.inj h) (by decide)
      case isFalse => cases h

theorem read_length (h : Uncut c.incoming (p.parts ++ after)) (ha : [] ∉ after) :
    ∃ incoming, c.read 4 =
        (.ok (putUint32 (.ofNat (p.payload.length + 10))), { c with incoming }) ∧
      Uncut incoming (body p.requestID p.typ p.payload :: after) := by
  have hn : [] ∉ p.parts ++ after := fun hm => (List.mem_append.mp hm).elim parts_ne_nil ha
  have ⟨hl, hn⟩ := not_or.mp (mt List.mem_cons.mpr hn)
  have ⟨incoming, hr, hu⟩ := read_uncut h (Ne.symm hl) hn
  rw [length_putUint32] at hr
  exact ⟨incoming, hr, hu⟩

-- What is received of a packet of which nothing is cut.
theorem recv_uncut (h : Uncut c.incoming (p.parts ++ after)) (ha : [] ∉ after)
    (hl : p.payload.length ≤ 4102) :
    ∃ incoming, c.recv = (.ok (p.requestID, p.payload.takeWhile (· ≠ 0)), { c with incoming }) ∧
      Uncut incoming after := by
  have hb : body p.requestID p.typ p.payload ≠ [] := by
    rw [← List.length_pos_iff, length_body]
    omega
  have ⟨i₁, h₁, hu⟩ := read_length h ha
  have ⟨i₂, h₂, hu⟩ := read_uncut (c := { c with incoming := i₁ }) hu hb ha
  have hn := toNat_length p
  rw [Nat.mod_eq_of_lt (by omega)] at hn
  rw [length_body, ← hn] at h₂
  refine ⟨i₂, ?_, hu⟩
  rw [recv_ok h₁ h₂ (by omega) (by omega), take_body, drop_body, uint32_putUint32,
    takeWhile_payload, Int32.toInt32_toUInt32]

-- The packets are sent one after the other.
def sends (c : Client) (ps : List Packet) : Client :=
  ps.foldl (fun c p => (c.send p.requestID p.typ p.payload).2) c

-- Calls `recv` as often as there are packets.
def recvs (c : Client) : List Packet → List (Except Exception (Int32 × Bytes)) × Client
  | []      => ([], c)
  | _ :: ps => let (rs, c') := c.recv.2.recvs ps; (c.recv.1 :: rs, c')

-- What the receiver has to make of a packet: it receives a packet that is not too long and refuses
-- any other one.
def Receives (c : Client) (p : Packet) (after : List Bytes) : Prop :=
  if p.payload.length ≤ 4102 then
    0 ∉ p.payload → ∃ incoming,
      c.recv = (.ok (p.requestID, p.payload), { c with incoming }) ∧ Uncut incoming after
  else c.recv.1 = .error tooLarge

variable {ps : List Packet}

theorem written_sends (ps : List Packet) (h : c.broken = false) :
    (c.sends ps).broken = false ∧
    (c.sends ps).written = c.written ++ (ps.flatMap Packet.parts).flatten := by
  induction ps generalizing c
  case nil => exact ⟨h, (List.append_nil _).symm⟩
  case cons p ps hi =>
    have hs : (c.send p.requestID p.typ p.payload).2 =
        { c with written := c.written ++ p.parts.flatten } := by
      rw [send, if_neg (Bool.eq_false_iff.mp h), ← bytes_eq, Packet.bytes]
    have hb : (c.send p.requestID p.typ p.payload).2.broken = false := by rw [hs, h]
    have ⟨hb, hw⟩ := hi hb
    refine ⟨hb, hw.trans ?_⟩
    rw [hs, List.flatMap_cons, List.flatten_append, List.append_assoc]

theorem recvs_uncut (h : Uncut c.incoming (ps.flatMap Packet.parts ++ after)) (ha : [] ∉ after)
    (hp : ∀ p ∈ ps, p.Fits) :
    ∃ incoming, c.recvs ps = (ps.map fun p => .ok (p.requestID, p.payload), { c with incoming }) ∧
      Uncut incoming after := by
  induction ps generalizing c
  case nil => exact ⟨c.incoming, rfl, h⟩
  case cons p ps hi =>
    have ⟨hl, hn⟩ := hp p List.mem_cons_self
    rw [List.flatMap_cons, List.append_assoc] at h
    have ⟨i₁, hr, hu⟩ := recv_uncut h (parts_ne_nil_append ps ha) hl
    have hps : ∀ p ∈ ps, p.Fits := fun p h => hp p (List.mem_cons_of_mem _ h)
    have ⟨i₂, hrs, hu⟩ := hi (c := { c with incoming := i₁ }) hu hps
    refine ⟨i₂, ?_, hu⟩
    rw [recvs, hr, hrs, takeWhile_plain hn]
    rfl

theorem receives_iff (h : Uncut c.incoming (p.parts ++ after)) (ha : [] ∉ after) :
    c.Receives p after ↔ p.payload.length ≤ 4102 ∨ 4112 < (p.payload.length + 10) % 2 ^ 32 := by
  rw [Receives]
  split
  case isTrue hl =>
    refine iff_of_true (fun hn => ?_) (.inl hl)
    have hr := recv_uncut h ha hl
    rwa [takeWhile_plain hn] at hr
  case isFalse hl =>
    have ⟨_, hr, _⟩ := read_length h ha
    rw [or_iff_right hl, recv_tooLarge hr, toNat_length]

end Client

-- The receiver gets the packets as they were sent, and then the last one.
def Exchanged (ps : List Packet) (p : Packet) : Prop :=
  ∀ (a b : Client) (after : List Bytes), a.broken = false → [] ∉ after →
    Uncut b.incoming ((ps ++ [p]).flatMap Packet.parts ++ after) →
    (a.sends (ps ++ [p])).written ++ after.flatten = a.written ++ b.incoming.flatten ∧
    (b.recvs ps).1 = ps.map (fun p => .ok (p.requestID, p.payload)) ∧
    (b.recvs ps).2.Receives p after

-- All packets that are not too long are received, and one that is too long is refused if its length
-- does not seem smaller in 32 bits.
theorem packets_exchanged_iff (ps : List Packet) (p : Packet) (hp : ∀ p ∈ ps, p.Fits) :
    Exchanged ps p ↔
      p.payload.length ≤ 4102 ∨ 4112 < (p.payload.length + 10) % 2 ^ 32 := by
  have hs {after : List Bytes} : (ps ++ [p]).flatMap Packet.parts ++ after =
      ps.flatMap Packet.parts ++ (p.parts ++ after) := by
    rw [List.flatMap_append, List.flatMap_singleton, List.append_assoc]
  have hn {after : List Bytes} (ha : [] ∉ after) : [] ∉ p.parts ++ after :=
    fun hm => (List.mem_append.mp hm).elim parts_ne_nil ha
  constructor
  case mp =>
    intro h
    have ha : ([] : Bytes) ∉ ([] : List Bytes) := List.not_mem_nil
    let b : Client := { incoming := (ps ++ [p]).flatMap Packet.parts ++ [] }
    have hu : Uncut b.incoming ((ps ++ [p]).flatMap Packet.parts ++ []) := Pieces.uncut_self
    have ⟨_, _, hr⟩ := h {} b [] rfl ha hu
    rw [hs] at hu
    have ⟨_, hrs, hu⟩ := Client.recvs_uncut hu (hn ha) hp
    rw [hrs] at hr
    exact (Client.receives_iff hu ha).mp hr
  case mpr =>
    intro hl a b after hb ha hu
    have ⟨_, hw⟩ := Client.written_sends (ps ++ [p]) hb
    have hf := hu.flatten
    rw [hs] at hu
    have ⟨incoming, hr, hu⟩ := Client.recvs_uncut hu (hn ha) hp
    refine ⟨?_, congrArg Prod.fst hr, ?_⟩
    case refine_1 => rw [hw, hf, List.flatten_append, List.append_assoc]
    case refine_2 =>
      rw [hr]
      exact (Client.receives_iff hu ha).mpr hl

theorem packets_exchanged_iff_pair :
    Exchanged [⟨7, typeAuth, [0x70, 0x77]⟩] ⟨-1, typeCommand, []⟩ := by
  refine (packets_exchanged_iff _ _ fun p hp => ?_).mpr (.inl (Nat.zero_le _))
  obtain rfl := List.mem_singleton.mp hp
  exact ⟨by decide, by decide⟩

-- The length of a packet does not fit into its field.
theorem packets_exchanged_fails : ∃ (p : Packet) (b : Client), Uncut b.incoming p.parts ∧
    4102 < p.payload.length ∧ b.recv.1 ≠ .error tooLarge := by
  let p : Packet := ⟨1, typeCommand, List.replicate (2 ^ 32) 0x61⟩
  have hu : Uncut p.parts (p.parts ++ []) := (List.append_nil _).symm ▸ Pieces.uncut_self
  have hl : p.payload.length = 2 ^ 32 := List.length_replicate
  have ⟨_, hr, _⟩ := Client.read_length (c := { incoming := p.parts }) hu List.not_mem_nil
  refine ⟨p, { incoming := p.parts }, Pieces.uncut_self, by omega, ?_⟩
  rw [Ne, Client.recv_tooLarge hr, toNat_length, hl]
  decide

end Agent.Rcon
