import Mastermind.Agent.Theorems.Rcon

open Pieces (Uncut)

namespace Agent.Rcon
namespace Client

-- What successive calls of `recv` return, up to the first one that fails.
def received (c : Client) : List (Int32 × Bytes) :=
  match _ : c.recv with
  | (.error _, _) => []
  | (.ok r, c)    => r :: c.received
termination_by Pieces.size c.incoming
decreasing_by exact size_recv ‹_›

variable {c c' : Client} {r : Int32 × Bytes} {e : Exception} {n : Nat} {buf piece : Bytes}
  {rest : List Bytes}

theorem received_ok (h : c.recv = (.ok r, c')) : c.received = r :: c'.received := by
  rw [received]
  split
  case h_1 he => nomatch h.symm.trans he
  case h_2 he => cases h.symm.trans he; rfl

theorem received_error (h : c.recv = (.error e, c')) : c.received = [] := by
  rw [received]
  split
  case h_1    => rfl
  case h_2 he => nomatch h.symm.trans he

theorem received_of_error (h : c.recv.1 = .error e) : c.received = [] :=
  received_error (Prod.ext h rfl)

theorem received_uncut {ps : List Packet} (h : Uncut c.incoming (ps.flatMap Packet.parts))
    (hp : ∀ p ∈ ps, p.Fits) : c.received = ps.map fun p => (p.requestID, p.payload) := by
  induction ps generalizing c
  case nil =>
    have hc : c.recv = (.error .read, c) := by
      rw [recv, read, if_neg (by decide), Pieces.uncut_nil.mp h]
      rfl
    exact received_error hc
  case cons p ps hi =>
    obtain ⟨⟨hl, hn⟩, hp⟩ := List.forall_mem_cons.mp hp
    have ha := parts_ne_nil_append ps (List.not_mem_nil (a := []))
    rw [List.append_nil] at ha
    obtain ⟨_, hc, hu⟩ := recv_uncut h ha hl
    rw [received_ok hc, hi hu hp, takeWhile_plain hn, List.map_cons]

-- What a read leaves, and what it gets.
theorem read_ok (h : c.read n = (.ok buf, c')) : ∃ got,
    got ++ c'.incoming.flatten = c.incoming.flatten ∧ got.length ≤ n ∧
    buf = got ++ List.replicate (n - got.length) 0 ∧
    ([] ∉ c.incoming → [] ∉ c'.incoming ∧ (n ≠ 0 → got ≠ [])) := by
  rw [read] at h
  split at h
  case isTrue hn =>
    cases h
    exact ⟨[], rfl, Nat.zero_le n, by rw [hn]; rfl, fun h => ⟨h, absurd hn⟩⟩
  case isFalse hn =>
    split at h
    case h_1 => cases h
    case h_2 got incoming hr =>
      cases h
      exact ⟨got, Pieces.read_flatten hr, Pieces.read_length hr, rfl,
        fun h => (Pieces.read_ne_nil hr hn h).symm.imp_right fun hg _ => hg⟩

theorem eq_zeros {got : Bytes} (hl : got.length ≤ n) (hz : ∀ b ∈ got, b = 0) :
    got ++ List.replicate (n - got.length) 0 = List.replicate n 0 := by
  refine List.eq_replicate_iff.mpr ⟨?_, fun b hb => ?_⟩
  case refine_1 =>
    rw [List.length_append, List.length_replicate]
    omega
  case refine_2 =>
    obtain hb | hb := List.mem_append.mp hb
    case inl => exact hz b hb
    case inr => exact List.eq_of_mem_replicate hb

theorem read_zeros (h : c.read n = (.ok buf, c')) (hz : ∀ b ∈ c.incoming.flatten, b = 0) :
    buf = List.replicate n 0 ∧ ∀ b ∈ c'.incoming.flatten, b = 0 := by
  have ⟨got, hg, hl, hb, _⟩ := read_ok h
  refine ⟨?_, fun b hb => hz b (hg ▸ List.mem_append_right _ hb)⟩
  rw [hb, eq_zeros hl fun b hb => hz b (hg ▸ List.mem_append_left _ hb)]

-- Null bytes that are left over are no packet.
theorem received_zeros (hz : ∀ b ∈ c.incoming.flatten, b = 0) : c.received = [] := by
  rcases h : c.read 4 with ⟨_ | lenBuf, c₁⟩
  case error e =>
    have hr : c.recv = (.error e, c₁) := by rw [recv, h]
    exact received_error hr
  case ok =>
    have hr : c.recv = (.error tooShort, c₁) := by
      rw [recv, h, (read_zeros h hz).left]
      rfl
    exact received_error hr

-- A read of a piece.
theorem read_piece (hn : n ≠ 0) (h : c.incoming = piece :: rest) :
    c.read n = (.ok (piece.take n ++ List.replicate (n - (piece.take n).length) 0),
      { c with incoming := if n < piece.length then piece.drop n :: rest else rest }) := by
  rw [read, if_neg hn, h]
  rfl

end Client

-- The packet that consists of null bytes apart from its length.
def nullPacket : Packet :=
  ⟨0, typeResponse, []⟩

theorem received_nullPacket {c : Client} (hn : [] ∉ c.incoming)
    (h : c.incoming.flatten = nullPacket.bytes) : c.received = [(0, [])] := by
  have hb : nullPacket.bytes = 10 :: List.replicate 13 0 := rfl
  have ⟨piece, rest, hi⟩ : ∃ piece rest, c.incoming = piece :: rest := by
    cases hi : c.incoming
    case nil  => nomatch hb ▸ hi ▸ h
    case cons => exact ⟨_, _, rfl⟩
  have ⟨lenBuf, c₁, h₁⟩ : ∃ lenBuf c₁, c.read 4 = (.ok lenBuf, c₁) :=
    ⟨_, _, Client.read_piece (by decide) hi⟩
  have ⟨got, hg, hl, hl₁, hc⟩ := Client.read_ok h₁
  have ⟨hn₁, hne⟩ := hc hn
  rw [h, hb] at hg
  cases got
  case nil => exact absurd rfl (hne (by decide))
  case cons b got =>
    have hr : got ++ c₁.incoming.flatten = List.replicate 13 0 := (List.cons.inj hg).right
    have hz : ∀ b ∈ got ++ c₁.incoming.flatten, b = 0 := fun b hb =>
      List.eq_of_mem_replicate (hr ▸ hb)
    have ⟨hz, hz₁⟩ := List.forall_mem_append.mp hz
    have hb : lenBuf = 10 :: List.replicate 3 0 := by
      rw [hl₁, ← Client.eq_zeros (Nat.le_of_succ_le_succ hl) hz, (List.cons.inj hg).left,
        List.cons_append, List.length_cons, Nat.succ_sub_succ]
    subst hb
    have hs : (uint32 (10 :: List.replicate 3 0)).toNat = 10 := by decide
    have ⟨piece₁, rest₁, hi₁⟩ : ∃ piece rest, c₁.incoming = piece :: rest := by
      cases hi : c₁.incoming
      case nil =>
        rw [hi] at hr
        have hr := congrArg List.length hr
        rw [List.length_append, List.length_replicate] at hr
        rw [List.length_cons] at hl
        exact absurd hr (by simp; omega)
      case cons => exact ⟨_, _, rfl⟩
    have ⟨rest, c₂, h₂⟩ : ∃ rest c₂, c₁.read 10 = (.ok rest, c₂) :=
      ⟨_, _, Client.read_piece (by decide) hi₁⟩
    have ⟨hb, hz₂⟩ := Client.read_zeros h₂ hz₁
    have hr := Client.recv_ok h₁ (hs.symm ▸ h₂) (by omega) (by omega)
    rw [Client.received_ok hr, Client.received_zeros hz₂, hb]
    rfl

-- What is received of a stream does not depend on how it comes.
def Segmented (ps : List Packet) : Prop :=
  ∀ cuts : List Bytes, [] ∉ cuts → cuts.flatten = (ps.map Packet.bytes).flatten →
    Client.received { incoming := cuts } = Client.received { incoming := ps.map Packet.bytes }

section

variable {p q : Packet} {ps : List Packet} {cuts : List Bytes} {c : Client}

theorem Segmented.received (h : Segmented ps) (hp : ∀ p ∈ ps, p.Fits) (hn : [] ∉ cuts)
    (hc : cuts.flatten = (ps.map Packet.bytes).flatten) :
    Client.received { incoming := cuts } = ps.map fun p => (p.requestID, p.payload) :=
  (h cuts hn hc).trans (Client.received_uncut (uncut_packets ps) hp)

-- The length of a packet that fits needs two bytes.
theorem bytes_of_fits (h : p.Fits) : ∃ a b : UInt8,
    p.bytes = [a, b, 0, 0] ++ body p.requestID p.typ p.payload ∧
    a.toNat + 256 * b.toNat = p.payload.length + 10 := by
  have hl := h.length
  rw [bytes_eq, Packet.parts]
  generalize hx : p.payload.length + 10 = n
  have hn : (UInt32.ofNat n).toNat = n := UInt32.toNat_ofNat_of_lt' (by rw [UInt32.size]; omega)
  refine ⟨.ofNat n, .ofNat (n / 256), ?_, ?_⟩
  case refine_1 =>
    have h₁ : n / 256 / 256 = 0 := by omega
    simp only [putUint32, hn, Endian.little, h₁, List.flatten_cons, List.flatten_nil,
      List.append_nil]
    rfl
  case refine_2 =>
    rw [UInt8.toNat_ofNat', UInt8.toNat_ofNat']
    omega

-- The two bytes that end the first packet are left over, and the next length is read after them.
theorem not_segmented_cons (hp : ∀ p' ∈ p :: q :: ps, p'.Fits) : ¬Segmented (p :: q :: ps) := by
  intro h
  have ⟨hl, _⟩ := hp p List.mem_cons_self
  have ⟨a, b, hq, hab⟩ := bytes_of_fits (hp q (List.mem_cons_of_mem p List.mem_cons_self))
  let length := putUint32 (.ofNat (p.payload.length + 10))
  let head := putUint32 p.requestID.toUInt32 ++ putUint32 p.typ.toUInt32 ++ p.payload
  let next := [0, 0] ++ ((q :: ps).map Packet.bytes).flatten
  have hlh : head.length = p.payload.length + 8 := by
    simp only [head, List.length_append, length_putUint32]
    omega
  have hb : body p.requestID p.typ p.payload = head ++ [0, 0] := by simp [body, head]
  let c : Client := { incoming := [length ++ head, next] }
  have hr : c.received = (p :: q :: ps).map fun p => (p.requestID, p.payload) := by
    have hb : p.bytes = length ++ (head ++ [0, 0]) := by simp [bytes_eq, Packet.parts, hb, length]
    refine h.received hp ?_ ?_
    case refine_1 => simp [length, next, putUint32, Endian.little]
    case refine_2 => simp only [next, List.flatten_cons, List.flatten_nil, List.map_cons, hb,
      List.append_nil, List.append_assoc]
  have h₁ : c.read 4 = (.ok length, { c with incoming := [head, next] }) := by
    rw [Client.read_piece (by decide) rfl, List.take_left' length_putUint32,
      List.drop_left' length_putUint32, if_pos (by simp [length, length_putUint32, hlh])]
    simp [length, length_putUint32]
  have h₂ : Client.read { c with incoming := [head, next] } (p.payload.length + 10) =
      (.ok (head ++ [0, 0]), { c with incoming := [next] }) := by
    have hz : p.payload.length + 10 - (p.payload.length + 8) = 2 := by omega
    rw [Client.read_piece (Nat.succ_ne_zero _) rfl, List.take_of_length_le (by omega), hlh,
      if_neg (by omega), hz]
    rfl
  have hn : next.take 4 = [0, 0, a, b] := by simp [next, hq]
  have h₃ : Client.read { c with incoming := [next] } 4 = (.ok [0, 0, a, b],
      { c with incoming := if 4 < next.length then [next.drop 4] else [] }) := by
    rw [Client.read_piece (by decide) rfl, hn]
    rfl
  have hn : (uint32 length).toNat = p.payload.length + 10 :=
    (toNat_length p).trans (Nat.mod_eq_of_lt (by omega))
  have hc := Client.recv_ok h₁ (hn.symm ▸ h₂) (by omega) (by omega)
  have hv : (uint32 [0, 0, a, b]).toNat = 65536 * (q.payload.length + 10) := by
    rw [toNat_uint32 rfl]
    simp only [Endian.ofLittle_cons, Endian.ofLittle_nil, UInt8.toNat_zero]
    omega
  have hz : (Client.recv { c with incoming := [next] }).1 = .error tooLarge :=
    (Client.recv_tooLarge h₃).mpr (by omega)
  rw [Client.received_ok hc, Client.received_of_error hz] at hr
  exact absurd (congrArg List.length hr) (by simp)

theorem putUint32_eq (n : UInt32) : ∃ i j k l : UInt8, putUint32 n = [i, j, k, l] ∧
    n.toNat = i.toNat + 256 * (j.toNat + 256 * (k.toNat + 256 * l.toNat)) := by
  refine ⟨_, _, _, _, rfl, ?_⟩
  simp only [UInt8.toNat_ofNat']
  have := n.toNat_lt
  omega

-- Another packet is received, or one more.
theorem not_segmented_of_recv {c : Client} {r : Int32 × Bytes} (hp : p.Fits) (hn : [] ∉ cuts)
    (hf : cuts.flatten = p.bytes) (hc : Client.recv { incoming := cuts } = (.ok r, c))
    (hr : r = (p.requestID, p.payload) → c.received ≠ []) : ¬Segmented [p] := by
  intro h
  have hr' := h.received (fun _ hm => List.mem_singleton.mp hm ▸ hp) hn (by simp [hf])
  rw [Client.received_ok hc] at hr'
  have ⟨hr₁, hr₂⟩ := List.cons.inj hr'
  exact hr hr₁ hr₂

-- The first two bytes come alone.
theorem not_segmented_requestID (hp : p.Fits) (h : p.requestID ≠ 0) : ¬Segmented [p] := by
  have ⟨a, b, hb, hab⟩ := bytes_of_fits hp
  have ⟨i, j, k, l, hi, hv⟩ := putUint32_eq p.requestID.toUInt32
  let rest := [0, 0, i, j, k, l] ++ (putUint32 p.typ.toUInt32 ++ (p.payload ++ [0]) ++ [0])
  have hlr : rest.length = p.payload.length + 12 := by
    simp [rest, length_putUint32]
    omega
  have hf : [[a, b], rest].flatten = p.bytes := by
    simp [rest, hb, body, hi]
  have h₁ : Client.read { incoming := [[a, b], rest] } 4 =
      (.ok [a, b, 0, 0], { incoming := [rest] }) := by
    rw [Client.read_piece (by decide) rfl]
    rfl
  have h₂ := Client.read_piece (c := { incoming := [rest] }) (n := p.payload.length + 10)
    (Nat.succ_ne_zero _) rfl
  have hn : (uint32 [a, b, 0, 0]).toNat = p.payload.length + 10 := by
    rw [toNat_uint32 rfl]
    simpa using hab
  have hu := hp.length
  have hc := Client.recv_ok h₁ (hn.symm ▸ h₂) (by omega) (by omega)
  refine not_segmented_of_recv hp (by simp [rest]) hf hc fun hr => ?_
  have hr := congrArg (fun r => r.1.toUInt32.toNat) hr
  rw [List.take_append_of_le_length (by rw [List.length_take]; omega), List.take_take,
    Nat.min_eq_left (by omega)] at hr
  have ht : rest.take 4 = [0, 0, i, j] := rfl
  rw [ht] at hr
  simp only [UInt32.toUInt32_toInt32, toNat_uint32, hv, Endian.ofLittle_cons, Endian.ofLittle_nil,
    UInt8.toNat_zero, List.length_cons, List.length_nil] at hr
  have hz : p.requestID.toUInt32.toNat = 0 := by
    have := i.toNat_lt
    have := j.toNat_lt
    omega
  exact absurd (UInt32.toNat_inj.mp hz) (mt (congrArg UInt32.toInt32) h)

-- The first byte after the length comes alone with it.
theorem not_segmented_payload (hp : p.Fits) (hi : p.requestID = 0) (h : p.payload ≠ []) :
    ¬Segmented [p] := by
  have ⟨a, b, hb, hab⟩ := bytes_of_fits hp
  let rest := [0, 0, 0] ++ (putUint32 p.typ.toUInt32 ++ (p.payload ++ [0]) ++ [0])
  have hf : [[a, b, 0, 0, 0], rest].flatten = p.bytes := by
    have hz : putUint32 (0 : Int32).toUInt32 = [0, 0, 0, 0] := rfl
    rw [hb, body, hi, hz]
    simp [rest]
  have h₁ : Client.read { incoming := [[a, b, 0, 0, 0], rest] } 4 =
      (.ok [a, b, 0, 0], { incoming := [[0], rest] }) := by
    rw [Client.read_piece (by decide) rfl]
    rfl
  have h₂ : Client.read { incoming := [[0], rest] } (p.payload.length + 10) =
      (.ok (List.replicate (p.payload.length + 10) 0), { incoming := [rest] }) := by
    rw [Client.read_piece (Nat.succ_ne_zero _) rfl]
    rfl
  have hn : (uint32 [a, b, 0, 0]).toNat = p.payload.length + 10 := by
    rw [toNat_uint32 rfl]
    simpa using hab
  have hu := hp.length
  have hc := Client.recv_ok h₁ (hn.symm ▸ h₂) (by omega) (by omega)
  refine not_segmented_of_recv hp (by simp [rest]) hf hc fun hr => ?_
  have hr := congrArg Prod.snd hr
  rw [List.drop_replicate] at hr
  rw [List.takeWhile_replicate] at hr
  exact absurd hr.symm h

-- The bytes of a packet that differs from the packet of null bytes in its type only.
theorem bytes_of_typ {typ : Int32} {i j k l : UInt8} (h : putUint32 typ.toUInt32 = [i, j, k, l]) :
    Packet.bytes ⟨0, typ, []⟩ = [10, 0, 0, 0, 0, 0, 0, 0, i, j, k, l, 0, 0] := by
  have hl : putUint32 (.ofNat 10) = [10, 0, 0, 0] := rfl
  have hz : putUint32 (0 : Int32).toUInt32 = [0, 0, 0, 0] := rfl
  rw [bytes_eq, Packet.parts, body, h, hz]
  exact congrArg (· ++ _) hl

theorem fits_typ {typ : Int32} : Packet.Fits ⟨0, typ, []⟩ :=
  ⟨Nat.zero_le _, List.not_mem_nil⟩

theorem toNat_ten : (uint32 [10, 0, 0, 0]).toNat = 10 :=
  rfl

-- The first piece is a part of the length. A byte of the type is taken for the payload.
theorem not_segmented_shifted {typ : Int32} (first head more : Bytes) {b b' : UInt8}
    (hn : [] ∉ [first, head ++ [b, b'] ++ more])
    (hf : first ++ (head ++ [b, b'] ++ more) = Packet.bytes ⟨0, typ, []⟩)
    (h₁ : Client.read { incoming := [first, head ++ [b, b'] ++ more] } 4 =
      (.ok [10, 0, 0, 0], { incoming := [head ++ [b, b'] ++ more] }))
    (hl : head.length = 8) (hb : b ≠ 0) : ¬Segmented [⟨0, typ, []⟩] := by
  have hl' : (head ++ [b, b']).length = 10 := by rw [List.length_append, hl]; rfl
  have h₂ := Client.read_piece (c := { incoming := [head ++ [b, b'] ++ more] }) (n := 10)
    (by decide) rfl
  rw [List.take_left' hl', hl', Nat.sub_self, List.replicate_zero, List.append_nil] at h₂
  have hc := Client.recv_ok h₁ (toNat_ten.symm ▸ h₂) (by rw [toNat_ten]) (by rw [toNat_ten]; omega)
  refine not_segmented_of_recv fits_typ hn (by simpa using hf) hc fun hr => ?_
  have hr := congrArg Prod.snd hr
  rw [List.drop_left' hl, List.takeWhile_cons_of_pos (by simpa using hb)] at hr
  nomatch hr

-- The length of a packet comes with bytes of its body.
theorem read_field {a b c d : UInt8} {head : Bytes} {pieces : List Bytes} (h : head ≠ []) :
    Client.read { incoming := ([a, b, c, d] ++ head) :: pieces } 4 =
      (.ok [a, b, c, d], { incoming := head :: pieces }) := by
  have ht : List.take 4 ([a, b, c, d] ++ head) = [a, b, c, d] := rfl
  have hd : List.drop 4 ([a, b, c, d] ++ head) = head := rfl
  have hl : 4 < ([a, b, c, d] ++ head).length := by
    rw [List.length_append]
    exact Nat.lt_add_of_pos_right (List.length_pos_iff.mpr h)
  rw [Client.read_piece (by decide) rfl, ht, hd, if_pos hl]
  rfl

-- The first bytes of the body are received as a packet, and the other ones as another packet.
theorem not_segmented_twice {typ : Int32} {c : Client} {r : Int32 × Bytes} (head rest : Bytes)
    (hn : [] ∉ [[10, 0, 0, 0] ++ head, rest])
    (hf : [10, 0, 0, 0] ++ head ++ rest = Packet.bytes ⟨0, typ, []⟩)
    (hz : ∀ b ∈ head, b = 0) (hl : head.length ≤ 10) (hh : head ≠ [])
    (hr : Client.recv { incoming := [rest] } = (.ok r, c)) : ¬Segmented [⟨0, typ, []⟩] := by
  have h₂ : Client.read { incoming := [head, rest] } 10 =
      (.ok (List.replicate 10 0), { incoming := [rest] }) := by
    rw [Client.read_piece (by decide) rfl, List.take_of_length_le hl, Client.eq_zeros hl hz,
      if_neg (Nat.not_lt_of_le hl)]
  have hc := Client.recv_ok (read_field hh) (toNat_ten.symm ▸ h₂) (by rw [toNat_ten])
    (by rw [toNat_ten]; omega)
  refine not_segmented_of_recv fits_typ hn (by simpa using hf) hc fun _ hc => ?_
  rw [Client.received_ok hr] at hc
  nomatch hc

theorem recv_rest (b b' : UInt8) {rest : Bytes} (hr : rest ≠ [])
    (h : 10 ≤ b.toNat + 256 * b'.toNat ∧ b.toNat + 256 * b'.toNat ≤ 4112) :
    ∃ r c, Client.recv { incoming := [[b, b', 0, 0] ++ rest] } = (.ok r, c) := by
  have hn : (uint32 [b, b', 0, 0]).toNat = b.toNat + 256 * b'.toNat := by
    rw [toNat_uint32 rfl]
    simp
  have h₂ := Client.read_piece (c := { incoming := [rest] }) (n := (uint32 [b, b', 0, 0]).toNat)
    (by omega) rfl
  exact ⟨_, _, Client.recv_ok (read_field hr) h₂ (by omega) (by omega)⟩

theorem not_segmented_typ {typ : Int32} (h : typ ≠ 0) : ¬Segmented [⟨0, typ, []⟩] := by
  have ⟨i, j, k, l, ht, hv⟩ := putUint32_eq typ.toUInt32
  have hb := bytes_of_typ ht
  by_cases hl : l = 0
  case neg =>
    exact not_segmented_shifted [10, 0, 0] [0, 0, 0, 0, 0, i, j, k] [0] (by simp) hb.symm rfl rfl hl
  case pos =>
    by_cases hk : k = 0
    case neg =>
      exact not_segmented_shifted [10, 0] [0, 0, 0, 0, 0, 0, i, j] [0, 0]
        (by simp) hb.symm rfl rfl hk
    case pos =>
      by_cases hj : j = 0
      case neg =>
        exact not_segmented_shifted [10] [0, 0, 0, 0, 0, 0, 0, i] [l, 0, 0]
          (by simp) hb.symm rfl rfl hj
      case pos =>
        subst hl hk hj
        have hi : i.toNat ≠ 0 := by
          intro hi
          have hz : typ.toUInt32 = 0 := UInt32.toNat_inj.mp (by simpa [hi] using hv)
          exact h (congrArg UInt32.toInt32 hz)
        have hlt := i.toNat_lt
        by_cases hs : i.toNat ≤ 16
        case pos =>
          have ⟨r, c, hr⟩ := recv_rest 0 i (List.cons_ne_nil 0 [0, 0]) (by simp; omega)
          exact not_segmented_twice [0, 0, 0] [0, i, 0, 0, 0, 0, 0] (by simp) hb.symm (by simp)
            (by simp) (by simp) hr
        case neg =>
          have ⟨r, c, hr⟩ := recv_rest i 0 (List.cons_ne_nil 0 [0]) (by simp; omega)
          exact not_segmented_twice [0, 0, 0, 0] [i, 0, 0, 0, 0, 0] (by simp) hb.symm (by simp)
            (by simp) (by simp) hr

end

-- The streams that are received as they were sent, however they come, are the empty one and the one
-- of the null packet. Any other stream is received if neither a length nor a body is cut.
theorem segmented_iff (ps : List Packet) (hp : ∀ p ∈ ps, p.Fits) :
    (Segmented ps ↔ ps = [] ∨ ps = [nullPacket]) ∧
    ∀ cuts, Uncut cuts (ps.flatMap Packet.parts) →
      Client.received { incoming := cuts } =
        Client.received { incoming := ps.map Packet.bytes } := by
  refine ⟨⟨fun h => ?_, fun h cuts hn hf => ?_⟩, fun cuts hu => ?_⟩
  case refine_1 =>
    match ps with
    | []          => exact .inl rfl
    | p :: q :: _ => exact absurd h (not_segmented_cons hp)
    | [p]         =>
      have hp := hp p List.mem_cons_self
      by_cases hi : p.requestID = 0
      case neg => exact absurd h (not_segmented_requestID hp hi)
      case pos =>
        by_cases hl : p.payload = []
        case neg => exact absurd h (not_segmented_payload hp hi hl)
        case pos =>
          obtain ⟨_, typ, _⟩ := p
          subst hi hl
          by_cases ht : typ = 0
          case neg => exact absurd h (not_segmented_typ ht)
          case pos =>
            subst ht
            exact .inr rfl
  case refine_2 =>
    obtain rfl | rfl := h
    case inl =>
      have hc : cuts = [] := by
        cases cuts
        case nil => rfl
        case cons cut cuts =>
          have hc : cut = [] := (List.append_eq_nil_iff.mp hf).left
          exact absurd (hc ▸ List.mem_cons_self) hn
      rw [hc]
      rfl
    case inr =>
      have hb : nullPacket.bytes ≠ [] := nofun
      rw [received_nullPacket hn (by simpa using hf),
        received_nullPacket (by simpa using hb.symm) (by simp)]
  case refine_3 =>
    rw [Client.received_uncut hu hp, Client.received_uncut (uncut_packets ps) hp]

-- Two replies, of which the length of the second one comes with the first one.
theorem segmented_iff_replies :
    Segmented [nullPacket] ∧
    Client.received { incoming :=
      [[12, 0, 0, 0, 7, 0, 0, 0, 0, 0, 0, 0, 0x6F, 0x6B, 0, 0, 12, 0, 0, 0],
        [8, 0, 0, 0, 0, 0, 0, 0, 0x6E, 0x6F, 0, 0]] } =
      [(7, [0x6F, 0x6B]), (8, [0x6E, 0x6F])] := by
  have hn : ∀ p ∈ [nullPacket], p.Fits := fun p hp => List.mem_singleton.mp hp ▸ fits_typ
  let ok : Packet := ⟨7, typeResponse, [0x6F, 0x6B]⟩
  let no : Packet := ⟨8, typeResponse, [0x6E, 0x6F]⟩
  have hp : ∀ p ∈ [ok, no], p.Fits := by
    simp only [List.forall_mem_cons]
    exact ⟨⟨by decide, by decide⟩, ⟨by decide, by decide⟩, nofun⟩
  have hu : Uncut [[12, 0, 0, 0, 7, 0, 0, 0, 0, 0, 0, 0, 0x6F, 0x6B, 0, 0, 12, 0, 0, 0],
      [8, 0, 0, 0, 0, 0, 0, 0, 0x6E, 0x6F, 0, 0]] ([ok, no].flatMap Packet.parts) :=
    ⟨[ok.parts ++ no.parts.take 1, no.parts.drop 1], by decide, by decide, by decide⟩
  refine ⟨(segmented_iff [nullPacket] hn).left.mpr (.inr rfl), ?_⟩
  exact ((segmented_iff [ok, no] hp).right _ hu).trans (Client.received_uncut (uncut_packets _) hp)

-- The length comes in two pieces.
theorem segmented_fails :
    Packet.Fits ⟨7, typeResponse, [0x6F, 0x6B]⟩ ∧ ¬Segmented [⟨7, typeResponse, [0x6F, 0x6B]⟩] := by
  have hp : Packet.Fits ⟨7, typeResponse, [0x6F, 0x6B]⟩ := ⟨by decide, by decide⟩
  exact ⟨hp, not_segmented_requestID hp (by decide)⟩

end Agent.Rcon
