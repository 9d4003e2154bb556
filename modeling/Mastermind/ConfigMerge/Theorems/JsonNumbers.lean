import Mastermind.ConfigMerge.JsonText
import Mastermind.ConfigMerge.Theorems.Json

open Js

namespace ConfigMerge

open Value

variable {ν μ : Type} {f : ν → μ} {v t l : Value ν} {P : ν → Prop}

namespace Value

-- A step down into a value: to the value of a key or to an item.
inductive Step
  | key (key : String)
  | item (i : Nat)

def step? (v : Value ν) : Step → Option (Value ν)
  | .key key => v.get? key
  | .item i  =>
    match v with
    | array n items => if h : i < n then some (items ⟨i, h⟩) else none
    | _             => none

-- The value at a place of a document.
def place? (v : Value ν) : List Step → Option (Value ν)
  | []           => some v
  | step :: path => (v.step? step).bind (·.place? path)

-- All numbers of a value have a property.
def All (P : ν → Prop) : Value ν → Prop
  | number x        => P x
  | array _ items   => ∀ i, (items i).All P
  | object _ fields => ∀ key, (fields key).All P
  | _               => True

theorem object_ext {keys keys' : Finset String} {a : keys → Value ν} {b : keys' → Value ν}
    (hk : keys = keys') (h : ∀ key h h', a ⟨key, h⟩ = b ⟨key, h'⟩) :
    object keys a = object keys' b := by
  subst hk
  congr 1
  funext key
  exact h ..

theorem array_ext {n n' : Nat} {a : Fin n → Value ν} {b : Fin n' → Value ν} (hn : n = n')
    (h : ∀ i h h', a ⟨i, h⟩ = b ⟨i, h'⟩) : array n a = array n' b := by
  subst hn
  congr 1
  funext i
  exact h ..

theorem step?_map {step : Step} : (v.map f).step? step = (v.step? step).map (map f) := by
  cases step
  case key key =>
    cases v
    case object keys fields =>
      simp only [map, step?, get?]
      split <;> rfl
    all_goals rfl
  case item i =>
    cases v
    case array n items =>
      simp only [map, step?]
      split <;> rfl
    all_goals rfl

theorem place?_map {path : List Step} : (v.map f).place? path = (v.place? path).map (map f) := by
  induction path generalizing v
  case nil => rfl
  case cons step path hi =>
    rw [place?, place?, step?_map]
    cases v.step? step
    case none   => rfl
    case some w => exact hi

theorem All.step? {step : Step} {w : Value ν} (h : v.All P) (hs : v.step? step = some w) :
    w.All P := by
  cases step
  case key key =>
    cases v
    case object keys fields =>
      simp only [Value.step?, get?] at hs
      split at hs
      case isTrue hk  => cases hs; exact h ⟨key, hk⟩
      case isFalse hk => cases hs
    all_goals cases hs
  case item i =>
    cases v
    case array n items =>
      simp only [Value.step?] at hs
      split at hs
      case isTrue hi  => cases hs; exact h ⟨i, hi⟩
      case isFalse hi => cases hs
    all_goals cases hs

theorem All.place? {path : List Step} {w : Value ν} (h : v.All P)
    (hp : v.place? path = some w) : w.All P := by
  induction path generalizing v
  case nil => cases hp; exact h
  case cons step path hi =>
    have ⟨u, hs, hp⟩ := Option.bind_eq_some_iff.mp hp
    exact hi (h.step? hs) hp

end Value

-- A merge does not look at numbers.
theorem merge_map : merge (t.map f) (l.map f) = (merge t l).map f := by
  induction t generalizing l
  case object keys a hi =>
    cases l
    case object liveKeys b =>
      simp only [Value.map, merge_object]
      congr 1
      funext key
      split
      case isTrue h  => exact hi ..
      case isFalse h => rfl
    all_goals rfl
  all_goals cases l <;> rfl

theorem all_merge_leaf (h : ¬(t.isMap ∧ l.isMap)) (ht : t.All P) (hl : l.All P) :
    (merge t l).All P := by
  rw [merge_leaf h]
  split
  case isTrue  => exact hl
  case isFalse => exact ht

theorem all_merge (ht : t.All P) (hl : l.All P) : (merge t l).All P := by
  induction t generalizing l
  case object keys a hi =>
    cases l
    case object liveKeys b =>
      rw [merge_object]
      intro key
      dsimp only
      split
      case isTrue h  => exact hi _ (ht key) (hl _)
      case isFalse h => exact ht key
    all_goals exact ht
  all_goals exact all_merge_leaf (fun h => nomatch h.left) ht hl

section

variable {num : ℚ → Option ν} {members : List (String × Value ν)}

theorem map_array {items : List (Value ν)} : (array items.length items.get).map f =
    array (items.map (map f)).length (items.map (map f)).get := by
  refine array_ext (List.length_map _).symm fun i h h' => ?_
  simp

theorem map_ofMembers :
    (ofMembers members).map f = ofMembers (members.map fun e => (e.1, e.2.map f)) := by
  have hk : (members.map fun e => (e.1, e.2.map f)).map Prod.fst = members.map Prod.fst := by
    rw [List.map_map]
    rfl
  refine object_ext (by rw [hk]) fun key h h' => ?_
  apply Option.some_injective
  simp only [Option.some_get, Index.fill_map]
  rw [← Option.map_some, Option.some_get]

theorem all_ofMembers (h : ∀ e ∈ members, e.2.All P) : (ofMembers members).All P := fun _ =>
  h _ (Index.mem_of_fill (Option.some_get _).symm)

open Document

variable {g : ℚ → ν}

mutual

-- A decoder finds what the document says, and all numbers of it can be converted.
theorem decode_spec (hg : ∀ q x, num q = some x → g q = x) : (d : Document) →
    ∀ v, decode num d = some v →
    v = d.value.map g ∧ d.value.All fun q => (num q).isSome
  | .null, _, h     => ⟨(Option.some.inj h).symm, trivial⟩
  | .bool _, _, h   => ⟨(Option.some.inj h).symm, trivial⟩
  | .string _, _, h => ⟨(Option.some.inj h).symm, trivial⟩
  | .number q, v, h => by
    have ⟨x, hx, hv⟩ := Option.map_eq_some_iff.mp h
    rw [← hv, ← hg q x hx]
    exact ⟨rfl, Option.isSome_iff_exists.mpr ⟨x, hx⟩⟩
  | .array items, v, h => by
    have ⟨vs, hvs, hv⟩ := Option.map_eq_some_iff.mp h
    have ⟨he, ha⟩ := decodeItems_spec hg items vs hvs
    rw [← hv, he]
    exact ⟨map_array.symm, fun i => ha _ (List.get_mem ..)⟩
  | .object members, v, h => by
    have ⟨vs, hvs, hv⟩ := Option.map_eq_some_iff.mp h
    have ⟨he, ha⟩ := decodeMembers_spec hg members vs hvs
    rw [← hv, he, ← map_ofMembers]
    exact ⟨rfl, all_ofMembers ha⟩

theorem decodeItems_spec (hg : ∀ q x, num q = some x → g q = x) : (items : List Document) →
    ∀ vs, decodeItems num items = some vs →
    vs = (valueItems items).map (Value.map g) ∧
      ∀ v ∈ valueItems items, v.All fun q => (num q).isSome
  | [], _, h         => ⟨(Option.some.inj h).symm, nofun⟩
  | d :: items, _, h => by
    simp only [decodeItems, Option.bind_eq_bind, Option.bind_eq_some_iff, Option.some.injEq] at h
    have ⟨v, hv, vs, hvs, h⟩ := h
    have ⟨he, ha⟩ := decode_spec hg d v hv
    have ⟨hes, has⟩ := decodeItems_spec hg items vs hvs
    rw [← h, he, hes]
    exact ⟨rfl, List.forall_mem_cons.mpr ⟨ha, has⟩⟩

theorem decodeMembers_spec (hg : ∀ q x, num q = some x → g q = x) :
    (members : List (String × Document)) →
    ∀ vs, decodeMembers num members = some vs →
      vs = (valueMembers members).map (fun e => (e.1, e.2.map g)) ∧
        ∀ e ∈ valueMembers members, e.2.All fun q => (num q).isSome
  | [], _, h                  => ⟨(Option.some.inj h).symm, nofun⟩
  | (key, d) :: members, _, h => by
    simp only [decodeMembers, Option.bind_eq_bind, Option.bind_eq_some_iff, Option.some.injEq] at h
    have ⟨v, hv, vs, hvs, h⟩ := h
    have ⟨he, ha⟩ := decode_spec hg d v hv
    have ⟨hes, has⟩ := decodeMembers_spec hg members vs hvs
    rw [← h, he, hes]
    exact ⟨rfl, List.forall_mem_cons.mpr ⟨ha, has⟩⟩

end

end

theorem toFloat64_natCast {n : Nat} {x : ℚ} (h : toFloat64 n = some x) :
    x = Number.roundInt n ∧ (Number.roundInt n : ℚ) < Number.pow2 1024 := by
  rw [toFloat64, Number.round_eq] at h
  by_cases hf : (Number.roundInt n : ℚ) < Number.pow2 1024
  case pos =>
    rw [if_pos hf] at h
    exact ⟨(Option.some.inj h).symm, hf⟩
  case neg =>
    rw [if_neg hf] at h
    nomatch h

theorem toFloat64_neg {q : ℚ} (hq : 0 < q) : toFloat64 (-q) = (toFloat64 q).map (-·) := by
  rw [toFloat64, Number.round_neg hq, toFloat64]
  cases Number.round q <;> rfl

-- What becomes of an integer on its way into the merged text.
theorem formatFloat_toFloat64 {n : ℤ} {x : ℚ} (h : toFloat64 n = some x) :
    Number.formatFloat x = n ↔ n = 0 ∨ Number.Shortest n.natAbs := by
  obtain hn | hn | hn := lt_trichotomy n 0
  case inl =>
    have ⟨k, hk⟩ := Int.eq_ofNat_of_zero_le (by omega : 0 ≤ -n)
    have hq : (n : ℚ) = -(k : ℚ) := by
      rw [← neg_neg n, hk]
      push_cast
      rfl
    have hp : 0 < k := by omega
    rw [hq, toFloat64_neg (by exact_mod_cast hp), Option.map_eq_some_iff] at h
    have ⟨y, hy, hx⟩ := h
    have ⟨hy, hf⟩ := toFloat64_natCast hy
    have hk : n.natAbs = k := by omega
    rw [← hx, hy, Number.formatFloat_neg, hq, neg_inj, Number.formatFloat_natCast hp hf, hk,
      or_iff_right hn.ne]
  case inr.inl =>
    rw [hn] at h ⊢
    cases h
    exact iff_of_true rfl (.inl rfl)
  case inr.inr =>
    have ⟨k, hk⟩ := Int.eq_ofNat_of_zero_le hn.le
    rw [hk] at h hn ⊢
    have h : toFloat64 (k : ℚ) = some x := h
    have ⟨hx, hf⟩ := toFloat64_natCast h
    have hp : 0 < k := by exact_mod_cast hn
    have hc : (((k : Nat) : ℤ) : ℚ) = (k : ℚ) := rfl
    rw [hx, hc, Number.formatFloat_natCast hp hf, or_iff_right hn.ne', Int.natAbs_natCast]

-- The integers of a merge keep their values if and only if each of them is the shortest decimal of
-- its double.
theorem integers_kept_iff (tmpl live : Document) (merged : Value ℚ) (stats : MergeStats)
    (h : mergeJSON tmpl live = some (merged, stats)) :
    (∀ path, ∀ n : ℤ, (merge tmpl.value live.value).place? path = some (.number n) →
      merged.place? path = some (.number n)) ↔
    ∀ path, ∀ n : ℤ, (merge tmpl.value live.value).place? path = some (.number n) →
      n = 0 ∨ Number.Shortest n.natAbs := by
  have hg : ∀ q x, toFloat64 q = some x → (toFloat64 q).getD 0 = x := fun q x hx => by rw [hx]; rfl
  simp only [mergeJSON, Option.bind_eq_bind, Option.bind_eq_some_iff, Option.some.injEq,
    Prod.mk.injEq] at h
  have ⟨t, ht, l, hl, hm, _⟩ := h
  have ⟨ht, hat⟩ := decode_spec hg tmpl t ht
  have ⟨hl, hal⟩ := decode_spec hg live l hl
  change (merge t l).map _ = merged at hm
  rw [← hm, ht, hl, merge_map]
  refine forall₃_congr fun path n hp => ?_
  have ⟨x, hx⟩ := Option.isSome_iff_exists.mp ((all_merge hat hal).place? hp)
  rw [place?_map, place?_map, hp]
  simp only [Option.map_some, Value.map, Option.some.injEq, Value.number.injEq, hx,
    Option.getD_some]
  exact formatFloat_toFloat64 hx

-- Beyond `2 ^ 53`, every other integer is missing.
theorem not_shortest_seed : ¬Number.Shortest 9007199254740993 := by
  intro ⟨e, h⟩
  have hx : Number.roundInt 9007199254740993 = 9007199254740992 := by decide +kernel
  have he : e = 0 := by
    by_contra he
    exact absurd ((dvd_pow_self 10 he).trans h.dvd) (by decide)
  rw [hx, he] at h
  exact absurd (h.nearest 9007199254740992 (one_dvd _) (by decide +kernel)) (by decide)

theorem mergeJSON_eq {tmpl live : Document} {t l : Value ℚ} (ht : tmpl.decode toFloat64 = some t)
    (hl : live.decode toFloat64 = some l) :
    ∃ stats, mergeJSON tmpl live = some ((merge t l).map Number.formatFloat, stats) := by
  rw [mergeJSON, ht, hl]
  exact ⟨_, rfl⟩

theorem decode_number (key : String) {q x : ℚ} (h : toFloat64 q = some x) :
    (Document.object [(key, .number q)]).decode toFloat64 =
      some (ofMembers [(key, .number x)]) := by
  simp only [Document.decode, Document.decodeMembers, h]
  rfl

theorem exact_of_lt {k : Nat} (hk : k < 2 ^ 53) : ∀ n : ℤ, (k : ℚ) = n →
    n = 0 ∨ Number.Shortest n.natAbs := by
  intro n hn
  have hn : n = k := by exact_mod_cast hn.symm
  rw [hn, Int.natAbs_natCast]
  by_cases h : k = 0
  case pos => exact .inl (congrArg Nat.cast h)
  case neg => exact .inr (Number.shortest_of_lt (Nat.pos_of_ne_zero h) hk)

def portDocument (port : Nat) : Document :=
  .object [("motd", .string "Welcome"), ("port", .number port)]

theorem all_portDocument {P : ℚ → Prop} {port : Nat} (h : P port) : (portDocument port).value.All P := by
  apply all_ofMembers
  simp only [Document.valueMembers, List.forall_mem_cons]
  exact ⟨trivial, h, nofun⟩

-- The port of the live document is kept.
theorem integers_kept_port : ∃ merged stats,
    mergeJSON (portDocument 25565) (portDocument 25575) = some (merged, stats) ∧
    merged.place? [.key "port"] = some (.number 25575) := by
  have hd (port : Nat) (h : toFloat64 port = some port) :
      (portDocument port).decode toFloat64 = some (portDocument port).value := by
    simp only [portDocument, Document.decode, Document.decodeMembers, h]
    rfl
  have ⟨stats, h⟩ := mergeJSON_eq (hd 25565 (by decide +kernel)) (hd 25575 (by decide +kernel))
  have ha : (merge (portDocument 25565).value (portDocument 25575).value).All fun q : ℚ =>
      ∀ n : ℤ, q = n → n = 0 ∨ Number.Shortest n.natAbs :=
    all_merge (all_portDocument (exact_of_lt (by decide))) (all_portDocument (exact_of_lt (by decide)))
  exact ⟨_, stats, h, (integers_kept_iff _ _ _ _ h).mpr (fun _ n hp => ha.place? hp n rfl)
    [.key "port"] 25575 rfl⟩

-- The seed of a world, of which the last bit is lost.
theorem merge_changes_seed : ¬∀ (tmpl live : Document) (merged : Value ℚ) (stats : MergeStats),
    mergeJSON tmpl live = some (merged, stats) →
      ∀ path, ∀ n : ℤ, (merge tmpl.value live.value).place? path = some (.number n) →
        merged.place? path = some (.number n) := by
  intro h
  have ht : toFloat64 0 = some 0 := by decide +kernel
  have hl : toFloat64 9007199254740993 = some 9007199254740992 := by decide +kernel
  have ⟨stats, hm⟩ := mergeJSON_eq (decode_number "seed" ht) (decode_number "seed" hl)
  have h := h _ _ _ _ hm [.key "seed"] 9007199254740993 rfl
  have hf : Number.formatFloat 9007199254740992 = (9007199254740993 : ℤ) :=
    Value.number.inj (Option.some.inj h)
  exact ((formatFloat_toFloat64 hl).mp hf).elim (by decide) not_shortest_seed

end ConfigMerge
