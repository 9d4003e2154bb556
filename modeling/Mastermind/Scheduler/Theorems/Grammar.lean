import Mathlib.Data.Set.Basic
import Mastermind.Scheduler.Cron

open Js

namespace Scheduler

-- A decimal integer, which may have a sign.
inductive IsInteger : List Char → ℤ → Prop
  | digits {ds} (hn : ds ≠ []) (hd : ∀ c ∈ ds, isDigit c) : IsInteger ds (digitsValue ds)
  | plus   {ds} (hn : ds ≠ []) (hd : ∀ c ∈ ds, isDigit c) : IsInteger ('+' :: ds) (digitsValue ds)
  | minus  {ds} (hn : ds ≠ []) (hd : ∀ c ∈ ds, isDigit c) : IsInteger ('-' :: ds) (-digitsValue ds)

namespace CronField

-- A step `*/n` that is not too large.
inductive IsStep (min max : Nat) : List Char → Nat → Prop
  | mk {ds} (hn : ds ≠ []) (hd : ∀ c ∈ ds, isDigit c) (hl : 1 ≤ digitsValue ds)
    (hu : digitsValue ds ≤ max - min + 1) : IsStep min max ('*' :: '/' :: ds) (digitsValue ds)

-- The elements of a field and the values that they stand for. Blanks around an integer are allowed.
inductive Element (min max : Nat) (s : List Char) : Set Nat → Prop
  | integer {n : Nat} (h : IsInteger (trimChars s) n) (hl : min ≤ n) (hu : n ≤ max) :
    Element min max s {n}
  | step {n : Nat} (h : IsStep min max s n) :
    Element min max s {v | v ≤ max ∧ ∃ k, v = min + k * n}

-- The grammar of fields: a star, or a list of elements that are separated by commas.
inductive Grammar (min max : Nat) (s : List Char) : Set Nat → Prop
  | star (h : s = ['*']) : Grammar min max s Set.univ
  | list {values : List (Set Nat)} (h : List.Forall₂ (Element min max) (s.splitOn ',') values) :
    Grammar min max s {v | ∃ set ∈ values, v ∈ set}

-- The parser accepts exactly the fields of the grammar, with the values that they stand for.
def Conforms (min max : Nat) (s : List Char) : Prop :=
  ∀ values, Grammar min max s values ↔ ∃ f, parse min max s = some f ∧ values = {v | f.Has v}

-- An element that begins with an integer of the range.
def StartsInRange (min max : Nat) (s : List Char) : Prop :=
  ∃ n : Nat, parseInt (trimChars s) = some (n : ℤ) ∧ min ≤ n ∧ n ≤ max

def Stepped (min max : Nat) (s : List Char) : Prop :=
  ∃ n, IsStep min max s n

-- If the elements are steps or begin with integers of the range, then nothing follows the integers.
def NothingFollows (min max : Nat) (s : List Char) : Prop :=
  (∀ part ∈ s.splitOn ',', Stepped min max part ∨ StartsInRange min max part) →
    ∀ part ∈ s.splitOn ',', Stepped min max part ∨ ∃ n, IsInteger (trimChars part) n

end CronField

variable {cs ds : List Char} {n : ℤ}

theorem scanSign_digit {c : Char} (h : isDigit c) : scanSign (c :: cs) = (false, c :: cs) := by
  unfold scanSign
  split
  case h_1 he => cases he; nomatch h
  case h_2 he => cases he; nomatch h
  case h_3    => rfl

theorem parseInt_of_isInteger (h : IsInteger cs n) : parseInt cs = some n := by
  cases h
  case digits hn hd =>
    have ⟨c, cs', hc⟩ := List.exists_cons_of_ne_nil hn
    subst hc
    simp only [parseInt, scanSign_digit (hd c List.mem_cons_self), List.takeWhile_eq_self_iff.mpr hd,
      Bool.false_eq_true, if_false]
  case plus ds hn hd =>
    have ⟨c, cs', hc⟩ := List.exists_cons_of_ne_nil hn
    subst hc
    simp only [parseInt, scanSign, List.takeWhile_eq_self_iff.mpr hd, Bool.false_eq_true, if_false]
  case minus ds hn hd =>
    have ⟨c, cs', hc⟩ := List.exists_cons_of_ne_nil hn
    subst hc
    simp only [parseInt, scanSign, List.takeWhile_eq_self_iff.mpr hd, if_true]

-- Blanks at the ends of a text that does not begin with one do not concern its beginning.
theorem trimChars_cons {c : Char} (h : isSpace c = false) : ∃ cs', trimChars (c :: cs) = c :: cs' := by
  have hd : (c :: cs).dropWhile isSpace = c :: cs := by simp [h]
  have hp : trimChars (c :: cs) <+: c :: cs := by
    rw [trimChars, hd]
    exact List.rdropWhile_prefix _ _
  have hn : trimChars (c :: cs) ≠ [] := by
    rw [trimChars, hd]
    intro hn
    have := List.rdropWhile_eq_nil_iff.mp hn c List.mem_cons_self
    simp [h] at this
  obtain ⟨c', cs', hc⟩ := List.exists_cons_of_ne_nil hn
  rw [hc] at hp ⊢
  obtain ⟨he, _⟩ := List.cons_prefix_cons.mp hp
  exact ⟨cs', by rw [he]⟩

theorem parseInt_star : parseInt (trimChars ('*' :: cs)) = none := by
  have ⟨cs', hc⟩ : ∃ cs', trimChars ('*' :: cs) = '*' :: cs' := trimChars_cons rfl
  rw [hc]
  rfl

namespace CronField

variable {min max : Nat} {s part : List Char} {vs : List Nat} {values : Set Nat}

-- The values of a step.
def stepValues (min max n : Nat) : List Nat :=
  ((List.range (max - min + 1)).filter (· % n = 0)).map (min + ·)

theorem mem_stepValues {n v : Nat} (h : min ≤ max) :
    v ∈ stepValues min max n ↔ v ≤ max ∧ ∃ k, v = min + k * n := by
  simp only [stepValues, List.mem_map, List.mem_filter, List.mem_range, decide_eq_true_eq]
  constructor
  case mp =>
    intro ⟨a, ⟨hl, hm⟩, hv⟩
    have hk := Nat.div_add_mod' a n
    exact ⟨by omega, a / n, by omega⟩
  case mpr =>
    intro ⟨hl, k, hk⟩
    exact ⟨k * n, ⟨by omega, Nat.mul_mod_left k n⟩, hk.symm⟩

-- An element is accepted if it is a step or begins with an integer of the range.
theorem parsePart_eq_some : parsePart min max part = some vs ↔
    (∃ n, IsStep min max part n ∧ vs = stepValues min max n) ∨
    ∃ n : Nat, parseInt (trimChars part) = some (n : ℤ) ∧ min ≤ n ∧ n ≤ max ∧ vs = [n] := by
  unfold parsePart
  split
  case h_1 d ds =>
    have hi : parseInt (trimChars ('*' :: '/' :: d :: ds)) = none := parseInt_star
    simp only [hi, false_and, exists_false, or_false, reduceCtorEq]
    split
    case isTrue hd =>
      have hd : ∀ c ∈ d :: ds, isDigit c := List.all_eq_true.mp hd
      split
      case isTrue hl =>
        constructor
        case mp  => exact nofun
        case mpr =>
          intro ⟨n, hs, hv⟩
          cases hs
          case mk hn hd' hl' hu => omega
      case isFalse hl =>
        constructor
        case mp =>
          intro hv
          cases hv
          exact ⟨_, .mk (List.cons_ne_nil d ds) hd (by omega) (by omega), rfl⟩
        case mpr =>
          intro ⟨n, hs, hv⟩
          cases hs
          case mk => exact congrArg some hv.symm
    case isFalse hd =>
      constructor
      case mp  => exact nofun
      case mpr =>
        intro ⟨n, hs, hv⟩
        cases hs
        case mk hn hd' hl hu => exact absurd (List.all_eq_true.mpr hd') hd
  case h_2 hns =>
    have hs : ¬∃ n, IsStep min max part n ∧ vs = stepValues min max n := by
      intro ⟨n, hs, hv⟩
      cases hs
      case mk ds hn hd hl hu =>
        have ⟨d, ds', hd⟩ := List.exists_cons_of_ne_nil hn
        exact hns d ds' (by rw [hd])
    simp only [hs, false_or]
    cases hp : parseInt (trimChars part)
    case none => simp
    case some n =>
      simp only [Option.bind_some, Option.some.injEq]
      split
      case isTrue h =>
        constructor
        case mp  => exact nofun
        case mpr => intro ⟨n', hn, _, _, _⟩; omega
      case isFalse h =>
        constructor
        case mp =>
          intro hv
          cases hv
          exact ⟨n.toNat, by omega, by omega, by omega, rfl⟩
        case mpr =>
          intro ⟨n', hn, _, _, hv⟩
          rw [hv, hn, Int.toNat_natCast]

theorem mapM_eq_some {α β : Type} {f : α → Option β} {as : List α} {bs : List β} :
    as.mapM f = some bs ↔ List.Forall₂ (fun a b => f a = some b) as bs := by
  induction as generalizing bs
  case nil => cases bs <;> simp
  case cons a as hi =>
    cases bs <;> simp [List.mapM_cons, Option.bind_eq_some_iff, hi]

theorem exists_forall₂_iff {α β : Type} {R : α → β → Prop} {as : List α} :
    (∃ bs, List.Forall₂ R as bs) ↔ ∀ a ∈ as, ∃ b, R a b := by
  induction as
  case nil => simp
  case cons a as hi =>
    rw [List.forall_mem_cons, ← hi]
    constructor
    case mp  => rintro ⟨_, _ | ⟨h, hs⟩⟩; exact ⟨⟨_, h⟩, _, hs⟩
    case mpr => rintro ⟨⟨_, h⟩, _, hs⟩; exact ⟨_, .cons h hs⟩

theorem accepted_iff :
    (∃ vs, parsePart min max part = some vs) ↔ Stepped min max part ∨ StartsInRange min max part := by
  constructor
  case mp =>
    intro ⟨vs, h⟩
    cases parsePart_eq_some.mp h
    case inl h => have ⟨n, hs, _⟩ := h; exact .inl ⟨n, hs⟩
    case inr h => have ⟨n, hp, hl, hu, _⟩ := h; exact .inr ⟨n, hp, hl, hu⟩
  case mpr =>
    intro h
    cases h
    case inl h => have ⟨n, hs⟩ := h; exact ⟨_, parsePart_eq_some.mpr (.inl ⟨n, hs, rfl⟩)⟩
    case inr h =>
      have ⟨n, hp, hl, hu⟩ := h
      exact ⟨_, parsePart_eq_some.mpr (.inr ⟨n, hp, hl, hu, rfl⟩)⟩

-- What the grammar allows is accepted with the values that it stands for.
theorem Element.parsePart (h : Element min max part values) (hl : min ≤ max) :
    ∃ vs, parsePart min max part = some vs ∧ values = {v | v ∈ vs} := by
  cases h
  case integer n h hmin hmax =>
    have hp : parseInt (trimChars part) = some (n : ℤ) := parseInt_of_isInteger h
    exact ⟨[n], parsePart_eq_some.mpr (.inr ⟨n, hp, hmin, hmax, rfl⟩), by ext; simp⟩
  case step n h =>
    exact ⟨stepValues min max n, parsePart_eq_some.mpr (.inl ⟨n, h, rfl⟩),
      Set.ext fun v => (mem_stepValues hl).symm⟩

-- What is accepted belongs to the grammar if nothing follows an integer.
theorem element_of_parsePart (h : parsePart min max part = some vs) (hl : min ≤ max)
    (he : Stepped min max part ∨ ∃ n, IsInteger (trimChars part) n) :
    Element min max part {v | v ∈ vs} := by
  cases parsePart_eq_some.mp h
  case inl h =>
    have ⟨n, hs, hv⟩ := h
    have hv : {v | v ∈ vs} = {v | v ≤ max ∧ ∃ k, v = min + k * n} := by
      rw [hv]
      exact Set.ext fun v => mem_stepValues hl
    rw [hv]
    exact .step hs
  case inr h =>
    have ⟨n, hp, hmin, hmax, hv⟩ := h
    have hi : IsInteger (trimChars part) n := by
      cases he
      case inl hs =>
        have ⟨n, hs⟩ := hs
        cases hs
        case mk => rw [parseInt_star] at hp; nomatch hp
      case inr hi =>
        have ⟨n', hi⟩ := hi
        have hn := parseInt_of_isInteger hi
        rw [hp] at hn
        cases hn
        exact hi
    have hv : {v | v ∈ vs} = {n} := by
      rw [hv]
      ext
      simp
    rw [hv]
    exact .integer hi hmin hmax

theorem parse_eq_some {f : CronField} (hs : s ≠ ['*']) : parse min max s = some f ↔
    ∃ parts, List.Forall₂ (fun part vs => parsePart min max part = some vs) (s.splitOn ',') parts ∧
      set parts.flatten = f := by
  simp only [parse, if_neg hs, Option.map_eq_some_iff, mapM_eq_some]

theorem not_stepped_star : ¬Stepped min max ['*'] := by
  intro ⟨n, h⟩
  nomatch h

theorem not_element_star : ¬Element min max ['*'] values := by
  intro h
  cases h
  case integer h _ _ =>
    have hp := parseInt_of_isInteger h
    rw [parseInt_star] at hp
    nomatch hp
  case step h => nomatch h

theorem elements_parsePart {parts : List (List Char)} {sets : List (Set Nat)} (hl : min ≤ max)
    (h : List.Forall₂ (Element min max) parts sets) :
    ∃ vss, List.Forall₂ (fun part vs => parsePart min max part = some vs) parts vss ∧
      ∀ v, (∃ values ∈ sets, v ∈ values) ↔ v ∈ vss.flatten := by
  induction h
  case nil => exact ⟨[], .nil, by simp⟩
  case cons part values parts sets he _ hi =>
    have ⟨vs, hp, hv⟩ := he.parsePart hl
    have ⟨vss, hps, hvs⟩ := hi
    exact ⟨vs :: vss, .cons hp hps, by simp [hv, hvs]⟩

theorem elements_of_parsePart {parts : List (List Char)} {vss : List (List Nat)} (hl : min ≤ max)
    (h : List.Forall₂ (fun part vs => parsePart min max part = some vs) parts vss)
    (he : ∀ part ∈ parts, Stepped min max part ∨ ∃ n, IsInteger (trimChars part) n) :
    List.Forall₂ (Element min max) parts (vss.map fun vs => {v | v ∈ vs}) := by
  induction h
  case nil => exact .nil
  case cons part vs parts vss hp _ hi =>
    have ⟨he, hes⟩ := List.forall_mem_cons.mp he
    exact .cons (element_of_parsePart hp hl he) (hi hes)

-- The parser accepts what the grammar allows.
theorem Grammar.parse (hl : min ≤ max) (h : Grammar min max s values) :
    ∃ f, parse min max s = some f ∧ values = {v | f.Has v} := by
  cases h
  case star hs => exact ⟨.any, by simp [CronField.parse, hs], by simp [Has]⟩
  case list sets hv =>
    have hs : s ≠ ['*'] := by
      intro hs
      rw [hs] at hv
      cases hv
      case cons he _ => exact not_element_star he
    have ⟨vss, hp, hvs⟩ := elements_parsePart hl hv
    exact ⟨_, (parse_eq_some hs).mpr ⟨vss, hp, rfl⟩, Set.ext hvs⟩

theorem grammar_of_parse {f : CronField} (hl : min ≤ max) (h : parse min max s = some f)
    (hn : NothingFollows min max s) : Grammar min max s {v | f.Has v} := by
  by_cases hs : s = ['*']
  case pos =>
    have hf : f = .any := by simpa [parse, hs, eq_comm] using h
    have hv : {v | f.Has v} = Set.univ := by simp [hf, Has]
    rw [hv]
    exact .star hs
  case neg =>
    have ⟨vss, hp, hf⟩ := (parse_eq_some hs).mp h
    have hi : ∀ part ∈ s.splitOn ',', Stepped min max part ∨ StartsInRange min max part :=
      fun part hm => accepted_iff.mp (exists_forall₂_iff.mp ⟨vss, hp⟩ part hm)
    have hg := Grammar.list (elements_of_parsePart hl hp (hn hi))
    have hv : {v | f.Has v} = {v | ∃ values ∈ vss.map fun vs => {v | v ∈ vs}, v ∈ values} := by
      ext
      simp [← hf, Has]
    rwa [hv]

theorem not_accepted_star : ¬(Stepped min max ['*'] ∨ StartsInRange min max ['*']) := by
  intro h
  cases h
  case inl h => exact not_stepped_star h
  case inr h =>
    have ⟨n, hp, _⟩ := h
    rw [parseInt_star] at hp
    nomatch hp

theorem Element.stepped_or_integer (h : Element min max part values) :
    Stepped min max part ∨ ∃ n, IsInteger (trimChars part) n := by
  cases h
  case integer n h _ _ => exact .inr ⟨n, h⟩
  case step n h        => exact .inl ⟨n, h⟩

-- The parser conforms to the grammar if and only if nothing follows the integers of the field.
theorem parse_conforms_iff (hl : min ≤ max) (s : List Char) :
    Conforms min max s ↔ NothingFollows min max s := by
  constructor
  case mp =>
    intro h hi part hm
    have hs : s ≠ ['*'] := by
      intro hs
      subst hs
      have hp : part = ['*'] := List.mem_singleton.mp hm
      exact not_accepted_star (hp ▸ hi part hm)
    have ⟨vss, hp⟩ := exists_forall₂_iff.mpr fun part hm => accepted_iff.mpr (hi part hm)
    have hg : Grammar min max s {v | (set vss.flatten).Has v} :=
      (h _).mpr ⟨_, (parse_eq_some hs).mpr ⟨vss, hp, rfl⟩, rfl⟩
    generalize {v | (set vss.flatten).Has v} = values at hg
    cases hg
    case star he => exact absurd he hs
    case list sets hv =>
      have ⟨values, he⟩ := exists_forall₂_iff.mp ⟨sets, hv⟩ part hm
      exact he.stepped_or_integer
  case mpr =>
    intro hn values
    constructor
    case mp  => exact Grammar.parse hl
    case mpr =>
      intro ⟨f, hp, hv⟩
      rw [hv]
      exact grammar_of_parse hl hp hn

theorem parse_conforms_steps : Conforms 0 59 "*/20, 30".toList := by
  refine (parse_conforms_iff (by decide) _).mpr fun _ part hm => ?_
  have hm : part ∈ ["*/20".toList, " 30".toList] := hm
  cases List.mem_cons.mp hm
  case inl h =>
    subst h
    exact .inl ⟨20, .mk (by decide) (List.all_eq_true.mp (by decide)) (by decide) (by decide)⟩
  case inr h =>
    cases List.mem_singleton.mp h
    exact .inr ⟨30, .digits (show "30".toList ≠ [] by decide) (List.all_eq_true.mp (by decide))⟩

-- A range is read as its first minute.
theorem parse_accepts_range :
    (∃ f, parse 0 59 "1-5".toList = some f ∧ ∀ v, f.Has v ↔ v = 1) ∧ ¬Conforms 0 59 "1-5".toList := by
  have hp : parse 0 59 "1-5".toList = some (.set [1]) := rfl
  refine ⟨⟨_, hp, fun v => List.mem_singleton⟩, fun h => ?_⟩
  have hg : Grammar 0 59 "1-5".toList {v | (set [1]).Has v} := (h _).mpr ⟨_, hp, rfl⟩
  generalize {v | (set [1]).Has v} = values at hg
  cases hg
  case star he => nomatch he
  case list sets hv =>
    have hs : List.Forall₂ (Element 0 59) ["1-5".toList] sets := hv
    have ⟨values, he⟩ := exists_forall₂_iff.mp ⟨sets, hs⟩ _ List.mem_cons_self
    cases he.stepped_or_integer
    case inl hs => have ⟨_, hs⟩ := hs; nomatch hs
    case inr hi =>
      have ⟨n, hi⟩ := hi
      cases hi
      case digits hd => exact absurd (hd '-' (by decide)) (by decide)

end CronField

end Scheduler
