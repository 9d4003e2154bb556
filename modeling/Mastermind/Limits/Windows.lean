import Mathlib.Data.List.Basic

-- Limits on the number of events, counted in windows that begin with an event.
namespace Limits

-- A window lasts `ms` and lets `max` events through.
structure Limit where
  max : Nat
  ms  : Nat

-- The window that has begun last and the number of events that it has let through.
structure Window where
  count       : Nat
  windowStart : Nat
  deriving DecidableEq

-- A window with the events that it has let through, the last one first.
structure Span where
  start : Nat
  times : List Nat

def Span.window (s : Span) : Window where
  count       := s.times.length
  windowStart := s.start

-- An event, and whether it was let through.
abbrev Decision :=
  Nat × Bool

def accepted (ds : List Decision) : List Nat :=
  (ds.filter Prod.snd).map Prod.fst

@[simp]
theorem accepted_nil : accepted [] = [] :=
  rfl

@[simp]
theorem accepted_cons_true {t : Nat} {ds : List Decision} :
    accepted ((t, true) :: ds) = t :: accepted ds :=
  rfl

@[simp]
theorem accepted_cons_false {t : Nat} {ds : List Decision} :
    accepted ((t, false) :: ds) = accepted ds :=
  rfl

section

variable {κ : Type} [DecidableEq κ]

-- The part of a history that is about one key.
def decisionsOf (key : κ) (history : List (κ × Decision)) : List Decision :=
  history.filterMap fun e => if e.1 = key then some e.2 else none

variable {key k : κ} {d : Decision} {history : List (κ × Decision)}

@[simp]
theorem decisionsOf_cons_self :
    decisionsOf key ((key, d) :: history) = d :: decisionsOf key history := by
  simp [decisionsOf]

theorem decisionsOf_cons_of_ne (h : k ≠ key) :
    decisionsOf k ((key, d) :: history) = decisionsOf k history := by
  simp [decisionsOf, Ne.symm h]

end

namespace Limit

-- What becomes of an event and of the window.
def receive (l : Limit) (now : Nat) : Option Window → Bool × Option Window
  | none   => (true, some ⟨1, now⟩)
  | some w =>
    if w.windowStart + l.ms ≤ now then (true, some ⟨1, now⟩)
    else if l.max ≤ w.count then (false, some w)
    else (true, some { w with count := w.count + 1 })

-- The windows let through as many events as they may, and they do not overlap. The last one is the
-- first of the list.
structure Spans (l : Limit) (spans : List Span) : Prop where
  length : ∀ s ∈ spans, s.times.length ≤ l.max
  times  : ∀ s ∈ spans, ∀ t ∈ s.times, s.start ≤ t ∧ t < s.start + l.ms
  begins : ∀ s ∈ spans, s.start ∈ s.times
  apart  : spans.Pairwise fun a b => b.start + l.ms ≤ a.start

-- An event is refused only if the events of the last `ms` leave no room. If only one is let through
-- at a time, it is let through only if there was none in the last `ms`.
structure Justified (l : Limit) (before : List Nat) (d : Decision) : Prop where
  refused : d.2 = false → l.max ≤ before.countP (d.1 < · + l.ms)
  single  : l.max = 1 → d.2 = true → ∀ t ∈ before, t + l.ms ≤ d.1

-- Every decision is justified by those before it. The last one is the first of the list.
def Decided (l : Limit) : List Decision → Prop
  | []      => True
  | d :: ds => l.Justified (accepted ds) d ∧ l.Decided ds

variable {l : Limit} {w : Window} {s : Span} {spans : List Span} {t x y : Nat}

-- An event after the end of the window begins a new one.
theorem receive_late (h : w.windowStart + l.ms ≤ t) : l.receive t (some w) = (true, some ⟨1, t⟩) := by
  simp [receive, h]

theorem receive_full (h : t < w.windowStart + l.ms) (hc : l.max ≤ w.count) :
    l.receive t (some w) = (false, some w) := by
  simp [receive, Nat.not_le_of_lt h, hc]

theorem receive_open (h : t < w.windowStart + l.ms) (hc : w.count < l.max) :
    l.receive t (some w) = (true, some { w with count := w.count + 1 }) := by
  simp [receive, Nat.not_le_of_lt h, Nat.not_le_of_lt hc]

theorem Spans.nil : l.Spans [] where
  length _ hs := nomatch hs
  times _ hs  := nomatch hs
  begins _ hs := nomatch hs
  apart       := .nil

theorem Spans.tail (h : l.Spans (s :: spans)) : l.Spans spans where
  length s hs := h.length s (List.mem_cons_of_mem _ hs)
  times s hs  := h.times s (List.mem_cons_of_mem _ hs)
  begins s hs := h.begins s (List.mem_cons_of_mem _ hs)
  apart       := (List.pairwise_cons.mp h.apart).right

-- A new window, or one that has let another event through.
theorem Spans.cons (h : l.Spans spans) (hl : s.times.length ≤ l.max)
    (ht : ∀ t ∈ s.times, s.start ≤ t ∧ t < s.start + l.ms) (hs : s.start ∈ s.times)
    (ha : ∀ s' ∈ spans, s'.start + l.ms ≤ s.start) : l.Spans (s :: spans) where
  length := List.forall_mem_cons.mpr ⟨hl, h.length⟩
  times  := List.forall_mem_cons.mpr ⟨ht, h.times⟩
  begins := List.forall_mem_cons.mpr ⟨hs, h.begins⟩
  apart  := List.pairwise_cons.mpr ⟨ha, h.apart⟩

-- Windows that end before a given time leave room for at most `k` of them in the `k * ms` before it.
theorem Spans.count_le_of_end (h : l.Spans spans) (k : Nat) (hy : ∀ s ∈ spans, s.start + l.ms ≤ y) :
    (spans.flatMap Span.times).countP (y ≤ · + k * l.ms) ≤ k * l.max := by
  induction spans generalizing y k
  case nil => exact Nat.zero_le _
  case cons s spans hi =>
    have ha := (List.pairwise_cons.mp h.apart).left
    have hs := hy s List.mem_cons_self
    cases k
    case zero =>
      refine Nat.le_of_eq (Eq.trans ?_ (Nat.zero_mul l.max).symm)
      refine List.countP_eq_zero.mpr fun t ht => ?_
      obtain ⟨s', hs', ht⟩ := List.mem_flatMap.mp ht
      have := h.times s' hs' t ht
      have := hy s' hs'
      simp only [decide_eq_true_eq]
      omega
    case succ k =>
      have hl : s.times.countP (y ≤ · + (k + 1) * l.ms) ≤ l.max :=
        Nat.le_trans List.countP_le_length (h.length s List.mem_cons_self)
      have hm : (spans.flatMap Span.times).countP (y ≤ · + (k + 1) * l.ms) ≤
          (spans.flatMap Span.times).countP (s.start ≤ · + k * l.ms) := by
        refine List.countP_mono_left fun t _ => ?_
        rw [Nat.succ_mul]
        simp only [decide_eq_true_eq]
        omega
      have := hi h.tail k ha
      rw [List.flatMap_cons, List.countP_append, Nat.succ_mul k l.max]
      omega

-- An interval can meet one more window, which has begun before.
theorem Spans.count_le (h : l.Spans spans) (x k : Nat) :
    (spans.flatMap Span.times).countP (fun t => x ≤ t ∧ t < x + k * l.ms) ≤ (k + 1) * l.max := by
  induction spans
  case nil => exact Nat.zero_le _
  case cons s spans hi =>
    have ha := (List.pairwise_cons.mp h.apart).left
    rw [List.flatMap_cons, List.countP_append]
    by_cases hs : x + k * l.ms ≤ s.start
    case pos =>
      have hz : s.times.countP (fun t => x ≤ t ∧ t < x + k * l.ms) = 0 := by
        refine List.countP_eq_zero.mpr fun t ht => ?_
        have := h.times s List.mem_cons_self t ht
        simp only [decide_eq_true_eq]
        omega
      rw [hz, Nat.zero_add]
      exact hi h.tail
    case neg =>
      have hl : s.times.countP (fun t => x ≤ t ∧ t < x + k * l.ms) ≤ l.max :=
        Nat.le_trans List.countP_le_length (h.length s List.mem_cons_self)
      have hm : (spans.flatMap Span.times).countP (fun t => x ≤ t ∧ t < x + k * l.ms) ≤
          (spans.flatMap Span.times).countP (s.start ≤ · + k * l.ms) := by
        refine List.countP_mono_left fun t _ => ?_
        simp only [decide_eq_true_eq]
        omega
      have := h.tail.count_le_of_end k ha
      rw [Nat.succ_mul]
      omega

-- What has been decided for one key until now. The entry of the key is the last window. An entry whose
-- window is over may be cleared away.
structure Tracks (l : Limit) (clock : Nat) (entry : Option Window) (ds : List Decision) : Prop where
  decided : l.Decided ds
  past    : ∀ t ∈ accepted ds, t ≤ clock
  spans   : ∃ spans, l.Spans spans ∧ accepted ds = spans.flatMap Span.times ∧
    (entry = spans.head?.map Span.window ∨
      (entry = none ∧ ∀ s ∈ spans.head?, s.start + l.ms ≤ clock))

variable {clock : Nat} {entry : Option Window} {d : Decision} {ds later : List Decision}

theorem Decided.justified (h : l.Decided (later ++ d :: ds)) : l.Justified (accepted ds) d := by
  induction later
  case nil     => exact h.left
  case cons hi => exact hi h.right

theorem Justified.single_iff {before : List Nat} (h : l.Justified before d) (hl : l.max = 1) :
    d.2 = true ↔ ∀ t ∈ before, t + l.ms ≤ d.1 := by
  refine ⟨h.single hl, fun hb => ?_⟩
  by_contra hd
  have hc := h.refused (Bool.eq_false_iff.mpr hd)
  obtain ⟨t, ht, hlt⟩ := List.countP_pos_iff.mp (Nat.lt_of_lt_of_le (hl ▸ Nat.one_pos) hc)
  exact Nat.not_le_of_lt (of_decide_eq_true hlt) (hb t ht)

theorem Tracks.nil : l.Tracks clock none [] where
  decided  := trivial
  past _ h := nomatch h
  spans    := ⟨[], .nil, rfl, .inl rfl⟩

theorem Tracks.elapse (h : l.Tracks clock entry ds) (ms : Nat) : l.Tracks (clock + ms) entry ds where
  decided   := h.decided
  past t ht := Nat.le_add_right_of_le (h.past t ht)
  spans     := by
    obtain ⟨spans, hs, ha, he⟩ := h.spans
    exact ⟨spans, hs, ha, he.imp_right fun hn =>
      ⟨hn.left, fun s hs => Nat.le_add_right_of_le (hn.right s hs)⟩⟩

-- A window that is over is cleared away.
theorem Tracks.clear (h : l.Tracks clock (some w) ds) (hw : w.windowStart + l.ms ≤ clock) :
    l.Tracks clock none ds where
  decided := h.decided
  past    := h.past
  spans   := by
    obtain ⟨spans, hs, ha, he | ⟨he, _⟩⟩ := h.spans
    case inr => cases he
    case inl =>
      refine ⟨spans, hs, ha, .inr ⟨rfl, fun s hs => ?_⟩⟩
      rw [show spans.head? = some s from hs] at he
      cases he
      exact hw

-- A window that lets only one event through holds the event that it begins with.
theorem Spans.eq_start (h : l.Spans spans) (hl : l.max = 1) (hs : s ∈ spans) (ht : t ∈ s.times) :
    t = s.start := by
  have hle := hl ▸ h.length s hs
  have hb := h.begins s hs
  cases hts : s.times
  case nil => rw [hts] at ht; cases ht
  case cons t' ts =>
    rw [hts, List.length_cons] at hle
    rw [List.eq_nil_of_length_eq_zero (by omega : ts.length = 0)] at hts
    rw [hts] at ht hb
    rw [List.mem_singleton.mp ht, List.mem_singleton.mp hb]

-- If the last window is over, all are.
theorem Spans.over (h : l.Spans spans) (ho : ∀ s ∈ spans.head?, s.start + l.ms ≤ clock) :
    ∀ s ∈ spans, s.start + l.ms ≤ clock := by
  cases spans
  case nil => exact fun _ hs => nomatch hs
  case cons s spans =>
    have ho := ho s rfl
    refine List.forall_mem_cons.mpr ⟨ho, fun s' hs' => ?_⟩
    have := (List.pairwise_cons.mp h.apart).left s' hs'
    omega

-- An event that begins a window.
theorem Tracks.begin (h : l.Tracks clock entry ds) (hs : l.Spans spans)
    (ha : accepted ds = spans.flatMap Span.times) (ho : ∀ s ∈ spans.head?, s.start + l.ms ≤ clock)
    (hm : 0 < l.max) (hp : 0 < l.ms) : l.Tracks clock (some ⟨1, clock⟩) ((clock, true) :: ds) where
  past    := List.forall_mem_cons.mpr ⟨Nat.le_refl _, h.past⟩
  spans   := by
    refine ⟨⟨clock, [clock]⟩ :: spans, hs.cons hm ?_ List.mem_cons_self (hs.over ho), by simp [ha],
      .inl rfl⟩
    simpa using hp
  decided := by
    refine ⟨⟨fun hd => (Bool.noConfusion hd), fun hl _ t ht => ?_⟩, h.decided⟩
    rw [ha] at ht
    obtain ⟨s, hs', ht⟩ := List.mem_flatMap.mp ht
    exact hs.eq_start hl hs' ht ▸ hs.over ho s hs'

-- An event that the last window has no room for.
theorem Tracks.refuse (h : l.Tracks clock entry ds) (hs : l.Spans (s :: spans))
    (ha : accepted ds = s.times ++ spans.flatMap Span.times) (hl : clock < s.start + l.ms)
    (hf : l.max ≤ s.times.length) : l.Tracks clock (some s.window) ((clock, false) :: ds) where
  past    := h.past
  spans   := ⟨s :: spans, hs, ha, .inl rfl⟩
  decided := by
    refine ⟨⟨fun _ => ?_, fun _ hd => (Bool.noConfusion hd)⟩, h.decided⟩
    have hall : s.times.countP (clock < · + l.ms) = s.times.length := by
      refine List.countP_eq_length.mpr fun t ht => ?_
      have := hs.times s List.mem_cons_self t ht
      simp only [decide_eq_true_eq]
      omega
    change l.max ≤ (accepted ds).countP (clock < · + l.ms)
    rw [ha, List.countP_append]
    omega

-- An event that the last window lets through besides the one that it begins with.
theorem Tracks.join (h : l.Tracks clock entry ds) (hs : l.Spans (s :: spans))
    (ha : accepted ds = s.times ++ spans.flatMap Span.times) (hl : clock < s.start + l.ms)
    (hf : s.times.length < l.max) :
    l.Tracks clock (some ⟨s.times.length + 1, s.start⟩) ((clock, true) :: ds) where
  past    := List.forall_mem_cons.mpr ⟨Nat.le_refl _, h.past⟩
  spans   := by
    have hb := hs.begins s List.mem_cons_self
    have hst : s.start ≤ clock := h.past _ (ha ▸ List.mem_append_left _ hb)
    refine ⟨⟨s.start, clock :: s.times⟩ :: spans, ?_, by simp [ha], .inl rfl⟩
    exact hs.tail.cons hf
      (List.forall_mem_cons.mpr ⟨⟨hst, hl⟩, hs.times s List.mem_cons_self⟩)
      (List.mem_cons_of_mem _ hb) (List.pairwise_cons.mp hs.apart).left
  decided := by
    refine ⟨⟨fun hd => (Bool.noConfusion hd), fun h1 _ => ?_⟩, h.decided⟩
    have := List.length_pos_of_mem (hs.begins s List.mem_cons_self)
    omega

theorem Tracks.receive (h : l.Tracks clock entry ds) (hm : 0 < l.max) (hp : 0 < l.ms) :
    l.Tracks clock (l.receive clock entry).2 ((clock, (l.receive clock entry).1) :: ds) := by
  obtain ⟨spans, hs, ha, rfl | ⟨rfl, ho⟩⟩ := h.spans
  case inr => exact h.begin hs ha ho hm hp
  case inl =>
    cases spans
    case nil => exact h.begin hs ha (fun _ hs => nomatch hs) hm hp
    case cons s spans =>
      rw [List.flatMap_cons] at ha
      change l.Tracks clock (l.receive clock (some s.window)).2
        ((clock, (l.receive clock (some s.window)).1) :: ds)
      by_cases hl : s.start + l.ms ≤ clock
      case pos =>
        rw [receive_late (w := s.window) hl]
        refine h.begin hs ha (fun s' hs' => ?_) hm hp
        cases hs'
        exact hl
      case neg =>
        have hl := Nat.lt_of_not_le hl
        by_cases hf : l.max ≤ s.times.length
        case pos =>
          rw [receive_full (w := s.window) hl hf]
          exact h.refuse hs ha hl hf
        case neg =>
          have hf := Nat.lt_of_not_le hf
          rw [receive_open (w := s.window) hl hf]
          exact h.join hs ha hl hf

-- In an interval of the length of `k` windows, no more is let through than in `k + 1` windows.
theorem Tracks.count_le (h : l.Tracks clock entry ds) (x k : Nat) :
    (accepted ds).countP (fun t => x ≤ t ∧ t < x + k * l.ms) ≤ (k + 1) * l.max := by
  obtain ⟨spans, hs, ha, _⟩ := h.spans
  rw [ha]
  exact hs.count_le x k

end Limit
end Limits
