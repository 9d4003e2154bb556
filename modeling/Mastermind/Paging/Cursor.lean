import Mathlib.Data.List.Perm.Subperm

namespace Paging

variable {α : Type}

-- The pages of a number of requests. The cursor of a request is the last row of the page before.
def pages (page : α → List α) : Nat → α → List (List α)
  | 0, _     => []
  | k + 1, x => page x :: pages page k ((page x).getLastD x)

-- The cursor after a number of requests.
def cursor (page : α → List α) : Nat → α → α
  | 0, x     => x
  | k + 1, x => cursor page k ((page x).getLastD x)

-- Some number of requests yields each of the rows once, and the next page is empty.
def Enumerates (page : α → List α) (x : α) (rows : List α) : Prop :=
  ∃ k, (pages page k x).flatten.Perm rows ∧ page (cursor page k x) = []

-- The rows of a list, in order, are requested in pages of size `n`. A page has the rows after the
-- cursor, but there may be rows that come `back`, before those.
structure Paged (page : α → List α) (back : α → List α) (n : Nat) (rows : List α) : Prop where
  pos    : 0 < n
  nodup  : rows.Nodup
  page   : ∀ before x after, rows = before ++ x :: after → page x = (back x ++ after).take n
  before : ∀ before x after, rows = before ++ x :: after → ∀ y ∈ back x, y ∈ before

variable {page back : α → List α} {n : Nat} {rows before after : List α} {x : α}

-- The rows at which pages end. These are the cursors after the first one.
def Ends (n : Nat) (rows : List α) (x : α) : Prop :=
  ∃ i, rows[i]? = some x ∧ (n ∣ i + 1 ∨ i + 1 = rows.length)

-- The first of the ends is that of the first page, the others follow.
theorem ends_iff (hn : 0 < n) {y : α} :
    Ends n rows y ↔ (rows.take n).getLast? = some y ∨ Ends n (rows.drop n) y := by
  have hlast : (rows.take n).getLast? = rows[min n rows.length - 1]? := by
    rw [List.getLast?_eq_getElem?, List.length_take, List.getElem?_take]
    split
    case isTrue  => rfl
    case isFalse => omega
  rw [hlast]
  constructor
  case mp =>
    intro ⟨i, hi, he⟩
    have hlen : i < rows.length := (List.getElem?_eq_some_iff.mp hi).choose
    by_cases h : i < n
    case pos =>
      have hm : min n rows.length - 1 = i := by
        cases he
        case inl hd => have := Nat.le_of_dvd (by omega) hd; omega
        case inr hl => omega
      exact .inl (hm ▸ hi)
    case neg =>
      refine .inr ⟨i - n, ?_, ?_⟩
      case refine_1 => rwa [List.getElem?_drop, Nat.add_sub_cancel' (by omega)]
      case refine_2 =>
        cases he
        case inl hd =>
          have hs : i - n + 1 = i + 1 - n := by omega
          exact .inl (hs ▸ Nat.dvd_sub hd (Nat.dvd_refl n))
        case inr hl => exact .inr (by rw [List.length_drop]; omega)
  case mpr =>
    rintro (hi | ⟨i, hi, he⟩)
    case inl =>
      refine ⟨_, hi, ?_⟩
      have hlen := (List.getElem?_eq_some_iff.mp hi).choose
      by_cases h : n ≤ rows.length
      case pos => exact .inl ⟨1, by omega⟩
      case neg => exact .inr (by omega)
    case inr =>
      rw [List.getElem?_drop] at hi
      have hlen := (List.getElem?_eq_some_iff.mp hi).choose
      rw [List.length_drop] at he
      refine ⟨n + i, hi, ?_⟩
      cases he
      case inl hd => exact .inl ((Nat.dvd_add_right (Nat.dvd_refl n)).mpr hd)
      case inr hl => exact .inr (by omega)

namespace Paged

-- If rows come back at a cursor, then some row comes back that has come before.
theorem not_enumerates (h : Paged page back n rows) (hx : rows = before ++ x :: after)
    (hb : back x ≠ []) : ¬Enumerates page x after := by
  intro ⟨k, hp, he⟩
  have hpage := h.page before x after hx
  obtain ⟨y, ys, hy⟩ := List.exists_cons_of_ne_nil hb
  obtain ⟨m, rfl⟩ := Nat.exists_eq_add_of_lt h.pos
  have hym : y ∈ page x := by
    rw [hpage, hy]
    simp
  cases k
  case zero => simp [cursor] at he; simp [he] at hym
  case succ k =>
    have hm : y ∈ after := hp.subset (List.mem_flatten.mpr ⟨_, List.mem_cons_self, hym⟩)
    have hyb : y ∈ before := h.before before x after hx y (hy ▸ List.mem_cons_self)
    have hd := List.nodup_append.mp (hx ▸ h.nodup) |>.right.right
    exact hd y hyb y (List.mem_cons_of_mem _ hm) rfl

-- A page without rows that come back is followed by the next one.
theorem enumerates_next (h : Paged page back n rows) (hx : rows = before ++ x :: after)
    (hb : back x = []) {y : α} (hy : (after.take n).getLast? = some y) :
    Enumerates page x after ↔ Enumerates page y (after.drop n) := by
  have hpage : page x = after.take n := by rw [h.page before x after hx, hb, List.nil_append]
  have hd : (page x).getLastD x = y := by rw [List.getLastD_eq_getLast?, hpage, hy, Option.getD_some]
  have hs := List.take_append_drop n after
  constructor
  case mp =>
    intro ⟨k, hp, he⟩
    cases k
    case zero =>
      rw [cursor, hpage] at he
      simp [he] at hy
    case succ k =>
      rw [pages, hd, List.flatten_cons, hpage] at hp
      rw [cursor, hd] at he
      have hp : (after.take n ++ (pages page k y).flatten).Perm (after.take n ++ after.drop n) := by
        rwa [hs]
      exact ⟨k, (List.perm_append_left_iff _).mp hp, he⟩
  case mpr =>
    intro ⟨k, hp, he⟩
    refine ⟨k + 1, ?_, by rw [cursor, hd, he]⟩
    rw [pages, hd, List.flatten_cons, hpage]
    exact (hp.append_left _).trans (.of_eq hs)

-- The rows after a cursor are enumerated exactly if no rows come back at it or at the end of a page.
theorem enumerates_iff {before after : List α} {x : α} (h : Paged page back n rows)
    (hx : rows = before ++ x :: after) :
    Enumerates page x after ↔ back x = [] ∧ ∀ y, Ends n after y → back y = [] := by
  by_cases hb : back x = []
  case neg => exact iff_of_false (h.not_enumerates hx hb) fun h => hb h.left
  case pos =>
    cases hl : (after.take n).getLast?
    case none =>
      have hn := h.pos
      have ha : after = [] := by
        have := List.getLast?_eq_none_iff.mp hl
        exact (List.take_eq_nil_iff.mp this).resolve_left (by omega)
      subst ha
      have hp : page x = [] := by rw [h.page before x [] hx, hb, List.nil_append, List.take_nil]
      refine iff_of_true ⟨0, .refl _, hp⟩ ⟨hb, fun y ⟨i, hi, _⟩ => nomatch hi⟩
    case some y =>
      have hn := h.pos
      -- The last row of the page divides the rows as `x` did.
      have ⟨init, hi⟩ := List.getLast?_eq_some_iff.mp hl
      have hy : rows = (before ++ x :: init) ++ y :: after.drop n := by
        have hs := List.take_append_drop n after
        rw [hi] at hs
        rw [hx]
        simpa using hs.symm
      have hlt : (after.drop n).length < after.length := by
        have : after ≠ [] := by rintro rfl; simp at hl
        have := List.length_pos_iff.mpr this
        rw [List.length_drop]
        omega
      rw [h.enumerates_next hx hb hl, enumerates_iff h hy]
      simp only [@ends_iff _ n after hn, hl, hb, true_and, Option.some.injEq]
      constructor
      case mp =>
        rintro ⟨hy, he⟩ z (rfl | hz)
        case inl => exact hy
        case inr => exact he z hz
      case mpr => exact fun h => ⟨h y (.inl rfl), fun z hz => h z (.inr hz)⟩
termination_by after.length

end Paged

end Paging
