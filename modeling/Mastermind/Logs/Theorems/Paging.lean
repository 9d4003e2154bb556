import Mastermind.Logs.Service
import Mastermind.Paging.Cursor

open Jobs Paging

namespace Logs

section

variable {ι : Type} {logs : ServerLogs ι} {orgId : OrgId} {serverInstanceId : Option ServerId}
  {limit : Option ℤ} {a b : LogRow ι} {rows : List (LogRow ι)}

theorem pageSize_pos : 0 < pageSize limit := by
  simp only [pageSize]
  omega

theorem nodup_found : ((found logs orgId serverInstanceId).map LogRow.id).Nodup := by
  rw [found, List.map_map]
  exact (List.filter_sublist.map _).nodup logs.property

theorem eq_of_id (hr : (rows.map LogRow.id).Nodup) (ha : a ∈ rows) (hb : b ∈ rows)
    (h : a.id = b.id) : a = b :=
  List.inj_on_of_nodup_map hr ha hb h

end

variable {ι : Type} [LinearOrder ι] {logs : ServerLogs ι} {orgId : OrgId}
  {serverInstanceId : Option ServerId} {limit : Option ℤ} {a b x y : LogRow ι}
  {rows before after : List (LogRow ι)}

-- A request with the id of a row.
def page (logs : ServerLogs ι) (orgId : OrgId) (serverInstanceId : Option ServerId)
    (limit : Option ℤ) (x : LogRow ι) : List (LogRow ι) :=
  list logs orgId serverInstanceId limit (some x.id)

-- The rows that follow a row.
def following (rows : List (LogRow ι)) (x : LogRow ι) : List (LogRow ι) :=
  (rows.filter fun row => ¬row.le x).insertionSort LogRow.le

-- No other row of the same time has a smaller id.
def FirstOfItsTime (rows : List (LogRow ι)) (x : LogRow ι) : Prop :=
  ∀ row ∈ rows, row.createdAt = x.createdAt → x.id ≤ row.id

instance : Std.Total (LogRow.le (ι := ι)) where
  total a b := by
    obtain h | h | h := lt_trichotomy a.createdAt b.createdAt
    case inl     => exact .inl (.inl h)
    case inr.inr => exact .inr (.inl h)
    case inr.inl =>
      cases le_total a.id b.id
      case inl hi => exact .inl (.inr ⟨h, hi⟩)
      case inr hi => exact .inr (.inr ⟨h.symm, hi⟩)

instance : IsTrans (LogRow ι) LogRow.le where
  trans a b c hab hbc := by
    obtain hab | ⟨hab, hi⟩ := hab <;> obtain hbc | ⟨hbc, hi'⟩ := hbc
    case inl.inl => exact .inl (hab.trans hbc)
    case inl.inr => exact .inl (hbc ▸ hab)
    case inr.inl => exact .inl (hab ▸ hbc)
    case inr.inr => exact .inr ⟨hab.trans hbc, hi.trans hi'⟩

theorem id_eq_of_le (hab : a.le b) (hba : b.le a) : a.id = b.id := by
  obtain hab | ⟨hab, hi⟩ := hab <;> obtain hba | ⟨hba, hi'⟩ := hba
  case inl.inl => exact absurd hba (not_lt_of_gt hab)
  case inl.inr => exact absurd hba hab.ne'
  case inr.inl => exact absurd hab hba.ne'
  case inr.inr => exact le_antisymm hi hi'

-- Sorting and filtering can be exchanged.
theorem insertionSort_filter {p : LogRow ι → Bool} (hr : (rows.map LogRow.id).Nodup) :
    (rows.filter p).insertionSort LogRow.le = (rows.insertionSort LogRow.le).filter p := by
  have hf := List.perm_insertionSort LogRow.le (rows.filter p)
  have hs := (List.perm_insertionSort LogRow.le rows).filter p
  have ha : ∀ a b, a ∈ (rows.filter p).insertionSort LogRow.le →
      b ∈ (rows.insertionSort LogRow.le).filter p → a.le b → b.le a → a = b := by
    intro a b ha hb hab hba
    have ha := (List.mem_filter.mp (hf.subset ha)).left
    have hb := (List.mem_filter.mp (hs.subset hb)).left
    exact eq_of_id hr ha hb (id_eq_of_le hab hba)
  have hp := (List.pairwise_insertionSort LogRow.le rows).filter p
  exact List.Perm.eq_of_pairwise ha (List.pairwise_insertionSort _ _) hp (hf.trans hs.symm)

-- The rows around a row, in order.
structure Around (rows before : List (LogRow ι)) (x : LogRow ι) (after : List (LogRow ι)) : Prop where
  nodup  : (rows.map LogRow.id).Nodup
  sorted : rows.insertionSort LogRow.le = before ++ x :: after

namespace Around

theorem nodup_sorted (h : Around rows before x after) : ((before ++ x :: after).map LogRow.id).Nodup :=
  h.sorted ▸ ((List.perm_insertionSort LogRow.le rows).map LogRow.id).nodup_iff.mpr h.nodup

theorem mem (h : Around rows before x after) : x ∈ rows := by
  have hm : x ∈ rows.insertionSort LogRow.le := by simp [h.sorted]
  simpa using hm

theorem le_of_before (h : Around rows before x after) (hy : y ∈ before) : y.le x ∧ y.id ≠ x.id := by
  have hp := h.sorted ▸ List.pairwise_insertionSort LogRow.le rows
  have hn := h.nodup_sorted
  rw [List.map_append, List.nodup_append] at hn
  refine ⟨(List.pairwise_append.mp hp).right.right y hy x List.mem_cons_self, ?_⟩
  exact hn.right.right _ (List.mem_map_of_mem hy) _ (List.mem_map_of_mem List.mem_cons_self)

theorem le_of_after (h : Around rows before x after) (hy : y ∈ after) : x.le y ∧ x.id ≠ y.id := by
  have hp := h.sorted ▸ List.pairwise_insertionSort LogRow.le rows
  have hn := h.nodup_sorted
  rw [List.map_append, List.nodup_append, List.map_cons, List.nodup_cons] at hn
  refine ⟨(List.pairwise_cons.mp (List.pairwise_append.mp hp).right.left).left y hy, ?_⟩
  exact fun he => hn.right.left.left (he ▸ List.mem_map_of_mem hy)

theorem following_eq (h : Around rows before x after) : following rows x = after := by
  rw [following, insertionSort_filter h.nodup, h.sorted, List.filter_append, List.filter_cons]
  have hb : before.filter (fun row => decide ¬row.le x) = [] := by
    simpa using fun y hy => (h.le_of_before hy).left
  have ha : after.filter (fun row => decide ¬row.le x) = after := by
    simp only [List.filter_eq_self, decide_eq_true_eq]
    intro y hy hle
    exact (h.le_of_after hy).right (id_eq_of_le (h.le_of_after hy).left hle)
  have hx : x.le x := refl_of LogRow.le x
  rw [hb, ha, if_neg (by simp [hx]), List.nil_append]

-- The rows of the time of a row that come before it.
def tied (rows : List (LogRow ι)) (x : LogRow ι) : List (LogRow ι) :=
  (rows.insertionSort LogRow.le).filter fun y => y.createdAt = x.createdAt ∧ y.id < x.id

theorem tied_eq_nil : tied rows x = [] ↔ FirstOfItsTime rows x := by
  simp [tied, List.filter_eq_nil_iff, FirstOfItsTime]

-- What a request finds: the rows from the time of the row on, without the row.
theorem filter_eq (h : Around rows before x after) :
    (rows.insertionSort LogRow.le).filter (fun y => x.createdAt ≤ y.createdAt && y.id ≠ x.id) =
      tied rows x ++ after := by
  have hb : before.filter (fun y => x.createdAt ≤ y.createdAt && y.id ≠ x.id) =
      before.filter fun y => y.createdAt = x.createdAt ∧ y.id < x.id := by
    apply List.filter_congr
    intro y hy
    have ⟨hle, hne⟩ := h.le_of_before hy
    obtain hlt | ⟨he, hi⟩ := hle
    case inl => simp [not_le_of_gt hlt, hlt.ne]
    case inr => simp [he, hne, lt_of_le_of_ne hi hne]
  have ha : after.filter (fun y => x.createdAt ≤ y.createdAt && y.id ≠ x.id) = after := by
    rw [List.filter_eq_self]
    intro y hy
    have ⟨hle, hne⟩ := h.le_of_after hy
    have hc : x.createdAt ≤ y.createdAt := by
      obtain hlt | ⟨he, _⟩ := hle
      case inl => exact hlt.le
      case inr => exact he.le
    simp [hc, hne.symm]
  have hn : after.filter (fun y => y.createdAt = x.createdAt ∧ y.id < x.id) = [] := by
    rw [List.filter_eq_nil_iff]
    intro y hy
    have ⟨hle, hne⟩ := h.le_of_after hy
    obtain hlt | ⟨he, hi⟩ := hle
    case inl => simp [hlt.ne']
    case inr => simp [hi]
  rw [tied, h.sorted, List.filter_append, List.filter_append, List.filter_cons, List.filter_cons, hb,
    ha, hn]
  simp

theorem page_eq (h : Around (found logs orgId serverInstanceId) before x after) :
    page logs orgId serverInstanceId limit x =
      (tied (found logs orgId serverInstanceId) x ++ after).take (pageSize limit) := by
  have hf : (found logs orgId serverInstanceId).find? (·.id = x.id) = some x := by
    cases hf : (found logs orgId serverInstanceId).find? (·.id = x.id)
    case none   => simpa using List.find?_eq_none.mp hf x h.mem
    case some y =>
      have hy := List.find?_some hf
      exact congrArg some (eq_of_id h.nodup (List.mem_of_find?_eq_some hf) h.mem (by simpa using hy))
  simp only [page, list, hf]
  rw [insertionSort_filter h.nodup, h.filter_eq]

theorem paged : Paged (page logs orgId serverInstanceId limit) (tied (found logs orgId serverInstanceId))
    (pageSize limit) ((found logs orgId serverInstanceId).insertionSort LogRow.le) where
  pos := pageSize_pos
  nodup := (List.perm_insertionSort _ _).nodup_iff.mpr nodup_found.of_map
  page _ _ _ hx := page_eq ⟨nodup_found, hx⟩
  before before x after hx y hy := by
    have h : Around (found logs orgId serverInstanceId) before x after := ⟨nodup_found, hx⟩
    have ⟨hm, ht⟩ := List.mem_filter.mp hy
    have ⟨he, hi⟩ : y.createdAt = x.createdAt ∧ y.id < x.id := by simpa using ht
    rw [hx, List.mem_append, List.mem_cons] at hm
    obtain hm | rfl | hm := hm
    case inl     => exact hm
    case inr.inl => exact absurd hi (lt_irrefl _)
    case inr.inr =>
      obtain hlt | ⟨_, hi'⟩ := (h.le_of_after hm).left
      case inl => exact absurd he hlt.ne'
      case inr => exact absurd hi (not_lt_of_ge hi')

end Around

-- The rows that follow a row are enumerated exactly if neither the row nor the last row of a page has
-- the time of a row with a smaller id.
theorem list_enumerates_iff (hx : x ∈ found logs orgId serverInstanceId) :
    Enumerates (page logs orgId serverInstanceId limit) x
      (following (found logs orgId serverInstanceId) x) ↔
    FirstOfItsTime (found logs orgId serverInstanceId) x ∧
      ∀ y, Ends (pageSize limit) (following (found logs orgId serverInstanceId) x) y →
        FirstOfItsTime (found logs orgId serverInstanceId) y := by
  have hm := (List.mem_insertionSort LogRow.le).mpr hx
  have ⟨before, after, hs⟩ := List.append_of_mem hm
  have h : Around (found logs orgId serverInstanceId) before x after := ⟨nodup_found, hs⟩
  simp only [h.following_eq, ← Around.tied_eq_nil]
  exact Around.paged.enumerates_iff hs

-- Two chunks of one millisecond and a later one, of a single server.
def chunk (id : Nat) (createdAt : Time) : LogRow Nat where
  id               := id
  serverInstanceId := 0
  content          := "[12:00:00] [Server thread/INFO]: Done\n"
  createdAt        := createdAt

def burst : ServerLogs Nat :=
  ⟨[⟨chunk 1 5, 0⟩, ⟨chunk 2 5, 0⟩, ⟨chunk 3 6, 0⟩], by decide⟩

theorem list_enumerates_burst :
    Enumerates (page burst 0 none (some 2)) (chunk 1 5) (following (found burst 0 none) (chunk 1 5)) ↔
    FirstOfItsTime (found burst 0 none) (chunk 1 5) ∧
      ∀ y, Ends (pageSize (some 2)) (following (found burst 0 none) (chunk 1 5)) y →
        FirstOfItsTime (found burst 0 none) y :=
  list_enumerates_iff (by decide)

-- With one row to a page, the first two chunks follow each other forever.
theorem list_repeats :
    (page burst 0 none (some 1) (chunk 1 5) = [chunk 2 5]) ∧
    (page burst 0 none (some 1) (chunk 2 5) = [chunk 1 5]) ∧
    ¬Enumerates (page burst 0 none (some 1)) (chunk 1 5)
      (following (found burst 0 none) (chunk 1 5)) := by
  refine ⟨by decide, by decide, fun h => ?_⟩
  have hs : (found burst 0 none).insertionSort LogRow.le = [] ++ chunk 1 5 :: [chunk 2 5, chunk 3 6] := by
    decide
  have hf : following (found burst 0 none) (chunk 1 5) = [chunk 2 5, chunk 3 6] := by decide
  have hn := (Around.paged.enumerates_iff hs).mp (hf ▸ h)
  have ht := hn.right (chunk 2 5) ⟨0, rfl, .inl (by decide)⟩
  exact absurd ht (by decide)

end Logs
