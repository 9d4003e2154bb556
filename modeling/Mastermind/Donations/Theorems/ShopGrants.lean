import Mastermind.Donations.ShopGrants

open Js

namespace Donations

variable {items items' : List LineGrantItem} {item : LineGrantItem}

theorem toNat_of_isNameChar {c : Char} (h : isNameChar c = true) : 0x20 < c.toNat ∧ c.toNat < 0x7F := by
  simp only [isNameChar, Bool.or_eq_true, decide_eq_true_eq] at h
  obtain (((h | rfl) | rfl) | rfl) | rfl := h
  case inl.inl.inl.inl =>
    have := Char.toNat_of_isAlphanum h
    omega
  all_goals decide

theorem isSpace_of_isNameChar {c : Char} (h : isNameChar c = true) : isSpace c = false := by
  have := toNat_of_isNameChar h
  simp only [isSpace, Bool.or_eq_false_iff, Bool.and_eq_false_iff, decide_eq_false_iff_not]
  omega

theorem isNameChar_of_isAlpha {c : Char} (h : c.isAlpha = true) : isNameChar c = true := by
  simp [isNameChar, Char.isAlphanum, h]

theorem isNameChar_of_mem {name : ItemName} {c : Char} (hc : c ∈ name.val.toList) :
    isNameChar c = true := by
  have ⟨hn, _⟩ := name.property
  cases hl : name.val.toList
  case nil => simp [hl] at hc
  case cons d cs =>
    simp only [hl, isGrantItemName, Bool.and_eq_true, List.all_eq_true] at hn
    cases List.mem_cons.mp (hl ▸ hc)
    case inl h => exact h ▸ isNameChar_of_isAlpha hn.left.left
    case inr h => exact hn.right c h

theorem itemName_ne_empty (name : ItemName) : name.val ≠ "" := by
  intro h
  have ⟨hn, _⟩ := name.property
  simp [h, isGrantItemName] at hn

theorem trim_itemName (name : ItemName) : trim name = name := by
  have hs : trimChars name.val.toList = name.val.toList :=
    trimChars_eq_self fun _ hc => isSpace_of_isNameChar (isNameChar_of_mem hc)
  rw [trim, hs, String.ofList_toList]

-- A name and a quantity that have been read, read as themselves again.
@[simp]
theorem parseGrantItemName_str (name : ItemName) : parseGrantItemName (some (.str name)) = name := by
  have h := trim_itemName name
  simp [parseGrantItemName, h, name.property]

@[simp]
theorem parseGrantQuantity_ofNat (n : Quantity) : parseGrantQuantity (some (.ofNat n)) = n := by
  simp [parseGrantQuantity, Json.ofNat, quantityNumber, n.property]

@[simp]
theorem readStatus_str (status : ItemStatus) : readStatus (some (.str status)) = status := by
  simp [readStatus, status.property]

@[simp]
theorem readAttempts_ofNat (n : Attempts) : readAttempts (some (.ofNat n)) = n := by
  simp [readAttempts, Json.ofNat, Json.toNumber, n.property]

@[simp]
theorem readError_str (e : ErrorText) : readError (some (.str e)) = e := by
  simp [readError, ErrorText.of, slice_eq_self e.property]

theorem coalesce_str {t : String} {b : Option Json} : Json.coalesce (some (.str t)) b = some (.str t) :=
  rfl

theorem coalesce_ofNat {n : Nat} {b : Option Json} :
    Json.coalesce (some (.ofNat n)) b = some (.ofNat n) :=
  rfl

-- What an item is stored as, reads as the item.
@[simp]
theorem lineGrantItem_toJson : lineGrantItem item.toJson = item := by
  obtain ⟨⟨name, quantity⟩, status, attempts, error⟩ := item
  cases error
  case none =>
    simp [lineGrantItem, LineGrantItem.toJson, isObject, firstField, Json.get?, coalesce_str,
      coalesce_ofNat, List.lookup_cons, readError]
  case some =>
    simp [lineGrantItem, LineGrantItem.toJson, isObject, firstField, Json.get?, coalesce_str,
      coalesce_ofNat, List.lookup_cons]

@[simp]
theorem length_snapshotLineGrants {specs : List GrantItemSpec} :
    (snapshotLineGrants specs).length = specs.length := by
  simp [snapshotLineGrants]

theorem length_grantSpecsFromFields {itemName quantity : Option Json} :
    ((grantSpecsFromFields itemName quantity).getD []).length ≤ 1 := by
  rw [grantSpecsFromFields]
  split
  case h_1 => simp
  case h_2 => cases parseGrantQuantity quantity <;> simp

theorem length_lineGrantItems {raw : Json} {grantItemName : Option String} {grantQuantity : Option ℤ} :
    (lineGrantItems raw grantItemName grantQuantity).length ≤ maxGrantItems := by
  rw [lineGrantItems]
  split
  case h_1 =>
    rw [length_snapshotLineGrants]
    exact length_grantSpecsFromFields.trans (by decide)
  case h_2 => exact List.length_take_le _ _

theorem lineGrantItem_storedItems :
    (lineGrantRows (storedItems items)).filterMap lineGrantItem = items := by
  simp [storedItems, lineGrantRows, List.filterMap_map]

-- A short list reads as itself, if the fields of its line hold no item that takes the place of an
-- empty list.
theorem lineGrantItems_of_short {grantItemName : Option String} {grantQuantity : Option ℤ}
    (hl : items.length ≤ maxGrantItems) (hn : items = [] → grantItemName = none) :
    lineGrantItems (storedItems items) grantItemName grantQuantity = items := by
  rw [lineGrantItems, lineGrantItem_storedItems]
  cases items
  case nil  => simp [hn, grantSpecsFromFields, parseGrantItemName, snapshotLineGrants]
  case cons => exact List.take_of_length_le hl

-- A list that replaces the items of a line reads as itself.
theorem lineGrantItems_storedItems {raw : Json} {grantItemName : Option String}
    {grantQuantity : Option ℤ}
    (h : items.length = (lineGrantItems raw grantItemName grantQuantity).length) :
    lineGrantItems (storedItems items) grantItemName grantQuantity = items := by
  have hl : items.length ≤ maxGrantItems := h ▸ length_lineGrantItems
  rw [lineGrantItems, lineGrantItem_storedItems]
  cases items
  case cons => exact List.take_of_length_le hl
  case nil  =>
    -- A line without items has none in its own fields either.
    rw [lineGrantItems] at h
    split at h
    case h_1     => exact (List.eq_nil_of_length_eq_zero h.symm).symm ▸ rfl
    case h_2 hne =>
      have hz := List.eq_nil_of_length_eq_zero h.symm
      exact absurd ((List.take_eq_nil_iff.mp hz).resolve_left (by decide)) hne

theorem length_parseGrantRows {rows : List Json} {specs : List GrantItemSpec}
    (h : parseGrantRows rows = some specs) : specs.length ≤ rows.length := by
  induction rows generalizing specs
  case nil => cases h; exact Nat.le_refl 0
  case cons row rows hi =>
    simp only [parseGrantRows, Option.bind_eq_bind, Option.bind_eq_some_iff] at h
    have ⟨spec, _, specs', hr, h⟩ := h
    have hi := hi hr
    cases h
    cases spec <;> simp only [Option.toList, List.length_append, List.length_cons, List.length_nil] <;>
      omega

theorem length_parseGrantItemList {raw : Option Json} {specs : List GrantItemSpec}
    (h : parseGrantItemList raw = some specs) : specs.length ≤ maxGrantItems := by
  have ha : ∀ rows, parseGrantArray rows = some specs → specs.length ≤ maxGrantItems := by
    intro rows h
    rw [parseGrantArray] at h
    split at h
    case isTrue     => nomatch h
    case isFalse hl => exact (length_parseGrantRows h).trans (Nat.le_of_not_lt hl)
  rw [parseGrantItemList.eq_def] at h
  split at h
  case h_1 => cases h; exact Nat.zero_le _
  case h_2 => cases h; exact Nat.zero_le _
  case h_3 =>
    split at h
    case isTrue  => cases h; exact Nat.zero_le _
    case isFalse =>
      split at h
      case h_1 rows _ => exact ha rows h
      case h_2        => nomatch h
  case h_4 rows => exact ha rows h
  case h_5      => nomatch h

end Donations
