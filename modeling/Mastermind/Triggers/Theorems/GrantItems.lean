import Mastermind.Agent.GrantItems
import Mastermind.Donations.Theorems.ShopGrants
import Mastermind.Triggers.Catalog

open Js Donations Agent

namespace Triggers

variable {item : GrantItemSpec} {items : List GrantItemSpec}

-- The item that the agent is to give.
def sent (item : GrantItemSpec) : GrantItem :=
  ⟨item.name, item.quantity.val⟩

theorem isSpace_of_isNameChar {c : Char} (h : isNameChar c = true) : Agent.isSpace c = false := by
  have := toNat_of_isNameChar h
  simp only [Agent.isSpace, Bool.or_eq_false_iff, Bool.and_eq_false_iff, decide_eq_false_iff_not]
  omega

theorem isItemChar_of_isNameChar {c : Char} (h : isNameChar c = true) : isItemChar c = true := by
  simp only [isNameChar, isItemChar, Bool.or_eq_true, decide_eq_true_eq] at h ⊢
  tauto

theorem trimSpace_eq_self {s : String} (h : ∀ c ∈ s.toList, Agent.isSpace c = false) :
    trimSpace s = s := by
  have hd : s.toList.dropWhile Agent.isSpace = s.toList := by
    cases hl : s.toList
    case nil      => rfl
    case cons c _ => simp [h c (by simp [hl])]
  have hr : s.toList.rdropWhile Agent.isSpace = s.toList := by
    rw [List.rdropWhile_eq_self_iff]
    intro hn
    simp [h _ (List.getLast_mem hn)]
  rw [trimSpace, hd, hr, String.ofList_toList]

-- The agent takes the names that the control plane accepts as they are.
theorem sanitizeItemID_itemName (name : ItemName) : sanitizeItemID name = name := by
  have ht : trimSpace name = name :=
    trimSpace_eq_self fun _ hc => isSpace_of_isNameChar (isNameChar_of_mem hc)
  have hf : name.val.toList.filter isItemChar = name.val.toList :=
    List.filter_eq_self.mpr fun _ hc => isItemChar_of_isNameChar (isNameChar_of_mem hc)
  rw [sanitizeItemID, ht, hf, String.ofList_toList]

theorem toInt_quantity (n : Quantity) : toInt (n.val : ℚ) = n.val := by
  have hm : n.val ≤ 9999 := n.property.right
  have hf : fitsInt n.val = true := by
    simp only [fitsInt, Bool.and_eq_true, decide_eq_true_eq]
    omega
  simp [toInt, hf]

-- The agent has a smaller bound on the quantity of an item.
theorem grantItem_itemJson :
    grantItem (itemJson item) =
      if item.quantity.val ≤ 2304 then .ok (sent item) else .error "invalid grant item" := by
  have hn := itemName_ne_empty item.name
  have hq := item.quantity.property.left
  have hr : (item.name.val = "" ∨ (item.quantity.val : ℤ) < 1 ∨ (item.quantity.val : ℤ) > 2304) ↔
      ¬item.quantity.val ≤ 2304 := by
    simp only [hn, false_or]
    omega
  simp only [grantItem, itemJson, getString, getInt, Json.lookup_cons, Json.ofNat, ite_true,
    sanitizeItemID_itemName, String.reduceEq, ite_false, toInt_quantity, hr, ite_not]
  rfl

theorem mapM_grantItem :
    (items.map itemJson).mapM grantItem =
      if ∀ item ∈ items, item.quantity.val ≤ 2304 then .ok (items.map sent)
      else .error "invalid grant item" := by
  induction items
  case nil => rfl
  case cons item items hi =>
    simp only [List.map_cons, List.mapM_cons, grantItem_itemJson, hi, List.forall_mem_cons]
    by_cases hq : item.quantity.val ≤ 2304
    case neg => simp [hq, bind, Except.bind]
    case pos =>
      by_cases hs : ∀ item ∈ items, item.quantity.val ≤ 2304
      case neg => simp [hq, hs, bind, Except.bind]
      case pos => simp [hq, if_pos hs, bind, Except.bind, pure, Except.pure]

theorem parseGrantItemsActionConfig_items {raw : Option Json} {config : GrantItemsActionConfig}
    (h : parseGrantItemsActionConfig raw = .ok config) :
    parseGrantItemList (raw.bind (·.get? "items")) = some config.items := by
  rw [parseGrantItemsActionConfig] at h
  split at h
  case h_1 => nomatch h
  case h_2 hp =>
    split at h
    case isTrue  => nomatch h
    case isFalse => cases h; exact hp

-- The agent accepts the items of a configuration if and only if none of them exceeds its own bound.
theorem grantItems_agree_iff {raw : Option Json} {config : GrantItemsActionConfig} {payload : Fields}
    (h : parseGrantItemsActionConfig raw = .ok config)
    (hp : payload.lookup "items" = some (itemsJson config.items)) :
    grantItemsFromPayload payload = .ok (config.items.map sent) ↔
      ∀ item ∈ config.items, item.quantity.val ≤ 2304 := by
  have hl := length_parseGrantItemList (parseGrantItemsActionConfig_items h)
  have hs : ¬(config.items.map itemJson).length > 16 := by
    rw [maxGrantItems] at hl
    rw [List.length_map]
    omega
  have hn : ¬(config.items.map itemJson).isEmpty = true := by
    simp [config.nonempty]
  simp only [grantItemsFromPayload, hp, itemsJson, if_neg hn, if_neg hs, mapM_grantItem]
  split
  case isTrue h  => exact iff_of_true rfl h
  case isFalse h => exact iff_of_false (fun he => nomatch he) h

-- A reward of some diamonds.
def diamonds (n : Nat) : Json :=
  .obj [("items", .arr [.obj [("name", .str "diamond"), ("quantity", .ofNat n)]])]

-- The items of the reward, where it is accepted.
def diamondItems (n : Nat) : Option (List GrantItemSpec) :=
  (parseGrantItemsActionConfig (some (diamonds n))).toOption.map GrantItemsActionConfig.items

theorem diamondItems_eq_some {n : Nat} (h : diamondItems n = some items) : ∃ config,
    parseGrantItemsActionConfig (some (diamonds n)) = .ok config ∧ config.items = items := by
  have ⟨config, hc, hi⟩ := Option.map_eq_some_iff.mp h
  cases hp : parseGrantItemsActionConfig (some (diamonds n))
  case error => nomatch hp ▸ hc
  case ok    => cases hp ▸ hc; exact ⟨config, rfl, hi⟩

theorem grantItems_agree_iff_stack : ∃ config,
    (parseGrantItemsActionConfig (some (diamonds 64)) = .ok config) ∧
      grantItemsFromPayload [("items", itemsJson config.items)] = .ok [⟨"diamond", 64⟩] := by
  have hd : diamondItems 64 = some [⟨⟨"diamond", by decide⟩, ⟨64, by decide⟩⟩] := by decide +kernel
  have ⟨config, hc, hi⟩ := diamondItems_eq_some hd
  have hs : ∀ item ∈ config.items, item.quantity.val ≤ 2304 := by
    rw [hi]
    decide
  have hp : [("items", itemsJson config.items)].lookup "items" = some (itemsJson config.items) := rfl
  have ha := (grantItems_agree_iff hc hp).mpr hs
  exact ⟨config, hc, by rw [ha, hi]; rfl⟩

-- The control plane accepts a list that the agent rejects.
theorem grantItems_disagree_hoard : ∃ config,
    (parseGrantItemsActionConfig (some (diamonds 9999)) = .ok config) ∧
      grantItemsFromPayload [("items", itemsJson config.items)] = .error "invalid grant item" := by
  have hd : diamondItems 9999 = some [⟨⟨"diamond", by decide⟩, ⟨9999, by decide⟩⟩] := by
    decide +kernel
  have ⟨config, hc, hi⟩ := diamondItems_eq_some hd
  exact ⟨config, hc, by rw [hi]; rfl⟩

end Triggers
