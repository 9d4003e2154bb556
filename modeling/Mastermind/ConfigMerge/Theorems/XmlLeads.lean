import Mastermind.ConfigMerge.Theorems.XmlTags

open Xml (xmlnsPrefix)

namespace ConfigMerge

open XmlNode

variable {tables : Xml.Tables} {s s' : XmlState} {input input' rest t w : Text} {c : Char}
variable {toks : List Xml.Token} {o : Option (XmlState × Text)}

-- The parser gets from a state with an input to another one, or to an error. Each round takes at
-- least one character.
def Leads (tables : Xml.Tables) (s : XmlState) (input : Text) : Option (XmlState × Text) → Prop
  | some (s', rest) => ∃ k, k + rest.length ≤ input.length ∧
      ∀ n, readTokens tables (k + n) s input = readTokens tables n s' rest
  | none => ∃ k, k ≤ input.length ∧ ∀ n, readTokens tables (k + n) s input = none

theorem Leads.refl : Leads tables s input (some (s, input)) :=
  ⟨0, (Nat.zero_add _).le, fun n => by rw [Nat.zero_add]⟩

theorem Leads.trans (h : Leads tables s input (some (s', input'))) (h' : Leads tables s' input' o) :
    Leads tables s input o := by
  have ⟨k, hk, h⟩ := h
  cases o
  case none =>
    have ⟨k', hk', h'⟩ := h'
    exact ⟨k + k', by omega, fun n => by rw [Nat.add_assoc, h, h']⟩
  case some p =>
    have ⟨k', hk', h'⟩ := h'
    exact ⟨k + k', by omega, fun n => by rw [Nat.add_assoc, h, h']⟩

theorem Leads.guard {p : Bool} (h : Leads tables s input (if p then some (s', input') else none))
    (h' : p → Leads tables s' input' o) : Leads tables s input (if p then o else none) := by
  cases p
  case false => exact h
  case true  => exact h.trans (h' rfl)

theorem Leads.guard_and {p q : Bool}
    (h : Leads tables s input (if p then some (s', input') else none))
    (h' : p → Leads tables s' input' (if q then o else none)) :
    Leads tables s input (if p && q then o else none) := by
  cases p
  case false => exact h
  case true  => exact h.trans (h' rfl)

theorem Leads.fails (hn : input ≠ []) (h : Xml.rawToken tables input = none) :
    Leads tables s input none := by
  cases input
  case nil => exact absurd rfl hn
  case cons c input =>
    refine ⟨1, Nat.le_add_left .., fun n => ?_⟩
    rw [Nat.add_comm, readTokens_cons, h]
    rfl

theorem Leads.reads (h : Xml.rawToken tables input = some (toks, rest))
    (hl : rest.length < input.length) (hr : toks.foldlM readToken s = some s') :
    Leads tables s input (some (s', rest)) := by
  cases input
  case nil => nomatch hl
  case cons c input =>
    refine ⟨1, by omega, fun n => ?_⟩
    rw [Nat.add_comm, readTokens_cons, h, Option.bind_eq_bind, Option.bind_some]
    dsimp only
    rw [hr]
    rfl

theorem Leads.parse {content : Text} {roots : List XmlNode} {decoder : Xml.Decoder}
    (h : Leads tables {} content (some ({ decoder, roots }, []))) (hd : decoder.stk = []) :
    parseXMLDoc tables content = some roots := by
  have ⟨k, hk, h⟩ := h
  have ⟨n, hn⟩ := Nat.exists_eq_add_of_le (Nat.le_of_add_right_le hk)
  rw [parseXMLDoc, hn, h, readTokens_nil, if_pos hd]

theorem Leads.parse_none {content : Text} (h : Leads tables {} content none) :
    parseXMLDoc tables content = none := by
  have ⟨k, hk, h⟩ := h
  have ⟨n, hn⟩ := Nat.exists_eq_add_of_le hk
  rw [parseXMLDoc, hn, h]

theorem length_lt_append (h : t ≠ []) : rest.length < (t ++ rest).length := by
  have hl := List.length_pos_iff.mpr h
  rw [List.length_append]
  omega

-- The space between two lines.
def Blanks (w : Text) : Prop :=
  ∀ c ∈ w, c = ' ' ∨ c = '\n'

instance : Decidable (Blanks w) :=
  List.decidableBAll _ w

theorem blanks_indent {indent : Nat} :
    Blanks (List.replicate indent "  ".toList).flatten := by
  intro c hc
  have ⟨l, hl, hc⟩ := List.mem_flatten.mp hc
  rw [List.eq_of_mem_replicate hl] at hc
  exact .inl (List.eq_of_mem_replicate (n := 2) hc)

theorem Blanks.append (h : Blanks w) (h' : Blanks t) : Blanks (w ++ t) :=
  List.forall_mem_append.mpr ⟨h, h'⟩

theorem Blanks.trim (h : Blanks w) : trimSpace w = [] := by
  have hs : ∀ c ∈ w, Agent.isSpace c := fun c hc => by obtain rfl | rfl := h c hc <;> rfl
  rw [← List.append_nil w, trimSpace, Trim.trim_append_left hs]
  rfl

theorem readToken_blanks (h : Blanks w) : readToken s (.charData w) = some s := by
  have ⟨decoder, stack, roots⟩ := s
  cases stack
  case nil => rfl
  case cons node stack =>
    have ⟨name, attrs, children, charData, comments⟩ := node
    simp only [readToken, Xml.Decoder.token, addToken, Option.bind_eq_bind, Option.bind_some,
      h.trim, ne_eq, not_true, if_false]

theorem Leads.blanks (h : Blanks w) (ht : ∀ c ∈ t.head?, c = '<') :
    Leads tables s (w ++ t) (some (s, t)) := by
  by_cases hn : w = []
  case pos =>
    rw [hn]
    exact .refl
  case neg =>
    refine .reads (Xml.rawToken_blanks hn h ht) (length_lt_append hn) ?_
    rw [List.foldlM_cons, readToken_blanks h]
    rfl

end ConfigMerge
