import LoxFrontEnd.Proofs.Lexical.Placement

/-! The longest match.

A token is the longest lexical item that starts where it starts, its kind is the
kind of that item, and its value is read off its text. A diagnostic stands where no
item and no blank starts (`scan_longest_match`). -/
namespace LoxFrontEnd

/-- The reserved words by their spelling. -/
def Keyword.table : List (String × Keyword) := Keyword.all.map fun k => (k.text, k)

theorem Keyword.mem_table_iff {text : String} {k : Keyword} :
    (text, k) ∈ Keyword.table ↔ text = k.text := by
  simp only [Keyword.table, List.mem_map, Prod.mk.injEq]
  constructor
  · intro hex
    obtain ⟨l, _, h, rfl⟩ := hex
    exact h.symm
  · intro heq
    subst heq
    exact ⟨k, k.mem_all, rfl, rfl⟩

/-- A text is the longest item with which another one starts. -/
structure LongestItem (text rest : List Char) : Prop where
  isItem : ∃ k, Item k text
  isPrefix : text <+: rest
  longest : ∀ k p, p <+: rest → Item k p → p.length ≤ text.length

/-- The token is the longest item of the source from its place on, and it is what that item
is. -/
structure Token.Matches (t : Token) (rest : List Char) : Prop where
  lexeme : LongestItem t.lexeme.toList rest
  no_comment : ¬ ['/', '/'] <+: rest
  kind : ∀ k, Item k t.lexeme.toList ↔ k = some t.kind
  keyword : Word t.lexeme.toList → ∀ k, t.kind = .keyword k ↔ (t.lexeme, k) ∈ Keyword.table
  identifier : Word t.lexeme.toList →
    (t.kind = .identifier ↔ ∀ k, (t.lexeme, k) ∉ Keyword.table)
  string : t.kind = .string → ∃ body,
    t.lexeme.toList = '"' :: (body ++ ['"']) ∧ t.literal = .text (String.ofList body)
  number : t.kind = .number → t.literal = .number (Number.ofNumeral t.lexeme.toList)
  no_value : t.kind ≠ .string → t.kind ≠ .number → t.literal = .none

/-- Nothing but a fault starts at the place of the diagnostic. -/
structure Diagnostic.Matches (d : Diagnostic) (rest : List Char) : Prop where
  no_item : ∀ k p, p <+: rest → ¬ Item k p
  no_blank : ∀ c, [c] <+: rest → Segment.isBlank c = false
  unterminated : d.fault = .unterminatedString ↔ ['"'] <+: rest
  unexpected : ∀ c, d.fault = .unexpectedCharacter c ↔ [c] <+: rest ∧ c ≠ '"'

theorem Longest.longestItem {k : Option Kind} {text rest : List Char} (h : Item k text)
    (hlongest : Longest text rest) : LongestItem text (text ++ rest) := by
  refine ⟨⟨k, h⟩, List.prefix_append _ _, fun j p hp hj => ?_⟩
  by_contra hlt
  obtain ⟨more, rfl⟩ := List.prefix_of_prefix_length_le (List.prefix_append _ _) hp (by omega)
  have hmore : more <+: rest := (List.prefix_append_right_inj _).1 hp
  exact hlongest more (by rintro rfl; simp at hlt) hmore j hj

theorem Item.eq_none_of_slashes {k : Option Kind} {rest : List Char}
    (h : Item k ('/' :: '/' :: rest)) : k = none := by
  have hfirst : Segment.slash '/' ('/' :: rest) = _ := h.first_eq
  cases k with
  | none => rfl
  | some kind => cases hfirst

theorem Item.eq_keyword {k : Keyword} {text : List Char} (h : Item (some (.keyword k)) text) :
    text = k.text.toList := by
  cases h with
  | keyword k => rfl

theorem Item.ne_keyword {text : List Char} (h : Item (some .identifier) text) (k : Keyword) :
    text ≠ k.text.toList := by
  cases h with
  | identifier _ hne => exact hne k

theorem Token.behind_matches {before text rest : List Char} {kind : Kind}
    (h : (Segment.token kind text).Fits rest) :
    (Token.behind before kind text).Matches (text ++ rest) := by
  obtain ⟨hitem, hlongest⟩ := h
  have hmatch := Longest.longestItem hitem hlongest
  have hlexeme : (Token.behind before kind text).lexeme.toList = text := String.toList_ofList
  have hspelled (k : Keyword) :
      ((Token.behind before kind text).lexeme, k) ∈ Keyword.table ↔ text = k.text.toList := by
    rw [Keyword.mem_table_iff, ← String.toList_inj, hlexeme]
  constructor
  case lexeme => rwa [hlexeme]
  case no_comment =>
    intro hslashes
    have hle := hmatch.longest none _ hslashes (.comment List.not_mem_nil)
    obtain ⟨more, rfl⟩ := List.prefix_of_prefix_length_le hslashes (List.prefix_append _ _) hle
    cases Item.eq_none_of_slashes hitem
  case kind =>
    intro k
    rw [hlexeme]
    exact ⟨fun hk => hk.kind_unique hitem, fun hk => hk ▸ hitem⟩
  case keyword =>
    intro _ k
    rw [hspelled]
    constructor
    · intro hk
      exact Item.eq_keyword (hk ▸ hitem)
    · intro heq
      subst heq
      exact Option.some.inj (hitem.kind_unique (.keyword k))
  case identifier =>
    intro hword
    rw [hlexeme] at hword
    simp only [hspelled]
    constructor
    · intro hk
      exact Item.ne_keyword (hk ▸ hitem)
    · intro hne
      exact Option.some.inj (hitem.kind_unique (.identifier hword hne))
  case string =>
    intro hk
    obtain rfl : kind = .string := hk
    obtain ⟨body, _, rfl⟩ := hitem.eq_quoted
    exact ⟨body, hlexeme, by simp [Token.behind, Literal.ofLexeme]⟩
  case number =>
    intro hk
    obtain rfl : kind = .number := hk
    rw [hlexeme]
    rfl
  case no_value =>
    intro hs hn
    cases kind with
    | string => exact absurd rfl hs
    | number => exact absurd rfl hn
    | _ => rfl

/-- No item starts at the place of a fault: a rejected character starts none, and a quote only one
that is closed. -/
theorem Segment.no_item_of_fault {s : Segment} {rest : List Char} {fault : Fault}
    (h : s.Fits rest) (hfault : s.fault? = some fault) {k : Option Kind} {p : List Char}
    (hp : p <+: s.text ++ rest) : ¬ Item k p := by
  intro hk
  obtain ⟨x, more, rfl⟩ := List.exists_cons_of_ne_nil hk.ne_nil
  cases s with
  | rejected c =>
    obtain rfl : x = c := (List.cons_prefix_cons.1 hp).1
    exact h.shape.2 k more hk
  | unterminated text =>
    obtain ⟨body, hbody, rfl⟩ := h.shape
    obtain rfl : rest = [] := h.stops
    rw [List.append_nil] at hp
    obtain ⟨rfl, hmore⟩ := List.cons_prefix_cons.1 hp
    exact hbody (hmore.subset (Segment.quote_mem_of_item hk))
  | _ => cases hfault

theorem Diagnostic.behind_matches {before rest : List Char} {s : Segment} {fault : Fault}
    (h : s.Fits rest) (hfault : s.fault? = some fault) :
    (Diagnostic.behind before s.text fault).Matches (s.text ++ rest) := by
  have hnone {k : Option Kind} {p : List Char} (hp : p <+: s.text ++ rest) : ¬ Item k p :=
    Segment.no_item_of_fault h hfault hp
  cases s with
  | rejected c =>
    obtain rfl : _ = fault := Option.some.inj hfault
    have hquote : c ≠ '"' := by
      intro heq
      subst heq
      exact h.shape.2 _ _ (.string List.not_mem_nil)
    refine ⟨fun k p hp => hnone hp, fun x hx => ?_, ?_, fun x => ?_⟩
    · obtain rfl : x = c := (List.cons_prefix_cons.1 hx).1
      exact h.shape.1
    · simp [Diagnostic.behind, Segment.text, List.cons_prefix_cons, Ne.symm hquote]
    · have hx : [x] <+: (Segment.rejected c).text ++ rest ↔ c = x := by
        simp [Segment.text, List.cons_prefix_cons, eq_comm]
      rw [hx]
      constructor
      · intro hxc
        cases hxc
        exact ⟨rfl, hquote⟩
      · intro hex
        obtain ⟨rfl, _⟩ := hex
        rfl
  | unterminated text =>
    obtain rfl : _ = fault := Option.some.inj hfault
    obtain ⟨body, _, rfl⟩ := h.shape
    refine ⟨fun k p hp => hnone hp, fun x hx => ?_, ?_, fun x => ?_⟩
    · obtain rfl : x = '"' := (List.cons_prefix_cons.1 hx).1
      rfl
    · simp [Diagnostic.behind, Segment.text, List.cons_prefix_cons]
    · simp [Diagnostic.behind, Segment.text, List.cons_prefix_cons]
  | _ => cases hfault

/-- **Every token is the longest item at its place**, and no item and no blank starts at the
place of a diagnostic. -/
theorem scan_longest_match (source : String) :
    (∀ t ∈ (scan source).tokens, t.kind ≠ .eof → ∃ before rest,
      Text.splitAt? t.span.start source.toList = some (before, rest) ∧ t.Matches rest) ∧
    ∀ d ∈ (scan source).diagnostics.reported, ∃ before rest,
      Text.splitAt? d.span.start source.toList = some (before, rest) ∧ d.Matches rest := by
  constructor
  · intro t ht hkind
    rcases mem_tokens_iff.1 ht with rfl | ⟨a, kind, text, b, h, rfl⟩
    · exact absurd rfl hkind
    · refine ⟨a.flatMap Segment.text, _, ?_, Token.behind_matches (fits_of_segments h)⟩
      rw [eq_of_segments h]
      exact Text.splitAt?_width_append _ _
  · intro d hd
    obtain ⟨a, s, b, fault, h, hfault, rfl⟩ := mem_diagnostics_iff.1 hd
    refine ⟨a.flatMap Segment.text, _, ?_, Diagnostic.behind_matches (fits_of_segments h) hfault⟩
    rw [eq_of_segments h]
    exact Text.splitAt?_width_append _ _

end LoxFrontEnd
