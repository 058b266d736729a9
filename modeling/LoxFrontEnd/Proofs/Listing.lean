import LoxFrontEnd.Proofs.Lexical.LongestMatch
import LoxFrontEnd.Proofs.Session.Entries

/-! Listings read back.

A listing escapes nothing, and a string in it may hold whole lines that look like those
of other tokens. Still the tokens can be told from it (`listing_eq_iff`). The first word
of a line is the kind. It tells whether the text goes up to the second quote or up to
the next blank, and kind and text settle the value. So two listings that start with the
same token go on alike (`line_append_inj`). -/
namespace LoxFrontEnd

namespace Kind

theorem ofName?_name (k : Kind) : ofName? k.name = some k := by
  have h : ∀ k ∈ all, ofName? k.name = some k := by decide +kernel
  exact h k k.mem_all

theorem name_injective {k l : Kind} (h : k.name = l.name) : k = l :=
  Option.some.inj ((ofName?_name k).symm.trans (h ▸ ofName?_name l))

theorem blank_notMem_name (k : Kind) : ' ' ∉ k.name.toList := by
  have h : ∀ k ∈ all, ' ' ∉ k.name.toList := by decide +kernel
  exact h k k.mem_all

end Kind

/-- Only strings hold blanks among the tokens. -/
theorem Item.blank_notMem {kind : Kind} {text : List Char} (h : Item (some kind) text)
    (hkind : kind ≠ .string) {x : Char} (hx : Segment.isBlank x = true) : x ∉ text := by
  intro hmem
  rcases h.eq_of_blank_mem hx hmem with ⟨body, hbody, rfl⟩ | ⟨cs, hcs, rfl⟩
  · exact hkind (Option.some.inj (h.kind_unique (.string hbody)))
  · cases h.kind_unique (.comment hcs)

namespace Listing

/-! ### Lines -/

/-- The line of a token, by its kind, text and value. -/
def line (content : Kind × String × Literal) : List Char :=
  content.1.name.toList ++
    ' ' :: (content.2.1.toList ++ ' ' :: (content.2.2.toText.toList ++ ['\n']))

theorem toList_toText (t : Token) : (t.toText ++ "\n").toList = line t.content := by
  simp [Token.toText, line, Token.content]

theorem toList_tokenLines (tokens : List Token) :
    (Session.tokenLines tokens).toList = (tokens.map Token.content).flatMap line := by
  induction tokens with
  | nil => rfl
  | cons t tokens ih =>
    have hline : Session.tokenLines (t :: tokens) =
        (t.toText ++ "\n") ++ Session.tokenLines tokens := by
      simp [Session.tokenLines]
    rw [hline, String.toList_append, toList_toText, ih]
    rfl

/-- What a line can be about: the token of an item, or the end of the source. -/
inductive Listed : Kind × List Char → Prop where
  | item {kind : Kind} {text : List Char} : Item (some kind) text → Listed (kind, text)
  | last : Listed (.eof, [])

theorem Listed.eq_quoted {text : List Char} (h : Listed (.string, text)) :
    ∃ body, '"' ∉ body ∧ text = '"' :: (body ++ ['"']) := by
  cases h with
  | item hitem => exact hitem.eq_quoted

theorem Listed.blank_notMem {kind : Kind} {text : List Char} (h : Listed (kind, text))
    (hkind : kind ≠ .string) : ' ' ∉ text := by
  cases h with
  | item hitem => exact hitem.blank_notMem hkind (by decide)
  | last => exact List.not_mem_nil

/-- The text of a token is told by its kind and what follows it on its line. -/
theorem Listed.text_unique {kind : Kind} {s t x y : List Char} (hs : Listed (kind, s))
    (ht : Listed (kind, t)) (h : s ++ ' ' :: x = t ++ ' ' :: y) : s = t := by
  by_cases hkind : kind = .string
  · subst hkind
    obtain ⟨body, hbody, rfl⟩ := hs.eq_quoted
    obtain ⟨other, hother, rfl⟩ := ht.eq_quoted
    simp only [List.cons_append, List.append_assoc, List.cons.injEq, true_and] at h
    obtain ⟨rfl, -⟩ := Segment.append_cons_inj hbody hother h
    rfl
  · exact (Segment.append_cons_inj (hs.blank_notMem hkind) (ht.blank_notMem hkind) h).1

/-- **A line tells its token**, whatever lines follow it. -/
theorem line_append_inj {s t : Kind × List Char} {x y : List Char} (hs : Listed s) (ht : Listed t)
    (h : line (contentOf s) ++ x = line (contentOf t) ++ y) : s = t ∧ x = y := by
  obtain ⟨kind, text⟩ := s
  obtain ⟨other, text'⟩ := t
  simp only [line, contentOf, String.toList_ofList, List.append_assoc, List.cons_append,
    List.nil_append] at h
  obtain ⟨hname, hrest⟩ :=
    Segment.append_cons_inj kind.blank_notMem_name other.blank_notMem_name h
  obtain rfl := Kind.name_injective (String.toList_inj.1 hname)
  obtain rfl := hs.text_unique ht hrest
  simp only [List.append_cancel_left_eq, List.cons.injEq, true_and] at hrest
  exact ⟨rfl, hrest⟩

theorem flatMap_line_inj {xs ys : List (Kind × List Char)} (hx : ∀ t ∈ xs, Listed t)
    (hy : ∀ t ∈ ys, Listed t)
    (h : (xs.map contentOf).flatMap line = (ys.map contentOf).flatMap line) : xs = ys := by
  have hne (c : Kind × String × Literal) (rest : List Char) : line c ++ rest ≠ [] := by
    simp [line]
  induction xs generalizing ys with
  | nil =>
    cases ys with
    | nil => rfl
    | cons t ys => exact absurd h.symm (hne _ _)
  | cons s xs ih =>
    cases ys with
    | nil => exact absurd h (hne _ _)
    | cons t ys =>
      obtain ⟨hs, hxs⟩ := List.forall_mem_cons.1 hx
      obtain ⟨ht, hys⟩ := List.forall_mem_cons.1 hy
      obtain ⟨rfl, hrest⟩ := line_append_inj hs ht h
      rw [ih hxs hys hrest]

/-! ### Listings -/

/-- The kinds and texts of all lines of a listing. -/
def entriesOf (cs : List Char) : List (Kind × List Char) := tokensOf cs ++ [(.eof, [])]

theorem listed_entriesOf {cs : List Char} : ∀ t ∈ entriesOf cs, Listed t := by
  intro t ht
  rcases List.mem_append.1 ht with hmem | hend
  · exact .item (item_of_mem_tokensOf hmem)
  · obtain rfl := List.mem_singleton.1 hend
    exact .last

theorem map_content_entriesOf (source : String) :
    (scan source).tokens.map Token.content = (entriesOf source.toList).map contentOf := by
  rw [map_content_tokens, entriesOf, List.map_append]
  rfl

/-- **The tokens can be read off their listing.** Two sources are listed alike exactly if their
tokens are the same in kind, text and value. -/
theorem listing_eq_iff (a b : String) :
    Emission.stdout (scanned a (scan a)) = Emission.stdout (scanned b (scan b)) ↔
      (scan a).tokens.map Token.content = (scan b).tokens.map Token.content := by
  rw [Session.stdout_listing, Session.stdout_listing, ← String.toList_inj, toList_tokenLines,
    toList_tokenLines]
  constructor
  · intro h
    rw [map_content_entriesOf, map_content_entriesOf] at h ⊢
    rw [flatMap_line_inj listed_entriesOf listed_entriesOf h]
  · intro h
    rw [h]

end Listing

end LoxFrontEnd
