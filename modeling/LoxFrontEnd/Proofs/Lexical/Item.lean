import LoxFrontEnd.Segment
import Mathlib.Data.List.TakeWhile

/-! Lexical items.

The texts that mean something on their own: brackets, separators, operators,
strings, numbers, reserved words, identifiers and comments. The list of items says
nothing about where in a source they are found; `Item.length_le_first` compares
them with the segment that a source starts with, and `Item.kind_unique` says that
the text of an item settles its kind. -/
namespace LoxFrontEnd

/-- A row of digits, one at least. -/
structure Digits (cs : List Char) : Prop where
  ne_nil : cs ≠ []
  isDigit : ∀ c ∈ cs, c.isDigit = true

/-- A letter, and letters and digits after it. -/
inductive Word : List Char → Prop where
  | intro {c : Char} {rest : List Char} : c.isAlpha = true →
      (∀ x ∈ rest, x.isAlphanum = true) → Word (c :: rest)

/-- The lexical items: tokens with their kinds, and comments, which have none. -/
inductive Item : Option Kind → List Char → Prop where
  | bracket (b : Bracket) : Item (some (.bracket b)) [b.symbol]
  | separator (s : Separator) : Item (some (.separator s)) [s.symbol]
  | operator (o : Operator) : Item (some (.operator o)) o.symbol
  | string {body : List Char} : '"' ∉ body → Item (some .string) ('"' :: (body ++ ['"']))
  | integer {ds : List Char} : Digits ds → Item (some .number) ds
  | decimal {ds es : List Char} : Digits ds → Digits es → Item (some .number) (ds ++ '.' :: es)
  | keyword (k : Keyword) : Item (some (.keyword k)) k.text.toList
  | identifier {cs : List Char} : Word cs → (∀ k : Keyword, cs ≠ k.text.toList) →
      Item (some .identifier) cs
  /-- Two slashes, and anything after them on the same line. -/
  | comment {cs : List Char} : '\n' ∉ cs → Item none ('/' :: '/' :: cs)

theorem Item.eq_quoted {text : List Char} (h : Item (some .string) text) :
    ∃ body, '"' ∉ body ∧ text = '"' :: (body ++ ['"']) := by
  cases h with
  | @string body hbody => exact ⟨body, hbody, rfl⟩

theorem Digits.eq_cons {cs : List Char} (h : Digits cs) :
    ∃ d rest, cs = d :: rest ∧ d.isDigit = true := by
  obtain ⟨d, rest, rfl⟩ := List.exists_cons_of_ne_nil h.ne_nil
  exact ⟨d, rest, rfl, h.isDigit d (List.mem_cons_self ..)⟩

theorem Digits.takeWhile_eq {ds : List Char} (h : Digits ds) : ds.takeWhile Char.isDigit = ds :=
  List.takeWhile_eq_self_iff.2 h.isDigit

theorem Digits.dropWhile_eq {ds : List Char} (h : Digits ds) : ds.dropWhile Char.isDigit = [] :=
  List.dropWhile_eq_nil_iff.2 h.isDigit

/-- A point is where the digits before it end. -/
theorem Digits.takeWhile_point {ds : List Char} (h : Digits ds) (cs : List Char) :
    (ds ++ '.' :: cs).takeWhile Char.isDigit = ds := by
  rw [List.takeWhile_append_of_pos h.isDigit, List.takeWhile_cons_of_neg (by decide),
    List.append_nil]

theorem Digits.dropWhile_point {ds : List Char} (h : Digits ds) (cs : List Char) :
    (ds ++ '.' :: cs).dropWhile Char.isDigit = '.' :: cs := by
  rw [List.dropWhile_append_of_pos h.isDigit, List.dropWhile_cons_of_neg (by decide)]

theorem isAlphanum_of_isAlpha {c : Char} (h : c.isAlpha = true) : c.isAlphanum = true := by
  simp [Char.isAlphanum, h]

theorem isAlphanum_of_isDigit {c : Char} (h : c.isDigit = true) : c.isAlphanum = true := by
  simp [Char.isAlphanum, h]

theorem Digits.isAlphanum {cs : List Char} (h : Digits cs) : ∀ c ∈ cs, c.isAlphanum = true :=
  fun c hc => isAlphanum_of_isDigit (h.isDigit c hc)

theorem Word.isAlphanum {cs : List Char} (h : Word cs) : ∀ c ∈ cs, c.isAlphanum = true := by
  obtain ⟨hc, hrest⟩ := h
  intro x hx
  rcases List.mem_cons.1 hx with rfl | hx
  · exact isAlphanum_of_isAlpha hc
  · exact hrest x hx

theorem Word.of_all {c : Char} {rest : List Char} (hc : c.isAlpha = true)
    (hrest : rest.all Char.isAlphanum = true) : Word (c :: rest) :=
  ⟨hc, List.all_eq_true.1 hrest⟩

/-- A reserved word is spelled like an identifier. -/
theorem Keyword.word_text (k : Keyword) : Word k.text.toList := by
  cases k <;> exact .of_all (by decide) (by decide)

/-! ### The first segment, by the first character -/

/-- The codes of the letters. -/
theorem isAlpha_iff {c : Char} : c.isAlpha = true ↔
    65 ≤ c.toNat ∧ c.toNat ≤ 90 ∨ 97 ≤ c.toNat ∧ c.toNat ≤ 122 := by
  show (decide ('A'.val ≤ c.val ∧ c.val ≤ 'Z'.val) ||
    (decide ('a'.val ≤ c.val) && decide (c.val ≤ 'z'.val))) = true ↔ _
  simp only [Bool.or_eq_true, Bool.and_eq_true, decide_eq_true_eq, UInt32.le_iff_toNat_le]
  rfl

/-- The codes of the digits. -/
theorem isDigit_iff {c : Char} : c.isDigit = true ↔ 48 ≤ c.toNat ∧ c.toNat ≤ 57 := by
  show (decide ('0'.val ≤ c.val) && decide (c.val ≤ '9'.val)) = true ↔ _
  simp only [Bool.and_eq_true, decide_eq_true_eq, UInt32.le_iff_toNat_le]
  rfl

theorem isDigit_eq_false_of_isAlpha {c : Char} (h : c.isAlpha = true) : c.isDigit = false := by
  rw [Bool.eq_false_iff, ne_eq, isDigit_iff]
  rw [isAlpha_iff] at h
  omega

namespace Segment

theorem isBlank_iff {c : Char} : isBlank c = true ↔ c = ' ' ∨ c = '\t' ∨ c = '\r' ∨ c = '\n' := by
  simp [isBlank, or_assoc]

theorem ne_newline {c : Char} (h : isBlank c = false) : c ≠ '\n' :=
  ne_of_apply_ne isBlank (by rw [h]; decide)

theorem isBlank_of_isAlphanum {c : Char} (h : c.isAlphanum = true) : isBlank c = false := by
  rw [Bool.eq_false_iff]
  intro hb
  rcases isBlank_iff.1 hb with rfl | rfl | rfl | rfl <;> exact absurd h (by decide)

/-- A letter or a digit starts a word or a numeral. -/
theorem first_alphanum {c : Char} (h : c.isAlphanum = true) (rest : List Char) :
    first c rest =
      if c.isDigit then .token .number (numeral (c :: rest))
      else .token (kindOfWord (word (c :: rest))) (word (c :: rest)) := by
  have hb : isBlank c = false := isBlank_of_isAlphanum h
  have hq : c ≠ '"' := ne_of_apply_ne Char.isAlphanum (by rw [h]; decide)
  have hs : c ≠ '/' := ne_of_apply_ne Char.isAlphanum (by rw [h]; decide)
  simp only [first, hb, hq, hs, Bool.false_eq_true, if_false]
  by_cases hd : c.isDigit
  · simp only [hd, if_true]
  · have ha : c.isAlpha = true := by simpa [Char.isAlphanum, hd] using h
    simp only [hd, ha, Bool.false_eq_true, if_false, if_true]

theorem first_digit {c : Char} (h : c.isDigit = true) (rest : List Char) :
    first c rest = .token .number (numeral (c :: rest)) := by
  rw [first_alphanum (isAlphanum_of_isDigit h), if_pos h]

theorem first_alpha {c : Char} (h : c.isAlpha = true) (rest : List Char) :
    first c rest = .token (kindOfWord (word (c :: rest))) (word (c :: rest)) := by
  rw [first_alphanum (isAlphanum_of_isAlpha h),
    if_neg (by simp [isDigit_eq_false_of_isAlpha h])]

/-! ### An item with something behind it -/

theorem takeWhile_ne_append {a : Char} {cs : List Char} (h : a ∉ cs) (rest : List Char) :
    (cs ++ a :: rest).takeWhile (· != a) = cs := by
  have hcs : ∀ x ∈ cs, (x != a) = true := fun x hx => bne_iff_ne.2 (ne_of_mem_of_not_mem hx h)
  rw [List.takeWhile_append_of_pos hcs, List.takeWhile_cons_of_neg (by simp), List.append_nil]

/-- What there is of a line in front of its end. -/
theorem takeWhile_line {cs rest : List Char} (h : '\n' ∉ cs)
    (hend : ∀ c, [c] <+: rest → c = '\n') : (cs ++ rest).takeWhile (· != '\n') = cs := by
  cases rest with
  | nil =>
    rw [List.append_nil, List.takeWhile_eq_self_iff]
    exact fun x hx => bne_iff_ne.2 (ne_of_mem_of_not_mem hx h)
  | cons c rest =>
    obtain rfl := hend c (List.prefix_append [c] rest)
    exact takeWhile_ne_append h rest

/-- The first place of a character is the only one at which it can be cut. -/
theorem append_cons_inj {a : Char} {s t x y : List Char} (hs : a ∉ s) (ht : a ∉ t)
    (h : s ++ a :: x = t ++ a :: y) : s = t ∧ x = y := by
  have hcut := congrArg (List.takeWhile (· != a)) h
  rw [takeWhile_ne_append hs, takeWhile_ne_append ht] at hcut
  subst hcut
  exact ⟨rfl, (List.cons.inj (List.append_cancel_left h)).2⟩

theorem quoted_closed {body : List Char} (h : '"' ∉ body) (rest : List Char) :
    quoted '"' (body ++ '"' :: rest) = .token .string ('"' :: (body ++ ['"'])) := by
  rw [quoted, if_pos (by simp), takeWhile_ne_append h, List.cons_append]

theorem slash_comment {cs : List Char} (h : '\n' ∉ cs) (rest : List Char) :
    slash '/' ('/' :: (cs ++ rest)) =
      .comment ('/' :: '/' :: (cs ++ rest.takeWhile (· != '\n'))) := by
  have hcs : ∀ x ∈ '/' :: cs, (x != '\n') = true := by
    intro x hx
    rcases List.mem_cons.1 hx with rfl | hx
    · decide
    · exact bne_iff_ne.2 (ne_of_mem_of_not_mem hx h)
  rw [slash, ← List.cons_append, List.takeWhile_append_of_pos hcs, List.cons_append]

theorem takeWhile_digits {ds : List Char} (h : Digits ds) (rest : List Char) :
    (ds ++ rest).takeWhile Char.isDigit = ds ++ rest.takeWhile Char.isDigit :=
  List.takeWhile_append_of_pos h.isDigit

theorem takeWhile_prefix_numeral (cs : List Char) : cs.takeWhile Char.isDigit <+: numeral cs := by
  simp only [numeral]
  split
  · split
    · exact List.prefix_append _ _
    · exact List.prefix_refl _
  · exact List.prefix_refl _

theorem numeral_integer {ds : List Char} (h : Digits ds) : numeral ds = ds := by
  simp only [numeral, h.takeWhile_eq, h.dropWhile_eq]

theorem numeral_decimal {ds es : List Char} (hds : Digits ds) (hes : Digits es)
    (rest : List Char) :
    numeral (ds ++ '.' :: (es ++ rest)) = ds ++ '.' :: (es ++ rest.takeWhile Char.isDigit) := by
  obtain ⟨e, es', rfl, he⟩ := hes.eq_cons
  have ht := hds.takeWhile_point (e :: (es' ++ rest))
  have hd := hds.dropWhile_point (e :: (es' ++ rest))
  simp only [List.cons_append, numeral, ht, hd, he, if_true]
  rw [← List.cons_append, takeWhile_digits hes]
  rfl

theorem word_append {cs : List Char} (h : Word cs) (rest : List Char) :
    word (cs ++ rest) = cs ++ word rest :=
  List.takeWhile_append_of_pos h.isAlphanum

theorem kindOfWord_keyword (k : Keyword) : kindOfWord k.text.toList = .keyword k := by
  have h : Keyword.ofText? (String.ofList k.text.toList) = some k := by
    rw [String.ofList_toList]
    exact Keyword.ofText?_eq_some_iff.2 rfl
  rw [kindOfWord, h]

theorem kindOfWord_identifier {cs : List Char} (h : ∀ k : Keyword, cs ≠ k.text.toList) :
    kindOfWord cs = .identifier := by
  unfold kindOfWord
  split
  · next k hk =>
    have := Keyword.ofText?_eq_some_iff.1 hk
    exact absurd (by rw [← this, String.toList_ofList]) (h k)
  · rfl

end Segment

open Segment

/-- What an item is as a segment. -/
def Segment.ofItem : Option Kind → List Char → Segment
  | some kind, text => .token kind text
  | none, text => .comment text

theorem Segment.text_ofItem (k : Option Kind) (text : List Char) : (ofItem k text).text = text := by
  cases k <;> rfl

theorem Segment.first_word {c : Char} {cs : List Char} (h : Word (c :: cs)) :
    first c cs = .token (kindOfWord (c :: cs)) (c :: cs) := by
  have hword : word (c :: cs) = c :: cs := by
    simpa [word] using word_append h []
  cases h with
  | intro hc _ => rw [first_alpha hc, hword]

/-- An item alone in a source is its first segment. -/
theorem Item.first_eq {k : Option Kind} {c : Char} {rest : List Char} (h : Item k (c :: rest)) :
    first c rest = Segment.ofItem k (c :: rest) := by
  generalize hp : c :: rest = p at h
  cases h with
  | bracket b => cases b <;> cases hp <;> rfl
  | separator s => cases s <;> cases hp <;> rfl
  | operator o => cases o <;> cases hp <;> rfl
  | string h =>
    cases hp
    exact quoted_closed h []
  | integer h =>
    subst hp
    rw [first_digit (h.isDigit c (List.mem_cons_self ..)), numeral_integer h]
    rfl
  | decimal hds hes =>
    have hn := numeral_decimal hds hes []
    obtain ⟨d, ds, rfl, hd⟩ := hds.eq_cons
    obtain ⟨rfl, rfl⟩ := List.cons.inj hp
    rw [List.append_nil, List.takeWhile_nil, List.append_nil, ← hp] at hn
    rw [first_digit hd, ← hp, hn]
    rfl
  | keyword k =>
    have hw : Word (c :: rest) := hp ▸ k.word_text
    rw [first_word hw, hp, kindOfWord_keyword]
    rfl
  | identifier hw hne =>
    subst hp
    rw [first_word hw, kindOfWord_identifier hne]
    rfl
  | comment h =>
    cases hp
    have hs := slash_comment h []
    rwa [List.append_nil, List.takeWhile_nil, List.append_nil] at hs

theorem Segment.ofItem_injective {j k : Option Kind} {text : List Char}
    (h : Segment.ofItem j text = Segment.ofItem k text) : j = k := by
  cases j <;> cases k <;> simp_all [Segment.ofItem]

theorem Item.ne_nil {k : Option Kind} {p : List Char} (h : Item k p) : p ≠ [] := by
  cases h with
  | operator o => cases o <;> decide
  | integer h => exact h.ne_nil
  | keyword k => cases k <;> decide
  | identifier hw _ => cases hw; simp
  | _ => simp

/-- The text of an item settles its kind. -/
theorem Item.kind_unique {j k : Option Kind} {p : List Char} (hj : Item j p) (hk : Item k p) :
    j = k := by
  obtain ⟨c, rest, rfl⟩ := List.exists_cons_of_ne_nil hj.ne_nil
  exact Segment.ofItem_injective (hj.first_eq.symm.trans hk.first_eq)

theorem Word.length_le_first {cs : List Char} {c : Char} {rest : List Char} (h : Word cs)
    (hp : cs <+: c :: rest) : cs.length ≤ (first c rest).text.length := by
  obtain ⟨after, hp⟩ := hp
  have hw : word (c :: rest) = cs ++ word after := hp ▸ word_append h after
  cases h with
  | intro hc _ =>
    obtain ⟨rfl, -⟩ := List.cons.inj hp
    rw [first_alpha hc, text, hw, List.length_append]
    exact Nat.le_add_right _ _

/-- No item at the beginning of a source is longer than its first segment. -/
theorem Item.length_le_first {k : Option Kind} {p : List Char} {c : Char} {rest : List Char}
    (h : Item k p) (hp : p <+: c :: rest) : p.length ≤ (first c rest).text.length := by
  have hpos : 1 ≤ (first c rest).text.length := List.length_pos_iff.2 (first_text_ne_nil c rest)
  obtain ⟨after, happ⟩ := id hp
  cases h with
  | bracket b => exact hpos
  | separator s => exact hpos
  | operator o => cases o <;> first | exact hpos | (cases happ; exact Nat.le_refl _)
  | @string body h =>
    rw [List.cons_append, List.append_assoc, List.cons_append, List.nil_append] at happ
    obtain ⟨rfl, rfl⟩ := List.cons.inj happ
    have hf : first '"' (body ++ '"' :: after) = _ := quoted_closed h after
    rw [hf]
    exact Nat.le_refl _
  | integer h =>
    obtain ⟨d, ds, rfl, hd⟩ := h.eq_cons
    obtain ⟨rfl, -⟩ := List.cons.inj happ
    rw [first_digit hd, text, ← happ]
    refine List.IsPrefix.length_le (List.IsPrefix.trans ?_ (takeWhile_prefix_numeral _))
    rw [takeWhile_digits h]
    exact List.prefix_append _ _
  | @decimal ds es hds hes =>
    have hn := numeral_decimal hds hes after
    rw [← List.cons_append, ← List.append_assoc, happ] at hn
    obtain ⟨d, ds, rfl, hd⟩ := hds.eq_cons
    obtain ⟨rfl, -⟩ := List.cons.inj happ
    rw [first_digit hd, text, hn]
    simp only [List.length_append, List.length_cons]
    omega
  | keyword k => exact k.word_text.length_le_first hp
  | identifier hw _ => exact hw.length_le_first hp
  | @comment cs h =>
    rw [List.cons_append, List.cons_append] at happ
    obtain ⟨rfl, rfl⟩ := List.cons.inj happ
    have hf : first '/' ('/' :: (cs ++ after)) = _ := slash_comment h after
    rw [hf]
    simp only [text, List.length_cons, List.length_append]
    omega

end LoxFrontEnd
