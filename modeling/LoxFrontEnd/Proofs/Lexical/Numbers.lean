import LoxFrontEnd.Proofs.Lexical.Scanner
import Mathlib.Data.List.Induction

/-! The numbers of a scan.

Where the main loop of the scanner comes to a digit, the text of a numeral is handed to the reader
of numbers. The texts handed over on a run are the numerals among the segments of the source
(`handed_iff`), so none is refused, however long it is and whatever stands behind it, and none
counts as a NaN. A scan is equal to itself if none of its tokens carries a NaN
(`Scanned.beq_self_iff`), and so every scan is (`numbers_read`). -/
namespace LoxFrontEnd

/-! ### Equality

Scans are compared part by part, and the numbers in them by value. -/

theorem Literal.beq_self_iff {l : Literal} :
    (l == l) = true ↔ ∀ x, l = .number x → x.isNaN = false := by
  show instBEqLiteral.beq l l = true ↔ _
  cases l with
  | none => simp [instBEqLiteral.beq]
  | text content => simp [instBEqLiteral.beq]
  | number value => simp [instBEqLiteral.beq, Number.beq_self_iff]

example : (Literal.number .nan == Literal.number .nan) = false := by decide

theorem Token.beq_self_iff {t : Token} : (t == t) = true ↔ (t.literal == t.literal) = true := by
  show instBEqToken.beq t t = true ↔ _
  simp [instBEqToken.beq]

theorem Token.beq_self_list_iff {ts : List Token} :
    (ts == ts) = true ↔ ∀ t ∈ ts, (t == t) = true := by
  induction ts with
  | nil => simp
  | cons t ts ih => simp [List.cons_beq_cons, ih]

/-- A scan is equal to itself exactly if no token carries a NaN. -/
theorem Scanned.beq_self_iff {s : Scanned} :
    (s == s) = true ↔ ∀ t ∈ s.tokens, ∀ x, t.literal = .number x → x.isNaN = false := by
  have hparts : (s == s) = (s.tokens == s.tokens && s.diagnostics == s.diagnostics) := rfl
  rw [hparts, beq_self_eq_true s.diagnostics, Bool.and_true, Token.beq_self_list_iff]
  simp only [Token.beq_self_iff, Literal.beq_self_iff]

namespace Scanner

open Segment

/-! ### The places that the main loop comes to -/

/-- The state is one behind the first segments of a source, with the others unread. -/
structure Between (source : String) (taken : List Segment) (s : Scanner) (rest : List Char) :
    Prop where
  cut : segments source.toList = taken ++ segments rest
  unread : s.Unread rest

section
variable {source : String} {s : Scanner} {taken : List Segment} {rest : List Char}

theorem Between.next {c : Char} (h : Between source taken s (c :: rest)) :
    Between source (taken ++ [first c rest]) (s.take (first c rest)) (after c rest) where
  cut := by rw [h.cut, segments_cons, List.append_assoc, List.singleton_append]
  unread := h.unread.next

theorem exists_between_of_reached (h : Reached source s) :
    ∃ taken rest, Between source taken s rest := by
  induction h with
  | new => exact ⟨[], source.toList, rfl, new_unread _⟩
  | @next s t _ hmore hnext ih =>
    obtain ⟨taken, rest, h⟩ := ih
    cases rest with
    | nil =>
      rw [(isAtEnd_iff h.unread).2 rfl] at hmore
      cases hmore
    | cons c rest =>
      rw [scanNext_eq h.unread] at hnext
      cases hnext
      exact ⟨_, _, h.next⟩

/-- The main loop comes to every segment. -/
theorem exists_reached_between {others : List Segment}
    (h : segments source.toList = taken ++ others) :
    ∃ s rest, Reached source s ∧ Between source taken s rest ∧ segments rest = others := by
  -- From the right, because the last turn takes the last of these segments.
  induction taken using List.reverseRecOn generalizing others with
  | nil => exact ⟨_, source.toList, .new, ⟨rfl, new_unread _⟩, h⟩
  | append_singleton taken seg ih =>
    rw [List.append_assoc, List.singleton_append] at h
    obtain ⟨s, rest, hreached, hbetween, hrest⟩ := ih h
    cases rest with
    | nil => simp at hrest
    | cons c rest =>
      rw [segments_cons] at hrest
      obtain ⟨rfl, rfl⟩ := List.cons.inj hrest
      have hmore : s.isAtEnd = false := by
        rw [Bool.eq_false_iff, ne_eq, isAtEnd_iff hbetween.unread]
        exact List.cons_ne_nil c rest
      exact ⟨_, _, .next hreached hmore (scanNext_eq hbetween.unread), hbetween.next, rfl⟩

end

/-! ### The texts handed to the reader of numbers -/

/-- The main loop comes to a digit, and the text is what is handed over there. -/
inductive Handed (source : String) : List Char → Prop
  | intro {s t u : Scanner} {c : Char} {text : List Char} : Reached source s →
      advance { s with start := s.current } = .ok (some c, t) → c.isDigit = true →
      numeralText t = .ok (text, u) → Handed source text

theorem isDigit_of_first {c : Char} {rest text : List Char}
    (h : first c rest = .token .number text) : c.isDigit = true := by
  have hitem : Item (some .number) text := by
    have hshape := (first_fits c rest).shape
    rwa [h] at hshape
  obtain ⟨d, more, rfl, hd⟩ := Decimal.exists_cons_of_numeral hitem
  have hprefix : d :: more <+: c :: rest := by
    have hfirst := first_text_prefix c rest
    rwa [h] at hfirst
  rwa [← (List.cons_prefix_cons.1 hprefix).1]

/-- Where the next character is a digit, the numeral that it starts is handed over. -/
theorem numeralText_eq {s : Scanner} {c : Char} {rest : List Char} (h : s.Unread (c :: rest))
    (hc : c.isDigit = true) :
    advance { s with start := s.current } = .ok (some c, s.behind [c]) ∧
      numeralText (s.behind [c]) = .ok (numeral (c :: rest), s.behind (numeral (c :: rest))) := by
  have hne : c ≠ '\n' := ne_of_apply_ne Char.isDigit (by rw [hc]; decide)
  have hstart : (s.behind []).Unread (c :: rest) := Unread.behind h
  refine ⟨?_, numeralText_behind h hc⟩
  have hadvance := advance_eq hstart
  rwa [pass_behind s [] hne] at hadvance

/-- What is handed over are the numerals among the segments. -/
theorem handed_iff {source : String} {text : List Char} :
    Handed source text ↔ .token .number text ∈ segments source.toList := by
  constructor
  · rintro @⟨s, t, u, c, _, hreached, hadvance, hdigit, htext⟩
    obtain ⟨taken, rest, hcut, hunread⟩ := exists_between_of_reached hreached
    have hpeek := peek_eq (s := s.behind []) (Unread.behind hunread)
    obtain ⟨more, rfl⟩ : ∃ more, rest = c :: more := by
      have hnext := (advance_eq_ok hadvance).1.symm.trans hpeek
      exact List.head?_eq_some_iff.1 (Prod.mk.inj (Except.ok.inj hnext)).1.symm
    obtain ⟨hadvance', htext'⟩ := numeralText_eq hunread hdigit
    cases hadvance.symm.trans hadvance'
    cases htext.symm.trans htext'
    rw [hcut, segments_cons, first_digit hdigit]
    exact List.mem_append_right _ List.mem_cons_self
  · intro h
    obtain ⟨taken, others, hsegs⟩ := List.append_of_mem h
    obtain ⟨s, rest, hreached, hbetween, hrest⟩ := exists_reached_between hsegs
    cases rest with
    | nil => simp at hrest
    | cons c rest =>
      rw [segments_cons] at hrest
      obtain ⟨hfirst, -⟩ := List.cons.inj hrest
      have hdigit := isDigit_of_first hfirst
      rw [first_digit hdigit] at hfirst
      cases hfirst
      obtain ⟨hadvance, htext⟩ := numeralText_eq hbetween.unread hdigit
      exact .intro hreached hadvance hdigit htext

/-! ### What the numbers are -/

/-- A number in a token is one that a text handed over denotes. -/
theorem handed_of_mem_tokens {source : String} {t : Token} {x : Number}
    (ht : t ∈ (scan source).tokens) (hx : t.literal = .number x) :
    Handed source t.lexeme.toList ∧ Number.ofText? t.lexeme.toList = some x := by
  rcases mem_tokens_iff.1 ht with rfl | ⟨before, kind, text, others, hsegs, rfl⟩
  · cases hx
  · cases kind with
    | number =>
      have hitem : Item (some .number) text := (fits_of_segments hsegs).shape
      have hmem : .token .number text ∈ segments source.toList := by simp [hsegs]
      cases hx
      rw [Token.behind, String.toList_ofList]
      exact ⟨handed_iff.2 hmem, Number.ofText?_numeral hitem⟩
    | _ => cases hx

theorem numeral_of_handed {source : String} {text : List Char} (h : Handed source text) :
    Item (some .number) text := by
  obtain ⟨before, others, hsegs⟩ := List.append_of_mem (handed_iff.1 h)
  exact (fits_of_segments hsegs).shape

/-- The reader of numbers is handed numerals only, and the numbers of a scan are what it makes of
them. -/
structure NumbersRead (source : String) : Prop where
  ends : scanSource source = .ok (scan source)
  /-- A text that is handed over is a row of digits, or two with a point between them. -/
  numeral : ∀ text, Handed source text → Item (some .number) text
  /-- It is not refused, so that no number is the one that stands for a missing number. -/
  accepted : ∀ text, Handed source text → ∃ x, Number.ofText? text = some x
  value : ∀ t ∈ (scan source).tokens, ∀ x, t.literal = .number x →
    Handed source t.lexeme.toList ∧ Number.ofText? t.lexeme.toList = some x
  unsigned : ∀ t ∈ (scan source).tokens, ∀ x, t.literal = .number x → x.Unsigned
  equal : (scan source == scan source) = true

/-- **No text is refused as a number and no token carries a NaN or a number with a sign,** so every
scan is equal to itself. -/
theorem numbers_read (source : String) : NumbersRead source := by
  have hunsigned : ∀ t ∈ (scan source).tokens, ∀ x, t.literal = .number x → x.Unsigned := by
    intro t ht x hx
    obtain ⟨hhanded, hread⟩ := handed_of_mem_tokens ht hx
    exact Number.unsigned_of_numeral (numeral_of_handed hhanded) hread
  constructor
  case ends => exact scanSource_eq source
  case numeral => exact fun _ h => numeral_of_handed h
  case accepted => exact fun _ h => ⟨_, Number.ofText?_numeral (numeral_of_handed h)⟩
  case value => exact fun _ ht _ hx => handed_of_mem_tokens ht hx
  case unsigned => exact hunsigned
  case equal => exact Scanned.beq_self_iff.2 fun t ht x hx => (hunsigned t ht x hx).isNaN_eq

end Scanner

end LoxFrontEnd
