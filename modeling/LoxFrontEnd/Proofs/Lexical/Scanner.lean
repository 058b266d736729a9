import LoxFrontEnd.Proofs.Lexical.Placement
import LoxFrontEnd.Proofs.Number.Reading
import LoxFrontEnd.Scanner

/-! The scanner stays inside its source.

While a lexeme is read, the state is the one of the beginning with the text that was read
counted in bytes and lines (`behind`), and what is unread is the rest of the source. Each part
of the scanner adds the text it reads, so that a turn of the main loop takes the first
segment of the rest (`scanNext_eq`), and the whole run takes the segments one after the other.
No slice fails on the way, and what is found is the scan (`scanner_stays_in_source`). -/
namespace LoxFrontEnd.Scanner

open Segment

theorem bind_of_ok {α β : Type} {m : Scanning α} {f : α → Scanning β} {s t : Scanner} {a : α}
    (h : m s = .ok (a, t)) : (m >>= f) s = f a t := by
  show (m s).bind (fun p => f p.1 p.2) = _
  rw [h]
  rfl

/-! ### A text that is read from a state on -/

/-- The text is what is unread in the state. -/
def Unread (s : Scanner) (cs : List Char) : Prop :=
  ∃ before, s.source = before ++ cs ∧ s.current = Text.width before

/-- The state in which a text has been read, as the beginning of a lexeme. -/
def behind (s : Scanner) (text : List Char) : Scanner :=
  { s with
    start := s.current
    current := s.current + Text.width text
    line := s.line + text.count '\n' }

theorem pass_behind (s : Scanner) (text : List Char) {c : Char} (hc : c ≠ '\n') :
    (s.behind text).pass c = s.behind (text ++ [c]) := by
  simp [behind, pass, Nat.add_assoc, hc]

section
variable {s : Scanner} {text rest : List Char}

theorem Unread.behind (h : s.Unread (text ++ rest)) : (s.behind text).Unread rest := by
  obtain ⟨before, hsource, hcurrent⟩ := h
  refine ⟨before ++ text, ?_, ?_⟩
  · rw [Scanner.behind, hsource, List.append_assoc]
  · rw [Scanner.behind, hcurrent, Text.width_append]

theorem unread_eq (h : s.Unread rest) : unread s = .ok (rest, s) := by
  obtain ⟨before, hsource, hcurrent⟩ := h
  refine slice_eq_ok_iff.2 ⟨Text.slice_eq_ok_iff.2 ⟨before, [], ?_, hcurrent, ?_⟩, rfl⟩
  · rw [hsource, List.append_nil]
  · rw [stop, hsource]

theorem peek_eq (h : s.Unread rest) : peek s = .ok (rest.head?, s) := bind_of_ok (unread_eq h)

theorem peekNext_eq (h : s.Unread rest) : peekNext s = .ok (rest[1]?, s) :=
  bind_of_ok (unread_eq h)

theorem advance_eq {c : Char} (h : s.Unread (c :: rest)) : advance s = .ok (some c, s.pass c) :=
  bind_of_ok (peek_eq h)

/-- The end is reached when nothing is unread. -/
theorem isAtEnd_iff (h : s.Unread rest) : s.isAtEnd = true ↔ rest = [] := by
  obtain ⟨before, hsource, hcurrent⟩ := h
  rw [isAtEnd, decide_eq_true_iff, stop, hsource, hcurrent, ← Text.width_eq_zero, Text.width_append]
  omega

theorem nextIs_behind (h : s.Unread (text ++ rest)) (expected : Char) (hne : expected ≠ '\n') :
    nextIs expected (s.behind text) =
      if rest.head? = some expected then .ok (true, s.behind (text ++ [expected]))
      else .ok (false, s.behind text) := by
  rw [← pass_behind s text hne]
  refine (bind_of_ok (peek_eq h.behind)).trans ?_
  split <;> rfl

theorem lexeme_behind (h : s.Unread (text ++ rest)) :
    lexeme (s.behind text) = .ok (text, s.behind text) := by
  obtain ⟨before, hsource, hcurrent⟩ := h
  refine slice_eq_ok_iff.2 ⟨Text.slice_eq_ok_iff.2 ⟨before, rest, hsource, hcurrent, ?_⟩, rfl⟩
  rw [behind, hcurrent, Text.width_append]

/-! ### Loops -/

/-- A loop counts the newlines that it passes. -/
def Loop.Exact (l : Loop) : Prop := l.counts = true ∨ l.passes '\n' = false

theorem Loop.Exact.lines {l : Loop} (hl : l.Exact) {c : Char} (hc : l.passes c = true) :
    l.lines [c] = [c].count '\n' := by
  rw [Loop.lines]
  rcases hl with hcounts | hnone
  · rw [if_pos hcounts]
  · have hne : c ≠ '\n' := by
      rintro rfl
      rw [hc] at hnone
      cases hnone
    simp [hne]

theorem turn_pass {l : Loop} {c : Char} (h : s.Unread (c :: rest)) (hc : l.passes c = true) :
    turn l s = .ok (true, { s.pass c with line := s.line + l.lines [c] }) := by
  refine (bind_of_ok (peek_eq h)).trans ?_
  dsimp only [List.head?_cons]
  rw [if_pos hc]
  exact bind_of_ok (advance_eq h)

theorem turn_stop {l : Loop} (h : s.Unread rest) (hrest : ∀ c ∈ rest.head?, l.passes c = false) :
    turn l s = .ok (false, s) := by
  refine (bind_of_ok (peek_eq h)).trans ?_
  cases rest with
  | nil => rfl
  | cons c rest =>
    dsimp only [List.head?_cons]
    rw [if_neg (by simp [hrest c rfl])]
    rfl

theorem turn_behind {l : Loop} (hl : l.Exact) {c : Char} (h : s.Unread (text ++ c :: rest))
    (hc : l.passes c = true) : turn l (s.behind text) = .ok (true, s.behind (text ++ [c])) := by
  rw [turn_pass h.behind hc]
  simp [behind, pass, hl.lines hc, Nat.add_assoc]

theorem skip_of_turn {l : Loop} {s t : Scanner} {goesOn : Bool} (h : turn l s = .ok (goesOn, t)) :
    skip l s = if goesOn then skip l t else .ok ((), t) := by
  rw [skip]
  split
  · next e herror => rw [h] at herror; cases herror
  · next u hstop => rw [h] at hstop; cases hstop; rfl
  · next u hpass => rw [h] at hpass; cases hpass; rfl

/-- A loop reads the longest beginning of the rest that it passes. -/
theorem skip_behind {l : Loop} (hl : l.Exact) (h : s.Unread (text ++ rest)) :
    skip l (s.behind text) = .ok ((), s.behind (text ++ rest.takeWhile l.passes)) := by
  induction rest generalizing text with
  | nil =>
    rw [skip_of_turn (turn_stop h.behind (by simp)), List.takeWhile_nil, List.append_nil]
    rfl
  | cons c rest ih =>
    by_cases hc : l.passes c = true
    · rw [skip_of_turn (turn_behind hl h hc), List.takeWhile_cons_of_pos hc,
        if_pos rfl, ih (by simpa using h), List.append_assoc, List.singleton_append]
    · have hstop : ∀ d ∈ (c :: rest).head?, l.passes d = false := by
        rintro d ⟨⟩
        simpa using hc
      rw [skip_of_turn (turn_stop h.behind hstop), List.takeWhile_cons_of_neg hc, List.append_nil]
      rfl

/-! ### Tokens -/

/-- The state behind a segment, with what is found at it. -/
def take (s : Scanner) (seg : Segment) : Scanner :=
  let found := (Finding.ofSegment? ⟨s.current, s.line⟩ seg).toList
  { s.behind seg.text with
    tokens := s.tokens ++ found.filterMap Finding.token?
    diagnostics := ⟨s.diagnostics.reported ++ found.filterMap Finding.diagnostic?⟩ }

/-- A blank or a comment is only read. -/
theorem take_eq_behind {seg : Segment} (h : Finding.ofSegment? ⟨s.current, s.line⟩ seg = none) :
    s.take seg = s.behind seg.text := by
  rw [take, h]
  simp [behind]

theorem addToken_behind (h : s.Unread (text ++ rest)) (kind : Kind) :
    addToken kind (Literal.ofLexeme kind text) (s.behind text) =
      .ok ((), s.take (.token kind text)) := by
  have hreported : (⟨s.diagnostics.reported ++ []⟩ : Diagnostics) = s.diagnostics := by
    rw [List.append_nil]
  refine (bind_of_ok (lexeme_behind h)).trans ?_
  rw [take]
  simp only [Finding.ofSegment?, Option.toList_some, List.filterMap_cons, List.filterMap_nil,
    Finding.token?, Finding.diagnostic?, hreported]
  rfl

theorem report_behind {seg : Segment} {fault : Fault} (h : seg.fault? = some fault) :
    report fault (s.behind seg.text) = .ok ((), s.take seg) := by
  have hfound : Finding.ofSegment? ⟨s.current, s.line⟩ seg = some (.fault
      { line := s.line + seg.text.count '\n',
        span := ⟨s.current, s.current + Text.width seg.text⟩, fault }) := by
    cases seg <;> cases h <;> rfl
  have htokens : s.tokens ++ [] = s.tokens := List.append_nil _
  rw [take, hfound]
  simp only [Option.toList_some, List.filterMap_cons, List.filterMap_nil, Finding.token?,
    Finding.diagnostic?, htokens]
  rfl

/-! ### Segments -/

section
variable {c : Char}

theorem scanComparison_behind (h : s.Unread ([c] ++ rest)) (single double : Operator) :
    scanComparison single double (s.behind [c]) =
      .ok ((), s.take (comparison c single double rest)) := by
  have hnext := nextIs_behind h '=' (by decide)
  cases rest with
  | nil => exact (bind_of_ok hnext).trans (addToken_behind h (.operator single))
  | cons d rest =>
    by_cases hd : d = '='
    · subst hd
      rw [List.head?_cons, if_pos rfl] at hnext
      have hdouble : s.Unread ([c, '='] ++ rest) := h
      exact (bind_of_ok hnext).trans (addToken_behind hdouble (.operator double))
    · have hsingle : comparison c single double (d :: rest) = .token (.operator single) [c] := by
        unfold comparison
        split
        · next heq => exact absurd (List.cons.inj heq).1 hd
        · rfl
      rw [List.head?_cons, if_neg (by simpa using hd)] at hnext
      rw [hsingle]
      exact (bind_of_ok hnext).trans (addToken_behind h (.operator single))

theorem scanSlash_behind (h : s.Unread (['/'] ++ rest)) :
    scanSlash (s.behind ['/']) = .ok ((), s.take (slash '/' rest)) := by
  have hnext := nextIs_behind h '/' (by decide)
  cases rest with
  | nil => exact (bind_of_ok hnext).trans (addToken_behind h (.operator .slash))
  | cons d rest =>
    by_cases hd : d = '/'
    · subst hd
      rw [List.head?_cons, if_pos rfl] at hnext
      have hskip := skip_behind (l := .comment) (.inr (by decide))
        (show s.Unread (['/', '/'] ++ rest) from h)
      refine (bind_of_ok hnext).trans (hskip.trans ?_)
      rw [take_eq_behind rfl]
      rfl
    · have hsingle : slash '/' (d :: rest) = .token (.operator .slash) ['/'] := by
        unfold slash
        split
        · next heq => exact absurd (List.cons.inj heq).1 hd
        · rfl
      rw [List.head?_cons, if_neg (by simpa using hd)] at hnext
      rw [hsingle]
      exact (bind_of_ok hnext).trans (addToken_behind h (.operator .slash))

/-- The text between the quotes. -/
theorem quotedText_behind {body : List Char} (h : s.Unread ('"' :: (body ++ ['"']) ++ rest)) :
    quotedText (s.behind ('"' :: (body ++ ['"']))) =
      .ok (body, s.behind ('"' :: (body ++ ['"']))) := by
  obtain ⟨before, hsource, hcurrent⟩ := h
  have hquote : Text.width ['"'] = 1 := by decide
  refine slice_eq_ok_iff.2 ⟨Text.slice_eq_ok_iff.2 ⟨before ++ ['"'], '"' :: rest, ?_, ?_, ?_⟩, rfl⟩
  · rw [behind, hsource]
    simp
  · rw [behind, hcurrent, Text.width_append, hquote]
  · show s.current + Text.width ('"' :: (body ++ ['"'])) - 1 = Text.width (before ++ ['"'] ++ body)
    rw [hcurrent, ← List.singleton_append]
    simp only [Text.width_append, hquote]
    omega

theorem scanString_behind (h : s.Unread (['"'] ++ rest)) :
    scanString (s.behind ['"']) = .ok ((), s.take (quoted '"' rest)) := by
  have hskip := skip_behind (l := .string) (.inl rfl) h
  refine (bind_of_ok hskip).trans ((bind_of_ok (m := get) rfl).trans ?_)
  by_cases hclosed : '"' ∈ rest
  · obtain ⟨body, after, rfl, hbody⟩ := List.eq_append_cons_of_mem hclosed
    have htaken : (body ++ '"' :: after).takeWhile Loop.string.passes = body :=
      takeWhile_ne_append hbody after
    have hread : s.Unread (['"'] ++ body ++ '"' :: after) := by rwa [List.append_assoc]
    have hwhole : s.Unread ('"' :: (body ++ ['"']) ++ after) := by simpa using hread
    have hmore : ¬ (s.behind (['"'] ++ body)).isAtEnd = true := by
      rw [isAtEnd_iff hread.behind]
      simp
    rw [htaken, if_neg hmore, quoted_closed hbody]
    refine (bind_of_ok (advance_eq hread.behind)).trans ?_
    rw [pass_behind s _ (by decide)]
    refine (bind_of_ok (quotedText_behind hwhole)).trans ?_
    have hliteral : Literal.text (String.ofList body) =
        Literal.ofLexeme .string ('"' :: (body ++ ['"'])) := by
      simp [Literal.ofLexeme]
    rw [hliteral]
    exact addToken_behind hwhole .string
  · have htaken : rest.takeWhile Loop.string.passes = rest :=
      List.takeWhile_eq_self_iff.2 fun x hx => bne_iff_ne.2 (ne_of_mem_of_not_mem hx hclosed)
    have hend : (s.behind (['"'] ++ rest)).isAtEnd = true :=
      (isAtEnd_iff (Unread.behind (by rwa [List.append_nil]))).2 rfl
    rw [htaken, if_pos hend, quoted, if_neg hclosed]
    exact @report_behind s (.unterminated ('"' :: rest)) _ rfl

/-- The point and the digits of a numeral behind its first digits. -/
def fraction (cs : List Char) : List Char :=
  match cs with
  | '.' :: d :: rest => if d.isDigit then '.' :: (d :: rest).takeWhile Char.isDigit else []
  | _ => []

theorem numeral_eq (cs : List Char) :
    numeral cs = cs.takeWhile Char.isDigit ++ fraction (cs.dropWhile Char.isDigit) := by
  simp only [numeral]
  split
  · next d rest hrest =>
    rw [hrest, fraction]
    split <;> simp
  · next hrest =>
    unfold fraction
    split
    · next d rest heq => exact absurd heq (hrest d rest)
    · rw [List.append_nil]

theorem fraction_of_ne {c : Char} (hc : c ≠ '.') (cs : List Char) : fraction (c :: cs) = [] := by
  unfold fraction
  split
  · next heq => exact absurd (List.cons.inj heq).1 hc
  · rfl

theorem scanFraction_behind (h : s.Unread (text ++ rest)) :
    scanFraction (s.behind text) = .ok ((), s.behind (text ++ fraction rest)) := by
  have hpeek := peek_eq h.behind
  have hnext := peekNext_eq h.behind
  refine (bind_of_ok hpeek).trans ?_
  cases rest with
  | nil =>
    rw [show fraction [] = [] from rfl, List.append_nil]
    rfl
  | cons c rest =>
    by_cases hc : c = '.'
    · subst hc
      rw [List.head?_cons, if_pos rfl]
      refine (bind_of_ok hnext).trans ?_
      cases rest with
      | nil =>
        rw [show fraction ['.'] = [] from rfl, List.append_nil]
        rfl
      | cons d rest =>
        by_cases hd : d.isDigit = true
        · have hread : s.Unread (text ++ ['.'] ++ d :: rest) := by rwa [List.append_assoc]
          rw [if_pos (by simpa using hd), fraction, if_pos hd]
          refine (bind_of_ok (advance_eq h.behind)).trans ?_
          rw [pass_behind s _ (by decide)]
          refine (skip_behind (l := .digits) (.inr (by decide)) hread).trans ?_
          rw [List.append_assoc]
          rfl
        · rw [if_neg (by simpa using hd), fraction, if_neg hd, List.append_nil]
          rfl
    · rw [List.head?_cons, if_neg (by simpa using hc), fraction_of_ne hc, List.append_nil]
      rfl

theorem unread_numeral (h : s.Unread (c :: rest)) :
    ∃ more, s.Unread (numeral (c :: rest) ++ more) := by
  obtain ⟨more, hmore⟩ := numeral_prefix (c :: rest)
  exact ⟨more, by rwa [hmore]⟩

theorem numeralText_behind (h : s.Unread ([c] ++ rest)) (hc : c.isDigit = true) :
    numeralText (s.behind [c]) =
      .ok (numeral (c :: rest), s.behind (numeral (c :: rest))) := by
  have hsplit := List.takeWhile_append_dropWhile (p := Char.isDigit) (l := rest)
  have hnumeral : numeral (c :: rest) = [c] ++ rest.takeWhile Char.isDigit ++
      fraction (rest.dropWhile Char.isDigit) := by
    rw [numeral_eq, List.takeWhile_cons_of_pos hc, List.dropWhile_cons_of_pos hc]
    rfl
  have hwhole : s.Unread ([c] ++ rest.takeWhile Char.isDigit ++ rest.dropWhile Char.isDigit) := by
    rwa [List.append_assoc, hsplit]
  obtain ⟨more, hread⟩ := unread_numeral h
  refine (bind_of_ok (skip_behind (l := .digits) (.inr (by decide)) h)).trans ?_
  refine (bind_of_ok (scanFraction_behind hwhole)).trans ?_
  rw [← hnumeral]
  exact lexeme_behind hread

/-- The text of a numeral denotes a number, so that none is missing. -/
theorem scanNumber_behind (h : s.Unread ([c] ++ rest)) (hc : c.isDigit = true) :
    scanNumber (s.behind [c]) = .ok ((), s.take (.token .number (numeral (c :: rest)))) := by
  obtain ⟨more, hread⟩ := unread_numeral h
  refine (bind_of_ok (numeralText_behind h hc)).trans ?_
  rw [Number.ofText?_numeral (item_numeral hc)]
  exact addToken_behind hread .number

theorem kindOfWord_literal (word text : List Char) :
    Literal.ofLexeme (kindOfWord word) text = .none := by
  unfold kindOfWord
  split <;> rfl

theorem scanWord_behind (h : s.Unread ([c] ++ rest)) (hc : c.isAlpha = true) :
    scanWord (s.behind [c]) =
      .ok ((), s.take (.token (kindOfWord (word (c :: rest))) (word (c :: rest)))) := by
  have hword : word (c :: rest) = [c] ++ rest.takeWhile Char.isAlphanum :=
    List.takeWhile_cons_of_pos (isAlphanum_of_isAlpha hc)
  obtain ⟨after, hafter⟩ : word (c :: rest) <+: c :: rest := List.takeWhile_prefix _
  have hread : s.Unread (word (c :: rest) ++ after) := by rwa [hafter]
  refine (bind_of_ok (skip_behind (l := .word) (.inr (by decide)) h)).trans ?_
  show (lexeme >>= _) (s.behind ([c] ++ rest.takeWhile Char.isAlphanum)) = _
  rw [← hword]
  refine (bind_of_ok (lexeme_behind hread)).trans ?_
  rw [← kindOfWord_literal (word (c :: rest)) (word (c :: rest))]
  exact addToken_behind hread _

end

/-! ### Turns -/

theorem first_of_symbol {c : Char} {kind : Kind} (h : kindOfSymbol? c = some kind)
    (rest : List Char) : first c rest = .token kind [c] := by
  unfold kindOfSymbol? at h
  split at h <;> cases h <;> rfl

theorem first_of_comparison {c : Char} {single double : Operator}
    (h : comparison? c = some (single, double)) (rest : List Char) :
    first c rest = comparison c single double rest := by
  unfold comparison? at h
  split at h <;> cases h <;> rfl

theorem ofLexeme_of_symbol {c : Char} {kind : Kind} (h : kindOfSymbol? c = some kind)
    (text : List Char) : Literal.ofLexeme kind text = .none := by
  unfold kindOfSymbol? at h
  split at h <;> cases h <;> rfl

/-- A character that is neither a symbol nor the beginning of a comparison. -/
theorem scanOther_behind {c : Char} (h : s.Unread ([c] ++ rest)) (hkind : kindOfSymbol? c = none)
    (hboth : comparison? c = none) (hnewline : c ≠ '\n') :
    scanOther c (s.behind [c]) = .ok ((), s.take (first c rest)) := by
  unfold scanOther
  by_cases hslash : c = '/'
  · subst hslash
    exact scanSlash_behind h
  rw [if_neg hslash]
  by_cases hblank : c = ' ' ∨ c = '\r' ∨ c = '\t'
  · have hfirst : first c rest = .blank c := by
      rcases hblank with rfl | rfl | rfl <;> rfl
    rw [if_pos hblank, hfirst, take_eq_behind rfl]
    rfl
  rw [if_neg hblank, if_neg hnewline]
  by_cases hquote : c = '"'
  · subst hquote
    exact scanString_behind h
  rw [if_neg hquote]
  by_cases hdigit : c.isDigit = true
  · rw [if_pos hdigit, first_digit hdigit]
    exact scanNumber_behind h hdigit
  rw [if_neg hdigit]
  by_cases halpha : c.isAlpha = true
  · rw [if_pos halpha, first_alpha halpha]
    exact scanWord_behind h halpha
  have hfirst : first c rest = .rejected c := by
    have hplain : isBlank c = false := by
      simp only [not_or] at hblank
      simp [isBlank, hblank, hnewline]
    simp [first, hplain, hquote, hslash, hdigit, halpha, hkind, hboth]
  rw [if_neg halpha, hfirst]
  exact @report_behind s (.rejected c) _ rfl

/-- A turn of the main loop reads the first segment of what is unread. -/
theorem scanNext_eq {c : Char} (h : s.Unread (c :: rest)) :
    scanNext s = .ok ((), s.take (first c rest)) := by
  have hstart : (s.behind []).Unread (c :: rest) := Unread.behind h
  show scanToken (s.behind []) = _
  refine (bind_of_ok (advance_eq hstart)).trans ?_
  show scanBehind c ((s.behind []).pass c) = _
  by_cases hnewline : c = '\n'
  · subst hnewline
    rw [take_eq_behind rfl]
    rfl
  · have h : s.Unread ([c] ++ rest) := h
    rw [pass_behind s [] hnewline, List.nil_append]
    unfold scanBehind
    cases hkind : kindOfSymbol? c with
    | some kind =>
      rw [first_of_symbol hkind, ← ofLexeme_of_symbol hkind [c]]
      exact addToken_behind h kind
    | none =>
      cases hboth : comparison? c with
      | some both =>
        rw [first_of_comparison hboth]
        exact scanComparison_behind h both.1 both.2
      | none => exact scanOther_behind h hkind hboth hnewline

theorem Unread.take {seg : Segment} (h : s.Unread (seg.text ++ rest)) : (s.take seg).Unread rest :=
  h.behind

theorem Unread.next {c : Char} (h : s.Unread (c :: rest)) :
    (s.take (first c rest)).Unread (after c rest) :=
  Unread.take (by rwa [first_text_append_after])

/-! ### The run -/

/-- The run takes the segments of what is unread one after the other. -/
theorem run_eq (h : s.Unread rest) : s.run = .ok ((segments rest).foldl take s) := by
  fun_induction segments rest generalizing s with
  | case1 =>
    rw [run, dif_pos ((isAtEnd_iff h).2 rfl)]
    rfl
  | case2 c rest ih =>
    have hmore : ¬ s.isAtEnd = true := by
      rw [isAtEnd_iff h]
      exact List.cons_ne_nil c rest
    rw [run, dif_neg hmore]
    split
    · next e herror =>
      rw [scanNext_eq h] at herror
      cases herror
    · next t hnext =>
      rw [scanNext_eq h] at hnext
      cases hnext
      exact ih h.next

/-- What is found on a run is what the segments amount to. -/
theorem foldl_take (segs : List Segment) (s : Scanner) :
    (segs.foldl take s).tokens =
        s.tokens ++ (Finding.ofSegments ⟨s.current, s.line⟩ segs).filterMap Finding.token? ∧
      (segs.foldl take s).diagnostics = ⟨s.diagnostics.reported ++
        (Finding.ofSegments ⟨s.current, s.line⟩ segs).filterMap Finding.diagnostic?⟩ ∧
      (segs.foldl take s).source = s.source ∧
      (segs.foldl take s).line = s.line + (segs.flatMap Segment.text).count '\n' := by
  induction segs generalizing s with
  | nil => simp [Finding.ofSegments]
  | cons seg segs ih =>
    obtain ⟨htokens, hdiagnostics, hsource, hline⟩ := ih (s.take seg)
    rw [List.foldl_cons, htokens, hdiagnostics, hsource, hline]
    simp [take, behind, Finding.ofSegments, Cursor.advance, Nat.add_assoc]

end

theorem new_unread (source : List Char) : (new source).Unread source := ⟨[], rfl, rfl⟩

/-- The scanner finds the tokens and diagnostics of the scan. -/
theorem scanSource_eq (source : String) : scanSource source = .ok (scan source) := by
  obtain ⟨htokens, hdiagnostics, hsource, hline⟩ :=
    foldl_take (segments source.toList) (new source.toList)
  rw [scanSource, run_eq (new_unread source.toList)]
  refine congrArg Except.ok ?_
  rw [finish, stop, htokens, hdiagnostics, hsource, hline, flatMap_text_segments, scan, endToken,
    Cursor.start_advance]
  rfl

/-! ### The states of a run -/

/-- The states in which the main loop looks whether the end is reached. -/
inductive Reached (source : String) : Scanner → Prop
  | new : Reached source (new source.toList)
  | next {s t : Scanner} : Reached source s → s.isAtEnd = false → scanNext s = .ok ((), t) →
      Reached source t

/-- Both offsets lie between two characters of the source or at one of its ends, and the second
one does not lie before the first. -/
structure InSource (s : Scanner) : Prop where
  start_boundary : Text.IsBoundary s.source s.start
  current_boundary : Text.IsBoundary s.source s.current
  start_le : s.start ≤ s.current
  current_le : s.current ≤ s.stop

theorem Unread.isBoundary {s : Scanner} {cs : List Char} (h : s.Unread cs) :
    Text.IsBoundary s.source s.current := by
  obtain ⟨before, hsource, hcurrent⟩ := h
  exact ⟨before, ⟨cs, hsource.symm⟩, hcurrent⟩

theorem exists_unread {s : Scanner} (h : Text.IsBoundary s.source s.current) :
    ∃ cs, s.Unread cs := by
  obtain ⟨before, ⟨cs, hsource⟩, hcurrent⟩ := h
  exact ⟨cs, before, hsource.symm, hcurrent⟩

theorem Unread.current_le {s : Scanner} {cs : List Char} (h : s.Unread cs) :
    s.current ≤ s.stop := by
  obtain ⟨before, hsource, hcurrent⟩ := h
  rw [stop, hsource, hcurrent, Text.width_append]
  omega

theorem inSource_take {s : Scanner} {seg : Segment} {rest : List Char}
    (h : s.Unread (seg.text ++ rest)) : (s.take seg).InSource :=
  ⟨h.isBoundary, h.behind.isBoundary, Nat.le_add_right _ _, h.behind.current_le⟩

theorem inSource_of_reached {source : String} {s : Scanner} (h : Reached source s) :
    s.InSource := by
  induction h with
  | new => exact ⟨(new_unread _).isBoundary, (new_unread _).isBoundary, Nat.le_refl _, Nat.zero_le _⟩
  | @next s t _ hmore hnext ih =>
    obtain ⟨cs, hunread⟩ := exists_unread ih.current_boundary
    cases cs with
    | nil =>
      rw [(isAtEnd_iff hunread).2 rfl] at hmore
      cases hmore
    | cons c rest =>
      rw [scanNext_eq hunread] at hnext
      cases hnext
      exact inSource_take (by rwa [first_text_append_after])

/-- A turn of the main loop takes no bad slice and reads a character. -/
theorem exists_next {s : Scanner} (h : s.InSource) (hmore : s.isAtEnd = false) :
    ∃ t, scanNext s = .ok ((), t) ∧ s.current < t.current := by
  obtain ⟨cs, hunread⟩ := exists_unread h.current_boundary
  cases cs with
  | nil =>
    rw [(isAtEnd_iff hunread).2 rfl] at hmore
    cases hmore
  | cons c rest =>
    exact ⟨_, scanNext_eq hunread, (current_lt_of_scanNext (scanNext_eq hunread) (by simp [hmore])).2⟩

theorem Unread.pass {s : Scanner} {c : Char} {rest : List Char} (h : s.Unread (c :: rest)) :
    (s.pass c).Unread rest := by
  obtain ⟨before, hsource, hcurrent⟩ := h
  refine ⟨before ++ [c], ?_, ?_⟩
  · rw [Scanner.pass, hsource, List.append_assoc, List.singleton_append]
  · rw [Scanner.pass, hcurrent, Text.width_append]
    rfl

/-- A turn of a loop inside takes no bad slice. It reads a character or stops. -/
theorem exists_turn {s : Scanner} (h : s.InSource) (l : Loop) :
    ∃ goesOn t, turn l s = .ok (goesOn, t) ∧ t.InSource ∧
      if goesOn then s.current < t.current else t = s := by
  obtain ⟨cs, hunread⟩ := exists_unread h.current_boundary
  by_cases hstop : ∀ c ∈ cs.head?, l.passes c = false
  · exact ⟨false, s, turn_stop hunread hstop, h, rfl⟩
  · cases cs with
    | nil => exact absurd (by simp) hstop
    | cons c rest =>
      have hlt : s.current < (s.pass c).current := Nat.lt_add_of_pos_right c.utf8Size_pos
      have hpasses : l.passes c = true := by simpa using hstop
      refine ⟨true, _, turn_pass hunread hpasses, ?_, hlt⟩
      exact ⟨h.start_boundary, hunread.pass.isBoundary, Nat.le_trans h.start_le (Nat.le_of_lt hlt),
        hunread.pass.current_le⟩

/-- No slice is a bad one, and all loops come to their end. -/
structure StaysInSource (source : String) : Prop where
  in_source : ∀ s, Reached source s → s.InSource
  turns : ∀ s, Reached source s → s.isAtEnd = false →
    ∃ t, scanNext s = .ok ((), t) ∧ s.current < t.current
  /-- In every state inside the source, those in the middle of a lexeme included. -/
  loops : ∀ s : Scanner, s.InSource → ∀ l, ∃ goesOn t, turn l s = .ok (goesOn, t) ∧ t.InSource ∧
    if goesOn then s.current < t.current else t = s
  ends : scanSource source = .ok (scan source)

/-- **The scanner stays inside every source,** reads a character on every turn of its loops, and ends
with the scan of the source. -/
theorem scanner_stays_in_source (source : String) : StaysInSource source where
  in_source _ h := inSource_of_reached h
  turns _ h hmore := exists_next (inSource_of_reached h) hmore
  loops _ h l := exists_turn h l
  ends := scanSource_eq source

end LoxFrontEnd.Scanner
