import LoxFrontEnd.Proofs.Lexical.Rescan
import LoxFrontEnd.Proofs.Session.Completion

/-! The scan of a completed word.

Completion looks back from the place of typing for letters, digits and points, and a scan
reads on from the beginning of the line for letters and digits. Where the word is the
beginning of a reserved word both find the same one: it has nothing but letters, and
there is no letter in front of a word that a scan has found (`isAlpha_before_word`). So
a scan of the line with the rest put in finds the reserved word in the place of the word,
and everything before it as it was (`scan_completed`). -/
namespace LoxFrontEnd

open Segment

/-! ### The character in front of a word -/

theorem Bracket.isAlpha_symbol (b : Bracket) : b.symbol.isAlpha = false := by
  cases b <;> decide

theorem Separator.isAlpha_symbol (s : Separator) : s.symbol.isAlpha = false := by
  cases s <;> decide

theorem Operator.isAlpha_symbol (o : Operator) : ∀ c ∈ o.symbol, c.isAlpha = false := by
  have hall : o.symbol.all (!·.isAlpha) = true := by cases o <;> rfl
  simpa using List.all_eq_true.1 hall

theorem Digits.isAlpha {cs : List Char} (h : Digits cs) : ∀ c ∈ cs, c.isAlpha = false := by
  intro c hc
  by_contra halpha
  have hdigit := isDigit_eq_false_of_isAlpha (by simpa using halpha)
  rw [h.isDigit c hc] at hdigit
  cases hdigit

/-- A token that ends with a letter is a word. -/
theorem Item.word_of_isAlpha {kind : Kind} {text : List Char} {c : Char}
    (h : Item (some kind) text) (hlast : text.getLast? = some c) (hc : c.isAlpha = true) :
    Word text := by
  have hmem := List.mem_of_getLast? hlast
  have hnone {P : Prop} (hother : c.isAlpha = false) : P := by
    rw [hc] at hother
    cases hother
  cases h with
  | bracket b => exact hnone (List.mem_singleton.1 hmem ▸ b.isAlpha_symbol)
  | separator s => exact hnone (List.mem_singleton.1 hmem ▸ s.isAlpha_symbol)
  | operator o => exact hnone (o.isAlpha_symbol c hmem)
  | @string body hbody =>
    rw [← List.cons_append, List.getLast?_concat] at hlast
    cases hlast
    exact hnone rfl
  | integer hds => exact hnone (hds.isAlpha c hmem)
  | decimal hds hes =>
    rcases List.mem_append.1 hmem with hmem | hmem
    · exact hnone (hds.isAlpha c hmem)
    · rcases List.mem_cons.1 hmem with rfl | hmem
      · exact hnone rfl
      · exact hnone (hes.isAlpha c hmem)
  | keyword k => exact k.word_text
  | identifier hw _ => exact hw

/-- What stands in front of a letter does not end with one. -/
theorem Segment.Fits.isAlpha_getLast? {s : Segment} {x c : Char} {rest : List Char}
    (h : s.Fits (x :: rest)) (hx : x.isAlpha = true) (hlast : s.text.getLast? = some c) :
    c.isAlpha = false := by
  by_contra hc
  have hc : c.isAlpha = true := by simpa using hc
  obtain ⟨hshape, hstops⟩ := h
  cases s with
  | token kind text =>
    have hitem : Item (some kind) text := hshape
    cases hitem.word_of_isAlpha hlast hc with
    | @intro d more hd hmore =>
      have hlonger : Word (d :: (more ++ [x])) := by
        refine ⟨hd, fun y hy => ?_⟩
        rcases List.mem_append.1 hy with hy | hy
        · exact hmore y hy
        · rw [List.mem_singleton.1 hy]
          exact isAlphanum_of_isAlpha hx
      exact hstops [x] (List.cons_ne_nil _ _) (List.prefix_append [x] rest) _ (item_word hlonger)
  | comment text =>
    have hitem : Item none text := hshape
    cases hitem with
    | comment hcs =>
      obtain rfl := hstops.lineEnd hcs x (List.prefix_append [x] rest)
      cases hx
  | blank d =>
    obtain rfl : d = c := Option.some.inj hlast
    have hblank : isBlank d = true := hshape
    rw [isBlank_of_isAlphanum (isAlphanum_of_isAlpha hc)] at hblank
    cases hblank
  | rejected d =>
    obtain rfl : d = c := Option.some.inj hlast
    exact hshape.2 _ [] (item_word ⟨hc, by simp⟩)
  | unterminated text => cases hstops

/-- There is no letter in front of a word of a text. -/
theorem isAlpha_before_word {cs text : List Char} {a b : List Segment} {kind : Kind} {c : Char}
    (h : segments cs = a ++ .token kind text :: b) (hword : Word text)
    (hc : (a.flatMap Segment.text).getLast? = some c) : c.isAlpha = false := by
  rcases List.eq_nil_or_concat a with rfl | ⟨init, s, rfl⟩
  · cases hc
  · rw [List.concat_eq_append, List.append_assoc] at h
    have hfits : s.Fits (text ++ b.flatMap Segment.text) := fits_of_segments h
    rw [List.concat_eq_append, List.flatMap_append, List.flatMap_singleton,
      List.getLast?_append_of_ne_nil _ hfits.text_ne_nil] at hc
    cases hword with
    | intro hx _ => exact hfits.isAlpha_getLast? hx hc

/-! ### The word at the end of a text -/

theorem isAlpha_of_mem_keyword (k : Keyword) : ∀ c ∈ k.text.toList, c.isAlpha = true :=
  List.all_eq_true.1 (by cases k <;> decide)

/-- The beginning of a reserved word at the end of a text is all of the token that ends there. -/
theorem Session.LastWord.eq_token {before left word text : List Char} {a : List Segment}
    {kind : Kind} {k : Keyword} (hlast : LastWord before left word) (hk : word <+: k.text.toList)
    (h : segments before = a ++ [.token kind text]) (hword : Word text) :
    a.flatMap Segment.text = left ∧ text = word := by
  have hbefore : before = a.flatMap Segment.text ++ text := by
    rw [← flatMap_text_segments before, h, List.flatMap_append, List.flatMap_singleton]
    rfl
  have hrun : ∀ c ∈ text, Session.isWordChar c = true := fun c hc => by
    rw [Session.isWordChar, hword.isAlphanum c hc, Bool.true_or]
  obtain ⟨part, rfl⟩ := hlast.longest text ⟨_, hbefore.symm⟩ hrun
  have hsplit : a.flatMap Segment.text = left ++ part :=
    List.append_cancel_right (by rw [← hbefore, hlast.eq_append, List.append_assoc])
  rcases List.eq_nil_or_concat part with rfl | ⟨init, c, rfl⟩
  · exact ⟨by rw [hsplit, List.append_nil], rfl⟩
  · rw [List.concat_eq_append] at hk hsplit
    have hc := isAlpha_of_mem_keyword k c (hk.subset (by simp))
    rw [isAlpha_before_word h hword (by rw [hsplit, ← List.append_assoc, List.getLast?_concat])] at hc
    cases hc

/-! ### The scan with the rest put in -/

/-- The token of a reserved word in the place of another one. -/
def Token.completed (t : Token) (k : Keyword) : Token :=
  ⟨.keyword k, k.text, .none, t.line, ⟨t.span.start, t.span.start + k.text.utf8ByteSize⟩⟩

/-- What is found in a source that ends with a token. -/
theorem findings_of_last_token {source : String} {a : List Segment} {kind : Kind} {text : List Char}
    (h : segments source.toList = a ++ [.token kind text]) :
    findings source = Finding.ofSegments .start a ++
      [.token (Token.behind (a.flatMap Segment.text) kind text)] := by
  rw [findings, h, Finding.ofSegments_append, Finding.ofSegments, Finding.ofSegment?_start]
  rfl

theorem tokens_of_last_token {source : String} {a : List Segment} {kind : Kind} {text : List Char}
    (h : segments source.toList = a ++ [.token kind text]) :
    (scan source).tokens = (Finding.ofSegments .start a).filterMap Finding.token? ++
      [Token.behind (a.flatMap Segment.text) kind text, endToken source] := by
  rw [scan, findings_of_last_token h, List.filterMap_append]
  simp [Finding.token?]

theorem diagnostics_of_last_token {source : String} {a : List Segment} {kind : Kind}
    {text : List Char} (h : segments source.toList = a ++ [.token kind text]) :
    (scan source).diagnostics = ⟨(Finding.ofSegments .start a).filterMap Finding.diagnostic?⟩ := by
  rw [scan, findings_of_last_token h, List.filterMap_append]
  simp [Finding.diagnostic?]

theorem segments_keyword (k : Keyword) :
    segments k.text.toList = [.token (.keyword k) k.text.toList] := by
  have hfits : (Segment.token (.keyword k) k.text.toList).Fits [] := ⟨.keyword k, longest_nil _⟩
  have hsegs := hfits.segments_append
  rwa [List.append_nil, segments_nil] at hsegs

/-- A word that goes on to be a reserved word is that word in the scan as well. -/
theorem segments_completed {before word rest : List Char} {a : List Segment} {kind : Kind}
    {k : Keyword} (h : segments before = a ++ [.token kind word]) (hword : Word word)
    (hk : word ++ rest = k.text.toList) :
    segments (before ++ rest) = a ++ [.token (.keyword k) k.text.toList] := by
  have hsettled : Settled word := by
    refine ⟨?_, ?_⟩
    · rintro rfl
      cases hword
    · rintro rfl
      cases hword with
      | intro hc _ => cases hc
  have hsegs := segments_append_of_settled h (by simpa [Segment.text] using hsettled) rest
  rw [hsegs, List.flatMap_singleton, Segment.text, hk, segments_keyword]

theorem Word.count_newline {cs : List Char} (h : Word cs) : cs.count '\n' = 0 :=
  List.count_eq_zero.2 (Item.blank_notMem_of_isAlphanum h.isAlphanum (by decide))

theorem Token.behind_completed (before : List Char) (kind : Kind) {word : List Char}
    (hword : Word word) (k : Keyword) :
    Token.behind before (.keyword k) k.text.toList = (Token.behind before kind word).completed k := by
  rw [behind, completed, Span.behind, Text.width_append, Text.width_toList, List.count_append,
    k.word_text.count_newline, String.ofList_toList]
  simp [behind, Span.behind, Literal.ofLexeme, hword.count_newline]

/-- The longer source has a reserved word in the place of the last token of the other, and all else
as the other has it. -/
structure Completed (source longer : String) (t : Token) (k : Keyword) : Prop where
  tokens : ∃ earlier, (scan source).tokens = earlier ++ [t, endToken source] ∧
    (scan longer).tokens = earlier ++ [t.completed k,
      { endToken source with span := ⟨longer.utf8ByteSize, longer.utf8ByteSize⟩ }]
  diagnostics : (scan longer).diagnostics = (scan source).diagnostics

theorem completed_of_last_token {source more : String} {word : List Char} {a : List Segment}
    {kind : Kind} {k : Keyword} (h : segments source.toList = a ++ [.token kind word])
    (hword : Word word) (hk : word ++ more.toList = k.text.toList) :
    Completed source (source ++ more) (Token.behind (a.flatMap Segment.text) kind word) k := by
  have hlonger : segments (source ++ more).toList = a ++ [.token (.keyword k) k.text.toList] := by
    rw [String.toList_append, segments_completed h hword hk]
  have hcount : more.toList.count '\n' = 0 := by
    have hall := k.word_text.count_newline
    rw [← hk, List.count_append] at hall
    omega
  have hend : endToken (source ++ more) = { endToken source with
      span := ⟨(source ++ more).utf8ByteSize, (source ++ more).utf8ByteSize⟩ } := by
    rw [← endToken_span]
    simp [endToken, Cursor.start_advance, hcount]
  refine ⟨⟨_, tokens_of_last_token h, ?_⟩, ?_⟩
  · rw [tokens_of_last_token hlonger, Token.behind_completed _ kind hword, hend]
  · rw [diagnostics_of_last_token hlonger, diagnostics_of_last_token h]

theorem Item.word_of_kind {kind : Kind} {text : List Char} (h : Item (some kind) text)
    (hkind : kind = .identifier ∨ kind.isKeyword = true) : Word text := by
  cases h with
  | keyword k => exact k.word_text
  | identifier hw _ => exact hw
  | _ => rcases hkind with hkind | hkind <;> cases hkind

/-- The segment that stops where the text does is the last one. -/
theorem eq_nil_of_width_eq {cs : List Char} {a b : List Segment} {s : Segment}
    (h : segments cs = a ++ s :: b)
    (hwidth : Text.width (a.flatMap Segment.text ++ s.text) = Text.width cs) : b = [] := by
  have hall := Cut.segments cs
  rw [h, List.append_cons] at hall
  refine hall.of_append.eq_nil_of_text (Text.width_eq_zero.1 ?_)
  rw [eq_of_segments h, List.flatMap_cons, ← List.append_assoc, Text.width_append _ (b.flatMap _)]
    at hwidth
  omega

/-- An identifier or a reserved word at the end of a source. -/
theorem exists_word_at_end {source : String} {t : Token} (ht : t ∈ (scan source).tokens)
    (hkind : t.kind = .identifier ∨ t.kind.isKeyword = true)
    (hstop : t.span.stop = source.utf8ByteSize) :
    ∃ a kind text, segments source.toList = a ++ [.token kind text] ∧ Word text ∧
      t = Token.behind (a.flatMap Segment.text) kind text := by
  rcases mem_tokens_iff.1 ht with rfl | ⟨a, kind, text, b, hsegs, rfl⟩
  · rcases hkind with hkind | hkind <;> cases hkind
  · have hitem : Item (some kind) text := (fits_of_segments hsegs).shape
    rw [← Text.width_toList] at hstop
    obtain rfl := eq_nil_of_width_eq hsegs hstop
    exact ⟨a, kind, text, hsegs, hitem.word_of_kind hkind, rfl⟩

namespace Session

/-- **Completing a word to a reserved word makes its token the token of the reserved word** and
changes nothing else in the scan. -/
theorem scan_completed (line : String) (pos : Nat) {before after : List Char}
    (h : Text.splitAt? pos line.toList = some (before, after)) {candidates : List Candidate}
    (hcomplete : complete line pos = .ok candidates) {c : Candidate} (hc : c ∈ candidates)
    {k : Keyword} (hk : c.word = k.text) {t : Token}
    (ht : t ∈ (scan (String.ofList before)).tokens)
    (hkind : t.kind = .identifier ∨ t.kind.isKeyword = true) (hstop : t.span.stop = pos) :
    wordStart line pos = .ok t.span.start ∧
      Completed (String.ofList before) (String.ofList before ++ c.rest) t k := by
  obtain ⟨hline, rfl⟩ := Text.splitAt?_eq_some_iff.1 h
  obtain ⟨left, word, hlast⟩ := exists_lastWord before
  rw [complete, completion_eq hline hlast] at hcomplete
  obtain rfl : candidatesFor word = candidates := Except.ok.inj hcomplete
  obtain ⟨hstarts, heq⟩ := mem_candidatesFor hc
  have hwidth : t.span.stop = (String.ofList before).utf8ByteSize := by
    rw [hstop, ← Text.width_toList, String.toList_ofList]
  obtain ⟨a, kind, text, hsegs, hword, rfl⟩ := exists_word_at_end ht hkind hwidth
  have hbefore : segments before = a ++ [.token kind text] := by
    rwa [String.toList_ofList] at hsegs
  obtain ⟨hleft, rfl⟩ := hlast.eq_token (hk ▸ hstarts) hbefore hword
  have hrest : text ++ c.rest.toList = k.text.toList := by
    rw [heq, append_rest hstarts, hk]
  refine ⟨?_, completed_of_last_token hsegs hword hrest⟩
  rw [wordStart_eq hline hlast, ← hleft]
  rfl

/-- A word behind a rejected character of two bytes and an operator, with more of the line behind
it. -/
theorem scan_completed_behind_operator :
    ∃ t ∈ (scan "1 é+wh").tokens, t.kind = .identifier ∧ t.span.stop = 7 ∧
      complete "1 é+wh)" 7 = .ok [⟨"while", "ile"⟩] ∧ wordStart "1 é+wh)" 7 = .ok t.span.start ∧
      Completed "1 é+wh" ("1 é+wh" ++ "ile") t .while_ := by
  obtain ⟨t, ht⟩ : ∃ t, (scan "1 é+wh").tokens[2]? = some t :=
    Option.isSome_iff_exists.1 (by decide +kernel)
  have hfacts : ∀ t ∈ (scan "1 é+wh").tokens[2]?, t.kind = .identifier ∧ t.span.stop = 7 := by
    decide +kernel
  obtain ⟨hkind, hstop⟩ := hfacts t ht
  have hcut : Text.splitAt? 7 "1 é+wh)".toList = some ("1 é+wh".toList, ")".toList) := by decide
  have hcomplete : complete "1 é+wh)" 7 = .ok [⟨"while", "ile"⟩] := by decide +kernel
  have hmem := List.mem_of_getElem? ht
  have hboth := scan_completed "1 é+wh)" 7 hcut hcomplete (List.mem_singleton.2 rfl)
    (k := .while_) rfl (t := t) (by rwa [String.ofList_toList]) (.inl hkind) hstop
  rw [String.ofList_toList] at hboth
  exact ⟨t, hmem, hkind, hstop, hcomplete, hboth⟩

/-- A numeral in front of the word makes it one that nothing begins with. -/
example : complete "1wh" 3 = .ok [] ∧ (scan "1wh").tokens.map Token.lexeme = ["1", "wh", ""] := by
  decide +kernel

end Session

end LoxFrontEnd
