import LoxFrontEnd.Proofs.Lexical.Content
import LoxFrontEnd.Session.Balance

/-! Nested brackets.

The tokens of a source open and close brackets. An entry is complete if its tokens
close a bracket wrongly, or if they close all of them and the entry does not break
off inside a string (`isComplete_iff`): the characters are read as the scan reads
them, though one by one and without tokens. A string that is open keeps an entry
incomplete only as long as no bracket is closed wrongly in front of it. -/
namespace LoxFrontEnd

namespace Bracket

def isOpening : Bracket → Bool
  | leftParen | leftBrace => true
  | rightParen | rightBrace => false

/-- The other bracket of a pair. -/
def partner : Bracket → Bracket
  | leftParen => rightParen
  | rightParen => leftParen
  | leftBrace => rightBrace
  | rightBrace => leftBrace

end Bracket

/-- The open brackets after a token, the innermost first. A closing bracket has to be the
partner of the innermost one. -/
def nest (opened : List Bracket) : Kind → Option (List Bracket)
  | .bracket b =>
    if b.isOpening then some (b :: opened)
    else match opened with
      | [] => none
      | innermost :: others => if innermost = b.partner then some others else none
  | _ => some opened

/-- The brackets that tokens leave open, if none is closed wrongly. -/
def openBrackets (tokens : List Token) : Option (List Bracket) :=
  (tokens.map Token.kind).foldlM nest []

namespace Session

/-- A character that is read like any other in code. -/
def IsPlain (c : Char) : Prop :=
  c ≠ '"' ∧ c ≠ '/' ∧ c ≠ '(' ∧ c ≠ '{' ∧ c ≠ ')' ∧ c ≠ '}'

instance : DecidablePred IsPlain := fun c =>
  inferInstanceAs (Decidable (c ≠ '"' ∧ c ≠ '/' ∧ c ≠ '(' ∧ c ≠ '{' ∧ c ≠ ')' ∧ c ≠ '}'))

variable {awaited : List Char}

/-- Characters after which the reader stands where it stood are passed over. -/
theorem isCompleteFrom_passed {place : Place} {cs : List Char}
    (h : ∀ c ∈ cs, ∀ rest,
      isCompleteFrom place awaited (c :: rest) = isCompleteFrom place awaited rest)
    (rest : List Char) :
    isCompleteFrom place awaited (cs ++ rest) = isCompleteFrom place awaited rest := by
  induction cs with
  | nil => rfl
  | cons c cs ih =>
    rw [List.cons_append, h c (List.mem_cons_self ..)]
    exact ih fun x hx => h x (List.mem_cons_of_mem c hx)

theorem isCompleteFrom_plain {cs : List Char} (h : ∀ c ∈ cs, IsPlain c) (rest : List Char) :
    isCompleteFrom .code awaited (cs ++ rest) = isCompleteFrom .code awaited rest := by
  refine isCompleteFrom_passed (fun c hc rest => ?_) rest
  obtain ⟨hquote, hslash, hparen, hbrace, hparen', hbrace'⟩ := h c hc
  conv => lhs; unfold isCompleteFrom
  simp only [hquote, hslash, hparen, hbrace, hparen', hbrace', false_and, false_or, if_false]

theorem isCompleteFrom_string {body : List Char} (h : '"' ∉ body) (rest : List Char) :
    isCompleteFrom .string awaited (body ++ rest) = isCompleteFrom .string awaited rest := by
  refine isCompleteFrom_passed (fun c hc rest => ?_) rest
  have hquote : c ≠ '"' := ne_of_mem_of_not_mem hc h
  rw [isCompleteFrom, if_neg hquote]

theorem isCompleteFrom_comment {cs : List Char} (h : '\n' ∉ cs) (rest : List Char) :
    isCompleteFrom .comment awaited (cs ++ rest) = isCompleteFrom .comment awaited rest := by
  refine isCompleteFrom_passed (fun c hc rest => ?_) rest
  have hnewline : c ≠ '\n' := ne_of_mem_of_not_mem hc h
  rw [isCompleteFrom, if_neg hnewline]

/-- A comment is over where its line is over. -/
theorem isCompleteFrom_lineEnd {rest : List Char} (h : ∀ c, [c] <+: rest → c = '\n') :
    isCompleteFrom .comment awaited rest = isCompleteFrom .code awaited rest := by
  cases rest with
  | nil => rfl
  | cons c rest =>
    obtain rfl := h c (List.prefix_append [c] rest)
    rfl

/-- A comment in code is passed over. -/
theorem isCompleteFrom_whole_comment {text rest : List Char} (h : Item none text)
    (hlongest : Longest text rest) :
    isCompleteFrom .code awaited (text ++ rest) = isCompleteFrom .code awaited rest := by
  cases h with
  | @comment cs hcs =>
    have hslash : '\n' ∉ '/' :: cs := by simp [hcs]
    exact (isCompleteFrom_comment hslash rest).trans
      (isCompleteFrom_lineEnd (hlongest.lineEnd hcs))

theorem isPlain_of_all {cs : List Char} (h : cs.all (decide <| IsPlain ·) = true) :
    ∀ c ∈ cs, IsPlain c := fun c hc => of_decide_eq_true (List.all_eq_true.1 h c hc)

theorem isPlain_of_alphanum {c : Char} (h : c.isAlphanum = true) : IsPlain c := by
  refine ⟨?_, ?_, ?_, ?_, ?_, ?_⟩ <;> exact ne_of_apply_ne Char.isAlphanum (by rw [h]; decide)

theorem isPlain_of_isBlank {c : Char} (h : Segment.isBlank c = true) : IsPlain c := by
  rcases Segment.isBlank_iff.1 h with rfl | rfl | rfl | rfl <;> decide

theorem isPlain_of_digits {ds : List Char} (h : Digits ds) : ∀ c ∈ ds, IsPlain c :=
  fun c hc => isPlain_of_alphanum (h.isAlphanum c hc)

theorem isPlain_of_word {cs : List Char} (h : Word cs) : ∀ c ∈ cs, IsPlain c :=
  fun c hc => isPlain_of_alphanum (h.isAlphanum c hc)

/-- A character that starts no item is none of those that matter here. -/
theorem isPlain_of_no_item {c : Char} (h : ∀ k more, ¬ Item k (c :: more)) : IsPlain c := by
  have hne {a : Char} {k : Option Kind} {more : List Char} (hitem : Item k (a :: more)) : c ≠ a :=
    fun heq => h k more (heq ▸ hitem)
  exact ⟨hne (.string List.not_mem_nil), hne (.operator .slash), hne (.bracket .leftParen),
    hne (.bracket .leftBrace), hne (.bracket .rightParen), hne (.bracket .rightBrace)⟩

/-- The characters that are awaited while brackets are open. -/
def awaitedOf (opened : List Bracket) : List Char := opened.map fun b => b.partner.symbol

/-- Is the rest of a text complete after a token? It is if the token closes a bracket wrongly. -/
def completeAfter (opened : Option (List Bracket)) (rest : List Char) : Bool :=
  match opened with
  | some opened => isCompleteFrom .code (awaitedOf opened) rest
  | none => true

theorem isCompleteFrom_bracket (opened : List Bracket) (b : Bracket) (rest : List Char) :
    isCompleteFrom .code (awaitedOf opened) (b.symbol :: rest) =
      completeAfter (nest opened (.bracket b)) rest := by
  cases b with
  | leftParen => rfl
  | leftBrace => rfl
  | rightParen =>
    cases opened with
    | nil => rfl
    | cons innermost others => cases innermost <;> rfl
  | rightBrace =>
    cases opened with
    | nil => rfl
    | cons innermost others => cases innermost <;> rfl

theorem isCompleteFrom_slash {rest : List Char} (h : Longest ['/'] rest) :
    isCompleteFrom .code awaited ('/' :: rest) = isCompleteFrom .code awaited rest := by
  have hrest : rest.head? ≠ some '/' := by
    intro hhead
    obtain ⟨more, rfl⟩ := List.head?_eq_some_iff.1 hhead
    exact h ['/'] (List.cons_ne_nil _ _) (List.prefix_append ['/'] more) none
      (.comment List.not_mem_nil)
  conv => lhs; unfold isCompleteFrom
  simp [hrest]

/-- A token in code is read as a whole. -/
theorem isCompleteFrom_token {opened : List Bracket} {kind : Kind} {text rest : List Char}
    (h : Item (some kind) text) (hlongest : Longest text rest) :
    isCompleteFrom .code (awaitedOf opened) (text ++ rest) =
      completeAfter (nest opened kind) rest := by
  cases h with
  | bracket b => exact isCompleteFrom_bracket opened b rest
  | separator s =>
    have hplain : [s.symbol].all (decide <| IsPlain ·) = true := by cases s <;> decide
    exact isCompleteFrom_plain (isPlain_of_all hplain) rest
  | operator o =>
    cases o with
    | slash => exact isCompleteFrom_slash hlongest
    | _ => exact isCompleteFrom_plain (isPlain_of_all (by decide)) rest
  | string hbody =>
    rw [List.cons_append, List.append_assoc]
    exact isCompleteFrom_string hbody _
  | integer hds => exact isCompleteFrom_plain (isPlain_of_digits hds) rest
  | @decimal ds es hds hes =>
    refine isCompleteFrom_plain (fun c hc => ?_) rest
    rcases List.mem_append.1 hc with hc | hc
    · exact isPlain_of_digits hds c hc
    · rcases List.mem_cons.1 hc with rfl | hc
      · decide
      · exact isPlain_of_digits hes c hc
  | keyword k => exact isCompleteFrom_plain (isPlain_of_word k.word_text) rest
  | identifier hword => exact isCompleteFrom_plain (isPlain_of_word hword) rest

end Session

/-- The kinds of the segments that are tokens. -/
def kindsOf (segs : List Segment) : List Kind := (segs.filterMap Segment.token?).map Prod.fst

theorem kindsOf_token (kind : Kind) (text : List Char) (segs : List Segment) :
    kindsOf (.token kind text :: segs) = kind :: kindsOf segs := rfl

theorem kindsOf_skip {s : Segment} (h : s.token? = none) (segs : List Segment) :
    kindsOf (s :: segs) = kindsOf segs := by
  rw [kindsOf, List.filterMap_cons_none h, kindsOf]

namespace Session

/-- The characters of a cut are read as its segments. -/
theorem isCompleteFrom_cut {segs : List Segment} (h : Cut segs) (opened : List Bracket) :
    isCompleteFrom .code (awaitedOf opened) (segs.flatMap Segment.text) = true ↔
      (kindsOf segs).foldlM nest opened = none ∨
        (kindsOf segs).foldlM nest opened = some [] ∧ ∀ text, .unterminated text ∉ segs := by
  induction h generalizing opened with
  | nil => cases opened <;> simp [isCompleteFrom, kindsOf, awaitedOf]
  | @cons s segs hs hcut ih =>
    rw [List.flatMap_cons]
    obtain ⟨hshape, hstops⟩ := hs
    cases s with
    | token kind text =>
      rw [Segment.text, isCompleteFrom_token hshape hstops, kindsOf_token, List.foldlM_cons]
      cases hnest : nest opened kind with
      | none => simp [completeAfter]
      | some next => simpa [completeAfter] using ih next
    | blank c =>
      have hplain : ∀ x ∈ [c], IsPlain x := by
        simpa using isPlain_of_isBlank hshape
      rw [Segment.text, isCompleteFrom_plain hplain, ih opened, kindsOf_skip rfl]
      simp
    | rejected c =>
      have hplain : ∀ x ∈ [c], IsPlain x := by
        simpa using isPlain_of_no_item hshape.2
      rw [Segment.text, isCompleteFrom_plain hplain, ih opened, kindsOf_skip rfl]
      simp
    | comment text =>
      rw [Segment.text, isCompleteFrom_whole_comment hshape hstops, ih opened, kindsOf_skip rfl]
      simp
    | unterminated text =>
      obtain ⟨body, hbody, rfl⟩ := hshape
      obtain rfl := hcut.eq_nil_of_text hstops
      have hquote : isCompleteFrom .code (awaitedOf opened) ('"' :: (body ++ [])) = false := by
        have hopen : isCompleteFrom .string (awaitedOf opened) (body ++ []) = _ :=
          isCompleteFrom_string hbody []
        exact hopen.trans (by simp [isCompleteFrom])
      rw [Segment.text, List.flatMap_nil, List.cons_append, hquote, kindsOf_skip rfl]
      simp [kindsOf]

/-- A plain character at the end of a text makes no difference. -/
theorem isCompleteFrom_concat {x : Char} (h : IsPlain x) (place : Place) (awaited cs : List Char) :
    isCompleteFrom place awaited (cs ++ [x]) = isCompleteFrom place awaited cs := by
  induction cs generalizing place awaited with
  | nil =>
    cases place with
    | code =>
      have hplain : ∀ c ∈ [x], IsPlain c := by simpa using h
      exact isCompleteFrom_plain hplain []
    | string => simp [isCompleteFrom, h.1]
    | comment => by_cases hx : x = '\n' <;> (simp only [List.nil_append, isCompleteFrom, hx]; rfl)
  | cons c cs ih =>
    have hhead : (cs ++ [x]).head? = some '/' ↔ cs.head? = some '/' := by
      cases cs with
      | nil => simp [h.2.1]
      | cons d cs => rfl
    cases place with
    | string => exact ih _ _
    | comment => exact ih _ _
    | code =>
      rw [List.cons_append]
      unfold isCompleteFrom
      simp only [ih, hhead]

theorem isCompleteFrom_append_plain {tail : List Char} (h : ∀ c ∈ tail, IsPlain c) (place : Place)
    (awaited cs : List Char) :
    isCompleteFrom place awaited (cs ++ tail) = isCompleteFrom place awaited cs := by
  induction tail generalizing cs with
  | nil => rw [List.append_nil]
  | cons x tail ih =>
    have hx := isCompleteFrom_concat (h x (List.mem_cons_self ..)) place awaited cs
    rw [List.append_cons, ih (fun c hc => h c (List.mem_cons_of_mem x hc)), hx]

end Session

/-- The brackets that the tokens of a text leave open, if none is closed wrongly. -/
def openedBy (cs : List Char) : Option (List Bracket) := (kindsOf (segments cs)).foldlM nest []

/-- No bracket and no string is open at the end of the text. -/
structure Closed (cs : List Char) : Prop where
  brackets : openedBy cs = some []
  string : ¬ EndsInString cs

/-- The nesting of brackets does not mind the end of a source. -/
theorem openBrackets_scan (source : String) :
    openBrackets (scan source).tokens = openedBy source.toList := by
  have hkinds : (scan source).tokens.map Token.kind =
      kindsOf (segments source.toList) ++ [.eof] := by
    have h := congrArg (List.map Prod.fst) (map_content_tokens source)
    rw [List.map_map, List.map_append, List.map_map] at h
    exact h
  rw [openBrackets, hkinds, List.foldlM_append, openedBy]
  cases (kindsOf (segments source.toList)).foldlM nest [] <;> rfl

theorem closed_iff {source : String} :
    Closed source.toList ↔ openBrackets (scan source).tokens = some [] ∧
      ∀ d ∈ (scan source).diagnostics.reported, d.fault ≠ .unterminatedString := by
  have hstring : ¬ EndsInString source.toList ↔
      ∀ d ∈ (scan source).diagnostics.reported, d.fault ≠ .unterminatedString := by
    rw [endsInString_iff]
    simp
  rw [openBrackets_scan, ← hstring]
  exact ⟨fun h => ⟨h.brackets, h.string⟩, fun h => ⟨h.1, h.2⟩⟩

namespace Session

/-- A text is complete if one of its tokens closes a bracket wrongly, or if it is closed. -/
theorem isComplete_ofList (cs : List Char) :
    isComplete (String.ofList cs) = true ↔ openedBy cs = none ∨ Closed cs := by
  have hcut := isCompleteFrom_cut (Cut.segments cs) []
  rw [flatMap_text_segments] at hcut
  rw [isComplete, String.toList_ofList]
  refine hcut.trans (or_congr Iff.rfl ?_)
  have hstring : (∀ text, .unterminated text ∉ segments cs) ↔ ¬ EndsInString cs := by
    simp [EndsInString]
  rw [hstring]
  exact ⟨fun h => ⟨h.1, h.2⟩, fun h => ⟨h.brackets, h.string⟩⟩

/-- An entry is complete exactly if one of its tokens closes a bracket wrongly, or if its
tokens leave no bracket open and its scan reports no open string. -/
theorem isComplete_iff (text : String) :
    isComplete text = true ↔
      openBrackets (scan text).tokens = none ∨
        openBrackets (scan text).tokens = some [] ∧
          ∀ d ∈ (scan text).diagnostics.reported, d.fault ≠ .unterminatedString := by
  rw [← closed_iff, openBrackets_scan, ← isComplete_ofList, String.ofList_toList]

/-- An entry that breaks off inside a string waits for its next line, however many brackets are
open in front of the string, unless one of them is closed wrongly. -/
theorem isComplete_eq_false_iff_of_openString (text : String)
    (h : ∃ d ∈ (scan text).diagnostics.reported, d.fault = .unterminatedString) :
    isComplete text = false ↔ openBrackets (scan text).tokens ≠ none := by
  have hstring : ¬ Closed text.toList := fun hclosed => hclosed.string (endsInString_iff.2 h)
  have hcomplete := isComplete_ofList text.toList
  rw [String.ofList_toList, or_iff_left hstring] at hcomplete
  rw [← Bool.not_eq_true, hcomplete, openBrackets_scan]

/-- A bracket inside the open string and one in a comment do not count. -/
theorem isComplete_open_string_in_block :
    (∃ d ∈ (scan "\x7b // \x7d\n  print (\"a)").diagnostics.reported, d.fault = .unterminatedString) ∧
      openBrackets (scan "\x7b // \x7d\n  print (\"a)").tokens = some [.leftParen, .leftBrace] ∧
      isComplete "\x7b // \x7d\n  print (\"a)" = false :=
  ⟨by decide +kernel, by decide +kernel,
    (isComplete_eq_false_iff_of_openString _ (by decide +kernel)).2 (by decide +kernel)⟩

/-- An entry with a bracket that is closed wrongly does not wait for the end of its string. -/
theorem isComplete_open_string_after_mismatch :
    (∃ d ∈ (scan ") \"open").diagnostics.reported, d.fault = .unterminatedString) ∧
      isComplete ") \"open" = true :=
  ⟨by decide +kernel, by decide +kernel⟩

end Session

end LoxFrontEnd
