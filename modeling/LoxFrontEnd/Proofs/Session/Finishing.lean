import LoxFrontEnd.Proofs.Lexical.LineEnd
import LoxFrontEnd.Proofs.Session.Nesting

/-! How an entry is finished.

An entry that waits for its next line waits for a quote if it breaks off inside a string,
and then for the partners of the brackets that are open. A line of just these characters
makes it complete, and nothing less does (`finished_by_ending`): whatever has been typed,
there is a way on. The newline in front of that line ends a comment, and every token at
the end of the entry. -/
namespace LoxFrontEnd

/-! ### Open brackets -/

/-- What is open has been opened. -/
theorem isOpening_of_nest {opened left : List Bracket} {kind : Kind}
    (h : nest opened kind = some left) (hopened : ∀ b ∈ opened, b.isOpening = true) :
    ∀ b ∈ left, b.isOpening = true := by
  cases kind with
  | bracket b =>
    simp only [nest] at h
    by_cases hb : b.isOpening = true
    · rw [if_pos hb] at h
      obtain rfl := Option.some.inj h
      exact List.forall_mem_cons.2 ⟨hb, hopened⟩
    · rw [if_neg hb] at h
      cases opened with
      | nil => cases h
      | cons innermost others =>
        obtain ⟨-, rfl⟩ : innermost = b.partner ∧ others = left := by simpa using h
        exact fun x hx => hopened x (List.mem_cons_of_mem innermost hx)
  | _ =>
    obtain rfl := Option.some.inj h
    exact hopened

theorem isOpening_of_foldlM {kinds : List Kind} {opened left : List Bracket}
    (h : kinds.foldlM nest opened = some left) (hopened : ∀ b ∈ opened, b.isOpening = true) :
    ∀ b ∈ left, b.isOpening = true := by
  induction kinds generalizing opened with
  | nil =>
    obtain rfl := Option.some.inj h
    exact hopened
  | cons kind kinds ih =>
    rw [List.foldlM_cons] at h
    obtain ⟨next, hnext, hrest⟩ := Option.bind_eq_some_iff.1 h
    exact ih hrest (isOpening_of_nest hnext hopened)

/-- The partner of the innermost bracket closes it. -/
theorem nest_partner {b : Bracket} (h : b.isOpening = true) (opened : List Bracket) :
    nest (b :: opened) (.bracket b.partner) = some opened := by
  cases b with
  | leftParen => rfl
  | leftBrace => rfl
  | rightParen => cases h
  | rightBrace => cases h

namespace Session

/-! ### Behind an entry -/

/-- The place of the characters that follow a text and a newline. -/
def placeBehind (openString : Bool) : Place := if openString then .string else .code

/-- The next line is read with the brackets that the tokens have left open, inside the string
that is open, if there is one. -/
theorem isCompleteFrom_newline {segs : List Segment} (h : Cut segs) {openString : Bool}
    (hopen : openString = true ↔ ∃ text, .unterminated text ∈ segs) {opened left : List Bracket}
    (hnest : (kindsOf segs).foldlM nest opened = some left) (more : List Char) :
    isCompleteFrom .code (awaitedOf opened) (segs.flatMap Segment.text ++ '\n' :: more) =
      isCompleteFrom (placeBehind openString) (awaitedOf left) more := by
  induction h generalizing opened with
  | nil =>
    obtain rfl : openString = false := by simpa using hopen
    obtain rfl := Option.some.inj hnest
    rfl
  | @cons s segs hs hcut ih =>
    rw [List.flatMap_cons, List.append_assoc]
    obtain ⟨hshape, hstops⟩ := hs
    cases s with
    | token kind text =>
      rw [kindsOf_token, List.foldlM_cons] at hnest
      obtain ⟨next, hnext, hrest⟩ := Option.bind_eq_some_iff.1 hnest
      rw [Segment.text, isCompleteFrom_token hshape (hstops.append_newline hshape more), hnext]
      exact ih (by simpa using hopen) hrest
    | blank c =>
      have hplain : ∀ x ∈ [c], IsPlain x := by simpa using isPlain_of_isBlank hshape
      rw [Segment.text, isCompleteFrom_plain hplain]
      exact ih (by simpa using hopen) hnest
    | rejected c =>
      have hplain : ∀ x ∈ [c], IsPlain x := by simpa using isPlain_of_no_item hshape.2
      rw [Segment.text, isCompleteFrom_plain hplain]
      exact ih (by simpa using hopen) hnest
    | comment text =>
      rw [Segment.text, isCompleteFrom_whole_comment hshape (hstops.append_newline hshape more)]
      exact ih (by simpa using hopen) hnest
    | unterminated text =>
      obtain ⟨body, hbody, rfl⟩ := hshape
      obtain rfl := hcut.eq_nil_of_text hstops
      obtain rfl : openString = true := hopen.2 ⟨_, List.mem_cons_self ..⟩
      obtain rfl := Option.some.inj hnest
      have hquote : '"' ∉ body ++ ['\n'] := by simp [hbody]
      have hstring : isCompleteFrom .string (awaitedOf opened) (body ++ ['\n'] ++ more) =
          isCompleteFrom .string (awaitedOf opened) more := isCompleteFrom_string hquote more
      rw [List.append_assoc] at hstring
      exact hstring

/-! ### What is waited for -/

/-- The text that finishes an entry: the quote of an open string, and the partners of the open
brackets, the innermost first. -/
def ending (openString : Bool) (opened : List Bracket) : List Char :=
  (if openString then ['"'] else []) ++ awaitedOf opened

/-- Of the awaited brackets all are needed. -/
theorem isCompleteFrom_awaited_iff {opened : List Bracket}
    (hopened : ∀ b ∈ opened, b.isOpening = true) {p : List Char} (hp : p <+: awaitedOf opened) :
    isCompleteFrom .code (awaitedOf opened) p = true ↔ p = awaitedOf opened := by
  induction opened generalizing p with
  | nil =>
    obtain rfl := List.prefix_nil.1 hp
    simp [isCompleteFrom, awaitedOf]
  | cons b opened ih =>
    obtain ⟨hb, hrest⟩ := List.forall_mem_cons.1 hopened
    have hawaited : awaitedOf (b :: opened) = b.partner.symbol :: awaitedOf opened := rfl
    cases p with
    | nil => simp [isCompleteFrom, hawaited]
    | cons c p =>
      rw [hawaited] at hp
      obtain ⟨rfl, htail⟩ := List.cons_prefix_cons.1 hp
      rw [isCompleteFrom_bracket, nest_partner hb, hawaited, List.cons_inj_right]
      exact ih hrest htail

theorem isCompleteFrom_ending_iff {openString : Bool} {opened : List Bracket}
    (hopened : ∀ b ∈ opened, b.isOpening = true) {p : List Char}
    (hp : p <+: ending openString opened) :
    isCompleteFrom (placeBehind openString) (awaitedOf opened) p = true ↔
      p = ending openString opened := by
  cases openString with
  | false => exact isCompleteFrom_awaited_iff hopened hp
  | true =>
    have hending : ending true opened = '"' :: awaitedOf opened := rfl
    rw [hending] at hp ⊢
    cases p with
    | nil => simp [isCompleteFrom, placeBehind]
    | cons c p =>
      obtain ⟨rfl, htail⟩ := List.cons_prefix_cons.1 hp
      rw [List.cons_inj_right]
      exact isCompleteFrom_awaited_iff hopened htail

theorem newline_notMem_ending (openString : Bool) (opened : List Bracket) :
    '\n' ∉ ending openString opened := by
  have hawaited : '\n' ∉ awaitedOf opened := by
    simp only [awaitedOf, List.mem_map, not_exists, not_and]
    intro b _
    cases b <;> decide
  cases openString <;> simp [ending, hawaited]

/-! ### The next line -/

/-- The entry is complete with the given line behind it, and not sooner. -/
structure FinishedBy (entry : String) (line : List Char) : Prop where
  one_line : '\n' ∉ line
  complete : isComplete (entry ++ "\n" ++ String.ofList line) = true
  not_sooner : ∀ p, p <+: line → p ≠ line → isComplete (entry ++ "\n" ++ String.ofList p) = false

/-- **An entry that is not complete is finished by a line of what it leaves open.** -/
theorem finished_by_ending (entry : String) (h : isComplete entry = false) :
    ∃ opened, openBrackets (scan entry).tokens = some opened ∧
      (∀ b ∈ opened, b.isOpening = true) ∧
      FinishedBy entry (ending (decide (∃ d ∈ (scan entry).diagnostics.reported,
        d.fault = .unterminatedString)) opened) := by
  have hnone : openedBy entry.toList ≠ none := by
    intro hnone
    have hcomplete := (isComplete_ofList entry.toList).2 (.inl hnone)
    rw [String.ofList_toList, h] at hcomplete
    cases hcomplete
  obtain ⟨opened, hopened⟩ := Option.ne_none_iff_exists'.1 hnone
  have hopening : ∀ b ∈ opened, b.isOpening = true := isOpening_of_foldlM hopened (by simp)
  have hstring : decide (∃ d ∈ (scan entry).diagnostics.reported, d.fault = .unterminatedString) =
      true ↔ EndsInString entry.toList := decide_eq_true_iff.trans endsInString_iff.symm
  have hread (line : List Char) : isComplete (entry ++ "\n" ++ String.ofList line) =
      isCompleteFrom (placeBehind (decide (∃ d ∈ (scan entry).diagnostics.reported,
        d.fault = .unterminatedString))) (awaitedOf opened) line := by
    rw [← isCompleteFrom_newline (Cut.segments entry.toList) hstring hopened, flatMap_text_segments]
    simp [isComplete, awaitedOf, String.toList_append]
  refine ⟨opened, (openBrackets_scan entry).trans hopened, hopening,
    newline_notMem_ending _ opened, ?_, fun p hp hne => ?_⟩
  · rw [hread]
    exact (isCompleteFrom_ending_iff hopening (List.prefix_refl _)).2 rfl
  · rw [hread, Bool.eq_false_iff]
    exact mt (isCompleteFrom_ending_iff hopening hp).1 hne

/-- An open string behind two open brackets, with one more in a comment. -/
theorem finished_by_quote_and_brackets :
    isComplete "\x7b // (\nf(\"a )" = false ∧
      FinishedBy "\x7b // (\nf(\"a )" ['"', ')', '}'] := by
  have h : isComplete "\x7b // (\nf(\"a )" = false := by decide +kernel
  have hbrackets : openBrackets (scan "\x7b // (\nf(\"a )").tokens =
      some [.leftParen, .leftBrace] := by decide +kernel
  have hstring : decide (∃ d ∈ (scan "\x7b // (\nf(\"a )").diagnostics.reported,
      d.fault = .unterminatedString) = true := by decide +kernel
  obtain ⟨opened, hopened, -, hfinished⟩ := finished_by_ending _ h
  obtain rfl := Option.some.inj (hopened.symm.trans hbrackets)
  rw [hstring] at hfinished
  exact ⟨h, hfinished⟩

end Session

end LoxFrontEnd
