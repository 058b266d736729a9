import LoxFrontEnd.Proofs.Lexical.Lookahead
import Mathlib.Data.List.Forall2

/-! Line endings of two characters.

A text may end its lines with a carriage return and a newline instead of a newline alone.
A scan of it finds the same tokens and faults on the same lines: the returns are blanks, or
they belong to a comment or a string (`scan_withReturns`). -/
namespace LoxFrontEnd

namespace Text

/-- The text with a carriage return in front of each newline. -/
def withReturns (cs : List Char) : List Char :=
  cs.flatMap fun c => if c = '\n' then ['\r', '\n'] else [c]

theorem withReturns_append (a b : List Char) :
    withReturns (a ++ b) = withReturns a ++ withReturns b :=
  List.flatMap_append

theorem withReturns_newline (cs : List Char) :
    withReturns ('\n' :: cs) = '\r' :: '\n' :: withReturns cs := rfl

theorem withReturns_cons {c : Char} (h : c ≠ '\n') (cs : List Char) :
    withReturns (c :: cs) = c :: withReturns cs := by
  rw [withReturns, List.flatMap_cons, if_neg h]
  rfl

theorem withReturns_of_notMem {cs : List Char} (h : '\n' ∉ cs) : withReturns cs = cs := by
  induction cs with
  | nil => rfl
  | cons c cs ih =>
    rw [List.mem_cons, not_or] at h
    rw [withReturns_cons (Ne.symm h.1), ih h.2]

theorem count_withReturns (cs : List Char) : (withReturns cs).count '\n' = cs.count '\n' := by
  induction cs with
  | nil => rfl
  | cons c cs ih =>
    by_cases hc : c = '\n'
    · subst hc
      simp [withReturns_newline, ih]
    · rw [withReturns_cons hc, List.count_cons, ih, List.count_cons]

theorem mem_withReturns_iff {c : Char} (h : c ≠ '\r') {cs : List Char} :
    c ∈ withReturns cs ↔ c ∈ cs := by
  induction cs with
  | nil => rfl
  | cons x cs ih =>
    by_cases hx : x = '\n'
    · subst hx
      simp [withReturns_newline, ih, h]
    · simp [withReturns_cons hx, ih]

/-- A string with returns is one of the text between its quotes with returns. -/
theorem withReturns_quoted (body : List Char) :
    withReturns ('"' :: (body ++ ['"'])) = '"' :: (withReturns body ++ ['"']) := by
  rw [withReturns_cons (by decide), withReturns_append]
  rfl

end Text

def withReturns (source : String) : String := String.ofList (Text.withReturns source.toList)

def Literal.withReturns : Literal → Literal
  | .text content => .text (LoxFrontEnd.withReturns content)
  | .number value => .number value
  | .none => .none

/-- A token of the text with returns, and the one that it stands for. -/
structure Token.Returned (t' t : Token) : Prop where
  kind : t'.kind = t.kind
  line : t'.line = t.line
  lexeme : t'.lexeme = withReturns t.lexeme
  literal : t'.literal = t.literal.withReturns

structure Diagnostic.Returned (d' d : Diagnostic) : Prop where
  fault : d'.fault = d.fault
  line : d'.line = d.line

inductive Finding.Returned : Finding → Finding → Prop where
  | token {t' t : Token} : t'.Returned t → Returned (token t') (token t)
  | fault {d' d : Diagnostic} : d'.Returned d → Returned (fault d') (fault d)

/-! ### Segments with returns -/

theorem whitened_withReturns (cs : List Char) : Whitened cs (Text.withReturns cs) := by
  induction cs with
  | nil => exact .nil
  | cons c cs ih =>
    by_cases hc : c = '\n'
    · subst hc
      have hblank : ∀ b ∈ ['\r', '\n'], Segment.isBlank b = true := by simp [Segment.isBlank]
      exact .blanks '\n' (List.cons_ne_nil _ _) hblank ih
    · rw [Text.withReturns_cons hc]
      exact .keep c ih

/-- Of the tokens only strings hold newlines. -/
theorem Item.newline_notMem {kind : Kind} {text : List Char} (h : Item (some kind) text)
    (hkind : kind ≠ .string) : '\n' ∉ text := by
  intro hmem
  rcases h.eq_of_blank_mem (by decide) hmem with ⟨body, hbody, rfl⟩ | ⟨cs, hcs, rfl⟩
  · exact hkind (Option.some.inj (h.kind_unique (.string hbody)))
  · simp [hcs] at hmem

theorem Segment.Fits.token_withReturns {kind : Kind} {text rest : List Char}
    (h : (token kind text).Fits rest) :
    (token kind (Text.withReturns text)).Fits (Text.withReturns rest) := by
  have hitem : Item (some kind) text := h.shape
  have hlongest : Longest text rest := h.stops
  by_cases hkind : kind = .string
  · subst hkind
    obtain ⟨body, hbody, rfl⟩ := hitem.eq_quoted
    have hquote : '"' ∉ Text.withReturns body := mt (Text.mem_withReturns_iff (by decide)).1 hbody
    rw [Text.withReturns_quoted]
    exact ⟨.string hquote, Item.longest_quoted hquote _⟩
  · rw [Text.withReturns_of_notMem (hitem.newline_notMem hkind)]
    exact ⟨hitem, hlongest.whitened hitem (whitened_withReturns rest)⟩

theorem Literal.ofLexeme_withReturns {kind : Kind} {text : List Char} (h : Item (some kind) text) :
    ofLexeme kind (Text.withReturns text) = (ofLexeme kind text).withReturns := by
  by_cases hkind : kind = .string
  · subst hkind
    obtain ⟨body, -, rfl⟩ := h.eq_quoted
    simp [ofLexeme, Text.withReturns_quoted, Literal.withReturns, LoxFrontEnd.withReturns]
  · rw [Text.withReturns_of_notMem (h.newline_notMem hkind)]
    cases kind with
    | string => exact absurd rfl hkind
    | _ => rfl

/-! ### What is found -/

namespace Finding

/-- What is found in a text is found at its first segment and in the rest. -/
theorem ofSegments_of_fits {s : Segment} {rest : List Char} (h : s.Fits rest) (k : Cursor) :
    ofSegments k (segments (s.text ++ rest)) =
      (ofSegment? k s).toList ++ ofSegments (k.advance s.text) (segments rest) := by
  rw [h.segments_append, ofSegments]

theorem ofSegments_newline (k : Cursor) (rest : List Char) :
    ofSegments k (segments ('\r' :: '\n' :: rest)) =
      ofSegments (k.advance ['\r', '\n']) (segments rest) := by
  have hreturn : (Segment.blank '\r').Fits ('\n' :: rest) := ⟨rfl, trivial⟩
  have hnewline : (Segment.blank '\n').Fits rest := ⟨rfl, trivial⟩
  exact (ofSegments_of_fits hreturn k).trans (ofSegments_of_fits hnewline _)

/-- A comment takes the return in front of the newline at its end. -/
theorem ofSegments_comment {cs rest : List Char} (hcs : '\n' ∉ cs)
    (h : Longest ('/' :: '/' :: cs) rest) (k : Cursor) :
    ofSegments k (segments ('/' :: '/' :: cs ++ Text.withReturns rest)) =
      ofSegments (k.advance ('/' :: '/' :: cs)) (segments (Text.withReturns rest)) := by
  cases rest with
  | nil =>
    have hfits : (Segment.comment ('/' :: '/' :: cs)).Fits [] := ⟨.comment hcs, longest_nil _⟩
    exact ofSegments_of_fits hfits k
  | cons c rest =>
    obtain rfl := h.lineEnd hcs c (List.prefix_append [c] rest)
    have hlonger : '\n' ∉ cs ++ ['\r'] := by simp [hcs]
    have hfits : (Segment.comment ('/' :: '/' :: (cs ++ ['\r']))).Fits
        ('\n' :: Text.withReturns rest) :=
      ⟨.comment hlonger, (longest_nil _).append_newline (.comment hlonger) _⟩
    have hreturn : (Segment.blank '\r').Fits ('\n' :: Text.withReturns rest) := ⟨rfl, trivial⟩
    have htext : '/' :: '/' :: cs ++ '\r' :: '\n' :: Text.withReturns rest =
        (Segment.comment ('/' :: '/' :: (cs ++ ['\r']))).text ++ '\n' :: Text.withReturns rest := by
      simp [Segment.text]
    rw [Text.withReturns_newline, htext, ofSegments_of_fits hfits]
    have hafter := ofSegments_of_fits hreturn (k.advance ('/' :: '/' :: cs))
    rw [← Cursor.advance_append] at hafter
    exact hafter.symm

theorem line_advance_withReturns {k' k : Cursor} (h : k'.line = k.line) (text : List Char) :
    (k'.advance (Text.withReturns text)).line = (k.advance text).line := by
  simp [Cursor.advance, h, Text.count_withReturns]

/-- At its first segment a text with returns has what stands for what the text has there. -/
theorem exists_returned {s : Segment} {rest : List Char} (h : s.Fits rest) {k' k : Cursor}
    (hline : k'.line = k.line) :
    ∃ found, ofSegments k' (segments (Text.withReturns (s.text ++ rest))) = found ++
        ofSegments (k'.advance (Text.withReturns s.text)) (segments (Text.withReturns rest)) ∧
      List.Forall₂ Returned found (ofSegment? k s).toList := by
  have hstop := line_advance_withReturns hline s.text
  have hsegment {s' : Segment} (htext : s'.text = Text.withReturns s.text)
      (hfits : s'.Fits (Text.withReturns rest)) :
      ofSegments k' (segments (Text.withReturns s.text ++ Text.withReturns rest)) =
        (ofSegment? k' s').toList ++
          ofSegments (k'.advance (Text.withReturns s.text)) (segments (Text.withReturns rest)) := by
    rw [← htext, ofSegments_of_fits hfits]
  rw [Text.withReturns_append]
  cases s with
  | token kind text =>
    refine ⟨_, hsegment rfl h.token_withReturns, .cons (.token ?_) .nil⟩
    exact ⟨rfl, hstop, by simp [withReturns], Literal.ofLexeme_withReturns h.shape⟩
  | blank c =>
    by_cases hc : c = '\n'
    · subst hc
      exact ⟨[], ofSegments_newline k' (Text.withReturns rest), .nil⟩
    · have htext : (Segment.blank c).text = Text.withReturns (Segment.blank c).text :=
        (Text.withReturns_cons hc []).symm
      exact ⟨_, hsegment htext ⟨h.shape, trivial⟩, .nil⟩
  | comment text =>
    have hitem : Item none text := h.shape
    cases hitem with
    | @comment cs hcs =>
      have htext : Text.withReturns ('/' :: '/' :: cs) = '/' :: '/' :: cs :=
        Text.withReturns_of_notMem (by simp [hcs])
      rw [Segment.text, htext]
      exact ⟨[], ofSegments_comment hcs h.stops k', .nil⟩
  | rejected c =>
    have hnewline : c ≠ '\n' := Segment.ne_newline h.shape.1
    have htext : (Segment.rejected c).text = Text.withReturns (Segment.rejected c).text :=
      (Text.withReturns_cons hnewline []).symm
    rw [← htext] at hstop
    exact ⟨_, hsegment htext ⟨h.shape, trivial⟩, .cons (.fault ⟨rfl, hstop⟩) .nil⟩
  | unterminated text =>
    obtain ⟨body, hbody, rfl⟩ := h.shape
    obtain rfl : rest = [] := h.stops
    have hquote : '"' ∉ Text.withReturns body := mt (Text.mem_withReturns_iff (by decide)).1 hbody
    have hfits : (Segment.unterminated ('"' :: Text.withReturns body)).Fits (Text.withReturns []) :=
      ⟨⟨_, hquote, rfl⟩, rfl⟩
    exact ⟨_, hsegment rfl hfits, .cons (.fault ⟨rfl, hstop⟩) .nil⟩

/-- What is found in a text with returns stands for what is found without them. -/
theorem returned_ofSegments {segs : List Segment} (h : Cut segs) {k' k : Cursor}
    (hline : k'.line = k.line) :
    List.Forall₂ Returned
      (ofSegments k' (segments (Text.withReturns (segs.flatMap Segment.text))))
      (ofSegments k segs) := by
  induction h generalizing k' k with
  | nil =>
    have hnone : segments (Text.withReturns []) = [] := segments_nil
    rw [List.flatMap_nil, hnone]
    exact .nil
  | @cons s segs hs hcut ih =>
    obtain ⟨found, heq, hfound⟩ := exists_returned hs hline
    rw [List.flatMap_cons, heq, ofSegments]
    exact List.rel_append hfound (ih (line_advance_withReturns hline s.text))

end Finding

theorem findings_withReturns (source : String) :
    List.Forall₂ Finding.Returned (findings (withReturns source)) (findings source) := by
  have hstart : Cursor.start.line = Cursor.start.line := rfl
  have hfound := Finding.returned_ofSegments (Cut.segments source.toList) hstart
  rw [flatMap_text_segments] at hfound
  rwa [findings, withReturns, String.toList_ofList]

theorem endToken_withReturns (source : String) :
    (endToken (withReturns source)).Returned (endToken source) := by
  have hline : (Cursor.start.advance (Text.withReturns source.toList)).line =
      (Cursor.start.advance source.toList).line :=
    Finding.line_advance_withReturns rfl source.toList
  refine ⟨rfl, ?_, rfl, rfl⟩
  rw [endToken, withReturns, String.toList_ofList]
  exact hline

/-- **Carriage returns in front of newlines do not change a scan.** -/
theorem scan_withReturns (source : String) :
    List.Forall₂ Token.Returned (scan (withReturns source)).tokens (scan source).tokens ∧
      List.Forall₂ Diagnostic.Returned (scan (withReturns source)).diagnostics.reported
        (scan source).diagnostics.reported := by
  have hfound := findings_withReturns source
  constructor
  · refine List.rel_append (List.rel_filterMap (fun f' f h => ?_) hfound)
      (.cons (endToken_withReturns source) .nil)
    cases h with
    | token h => exact .some h
    | fault h => exact .none
  · refine List.rel_filterMap (fun f' f h => ?_) hfound
    cases h with
    | token h => exact .none
    | fault h => exact .some h

/-- Returns in a comment, in a string, behind a pending point and in an open string. -/
example : (scan (withReturns "a//é\n\"x\n\"1.\n5\"\n")).tokens.map (fun t => (t.lexeme, t.line)) =
    [("a", 1), ("\"x\r\n\"", 3), ("1", 3), (".", 3), ("5", 4), ("", 5)] := by decide +kernel

end LoxFrontEnd
