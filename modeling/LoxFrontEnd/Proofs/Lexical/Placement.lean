import LoxFrontEnd.Proofs.Lexical.Cut
import LoxFrontEnd.Scan

/-! Where tokens and diagnostics lie.

A scan finds its tokens and faults on a walk along the segments of the source. What
it finds at a segment depends only on the segment and on the text before it: the
span counts the bytes of that text, and the line its newlines (`mem_tokens_iff`,
`mem_diagnostics_iff`). -/
namespace LoxFrontEnd

theorem Text.width_toList (source : String) : Text.width source.toList = source.utf8ByteSize := by
  have h (cs : List Char) : Text.width cs = (String.ofList cs).utf8ByteSize := by
    induction cs with
    | nil => rfl
    | cons c cs ih =>
      rw [← List.singleton_append, String.ofList_append, String.utf8ByteSize_append]
      simp [ih]
  rw [h, String.ofList_toList]

theorem Cursor.start_advance (cs : List Char) :
    Cursor.start.advance cs = ⟨Text.width cs, 1 + cs.count '\n'⟩ := by
  simp [Cursor.start, Cursor.advance]

/-- The stretch of a source that a text takes up behind another one. -/
def Span.behind (before text : List Char) : Span :=
  ⟨Text.width before, Text.width (before ++ text)⟩

/-- The token of the given kind and text behind a part of a source. -/
def Token.behind (before : List Char) (kind : Kind) (text : List Char) : Token :=
  ⟨kind, String.ofList text, Literal.ofLexeme kind text, 1 + (before ++ text).count '\n',
    Span.behind before text⟩

/-- The diagnostic of a fault behind a part of a source. -/
def Diagnostic.behind (before text : List Char) (fault : Fault) : Diagnostic :=
  { line := 1 + (before ++ text).count '\n', span := Span.behind before text, fault }

/-- The fault that a segment is. -/
def Segment.fault? : Segment → Option Fault
  | .rejected c => some (.unexpectedCharacter c)
  | .unterminated _ => some .unterminatedString
  | .token _ _ | .blank _ | .comment _ => none

/-- What is found at a segment behind a part of a source. -/
theorem Finding.ofSegment?_start (before : List Char) (s : Segment) :
    ofSegment? (Cursor.start.advance before) s = match s with
      | .token kind text => some (.token (Token.behind before kind text))
      | s => s.fault?.map fun fault => .fault (Diagnostic.behind before s.text fault) := by
  unfold ofSegment?
  rw [← Cursor.advance_append, Cursor.start_advance, Cursor.start_advance]
  cases s <;> rfl

/-- Each finding is that of a segment: what is found before it is found at the segments before, and
what is found after it at those after. -/
theorem Finding.exists_segment_of_ofSegments {f : Finding} {k : Cursor} {segs : List Segment}
    {before after : List Finding} (h : ofSegments k segs = before ++ f :: after) :
    ∃ a s b, segs = a ++ s :: b ∧ ofSegments k a = before ∧
      ofSegment? (k.advance (a.flatMap Segment.text)) s = some f ∧
      ofSegments (k.advance ((a ++ [s]).flatMap Segment.text)) b = after := by
  induction segs generalizing k before with
  | nil => exact absurd h (by simp [ofSegments])
  | cons s segs ih =>
    have hlater {found : List Finding}
        (hfound : ofSegments (k.advance s.text) segs = found ++ f :: after) :
        ∃ a t b, s :: segs = a ++ t :: b ∧ ofSegments k a = (ofSegment? k s).toList ++ found ∧
          ofSegment? (k.advance (a.flatMap Segment.text)) t = some f ∧
          ofSegments (k.advance ((a ++ [t]).flatMap Segment.text)) b = after := by
      obtain ⟨a, t, b, rfl, hbefore, hf, hafter⟩ := ih hfound
      refine ⟨s :: a, t, b, rfl, by rw [ofSegments, hbefore], ?_, ?_⟩
      · rwa [List.flatMap_cons, Cursor.advance_append]
      · rwa [List.cons_append, List.flatMap_cons, Cursor.advance_append]
    rw [ofSegments] at h
    cases hs : ofSegment? k s with
    | none =>
      rw [hs] at h hlater
      exact hlater h
    | some g =>
      rw [hs] at h hlater
      cases before with
      | nil =>
        obtain ⟨rfl, rfl⟩ := List.cons.inj h
        exact ⟨[], s, segs, rfl, rfl, hs, by simp⟩
      | cons g' before =>
        obtain ⟨rfl, hfound⟩ := List.cons.inj h
        exact hlater hfound

theorem Finding.mem_ofSegments_iff {f : Finding} {k : Cursor} {segs : List Segment} :
    f ∈ ofSegments k segs ↔
      ∃ a s b, segs = a ++ s :: b ∧ ofSegment? (k.advance (a.flatMap Segment.text)) s = some f := by
  constructor
  · intro h
    obtain ⟨before, after, hfound⟩ := List.append_of_mem h
    obtain ⟨a, s, b, hsegs, -, hf, -⟩ := exists_segment_of_ofSegments hfound
    exact ⟨a, s, b, hsegs, hf⟩
  · intro hex
    obtain ⟨a, s, b, rfl, hf⟩ := hex
    rw [ofSegments_append]
    refine List.mem_append_right _ (List.mem_append_left _ ?_)
    exact Option.mem_toList.2 hf

theorem mem_findings_iff {source : String} {f : Finding} :
    f ∈ findings source ↔ ∃ a s b, segments source.toList = a ++ s :: b ∧
      Finding.ofSegment? (Cursor.start.advance (a.flatMap Segment.text)) s = some f :=
  Finding.mem_ofSegments_iff

theorem Finding.mem_filterMap_token?_iff {found : List Finding} {t : Token} :
    t ∈ found.filterMap token? ↔ .token t ∈ found := by
  refine ⟨fun h => ?_, fun h => List.mem_filterMap.2 ⟨.token t, h, rfl⟩⟩
  obtain ⟨f, hf, ht⟩ := List.mem_filterMap.1 h
  cases f with
  | token t' => cases ht; exact hf
  | fault d => cases ht

theorem Finding.mem_filterMap_diagnostic?_iff {found : List Finding} {d : Diagnostic} :
    d ∈ found.filterMap diagnostic? ↔ .fault d ∈ found := by
  refine ⟨fun h => ?_, fun h => List.mem_filterMap.2 ⟨.fault d, h, rfl⟩⟩
  obtain ⟨f, hf, hd⟩ := List.mem_filterMap.1 h
  cases f with
  | token t => cases hd
  | fault d' => cases hd; exact hf

/-- What is found among others is there because of a finding, and what is before and after it comes
from the findings before and after that one. -/
theorem Finding.exists_of_filterMap {α : Type} {g : Finding → Option α} {found : List Finding}
    {before after : List α} {x : α} (h : found.filterMap g = before ++ x :: after) :
    ∃ earlier f later, found = earlier ++ f :: later ∧ earlier.filterMap g = before ∧
      g f = some x ∧ later.filterMap g = after := by
  obtain ⟨earlier, rest, rfl, rfl, hrest⟩ := List.filterMap_eq_append_iff.1 h
  obtain ⟨passed, f, later, rfl, hpassed, hf, rfl⟩ := List.filterMap_eq_cons_iff.1 hrest
  refine ⟨earlier ++ passed, f, later, by simp, ?_, hf, rfl⟩
  rw [List.filterMap_append, List.filterMap_eq_nil_iff.2 hpassed, List.append_nil]

section
variable {source : String}

/-- The place of a token among the tokens of a scan is its place among the findings. -/
theorem exists_findings_of_tokens {before after : List Token} {t : Token}
    (h : (scan source).tokens = before ++ t :: after) (hkind : t.kind ≠ .eof) :
    ∃ earlier later, findings source = earlier ++ .token t :: later ∧
      earlier.filterMap Finding.token? = before ∧
      later.filterMap Finding.token? ++ [endToken source] = after := by
  rcases List.eq_nil_or_concat after with rfl | ⟨rest, last, rfl⟩
  · obtain rfl : endToken source = t := (List.cons.inj (List.append_inj' h rfl).2).1
    exact absurd rfl hkind
  · rw [List.concat_eq_append, ← List.cons_append, ← List.append_assoc] at h
    obtain ⟨hfound, hlast⟩ := List.append_inj' h rfl
    obtain ⟨earlier, f, later, hfindings, hearlier, hf, hlater⟩ :=
      Finding.exists_of_filterMap hfound
    cases f with
    | token t' =>
      cases hf
      exact ⟨earlier, later, hfindings, hearlier,
        by rw [hlater, hlast, List.concat_eq_append]⟩
    | fault d => cases hf

theorem exists_findings_of_reported {before after : List Diagnostic} {d : Diagnostic}
    (h : (scan source).diagnostics.reported = before ++ d :: after) :
    ∃ earlier later, findings source = earlier ++ .fault d :: later ∧
      earlier.filterMap Finding.diagnostic? = before ∧
      later.filterMap Finding.diagnostic? = after := by
  obtain ⟨earlier, f, later, hfindings, hearlier, hf, hlater⟩ := Finding.exists_of_filterMap h
  cases f with
  | token t => cases hf
  | fault d' =>
    cases hf
    exact ⟨earlier, later, hfindings, hearlier, hlater⟩

theorem mem_found_tokens_iff {t : Token} :
    t ∈ (findings source).filterMap Finding.token? ↔ .token t ∈ findings source :=
  Finding.mem_filterMap_token?_iff

theorem mem_found_diagnostics_iff {d : Diagnostic} :
    d ∈ (scan source).diagnostics.reported ↔ .fault d ∈ findings source :=
  Finding.mem_filterMap_diagnostic?_iff

theorem token_mem_findings_iff {t : Token} :
    .token t ∈ findings source ↔
      ∃ a kind text b, segments source.toList = a ++ .token kind text :: b ∧
        t = Token.behind (a.flatMap Segment.text) kind text := by
  rw [mem_findings_iff]
  constructor
  · intro hex
    obtain ⟨a, s, b, h, hf⟩ := hex
    rw [Finding.ofSegment?_start] at hf
    cases s with
    | token kind text => cases hf; exact ⟨a, kind, text, b, h, rfl⟩
    | _ => cases hf
  · intro hex
    obtain ⟨a, kind, text, b, h, rfl⟩ := hex
    exact ⟨a, _, b, h, Finding.ofSegment?_start _ _⟩

/-- A token of a scan closes it, or it is the token of a segment. -/
theorem mem_tokens_iff {t : Token} :
    t ∈ (scan source).tokens ↔ t = endToken source ∨
      ∃ a kind text b, segments source.toList = a ++ .token kind text :: b ∧
        t = Token.behind (a.flatMap Segment.text) kind text := by
  rw [scan, List.mem_append, List.mem_singleton, mem_found_tokens_iff, token_mem_findings_iff,
    or_comm]

/-- A diagnostic of a scan is the one of a segment that is a fault. -/
theorem mem_diagnostics_iff {d : Diagnostic} :
    d ∈ (scan source).diagnostics.reported ↔
      ∃ a s b fault, segments source.toList = a ++ s :: b ∧ s.fault? = some fault ∧
        d = Diagnostic.behind (a.flatMap Segment.text) s.text fault := by
  rw [mem_found_diagnostics_iff, mem_findings_iff]
  constructor
  · intro hex
    obtain ⟨a, s, b, h, hf⟩ := hex
    rw [Finding.ofSegment?_start] at hf
    cases s with
    | rejected c => cases hf; exact ⟨a, _, b, _, h, rfl, rfl⟩
    | unterminated text => cases hf; exact ⟨a, _, b, _, h, rfl, rfl⟩
    | _ => cases hf
  · intro hex
    obtain ⟨a, s, b, fault, h, hfault, rfl⟩ := hex
    refine ⟨a, s, b, h, ?_⟩
    rw [Finding.ofSegment?_start]
    cases s with
    | token kind text => cases hfault
    | _ => simp only [hfault, Option.map_some]

/-- A source without faults is one without diagnostics. -/
theorem reported_eq_nil_iff :
    (scan source).diagnostics.reported = [] ↔ ∀ s ∈ segments source.toList, s.fault? = none := by
  rw [List.eq_nil_iff_forall_not_mem]
  constructor
  · intro hnone s hs
    obtain ⟨a, b, hsegs⟩ := List.append_of_mem hs
    by_contra hfault
    obtain ⟨fault, hfault⟩ := Option.ne_none_iff_exists'.1 hfault
    exact hnone _ (mem_diagnostics_iff.2 ⟨a, s, b, fault, hsegs, hfault, rfl⟩)
  · intro hnone d hd
    obtain ⟨a, s, b, fault, hsegs, hfault, -⟩ := mem_diagnostics_iff.1 hd
    have hmem : s ∈ segments source.toList := by simp [hsegs]
    rw [hnone s hmem] at hfault
    cases hfault

end

/-- Only the last token is one for the end of the source. -/
theorem kind_ne_eof {t : Token} (h : .token t ∈ findings source) : t.kind ≠ .eof := by
  obtain ⟨a, kind, text, b, hsegs, rfl⟩ := token_mem_findings_iff.1 h
  have hitem : Item (some kind) text := (fits_of_segments hsegs).shape
  rintro (rfl : kind = .eof)
  cases hitem

end LoxFrontEnd
