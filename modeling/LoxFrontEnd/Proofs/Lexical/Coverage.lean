import LoxFrontEnd.Proofs.Lexical.Placement
import Mathlib.Data.List.Pairwise

/-! What a scan covers.

The tokens and diagnostics of a source stand apart from each other in the order of
the source, each on the text that it is about, and everything between them is blanks
and comments. `scan_covers` says so, with the end of the source and with the places of
the two faults. -/
namespace LoxFrontEnd

/-- Two stretches without a byte in common. -/
def Span.Disjoint (p q : Span) : Prop := p.stop ≤ q.start ∨ q.stop ≤ p.start

/-- A stretch starts later than another one, and not before that one stops. -/
def Span.Before (p q : Span) : Prop := p.start < q.start ∧ p.stop ≤ q.start

/-- The stretches that a scan accounts for. -/
def Scanned.spans (s : Scanned) : List Span :=
  s.tokens.map Token.span ++ s.diagnostics.reported.map Diagnostic.span

/-- The text in front of `after` is blanks and whole comments. -/
inductive Skipped (after : List Char) : List Char → Prop where
  | nil : Skipped after []
  | blank {c : Char} {gap : List Char} : Segment.isBlank c = true → Skipped after gap →
      Skipped after (c :: gap)
  | comment {cs gap : List Char} : '\n' ∉ cs → (∀ c, [c] <+: gap ++ after → c = '\n') →
      Skipped after gap → Skipped after ('/' :: '/' :: (cs ++ gap))

/-- A stretch of the source that none of the spans covers, as wide as possible. -/
structure Gap (source : String) (spans : List Span) (before gap after : List Char) : Prop where
  source_eq : source.toList = before ++ (gap ++ after)
  uncovered : ∀ p ∈ spans, p.stop ≤ Text.width before ∨ Text.width (before ++ gap) ≤ p.start
  left : before = [] ∨ ∃ p ∈ spans, p.stop = Text.width before
  right : after = [] ∨ ∃ p ∈ spans, p.start = Text.width (before ++ gap)

/-- Tokens, diagnostics, blanks and comments are all of the source, each in its place. -/
structure Covers (source : String) (s : Scanned) : Prop where
  on_boundaries : ∀ p ∈ s.spans, ∃ part, Text.slice p.start p.stop source.toList = .ok part
  disjoint : s.spans.Pairwise Span.Disjoint
  tokens_ordered : (s.tokens.map Token.span).Pairwise Span.Before
  diagnostics_ordered : (s.diagnostics.reported.map Diagnostic.span).Pairwise Span.Before
  lexeme : ∀ t ∈ s.tokens, Text.slice t.span.start t.span.stop source.toList = .ok t.lexeme.toList
  tokens_nonempty : ∀ t ∈ s.tokens, t.kind ≠ .eof → t.span.start < t.span.stop
  diagnostics_nonempty : ∀ d ∈ s.diagnostics.reported, d.span.start < d.span.stop
  gaps : ∀ before gap after, Gap source s.spans before gap after → Skipped after gap
  closed : ∃ body last, s.tokens = body ++ [last] ∧ (∀ t ∈ body, t.kind ≠ .eof) ∧
    last.kind = .eof ∧ last.span = ⟨source.utf8ByteSize, source.utf8ByteSize⟩
  unexpected : ∀ d ∈ s.diagnostics.reported, ∀ c, d.fault = .unexpectedCharacter c →
    Text.slice d.span.start d.span.stop source.toList = .ok [c]
  unterminated : ∀ a d b, s.diagnostics.reported = a ++ d :: b → d.fault = .unterminatedString →
    b = [] ∧ d.span.stop = source.utf8ByteSize ∧
      (∃ text, Text.slice d.span.start d.span.stop source.toList = .ok ('"' :: text)) ∧
      ∀ t ∈ s.tokens, t.kind ≠ .eof → t.span.stop ≤ d.span.start

/-! ### Order -/

/-- The stretch of the source that a finding is about. -/
def Finding.span : Finding → Span
  | token t => t.span
  | fault d => d.span

theorem Finding.span_ofSegment? {k : Cursor} {s : Segment} {f : Finding}
    (h : ofSegment? k s = some f) : f.span = ⟨k.offset, k.offset + Text.width s.text⟩ := by
  cases s <;> cases h <;> rfl

theorem width_pos {cs : List Char} (h : cs ≠ []) : 0 < Text.width cs :=
  Nat.pos_of_ne_zero (mt Text.width_eq_zero.1 h)

theorem Finding.ofSegments_ordered {k : Cursor} {segs : List Segment}
    (h : ∀ s ∈ segs, s.text ≠ []) :
    (∀ f ∈ ofSegments k segs, k.offset ≤ f.span.start ∧ f.span.start < f.span.stop) ∧
      (ofSegments k segs).Pairwise fun f g => f.span.Before g.span := by
  induction segs generalizing k with
  | nil => exact ⟨(fun f hf => nomatch hf), .nil⟩
  | cons s segs ih =>
    have hs := width_pos (h s (List.mem_cons_self ..))
    obtain ⟨hbound, hpair⟩ := ih (k := k.advance s.text) fun t ht => h t (List.mem_cons_of_mem s ht)
    have hrest : ∀ f ∈ ofSegments (k.advance s.text) segs,
        k.offset + Text.width s.text ≤ f.span.start ∧ f.span.start < f.span.stop := hbound
    have hfirst {f : Finding} (hf : f ∈ (ofSegment? k s).toList) :
        f.span = ⟨k.offset, k.offset + Text.width s.text⟩ :=
      span_ofSegment? (Option.mem_toList.1 hf)
    constructor
    · intro f hf
      rcases List.mem_append.1 hf with hf | hf
      · rw [hfirst hf]
        exact ⟨Nat.le_refl _, Nat.lt_add_of_pos_right hs⟩
      · have := hrest f hf
        omega
    · refine List.pairwise_append.2 ⟨?_, hpair, fun f hf g hg => ?_⟩
      · cases ofSegment? k s with
        | none => exact .nil
        | some f => exact List.pairwise_singleton _ f
      · rw [hfirst hf]
        have := hrest g hg
        exact ⟨by show k.offset < g.span.start; omega, this.1⟩

/-! ### Places -/

theorem Span.slice_behind (before text after : List Char) :
    Text.slice (Span.behind before text).start (Span.behind before text).stop
      (before ++ (text ++ after)) = .ok text :=
  Text.slice_eq_ok_iff.2 ⟨before, after, rfl, rfl, rfl⟩

/-- The span of the end of a source. -/
theorem endToken_span (source : String) :
    (endToken source).span = ⟨source.utf8ByteSize, source.utf8ByteSize⟩ := by
  rw [← Text.width_toList]
  simp [endToken, Cursor.start_advance]

/-- The segments that a scan passes over. -/
def Segment.IsSkipped : Segment → Prop
  | .blank _ | .comment _ => True
  | .token _ _ | .rejected _ | .unterminated _ => False

section
variable {source : String}

/-- A span of a scan is its end, or it is the place of a segment that is not passed over. -/
theorem mem_spans_iff {p : Span} :
    p ∈ (scan source).spans ↔ p = ⟨source.utf8ByteSize, source.utf8ByteSize⟩ ∨
      ∃ a s b, segments source.toList = a ++ s :: b ∧ ¬ s.IsSkipped ∧
        p = Span.behind (a.flatMap Segment.text) s.text := by
  simp only [Scanned.spans, List.mem_append, List.mem_map, mem_tokens_iff, mem_diagnostics_iff]
  constructor
  · intro hex
    rcases hex with ⟨t, ht, rfl⟩ | ⟨d, ⟨a, s, b, fault, h, hfault, rfl⟩, rfl⟩
    · rcases ht with rfl | ⟨a, kind, text, b, h, rfl⟩
      · exact .inl (endToken_span source)
      · exact .inr ⟨a, _, b, h, id, rfl⟩
    · refine .inr ⟨a, s, b, h, ?_, rfl⟩
      cases s <;> first | exact id | cases hfault
  · intro hex
    rcases hex with rfl | ⟨a, s, b, h, hs, rfl⟩
    · exact .inl ⟨_, .inl rfl, endToken_span source⟩
    · cases s with
      | token kind text => exact .inl ⟨_, .inr ⟨a, kind, text, b, h, rfl⟩, rfl⟩
      | rejected c => exact .inr ⟨_, ⟨a, _, b, _, h, rfl, rfl⟩, rfl⟩
      | unterminated text => exact .inr ⟨_, ⟨a, _, b, _, h, rfl, rfl⟩, rfl⟩
      | blank c => exact absurd trivial hs
      | comment text => exact absurd trivial hs

theorem slice_of_segments {a b : List Segment} {s : Segment}
    (h : segments source.toList = a ++ s :: b) :
    Text.slice (Span.behind (a.flatMap Segment.text) s.text).start
      (Span.behind (a.flatMap Segment.text) s.text).stop source.toList = .ok s.text := by
  rw [eq_of_segments h, List.flatMap_cons]
  exact Span.slice_behind _ _ _

theorem slice_end (source : String) :
    Text.slice source.utf8ByteSize source.utf8ByteSize source.toList = .ok [] := by
  have h := Span.slice_behind source.toList [] []
  simp only [Span.behind, List.append_nil, Text.width_toList] at h
  exact h

/-! ### Gaps -/

/-- Spans start and stop where the source is cut. -/
theorem exists_cut_of_mem_spans {p : Span} (h : p ∈ (scan source).spans) :
    (∃ a b, segments source.toList = a ++ b ∧ p.start = Text.width (a.flatMap Segment.text)) ∧
      ∃ a b, segments source.toList = a ++ b ∧ p.stop = Text.width (a.flatMap Segment.text) := by
  rcases mem_spans_iff.1 h with rfl | ⟨a, s, b, hsegs, _, rfl⟩
  · have hend : source.utf8ByteSize =
        Text.width ((segments source.toList).flatMap Segment.text) := by
      rw [flatMap_text_segments, Text.width_toList]
    exact ⟨⟨_, [], (List.append_nil _).symm, hend⟩, ⟨_, [], (List.append_nil _).symm, hend⟩⟩
  · refine ⟨⟨a, s :: b, hsegs, rfl⟩, ⟨a ++ [s], b, by simp [hsegs], ?_⟩⟩
    simp [Span.behind, List.flatMap_append]

theorem prefix_eq_of_width_eq {a b c d : List Char} (h : a ++ b = c ++ d)
    (hw : Text.width a = Text.width c) : a = c ∧ b = d := by
  have hab := Text.splitAt?_width_append a b
  have hcd := Text.splitAt?_width_append c d
  rw [h, hw, hcd] at hab
  exact ⟨(Prod.mk.inj (Option.some.inj hab)).1.symm, (Prod.mk.inj (Option.some.inj hab)).2.symm⟩

theorem cut_of_width_eq {a b : List Segment} {before after : List Char}
    (h : segments source.toList = a ++ b) (hsource : source.toList = before ++ after)
    (hw : Text.width before = Text.width (a.flatMap Segment.text)) :
    a.flatMap Segment.text = before ∧ b.flatMap Segment.text = after :=
  prefix_eq_of_width_eq ((eq_of_segments h).symm.trans hsource) hw.symm

/-- Segments that are passed over are blanks and whole comments. -/
theorem Cut.skipped {m d : List Segment} (h : Cut (m ++ d)) (hm : ∀ s ∈ m, s.IsSkipped) :
    Skipped (d.flatMap Segment.text) (m.flatMap Segment.text) := by
  induction m with
  | nil => exact .nil
  | cons s m ih =>
    rw [List.cons_append] at h
    cases h with
    | cons hs hrest =>
      have ih := ih hrest fun t ht => hm t (List.mem_cons_of_mem s ht)
      rw [List.flatMap_append] at hs
      rw [List.flatMap_cons]
      have hskip := hm s (List.mem_cons_self ..)
      cases s with
      | blank c => exact .blank hs.shape ih
      | comment text =>
        have hitem : Item none text := hs.shape
        have hlongest : Longest text _ := hs.stops
        cases hitem with
        | comment hcs =>
          exact .comment hcs (hlongest.lineEnd hcs) ih
      | _ => exact hskip.elim

theorem scan_gap {before gap after : List Char}
    (h : Gap source (scan source).spans before gap after) : Skipped after gap := by
  obtain ⟨hsource, huncovered, hleft, hright⟩ := h
  -- Both ends of the gap are places where the source is cut.
  have hcutLeft : ∃ a b, segments source.toList = a ++ b ∧ a.flatMap Segment.text = before ∧
      b.flatMap Segment.text = gap ++ after := by
    rcases hleft with rfl | ⟨p, hp, hstop⟩
    · exact ⟨[], _, rfl, rfl, by rw [flatMap_text_segments, hsource, List.nil_append]⟩
    · obtain ⟨_, a, b, hsegs, hw⟩ := exists_cut_of_mem_spans hp
      exact ⟨a, b, hsegs, cut_of_width_eq hsegs hsource (hstop.symm.trans hw)⟩
  have hcutRight : ∃ c d, segments source.toList = c ++ d ∧
      c.flatMap Segment.text = before ++ gap ∧ d.flatMap Segment.text = after := by
    rw [← List.append_assoc] at hsource
    rcases hright with rfl | ⟨p, hp, hstart⟩
    · refine ⟨_, [], (List.append_nil _).symm, ?_, rfl⟩
      rw [flatMap_text_segments, hsource, List.append_nil]
    · obtain ⟨⟨c, d, hsegs, hw⟩, _⟩ := exists_cut_of_mem_spans hp
      exact ⟨c, d, hsegs, cut_of_width_eq hsegs hsource (hstart.symm.trans hw)⟩
  obtain ⟨a, b, hab, rfl, hb⟩ := hcutLeft
  obtain ⟨c, d, hcd, hc, rfl⟩ := hcutRight
  rcases List.append_eq_append_iff.1 (hab.symm.trans hcd) with ⟨m, rfl, rfl⟩ | ⟨m, rfl, rfl⟩
  · rw [List.flatMap_append] at hc
    obtain rfl := List.append_cancel_left hc
    refine Cut.skipped (hab ▸ Cut.segments source.toList).of_append fun s hs => ?_
    -- A segment inside the gap that is not passed over would be covered.
    by_contra hskip
    obtain ⟨m₁, m₂, rfl⟩ := List.append_of_mem hs
    have hsegs : segments source.toList = (a ++ m₁) ++ s :: (m₂ ++ d) := by simp [hab]
    have hpos := width_pos (fits_of_segments hsegs).text_ne_nil
    have hspan := huncovered _ (mem_spans_iff.2 (.inr ⟨_, s, _, hsegs, hskip, rfl⟩))
    simp only [Span.behind, List.flatMap_append, List.flatMap_cons, Text.width_append] at hspan
    omega
  · have hnil : gap = [] := by
      have := congrArg List.length hc
      simp only [List.flatMap_append, List.length_append] at this
      exact List.length_eq_zero_iff.1 (by omega)
    subst hnil
    exact .nil

/-! ### All of the source -/

theorem findings_ordered (source : String) :
    (findings source).Pairwise fun f g => f.span.Before g.span :=
  (Finding.ofSegments_ordered (Cut.text_ne_nil (Cut.segments _))).2

theorem span_in_source {f : Finding} (h : f ∈ findings source) :
    f.span.start < f.span.stop ∧ f.span.stop ≤ source.utf8ByteSize := by
  obtain ⟨a, s, b, hsegs, hf⟩ := mem_findings_iff.1 h
  have hpos := width_pos (fits_of_segments hsegs).text_ne_nil
  have hwidth := congrArg Text.width (eq_of_segments hsegs)
  rw [Text.width_toList, List.flatMap_cons, Text.width_append, Text.width_append] at hwidth
  rw [Finding.span_ofSegment? hf, Cursor.start_advance]
  dsimp only
  omega

theorem token_in_source {t : Token} (ht : t ∈ (scan source).tokens) (hkind : t.kind ≠ .eof) :
    t.span.start < t.span.stop ∧ t.span.stop ≤ source.utf8ByteSize := by
  rcases mem_tokens_iff.1 ht with rfl | hfound
  · exact absurd rfl hkind
  · exact span_in_source (token_mem_findings_iff.2 hfound)

theorem diagnostic_in_source {d : Diagnostic} (hd : d ∈ (scan source).diagnostics.reported) :
    d.span.start < d.span.stop ∧ d.span.stop ≤ source.utf8ByteSize :=
  span_in_source (mem_found_diagnostics_iff.1 hd)

theorem spans_before_of_filterMap {α : Type} {g : Finding → Option α} {span : α → Span}
    (hg : ∀ f x, g f = some x → span x = f.span) :
    (((findings source).filterMap g).map span).Pairwise Span.Before := by
  rw [List.pairwise_map, List.pairwise_filterMap]
  refine (findings_ordered source).imp fun {f f'} hff' x hx y hy => ?_
  rwa [hg f x hx, hg f' y hy]

theorem tokens_ordered (source : String) :
    ((scan source).tokens.map Token.span).Pairwise Span.Before := by
  rw [scan, List.map_append, List.pairwise_append]
  refine ⟨spans_before_of_filterMap fun f x hx => ?_, List.pairwise_singleton _ _,
    fun p hp q hq => ?_⟩
  · cases f <;> cases hx
    rfl
  · obtain ⟨t, ht, rfl⟩ := List.mem_map.1 hp
    obtain rfl : q = _ := List.mem_singleton.1 hq
    have hin : t.span.start < t.span.stop ∧ t.span.stop ≤ source.utf8ByteSize :=
      span_in_source (mem_found_tokens_iff.1 ht)
    rw [endToken_span]
    exact ⟨by show t.span.start < source.utf8ByteSize; omega, hin.2⟩

theorem diagnostics_ordered (source : String) :
    ((scan source).diagnostics.reported.map Diagnostic.span).Pairwise Span.Before :=
  spans_before_of_filterMap fun f x hx => by
    cases f <;> cases hx
    rfl

theorem Span.Before.disjoint {p q : Span} (h : p.Before q) : p.Disjoint q := .inl h.2

theorem findings_disjoint {f g : Finding} (hf : f ∈ findings source) (hg : g ∈ findings source)
    (hne : f ≠ g) : f.span.Disjoint g.span := by
  have : Std.Symm fun f g : Finding => f.span.Disjoint g.span := ⟨fun _ _ h => Or.symm h⟩
  have hpair := (findings_ordered source).imp fun {f g} h => Span.Before.disjoint h
  exact hpair.forall hf hg hne

/-- A token and a diagnostic have no byte in common. -/
theorem token_disjoint_diagnostic {t : Token} {d : Diagnostic} (ht : t ∈ (scan source).tokens)
    (hd : d ∈ (scan source).diagnostics.reported) : t.span.Disjoint d.span := by
  have hfault := mem_found_diagnostics_iff.1 hd
  rw [scan, List.mem_append, mem_found_tokens_iff, List.mem_singleton] at ht
  rcases ht with ht | rfl
  · exact findings_disjoint ht hfault (by simp)
  · rw [endToken_span]
    exact .inr (span_in_source hfault).2

theorem spans_disjoint (source : String) : (scan source).spans.Pairwise Span.Disjoint := by
  refine List.pairwise_append.2 ⟨(tokens_ordered source).imp Span.Before.disjoint,
    (diagnostics_ordered source).imp Span.Before.disjoint, fun p hp q hq => ?_⟩
  obtain ⟨t, ht, rfl⟩ := List.mem_map.1 hp
  obtain ⟨d, hd, rfl⟩ := List.mem_map.1 hq
  exact token_disjoint_diagnostic ht hd

/-- A string that is never closed reaches to the end of the source, and nothing else is found
there. -/
theorem unterminated_last {a b : List Diagnostic} {d : Diagnostic}
    (h : (scan source).diagnostics.reported = a ++ d :: b) (hd : d.fault = .unterminatedString) :
    b = [] ∧ d.span.stop = source.utf8ByteSize ∧
      (∃ text, Text.slice d.span.start d.span.stop source.toList = .ok ('"' :: text)) ∧
      ∀ t ∈ (scan source).tokens, t.kind ≠ .eof → t.span.stop ≤ d.span.start := by
  have hmem : d ∈ (scan source).diagnostics.reported := by simp [h]
  have hstop : d.span.stop = source.utf8ByteSize ∧
      ∃ text, Text.slice d.span.start d.span.stop source.toList = .ok ('"' :: text) := by
    obtain ⟨before, s, after, fault, hsegs, hfault, rfl⟩ := mem_diagnostics_iff.1 hmem
    have hslice := slice_of_segments hsegs
    have hfits := fits_of_segments hsegs
    cases s with
    | unterminated text =>
      have hrest : after.flatMap Segment.text = [] := hfits.stops
      obtain ⟨body, _, rfl⟩ := hfits.shape
      refine ⟨?_, body, hslice⟩
      rw [← Text.width_toList, eq_of_segments hsegs, List.flatMap_cons, hrest,
        List.append_nil]
      rfl
    | rejected c =>
      obtain rfl := Option.some.inj hfault
      cases hd
    | _ => cases hfault
  refine ⟨?_, hstop.1, hstop.2, fun t ht hkind => ?_⟩
  · cases b with
    | nil => rfl
    | cons e b =>
      have hordered := diagnostics_ordered source
      rw [h, List.map_append, List.map_cons, List.map_cons] at hordered
      have hbefore : d.span.Before e.span :=
        (List.pairwise_cons.1 (List.pairwise_append.1 hordered).2.1).1 _ (List.mem_cons_self ..)
      have hmemE : e ∈ (scan source).diagnostics.reported := by simp [h]
      have he := diagnostic_in_source hmemE
      have := hbefore.2
      omega
  · have hin := token_in_source ht hkind
    rcases token_disjoint_diagnostic ht hmem with hbefore | hafter
    · exact hbefore
    · omega

/-- **The tokens and diagnostics of a scan, blanks and comments are all of the source.** -/
theorem scan_covers (source : String) : Covers source (scan source) where
  on_boundaries := by
    intro p hp
    rcases mem_spans_iff.1 hp with rfl | ⟨a, s, b, hsegs, _, rfl⟩
    · exact ⟨_, slice_end source⟩
    · exact ⟨_, slice_of_segments hsegs⟩
  disjoint := spans_disjoint source
  tokens_ordered := tokens_ordered source
  diagnostics_ordered := diagnostics_ordered source
  lexeme := by
    intro t ht
    rcases mem_tokens_iff.1 ht with rfl | ⟨a, kind, text, b, hsegs, rfl⟩
    · rw [endToken_span]
      exact slice_end source
    · have htext : (Token.behind (a.flatMap Segment.text) kind text).lexeme.toList = text :=
        String.toList_ofList
      rw [htext]
      exact slice_of_segments hsegs
  tokens_nonempty := fun t ht hkind => (token_in_source ht hkind).1
  diagnostics_nonempty := fun d hd => (diagnostic_in_source hd).1
  gaps := fun before gap after h => scan_gap h
  closed := ⟨_, _, rfl, fun t ht => kind_ne_eof (mem_found_tokens_iff.1 ht), rfl,
    endToken_span source⟩
  unexpected := by
    intro d hd c hc
    obtain ⟨a, s, b, fault, hsegs, hfault, rfl⟩ := mem_diagnostics_iff.1 hd
    have hslice := slice_of_segments hsegs
    obtain rfl : fault = .unexpectedCharacter c := hc
    cases s with
    | rejected x =>
      cases hfault
      exact hslice
    | _ => cases hfault
  unterminated := fun a d b h hd => unterminated_last h hd

end

end LoxFrontEnd
