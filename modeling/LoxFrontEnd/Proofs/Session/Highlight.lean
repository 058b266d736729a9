import LoxFrontEnd.Proofs.Lexical.Recovery
import LoxFrontEnd.Proofs.Text.Terminal
import LoxFrontEnd.Session.Highlight

/-! What highlighting changes.

A highlighted line is put together from pieces of the line and painted tokens. As the
tokens of a scan lie on the text that they are about and in its order, every character
comes in once and at its place (`paintLine_eq_highlight`), and a terminal shows the line
itself. The colours are those of the tokens, and where there is no token, or none with a
colour, the line looks as if it were not highlighted (`paintLine_only_colours`). -/
namespace LoxFrontEnd

/-- The offset lies inside of the stretch. -/
def Span.Holds (s : Span) (offset : Nat) : Prop := s.start ≤ offset ∧ offset < s.stop

namespace Session
open Text (Look Terminal)

/-- The kinds of the tokens that are coloured. -/
def IsColoured (kind : Kind) : Prop :=
  kind.isKeyword = true ∨ kind = .string ∨ kind = .number ∨ (∃ b, kind = .bracket b) ∨
    kind.isOperator = true

/-- What a terminal with the default look shows of a text, and how it stands then. -/
def display (text : String) : Terminal × List (Char × Look) := (Terminal.ready .plain).run text.toList

/-- The text shows the line, with colours for its tokens and none for anything else. -/
structure OnlyColours (line text : String) : Prop where
  /-- Without its control sequences the text is the line. -/
  shown : (display text).2.map Prod.fst = line.toList
  /-- No colour and no other style is left over behind the line. -/
  reset : (display text).1 = .ready .plain
  coloured : (Text.trimStart line.toList).head? ≠ some '.' →
    ∀ before c after, line.toList = before ++ c :: after →
      ∃ look, (display text).2[before.length]? = some (c, look) ∧
        (look ≠ .plain ↔ ∃ t ∈ (scan line).tokens, IsColoured t.kind ∧
          t.span.Holds (Text.width before))

/-! ### Painted tokens -/

/-- The look of the tokens of a kind. -/
def lookOf (kind : Kind) : Look := (styles kind).foldr (fun s l => l.apply s) .plain

theorem lookOf_ne_plain_iff (kind : Kind) : lookOf kind ≠ .plain ↔ IsColoured kind := by
  cases kind with
  | keyword k => cases k <;> simp [lookOf, styles, Look.apply, Look.plain, IsColoured, Kind.isKeyword]
  | _ => simp [lookOf, styles, Look.apply, Look.plain, IsColoured, Kind.isKeyword, Kind.isOperator]

/-- The styles of a kind leave no look behind. -/
theorem clear_lookOf (kind : Kind) : (styles kind).foldl Look.clear (lookOf kind) = .plain := by
  cases kind with
  | keyword k => cases k <;> rfl
  | _ => rfl

theorem display_text {cs : List Char} (h : '\x1b' ∉ cs) (look : Look) :
    (Terminal.ready look).run (String.ofList cs).toList =
      (.ready look, cs.map fun c => (c, look)) := by
  rw [String.toList_ofList, Terminal.run_text h]

theorem display_paintToken {cs : List Char} (h : '\x1b' ∉ cs) (kind : Kind) :
    display (paintToken kind (String.ofList cs)) =
      (.ready .plain, cs.map fun c => (c, lookOf kind)) := by
  have hpainted := Terminal.run_foldl_paint (display_text h (lookOf kind))
  rw [clear_lookOf] at hpainted
  exact hpainted

/-! ### Painted segments -/

/-- The look of a segment: only tokens have one of their own. -/
def lookIn : Segment → Look
  | .token kind _ => lookOf kind
  | .blank _ | .comment _ | .rejected _ | .unterminated _ => .plain

/-- What is shown of segments. -/
def shownOf (segs : List Segment) : List (Char × Look) :=
  segs.flatMap fun s => s.text.map fun c => (c, lookIn s)

theorem map_fst_shownOf (segs : List Segment) :
    (shownOf segs).map Prod.fst = segs.flatMap Segment.text := by
  rw [shownOf, List.map_flatMap]
  simp only [List.map_map, Function.comp_def, List.map_id']

theorem display_paintSegment {s : Segment} (h : '\x1b' ∉ s.text) :
    display (paintSegment s) = (.ready .plain, s.text.map fun c => (c, lookIn s)) := by
  cases s with
  | token kind text => exact display_paintToken h kind
  | _ => exact display_text h .plain

theorem display_paintSegments {segs : List Segment} (h : '\x1b' ∉ segs.flatMap Segment.text) :
    display (String.join (segs.map paintSegment)) = (.ready .plain, shownOf segs) := by
  induction segs with
  | nil => rfl
  | cons s segs ih =>
    rw [List.flatMap_cons, List.mem_append, not_or] at h
    have hhead : (Terminal.ready .plain).run (paintSegment s).toList = _ :=
      display_paintSegment h.1
    have htail : (Terminal.ready .plain).run (String.join (segs.map paintSegment)).toList = _ :=
      ih h.2
    rw [display, List.map_cons, String.join_cons, String.toList_append, Terminal.run_append]
    simp only [hhead, htail]
    rfl

/-! ### Tokens at their spans -/

/-- The tokens of the segments behind a part of a source. -/
def tokensBehind (before : List Char) (segs : List Segment) : List Token :=
  (Finding.ofSegments (Cursor.start.advance before) segs).filterMap Finding.token?

theorem tokensBehind_token (before : List Char) (kind : Kind) (text : List Char)
    (segs : List Segment) :
    tokensBehind before (.token kind text :: segs) =
      Token.behind before kind text :: tokensBehind (before ++ text) segs := by
  rw [tokensBehind, Finding.ofSegments, Finding.ofSegment?_start, tokensBehind,
    Cursor.advance_append]
  rfl

theorem tokensBehind_skip {s : Segment} (h : s.token? = none) (before : List Char)
    (segs : List Segment) :
    tokensBehind before (s :: segs) = tokensBehind (before ++ s.text) segs := by
  rw [tokensBehind, Finding.ofSegments, Finding.ofSegment?_start, tokensBehind,
    Cursor.advance_append]
  cases s with
  | token kind text => cases h
  | _ => rfl

theorem paintFrom_cons {line gap : List Char} {offset : Nat} {t : Token} {rest : List Token}
    {others : String} (hgap : Text.slice offset t.span.start line = .ok gap)
    (hrest : paintFrom line t.span.stop rest = .ok others) :
    paintFrom line offset (t :: rest) =
      .ok (String.ofList gap ++ (paintToken t.kind t.lexeme ++ others)) := by
  simp only [paintFrom, hgap, hrest]
  rfl

/-- Behind the last token nothing but a gap is left. -/
theorem paintFrom_endToken {line : String} {before gap : List Char}
    (h : line.toList = before ++ gap) :
    paintFrom line.toList (Text.width before) [endToken line] = .ok (String.ofList gap) := by
  have hgap : Text.slice (Text.width before) (endToken line).span.start line.toList = .ok gap := by
    rw [endToken_span, ← Text.width_toList]
    exact Text.slice_eq_ok_iff.2 ⟨before, [], by rw [h, List.append_nil], rfl, by rw [h]⟩
  have hend : paintFrom line.toList (endToken line).span.stop [] = .ok "" := by
    rw [paintFrom, Text.width_toList, endToken_span, slice_end]
    rfl
  rw [paintFrom_cons hgap hend]
  exact congrArg Except.ok String.append_empty

/-- Of a line that has been read up to the given text the tokens of the rest are painted, and
the gap in front of them and those between them are copied. -/
theorem paintFrom_tokensBehind {line : String} (before gap : List Char) {segs : List Segment}
    (h : line.toList = before ++ (gap ++ segs.flatMap Segment.text)) :
    paintFrom line.toList (Text.width before) (tokensBehind (before ++ gap) segs ++ [endToken line]) =
      .ok (String.ofList gap ++ String.join (segs.map paintSegment)) := by
  induction segs generalizing before gap with
  | nil =>
    rw [List.flatMap_nil, List.append_nil] at h
    rw [List.map_nil, String.join_nil, String.append_empty]
    exact paintFrom_endToken h
  | cons s segs ih =>
    rw [List.flatMap_cons] at h
    rw [List.map_cons, String.join_cons]
    have hskip (hs : s.token? = none) (hpaint : paintSegment s = String.ofList s.text) :
        paintFrom line.toList (Text.width before)
          (tokensBehind (before ++ gap) (s :: segs) ++ [endToken line]) =
        .ok (String.ofList gap ++ (paintSegment s ++ String.join (segs.map paintSegment))) := by
      rw [tokensBehind_skip hs, List.append_assoc before, ih _ _ (by simpa using h), hpaint,
        String.ofList_append, String.append_assoc]
    cases s with
    | token kind text =>
      have hgap : Text.slice (Text.width before) (Text.width (before ++ gap)) line.toList = .ok gap :=
        h ▸ Span.slice_behind before gap _
      have hrest := ih (before ++ gap ++ text) [] (by simpa [Segment.text] using h)
      rw [List.append_nil] at hrest
      rw [tokensBehind_token, List.cons_append, paintFrom_cons hgap hrest]
      rfl
    | _ => exact hskip rfl rfl

/-- **Putting the painted tokens in at their spans is painting the segments of the line.** The
spans never cut a character and never go back. -/
theorem paintLine_eq_highlight (line : String) : paintLine line = .ok (highlight line) := by
  unfold paintLine highlight
  split
  · rfl
  · exact paintFrom_tokensBehind [] [] (flatMap_text_segments _).symm

/-! ### Coloured characters -/

/-- A character of a text is a character of one of its segments. -/
theorem exists_segment_of_char {segs : List Segment} {before after : List Char} {c : Char}
    (h : segs.flatMap Segment.text = before ++ c :: after) :
    ∃ a s b x y, segs = a ++ s :: b ∧ s.text = x ++ c :: y ∧ before = a.flatMap Segment.text ++ x := by
  induction segs generalizing before with
  | nil => exact absurd h (by simp)
  | cons s segs ih =>
    have hlater (rest : List Char) (hbefore : before = s.text ++ rest)
        (hrest : segs.flatMap Segment.text = rest ++ c :: after) :
        ∃ a t b x y, s :: segs = a ++ t :: b ∧ t.text = x ++ c :: y ∧
          before = a.flatMap Segment.text ++ x := by
      obtain ⟨a, t, b, x, y, rfl, htext, rfl⟩ := ih hrest
      exact ⟨s :: a, t, b, x, y, rfl, htext, by rw [hbefore, List.flatMap_cons, List.append_assoc]⟩
    rw [List.flatMap_cons] at h
    rcases List.append_eq_append_iff.1 h with ⟨rest, hbefore, hrest⟩ | ⟨part, htext, hrest⟩
    · exact hlater rest hbefore hrest
    · cases part with
      | nil =>
        rw [List.append_nil] at htext
        exact hlater [] (by rw [htext, List.append_nil]) hrest.symm
      | cons d part =>
        obtain ⟨rfl, -⟩ := List.cons.inj hrest
        exact ⟨[], s, segs, before, part, rfl, htext, rfl⟩

/-- What is shown at the place of a character. -/
theorem getElem?_shownOf {a b : List Segment} {s : Segment} {x y : List Char} {c : Char}
    (htext : s.text = x ++ c :: y) :
    (shownOf (a ++ s :: b))[(a.flatMap Segment.text ++ x).length]? = some (c, lookIn s) := by
  have hlength : (shownOf a ++ x.map fun d => (d, lookIn s)).length =
      (a.flatMap Segment.text ++ x).length := by
    rw [← map_fst_shownOf]
    simp
  have hshown : shownOf (a ++ s :: b) = (shownOf a ++ x.map fun d => (d, lookIn s)) ++
      (c, lookIn s) :: ((y.map fun d => (d, lookIn s)) ++ shownOf b) := by
    simp [shownOf, htext]
  rw [hshown, ← hlength, List.getElem?_append_right (Nat.le_refl _), Nat.sub_self,
    List.getElem?_cons_zero]

/-- Of two segments around the same offset both are the same. -/
theorem segment_unique_of_holds {cs : List Char} {a b c d : List Segment} {s t : Segment}
    {offset : Nat} (h : segments cs = a ++ s :: b) (h' : segments cs = c ++ t :: d)
    (hs : (Span.behind (a.flatMap Segment.text) s.text).Holds offset)
    (ht : (Span.behind (c.flatMap Segment.text) t.text).Holds offset) : s = t := by
  have hne := Cut.text_ne_nil (Cut.segments cs)
  have hstop (a : List Segment) (s : Segment) : Text.width ((a ++ [s]).flatMap Segment.text) =
      Text.width (a.flatMap Segment.text ++ s.text) := by
    rw [List.flatMap_append, List.flatMap_singleton]
  rcases Nat.le_total (Text.width (a.flatMap Segment.text)) (Text.width (c.flatMap Segment.text))
    with hle | hle
  · exact (segment_unique h h' hne hle (hstop a s ▸ Nat.lt_of_le_of_lt ht.1 hs.2)).2
  · exact (segment_unique h' h hne hle (hstop c t ▸ Nat.lt_of_le_of_lt hs.1 ht.2)).2.symm

/-- A character looks other than plain if it is inside of a token that is coloured. -/
theorem lookIn_ne_plain_iff {line : String} {a b : List Segment} {s : Segment} {x y : List Char}
    {c : Char} (h : segments line.toList = a ++ s :: b) (htext : s.text = x ++ c :: y) :
    lookIn s ≠ .plain ↔ ∃ t ∈ (scan line).tokens, IsColoured t.kind ∧
      t.span.Holds (Text.width (a.flatMap Segment.text ++ x)) := by
  have hinside : (Span.behind (a.flatMap Segment.text) s.text).Holds
      (Text.width (a.flatMap Segment.text ++ x)) := by
    have hpos := Char.utf8Size_pos c
    simp only [Span.Holds, Span.behind, htext, Text.width_append, Text.width_cons]
    omega
  constructor
  · intro hlook
    cases s with
    | token kind text =>
      exact ⟨_, mem_tokens_iff.2 (.inr ⟨a, kind, text, b, h, rfl⟩),
        (lookOf_ne_plain_iff kind).1 hlook, hinside⟩
    | _ => exact absurd rfl hlook
  · intro hex
    obtain ⟨t, ht, hcoloured, hholds⟩ := hex
    rcases mem_tokens_iff.1 ht with rfl | ⟨a', kind, text, b', h', rfl⟩
    · exact absurd rfl ((lookOf_ne_plain_iff .eof).2 hcoloured)
    · obtain rfl := segment_unique_of_holds h h' hinside hholds
      exact (lookOf_ne_plain_iff kind).2 hcoloured

theorem display_highlight_of_dot {line : String} (h : '\x1b' ∉ line.toList)
    (hdot : startsWithDot line = true) :
    display (highlight line) =
      (.ready .plain, line.toList.map fun c => (c, Look.plain.apply (.colour .magenta))) := by
  rw [highlight, if_pos hdot]
  exact Terminal.run_paint (Terminal.run_text h)

theorem display_highlight {line : String} (h : '\x1b' ∉ line.toList)
    (hdot : startsWithDot line = false) :
    display (highlight line) = (.ready .plain, shownOf (segments line.toList)) := by
  rw [highlight, hdot]
  exact display_paintSegments (by rwa [flatMap_text_segments])

/-- **Highlighting adds colours and nothing else.** -/
theorem paintLine_only_colours (line : String) (h : '\x1b' ∉ line.toList) :
    ∃ text, paintLine line = .ok text ∧ OnlyColours line text := by
  refine ⟨highlight line, paintLine_eq_highlight line, ?_⟩
  cases hdot : startsWithDot line with
  | true =>
    have hdisplay := display_highlight_of_dot h hdot
    refine ⟨?_, congrArg Prod.fst hdisplay, fun hhead => absurd (of_decide_eq_true hdot) hhead⟩
    rw [hdisplay, List.map_map]
    exact List.map_id _
  | false =>
    have hdisplay := display_highlight h hdot
    have hshown := congrArg Prod.snd hdisplay
    refine ⟨?_, congrArg Prod.fst hdisplay, fun _ before c after hline => ?_⟩
    · rw [hshown, map_fst_shownOf, flatMap_text_segments]
    · rw [← flatMap_text_segments line.toList] at hline
      obtain ⟨a, s, b, x, y, hsegs, htext, rfl⟩ := exists_segment_of_char hline
      refine ⟨lookIn s, ?_, lookIn_ne_plain_iff hsegs htext⟩
      rw [hshown, hsegs]
      exact getElem?_shownOf htext

/-- A line with coloured and other tokens, a rejected character of two bytes and an open string. -/
theorem paintLine_only_colours_around_faults :
    '\x1b' ∉ "print é + (\"ü\"; 1.5 \"open".toList ∧
      ∃ text, paintLine "print é + (\"ü\"; 1.5 \"open" = .ok text ∧
        OnlyColours "print é + (\"ü\"; 1.5 \"open" text :=
  ⟨by decide, paintLine_only_colours _ (by decide)⟩

example : highlight "é = this // 2" = "é \x1b[36m=\x1b[39m \x1b[34mthis\x1b[39m // 2" := by
  decide +kernel

end Session

end LoxFrontEnd
