import LoxFrontEnd.Proofs.Lexical.Coverage
import LoxFrontEnd.Proofs.Lexical.Lookahead
import LoxFrontEnd.Proofs.Lexical.Shift

/-! Scanning a source that changes.

A source that grows at its end keeps what a scan has found in it, but for the last two
bytes: these are all that the scan looks ahead (`scan_append_keeps`). And a scan that has
found a token can leave what is before it aside: behind the token it is the scan of the
rest of the source alone (`scan_restarts`). -/
namespace LoxFrontEnd

/-! ### The segment of a finding -/

section
variable {source : String} {earlier later : List Finding} {f : Finding}

theorem exists_segment_of_findings (h : findings source = earlier ++ f :: later) :
    ∃ a s b, segments source.toList = a ++ s :: b ∧
      Finding.ofSegment? (Cursor.start.advance (a.flatMap Segment.text)) s = some f ∧
      Finding.ofSegments .start (a ++ [s]) = earlier ++ [f] := by
  obtain ⟨a, s, b, hsegs, hearlier, hf, -⟩ := Finding.exists_segment_of_ofSegments h
  refine ⟨a, s, b, hsegs, hf, ?_⟩
  rw [Finding.ofSegments_append, hearlier, Finding.ofSegments, hf]
  rfl

/-- A finding stops where its segment does. -/
theorem stop_of_ofSegment? {a : List Segment} {s : Segment}
    (h : Finding.ofSegment? (Cursor.start.advance (a.flatMap Segment.text)) s = some f) :
    f.span.stop = Text.width ((a ++ [s]).flatMap Segment.text) := by
  rw [Finding.span_ofSegment? h, Cursor.start_advance]
  simp [List.flatMap_append]

/-! ### A longer source -/

/-- What is found up to a segment is found in a longer source as well if the segment fits there. -/
theorem findings_append_of_fits {a b : List Segment} {s : Segment} {more : String}
    (h : segments source.toList = a ++ s :: b)
    (hsettled : Settled ((s :: b).flatMap Segment.text))
    (hs : s.Fits (b.flatMap Segment.text ++ more.toList)) :
    Finding.ofSegments .start (a ++ [s]) <+: findings (source ++ more) := by
  have hsegs : segments (source ++ more).toList =
      (a ++ [s]) ++ segments (b.flatMap Segment.text ++ more.toList) := by
    rw [String.toList_append, segments_append_of_settled h hsettled, List.flatMap_cons,
      List.append_assoc, hs.segments_append, List.append_assoc]
    rfl
  rw [findings_of_segments hsegs]
  exact List.prefix_append _ _

/-- Two bytes behind it settle what is found. -/
theorem findings_append_of_stop (h : findings source = earlier ++ f :: later)
    (hstop : f.span.stop + 2 ≤ source.utf8ByteSize) (more : String) :
    earlier ++ [f] <+: findings (source ++ more) := by
  obtain ⟨a, s, b, hsegs, hf, hfound⟩ := exists_segment_of_findings h
  have hrest : Settled (b.flatMap Segment.text) := by
    refine .of_width ?_
    have hsource : source.toList = (a ++ [s]).flatMap Segment.text ++ b.flatMap Segment.text :=
      eq_of_segments (by simpa using hsegs)
    have hwidth := congrArg Text.width hsource
    rw [Text.width_toList, Text.width_append, ← stop_of_ofSegment? hf] at hwidth
    omega
  rw [← hfound]
  exact findings_append_of_fits hsegs (hrest.append_left s.text)
    ((fits_of_segments hsegs).append hrest more.toList)

/-- A rejected character settles itself. -/
theorem findings_append_of_rejected {d : Diagnostic} {c : Char}
    (h : findings source = earlier ++ .fault d :: later) (hd : d.fault = .unexpectedCharacter c)
    (more : String) : earlier ++ [.fault d] <+: findings (source ++ more) := by
  obtain ⟨a, s, b, hsegs, hf, hfound⟩ := exists_segment_of_findings h
  have hfits := fits_of_segments hsegs
  rw [← hfound]
  cases s with
  | rejected x =>
    have hsettled : Settled ((.rejected x :: b).flatMap Segment.text) := by
      refine ⟨List.cons_ne_nil _ _, fun heq => ?_⟩
      obtain rfl : x = '.' := (List.cons.inj heq).1
      exact hfits.shape.2 _ [] (.separator .dot)
    exact findings_append_of_fits hsegs hsettled ⟨hfits.shape, trivial⟩
  | unterminated text =>
    cases hf
    cases hd
  | token kind text => cases hf
  | blank x => cases hf
  | comment text => cases hf

end

theorem exists_append_of_getElem? {α : Type} {xs : List α} {i : Nat} {x : α}
    (h : xs[i]? = some x) : ∃ before after, xs = before ++ x :: after ∧ before.length = i := by
  obtain ⟨hi, rfl⟩ := List.getElem?_eq_some_iff.1 h
  refine ⟨xs.take i, xs.drop (i + 1), ?_, List.length_take_of_le (Nat.le_of_lt hi)⟩
  rw [← List.drop_eq_getElem_cons hi, List.take_append_drop]

/-- **A source that goes on keeps what was found in it** more than two bytes before its end, and
every rejected character. -/
theorem scan_append_keeps (a b : String) :
    (∀ (i : Nat) (t : Token), (scan a).tokens[i]? = some t → t.kind ≠ .eof →
      t.span.stop + 2 ≤ a.utf8ByteSize → (scan (a ++ b)).tokens[i]? = some t) ∧
    ∀ (i : Nat) (d : Diagnostic) (c : Char), (scan a).diagnostics.reported[i]? = some d →
      d.fault = .unexpectedCharacter c → (scan (a ++ b)).diagnostics.reported[i]? = some d := by
  constructor
  · intro i t hi hkind hstop
    obtain ⟨before, after, htokens, rfl⟩ := exists_append_of_getElem? hi
    obtain ⟨earlier, later, hfindings, rfl, -⟩ := exists_findings_of_tokens htokens hkind
    obtain ⟨rest, hrest⟩ := findings_append_of_stop hfindings hstop b
    rw [scan, ← hrest, List.filterMap_append, List.filterMap_append]
    simp [Finding.token?]
  · intro i d c hi hd
    obtain ⟨before, after, hreported, rfl⟩ := exists_append_of_getElem? hi
    obtain ⟨earlier, later, hfindings, rfl, -⟩ := exists_findings_of_reported hreported
    obtain ⟨rest, hrest⟩ := findings_append_of_rejected hfindings hd b
    rw [scan, ← hrest, List.filterMap_append, List.filterMap_append]
    simp [Finding.diagnostic?]

/-- An integer with a point and a rejected character behind it, which are just enough for it to stay
an integer, and a digit after them. -/
theorem scan_append_keeps_pending_point :
    ∃ t, (scan "é12.@").tokens[0]? = some t ∧ t.kind ≠ .eof ∧
      t.span.stop + 2 ≤ "é12.@".utf8ByteSize ∧
      (scan ("é12.@" ++ "5")).tokens[0]? = some t ∧
    ∃ d, (scan "é12.@").diagnostics.reported[1]? = some d ∧ d.fault = .unexpectedCharacter '@' ∧
      (scan ("é12.@" ++ "5")).diagnostics.reported[1]? = some d := by
  obtain ⟨t, ht⟩ : ∃ t, (scan "é12.@").tokens[0]? = some t :=
    Option.isSome_iff_exists.1 (by decide +kernel)
  have hfacts : ∀ t ∈ (scan "é12.@").tokens[0]?, t.kind ≠ .eof ∧
      t.span.stop + 2 ≤ "é12.@".utf8ByteSize := by decide +kernel
  obtain ⟨hkind, hstop⟩ := hfacts t ht
  have hd : (scan "é12.@").diagnostics.reported[1]? =
      some ⟨1, ⟨5, 6⟩, .unexpectedCharacter '@', ""⟩ := by decide +kernel
  have hkeeps := scan_append_keeps "é12.@" "5"
  exact ⟨t, ht, hkind, hstop, hkeeps.1 0 t ht hkind hstop, _, hd, rfl, hkeeps.2 1 _ '@' hd rfl⟩

/-- One byte behind a token is not enough. -/
example : (scan "1.").tokens.map Token.lexeme = ["1", ".", ""] ∧
    (scan ("1." ++ "5")).tokens.map Token.lexeme = ["1.5", ""] := by decide +kernel

/-! ### The rest of a source -/

section
variable {source : String} {earlier later : List Finding} {f : Finding}

/-- What is found behind a finding is found in the rest of the source. -/
theorem exists_rest_of_findings (h : findings source = earlier ++ f :: later) :
    ∃ read rest, source.toList = read ++ rest ∧ f.span.stop = Text.width read ∧
      later = (findings (String.ofList rest)).map
        (Finding.shift (Text.width read) (read.count '\n')) := by
  obtain ⟨a, s, b, hsegs, hf, hfound⟩ := exists_segment_of_findings h
  rw [List.append_cons] at hsegs
  refine ⟨_, _, eq_of_segments hsegs, stop_of_ofSegment? hf, ?_⟩
  have hrest := findings_of_segments hsegs
  rw [hfound, h, List.append_cons] at hrest
  exact List.append_cancel_left hrest

/-- The diagnostics that start behind a finding are those found after it. -/
theorem filter_reported (h : findings source = earlier ++ f :: later) :
    (scan source).diagnostics.reported.filter (f.span.stop ≤ ·.span.start) =
      later.filterMap Finding.diagnostic? := by
  have hordered := findings_ordered source
  have hmem : f ∈ findings source := by simp [h]
  have hpos : f.span.start < f.span.stop := (span_in_source hmem).1
  rw [h, List.pairwise_append, List.pairwise_cons] at hordered
  obtain ⟨-, ⟨hlater, -⟩, hearlier⟩ := hordered
  have hdropped : ((earlier ++ [f]).filterMap Finding.diagnostic?).filter
      (f.span.stop ≤ ·.span.start) = [] := by
    refine List.filter_eq_nil_iff.2 fun d hd => ?_
    have hstart : d.span.start ≤ f.span.start := by
      rcases List.mem_append.1 (Finding.mem_filterMap_diagnostic?_iff.1 hd) with hd | hd
      · exact Nat.le_of_lt (hearlier _ hd f (List.mem_cons_self ..)).1
      · rw [← List.mem_singleton.1 hd]
        exact Nat.le_refl _
    simp only [decide_eq_true_eq]
    omega
  have hkept : (later.filterMap Finding.diagnostic?).filter (f.span.stop ≤ ·.span.start) =
      later.filterMap Finding.diagnostic? := by
    refine List.filter_eq_self.2 fun d hd => decide_eq_true ?_
    exact (hlater _ (Finding.mem_filterMap_diagnostic?_iff.1 hd)).2
  have hreported : (scan source).diagnostics.reported =
      (earlier ++ [f]).filterMap Finding.diagnostic? ++ later.filterMap Finding.diagnostic? := by
    rw [← List.filterMap_append, ← List.append_cons, ← h]
    rfl
  rw [hreported, List.filter_append, hdropped, hkept, List.nil_append]

end

/-- **A scan can be taken up again behind any token.** -/
theorem scan_restarts {source : String} {before after : List Token} {t : Token}
    (h : (scan source).tokens = before ++ t :: after) (hkind : t.kind ≠ .eof) :
    ∃ read rest, Text.splitAt? t.span.stop source.toList = some (read, rest) ∧
      after = (scan (String.ofList rest)).tokens.map
        (Token.shift t.span.stop (read.count '\n')) ∧
      (scan source).diagnostics.reported.filter (t.span.stop ≤ ·.span.start) =
        (scan (String.ofList rest)).diagnostics.reported.map
          (Diagnostic.shift t.span.stop (read.count '\n')) := by
  obtain ⟨earlier, later, hfindings, -, hafter⟩ := exists_findings_of_tokens h hkind
  obtain ⟨read, rest, hsource, hstop, hlater⟩ := exists_rest_of_findings hfindings
  have hstop : t.span.stop = Text.width read := hstop
  have hend : endToken source = (endToken (String.ofList rest)).shift (Text.width read)
      (read.count '\n') := by
    have hboth : source = String.ofList read ++ String.ofList rest := by
      rw [← String.ofList_append, ← hsource, String.ofList_toList]
    rw [hboth, endToken_append, String.toList_ofList]
  have hreported : (scan source).diagnostics.reported.filter (t.span.stop ≤ ·.span.start) = _ :=
    filter_reported hfindings
  refine ⟨read, rest, Text.splitAt?_eq_some_iff.2 ⟨hsource, hstop⟩, ?_, ?_⟩
  · rw [← hafter, hlater, Finding.filterMap_token?_shift, hend, hstop, scan, List.map_append]
    rfl
  · rw [hreported, hlater, Finding.filterMap_diagnostic?_shift, hstop]
    rfl

/-- Behind a numeral on the second line, where a point and a digit follow without a blank. -/
theorem scan_restarts_before_point :
    ∃ before t after, (scan "\"é\n\"1.2.3@").tokens = before ++ t :: after ∧ t.kind ≠ .eof ∧
      before.length = 1 ∧ t.span.stop = 8 ∧
      after = (scan ".3@").tokens.map (Token.shift 8 1) ∧
      (scan "\"é\n\"1.2.3@").diagnostics.reported.filter (8 ≤ ·.span.start) =
        (scan ".3@").diagnostics.reported.map (Diagnostic.shift 8 1) := by
  obtain ⟨t, ht⟩ : ∃ t, (scan "\"é\n\"1.2.3@").tokens[1]? = some t :=
    Option.isSome_iff_exists.1 (by decide +kernel)
  have hfacts : ∀ t ∈ (scan "\"é\n\"1.2.3@").tokens[1]?, t.kind ≠ .eof ∧ t.span.stop = 8 := by
    decide +kernel
  obtain ⟨hkind, hstop⟩ := hfacts t ht
  obtain ⟨before, after, htokens, hlength⟩ := exists_append_of_getElem? ht
  obtain ⟨read, rest, hsplit, hafter, hreported⟩ := scan_restarts htokens hkind
  have hcut : Text.splitAt? 8 "\"é\n\"1.2.3@".toList =
      some ("\"é\n\"1.2".toList, ".3@".toList) := by decide +kernel
  rw [hstop] at hsplit hafter hreported
  obtain ⟨rfl, rfl⟩ := Prod.mk.inj (Option.some.inj (hsplit.symm.trans hcut))
  exact ⟨before, t, after, htokens, hkind, hlength, hstop, hafter, hreported⟩

end LoxFrontEnd
