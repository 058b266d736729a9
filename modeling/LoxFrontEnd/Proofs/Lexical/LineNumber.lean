import LoxFrontEnd.Proofs.Lexical.Coverage

/-! Line numbers.

The line of an offset is read off the text before it: one more than its newlines. A scan
counts lines on its way, between tokens as well as inside of strings, and so every token
and every diagnostic has the line of the offset at which it stops (`scan_lines_exact`).
Along a source lines can only rise (`lineAt_mono`). -/
namespace LoxFrontEnd

/-- The line on which the text before an offset ends, if the offset lies between two characters
of the source. The first line is line one. -/
def lineAt (source : String) (offset : Nat) : Except Text.BadRange Nat :=
  (Text.slice 0 offset source.toList).map fun before => 1 + before.count '\n'

/-- The lines of tokens and diagnostics are the lines on which they stop. -/
structure LinesExact (source : String) (s : Scanned) : Prop where
  tokens : ∀ t ∈ s.tokens, lineAt source t.span.stop = .ok t.line
  diagnostics : ∀ d ∈ s.diagnostics.reported, lineAt source d.span.stop = .ok d.line
  /-- A string has the line of the quote that closes it. -/
  closingQuote : ∀ t ∈ s.tokens, t.kind = .string →
    Text.slice (t.span.stop - 1) t.span.stop source.toList = .ok ['"'] ∧
      lineAt source (t.span.stop - 1) = .ok t.line
  /-- A string that is never closed has the line on which the source ends. -/
  openString : ∀ d ∈ s.diagnostics.reported, d.fault = .unterminatedString →
    lineAt source source.utf8ByteSize = .ok d.line
  tokens_rising : (s.tokens.map Token.line).Pairwise (· ≤ ·)
  diagnostics_rising : (s.diagnostics.reported.map Diagnostic.line).Pairwise (· ≤ ·)

/-! ### Lines of offsets -/

theorem Text.slice_zero_eq_ok_iff {n : Nat} {cs before : List Char} :
    Text.slice 0 n cs = .ok before ↔ ∃ after, cs = before ++ after ∧ n = Text.width before := by
  rw [Text.slice_eq_ok_iff]
  constructor
  · intro hex
    obtain ⟨nothing, after, hcs, hzero, hn⟩ := hex
    obtain rfl := Text.width_eq_zero.1 hzero.symm
    exact ⟨after, hcs, hn⟩
  · intro hex
    obtain ⟨after, hcs, hn⟩ := hex
    exact ⟨[], after, hcs, rfl, hn⟩

section
variable {source : String}

theorem lineAt_eq_ok_iff {offset line : Nat} :
    lineAt source offset = .ok line ↔ ∃ before after, source.toList = before ++ after ∧
      offset = Text.width before ∧ line = 1 + before.count '\n' := by
  constructor
  · intro h
    cases hslice : Text.slice 0 offset source.toList with
    | error e => simp [lineAt, hslice, Except.map] at h
    | ok before =>
      obtain ⟨after, hsource, hoffset⟩ := Text.slice_zero_eq_ok_iff.1 hslice
      refine ⟨before, after, hsource, hoffset, ?_⟩
      simpa [lineAt, hslice, Except.map, eq_comm] using h
  · intro hex
    obtain ⟨before, after, hsource, hoffset, rfl⟩ := hex
    rw [lineAt, Text.slice_zero_eq_ok_iff.2 ⟨after, hsource, hoffset⟩]
    rfl

/-- A later offset is never on an earlier line. -/
theorem lineAt_mono {m n i j : Nat} (hm : lineAt source m = .ok i) (hn : lineAt source n = .ok j)
    (h : m ≤ n) : i ≤ j := by
  obtain ⟨a, a', ha, rfl, rfl⟩ := lineAt_eq_ok_iff.1 hm
  obtain ⟨b, b', hb, rfl, rfl⟩ := lineAt_eq_ok_iff.1 hn
  have hpre : a <+: b := Text.prefix_of_width_le ⟨a', ha.symm⟩ ⟨b', hb.symm⟩ h
  have hcount : a.count '\n' ≤ b.count '\n' := hpre.sublist.count_le '\n'
  omega

/-- The line of the offset at which a segment stops. -/
theorem lineAt_behind {a b : List Segment} {s : Segment}
    (h : segments source.toList = a ++ s :: b) :
    lineAt source (Span.behind (a.flatMap Segment.text) s.text).stop =
      .ok (1 + (a.flatMap Segment.text ++ s.text).count '\n') := by
  refine lineAt_eq_ok_iff.2 ⟨_, b.flatMap Segment.text, ?_, rfl, rfl⟩
  rw [eq_of_segments h, List.flatMap_cons, List.append_assoc]

theorem lineAt_end (source : String) :
    lineAt source source.utf8ByteSize = .ok (endToken source).line := by
  refine lineAt_eq_ok_iff.2 ⟨source.toList, [], (List.append_nil _).symm, ?_, ?_⟩
  · exact (Text.width_toList source).symm
  · simp [endToken, Cursor.start_advance]

/-! ### Lines of tokens and diagnostics -/

theorem lineAt_token {t : Token} (h : t ∈ (scan source).tokens) :
    lineAt source t.span.stop = .ok t.line := by
  rcases mem_tokens_iff.1 h with rfl | ⟨a, kind, text, b, hsegs, rfl⟩
  · rw [endToken_span]
    exact lineAt_end source
  · exact lineAt_behind hsegs

theorem lineAt_diagnostic {d : Diagnostic} (h : d ∈ (scan source).diagnostics.reported) :
    lineAt source d.span.stop = .ok d.line := by
  obtain ⟨a, s, b, fault, hsegs, _, rfl⟩ := mem_diagnostics_iff.1 h
  exact lineAt_behind hsegs

/-- The quote that closes a string is one byte, and no newline. -/
theorem lineAt_closingQuote {t : Token} (h : t ∈ (scan source).tokens) (hkind : t.kind = .string) :
    Text.slice (t.span.stop - 1) t.span.stop source.toList = .ok ['"'] ∧
      lineAt source (t.span.stop - 1) = .ok t.line := by
  rcases mem_tokens_iff.1 h with rfl | ⟨a, kind, text, b, hsegs, rfl⟩
  · cases hkind
  · obtain rfl : kind = .string := hkind
    obtain ⟨body, -, rfl⟩ := Item.eq_quoted (fits_of_segments hsegs).shape
    generalize hbefore : a.flatMap Segment.text ++ '"' :: body = before
    have htext : a.flatMap Segment.text ++ '"' :: (body ++ ['"']) = before ++ ['"'] := by
      simp [← hbefore]
    have hsource : source.toList = before ++ (['"'] ++ b.flatMap Segment.text) := by
      rw [eq_of_segments hsegs, List.flatMap_cons, ← List.append_assoc, Segment.text, htext,
        List.append_assoc]
    have hstop : (Token.behind (a.flatMap Segment.text) .string
        ('"' :: (body ++ ['"']))).span.stop = Text.width (before ++ ['"']) := congrArg _ htext
    have hwidth : Text.width (before ++ ['"']) - 1 = Text.width before := by
      rw [Text.width_append]
      exact Nat.add_sub_cancel (Text.width before) 1
    rw [hstop, hwidth]
    constructor
    · rw [hsource]
      exact Span.slice_behind before ['"'] _
    · refine lineAt_eq_ok_iff.2 ⟨before, _, hsource, rfl, ?_⟩
      simp [Token.behind, htext]

/-- What stands in the order of the source and has the lines on which it stops has lines that
never fall. -/
theorem lines_rising {α : Type} {xs : List α} {span : α → Span} {line : α → Nat}
    (hordered : (xs.map span).Pairwise Span.Before)
    (hspan : ∀ x ∈ xs, (span x).start ≤ (span x).stop)
    (hline : ∀ x ∈ xs, lineAt source (span x).stop = .ok (line x)) :
    (xs.map line).Pairwise (· ≤ ·) := by
  rw [List.pairwise_map] at hordered ⊢
  refine hordered.imp_of_mem fun {x y} hx hy hbefore => ?_
  have hstop : (span x).stop ≤ (span y).stop := Nat.le_trans hbefore.2 (hspan y hy)
  exact lineAt_mono (hline x hx) (hline y hy) hstop

/-- **Every token and every diagnostic of a scan has the line on which it stops.** -/
theorem scan_lines_exact (source : String) : LinesExact source (scan source) where
  tokens := fun t ht => lineAt_token ht
  diagnostics := fun d hd => lineAt_diagnostic hd
  closingQuote := fun t ht hkind => lineAt_closingQuote ht hkind
  openString := by
    intro d hd hfault
    obtain ⟨a, b, hreported⟩ := List.append_of_mem hd
    have hstop := (unterminated_last hreported hfault).2.1
    rw [← hstop]
    exact lineAt_diagnostic hd
  tokens_rising := by
    refine lines_rising (tokens_ordered source) (fun t ht => ?_) fun t ht => lineAt_token ht
    by_cases hkind : t.kind = .eof
    · rcases mem_tokens_iff.1 ht with rfl | ⟨a, kind, text, b, hsegs, rfl⟩
      · rw [endToken_span]
      · exact absurd hkind (kind_ne_eof (token_mem_findings_iff.2 ⟨a, kind, text, b, hsegs, rfl⟩))
    · exact Nat.le_of_lt (token_in_source ht hkind).1
  diagnostics_rising :=
    lines_rising (diagnostics_ordered source) (fun d hd => Nat.le_of_lt (diagnostic_in_source hd).1)
      fun d hd => lineAt_diagnostic hd

end

end LoxFrontEnd
