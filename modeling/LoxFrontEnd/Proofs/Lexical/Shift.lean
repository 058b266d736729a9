import LoxFrontEnd.Proofs.Lexical.LineEnd

/-! Scans from another place on.

Of the text before it a scan knows only the bytes and the lines. What it finds from a
place further on is therefore the same, with all offsets and lines moved on
(`Finding.ofSegments_shift`), and behind any segment a source is scanned as if it began
there (`findings_of_segments`). A newline outside of a string cuts a source into two
texts that can be scanned apart from each other (`scan_append_newline`): this is what
allows a source to be read line by line. -/
namespace LoxFrontEnd

/-! ### Moving on -/

def Cursor.shift (bytes lines : Nat) (k : Cursor) : Cursor := ⟨k.offset + bytes, k.line + lines⟩

def Span.shift (bytes : Nat) (s : Span) : Span := ⟨s.start + bytes, s.stop + bytes⟩

/-- The token so many bytes and lines further on. -/
def Token.shift (bytes lines : Nat) (t : Token) : Token :=
  { t with line := t.line + lines, span := t.span.shift bytes }

/-- The diagnostic so many bytes and lines further on. -/
def Diagnostic.shift (bytes lines : Nat) (d : Diagnostic) : Diagnostic :=
  { d with line := d.line + lines, span := d.span.shift bytes }

def Finding.shift (bytes lines : Nat) : Finding → Finding
  | token t => token (t.shift bytes lines)
  | fault d => fault (d.shift bytes lines)

section
variable (bytes lines : Nat)

theorem Cursor.advance_shift (k : Cursor) (text : List Char) :
    (k.shift bytes lines).advance text = (k.advance text).shift bytes lines := by
  simp only [shift, advance, Cursor.mk.injEq]
  omega

namespace Finding

theorem ofSegment?_shift (k : Cursor) (s : Segment) :
    ofSegment? (k.shift bytes lines) s = (ofSegment? k s).map (shift bytes lines) := by
  unfold ofSegment?
  rw [Cursor.advance_shift]
  cases s <;> rfl

theorem ofSegments_shift (k : Cursor) (segs : List Segment) :
    ofSegments (k.shift bytes lines) segs = (ofSegments k segs).map (shift bytes lines) := by
  induction segs generalizing k with
  | nil => rfl
  | cons s segs ih =>
    rw [ofSegments, ofSegment?_shift, Cursor.advance_shift, ih, ofSegments, List.map_append,
      Option.toList_map]

theorem filterMap_token?_shift (found : List Finding) :
    (found.map (shift bytes lines)).filterMap token? =
      (found.filterMap token?).map (Token.shift bytes lines) := by
  rw [List.filterMap_map, List.map_filterMap]
  congr 1
  funext f
  cases f <;> rfl

theorem filterMap_diagnostic?_shift (found : List Finding) :
    (found.map (shift bytes lines)).filterMap diagnostic? =
      (found.filterMap diagnostic?).map (Diagnostic.shift bytes lines) := by
  rw [List.filterMap_map, List.map_filterMap]
  congr 1
  funext f
  cases f <;> rfl

end Finding

end

/-! ### A source from a place on -/

/-- A place in a source, seen from a place before it. -/
theorem Cursor.start_advance_append (before text : List Char) :
    start.advance (before ++ text) =
      (start.advance text).shift (Text.width before) (before.count '\n') := by
  simp only [start_advance, shift, Text.width_append, List.count_append, Cursor.mk.injEq]
  omega

/-- Behind any of its segments a source is scanned as if it began there. -/
theorem findings_of_segments {source : String} {a b : List Segment}
    (h : segments source.toList = a ++ b) :
    findings source = Finding.ofSegments .start a ++
      (findings (String.ofList (b.flatMap Segment.text))).map
        (Finding.shift (Text.width (a.flatMap Segment.text))
          ((a.flatMap Segment.text).count '\n')) := by
  have hcut : Cut b := (h ▸ Cut.segments source.toList).of_append
  have hplace := Cursor.start_advance_append (a.flatMap Segment.text) []
  rw [List.append_nil, Cursor.advance_nil] at hplace
  rw [findings, h, Finding.ofSegments_append, hplace, Finding.ofSegments_shift, findings,
    String.toList_ofList, hcut.segments_text]

theorem endToken_append (before after : String) :
    endToken (before ++ after) =
      (endToken after).shift (Text.width before.toList) (before.toList.count '\n') := by
  rw [endToken, String.toList_append, Cursor.start_advance_append]
  rfl

/-! ### A newline between two texts -/

section
variable (a b : String)

theorem width_append_newline : Text.width (a ++ "\n").toList = a.utf8ByteSize + 1 := by
  rw [String.toList_append, Text.width_append, Text.width_toList]
  rfl

theorem count_append_newline : (a ++ "\n").toList.count '\n' = a.toList.count '\n' + 1 := by
  rw [String.toList_append, List.count_append]
  rfl

theorem findings_append_newline (h : ¬ EndsInString a.toList) :
    findings (a ++ "\n" ++ b) =
      findings a ++
        (findings b).map (Finding.shift (a.utf8ByteSize + 1) (a.toList.count '\n' + 1)) := by
  have hsource : (a ++ "\n" ++ b).toList = a.toList ++ '\n' :: b.toList := by
    simp [String.toList_append]
  have hsegs : segments (a ++ "\n" ++ b).toList =
      (segments a.toList ++ [.blank '\n']) ++ segments b.toList := by
    rw [hsource, segments_append_newline h, List.append_assoc]
    rfl
  have htext : (segments a.toList ++ [Segment.blank '\n']).flatMap Segment.text =
      (a ++ "\n").toList := by
    rw [List.flatMap_append, flatMap_text_segments, String.toList_append]
    rfl
  have hnewline : Finding.ofSegments .start (segments a.toList ++ [.blank '\n']) = findings a := by
    rw [Finding.ofSegments_append]
    exact List.append_nil _
  rw [findings_of_segments hsegs, hnewline, htext, flatMap_text_segments, String.ofList_toList,
    width_append_newline, count_append_newline]

theorem endToken_append_newline :
    endToken (a ++ "\n" ++ b) =
      (endToken b).shift (a.utf8ByteSize + 1) (a.toList.count '\n' + 1) := by
  rw [endToken_append, width_append_newline, count_append_newline]

/-- **A newline outside of a string cuts a scan in two.** What is found before it is found in the
text before it alone, and what is found after it is found in the text after it, moved on by the
bytes and lines before. -/
theorem scan_append_newline
    (h : ∀ d ∈ (scan a).diagnostics.reported, d.fault ≠ .unterminatedString) :
    (scan (a ++ "\n" ++ b)).tokens =
        (scan a).tokens.filter (·.kind ≠ .eof) ++
          (scan b).tokens.map (Token.shift (a.utf8ByteSize + 1) (a.toList.count '\n' + 1)) ∧
      (scan (a ++ "\n" ++ b)).diagnostics.reported =
        (scan a).diagnostics.reported ++
          (scan b).diagnostics.reported.map
            (Diagnostic.shift (a.utf8ByteSize + 1) (a.toList.count '\n' + 1)) := by
  have hclosed : ¬ EndsInString a.toList := by
    rw [endsInString_iff]
    simpa using h
  have hfound := findings_append_newline a b hclosed
  constructor
  · rw [filter_tokens, scan, hfound, List.filterMap_append, Finding.filterMap_token?_shift,
      endToken_append_newline, scan, List.map_append, List.append_assoc]
    rfl
  · have hreported (source : String) : (scan source).diagnostics.reported =
        (findings source).filterMap Finding.diagnostic? := rfl
    rw [hreported, hfound, List.filterMap_append, Finding.filterMap_diagnostic?_shift]
    rfl

end

/-- A numeral with a point in front of the newline and a digit behind it, after a string of two
lines and a character that is rejected, and before a string that is never closed. -/
theorem scan_append_newline_pending_point :
    (∀ d ∈ (scan "\"é\n\" @ 1.").diagnostics.reported, d.fault ≠ .unterminatedString) ∧
    (scan ("\"é\n\" @ 1." ++ "\n" ++ "5 //\n\"open")).tokens =
        (scan "\"é\n\" @ 1.").tokens.filter (·.kind ≠ .eof) ++
          (scan "5 //\n\"open").tokens.map (Token.shift 11 2) ∧
      (scan ("\"é\n\" @ 1." ++ "\n" ++ "5 //\n\"open")).diagnostics.reported =
        (scan "\"é\n\" @ 1.").diagnostics.reported ++
          (scan "5 //\n\"open").diagnostics.reported.map (Diagnostic.shift 11 2) :=
  ⟨by decide +kernel, scan_append_newline _ _ (by decide +kernel)⟩

end LoxFrontEnd
