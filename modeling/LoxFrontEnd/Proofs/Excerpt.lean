import LoxFrontEnd.Listing
import LoxFrontEnd.Proofs.Lexical.SourceLine
import LoxFrontEnd.Proofs.Lexical.WhiteSpace

/-! Excerpts of diagnostics.

An excerpt is cut out of the line on which its span starts (`ofSpan_of_onLine`). A
diagnostic starts at a character that is no blank, and it marks this character alone or
everything from a quote on (`exists_place`). So the first mark stands under the character
that is at fault, and an excerpt is missing only where the whole line is white space. -/
namespace LoxFrontEnd

/-! ### Parts of a line -/

section
variable {source : String} {offset : Nat} {left right : List Char}

theorem OnLine.slice (h : OnLine source offset left right) {marked : List Char}
    (hmarked : marked <+: right) :
    Text.slice offset (offset + Text.width marked) source.toList = .ok marked := by
  obtain ⟨earlier, later, hsource, rfl, -, -⟩ := h.placed
  obtain ⟨rest, rfl⟩ := hmarked
  refine Text.slice_eq_ok_iff.2 ⟨earlier ++ left, rest ++ later, ?_, rfl, ?_⟩
  · simp [hsource]
  · rw [← Text.width_append]

/-- A line ends between two characters of the source, or where the source ends. -/
theorem OnLine.isBoundary (h : OnLine source offset left right) :
    Text.IsBoundary source.toList (offset + Text.width right) := by
  obtain ⟨earlier, later, hsource, rfl, -, -⟩ := h.placed
  refine ⟨earlier ++ left ++ right, ⟨later, ?_⟩, (Text.width_append ..).symm⟩
  simp [hsource]

end

namespace Excerpt

theorem lastLine_append {earlier left : List Char} (hleft : '\n' ∉ left)
    (hearlier : ∀ c, [c] <:+ earlier → c = '\n') : lastLine (earlier ++ left) = left := by
  have hrev : ∀ c, [c] <+: earlier.reverse → c = '\n' := fun c hc =>
    hearlier c (List.reverse_prefix.1 hc)
  rw [lastLine, List.reverse_append, Segment.takeWhile_line (mt List.mem_reverse.1 hleft) hrev,
    List.reverse_reverse]

/-- What is not shown of a line is carriage returns at its end. -/
theorem exists_returns (cs : List Char) :
    ∃ n, cs = trimReturns cs ++ List.replicate n '\r' := by
  have hreturns : ∀ c ∈ (cs.reverse.takeWhile (· == '\r')).reverse, c = '\r' := by
    intro c hc
    simpa using List.mem_takeWhile_imp (List.mem_reverse.1 hc)
  refine ⟨(cs.reverse.takeWhile (· == '\r')).reverse.length, ?_⟩
  rw [← List.eq_replicate_iff.2 ⟨rfl, hreturns⟩, trimReturns, ← List.reverse_append,
    List.takeWhile_append_dropWhile, List.reverse_reverse]

theorem getLast?_trimReturns (cs : List Char) : (trimReturns cs).getLast? ≠ some '\r' := by
  rw [trimReturns, List.getLast?_reverse]
  intro h
  have hhead := List.head?_dropWhile_not (· == '\r') cs.reverse
  rw [h] at hhead
  simp at hhead

/-- A character that is no carriage return is shown, with all before it. -/
theorem trimReturns_append_cons {c : Char} (hc : c ≠ '\r') (left right : List Char) :
    trimReturns (left ++ c :: right) = left ++ c :: trimReturns right := by
  have hsplit : (left ++ c :: right).reverse = right.reverse ++ c :: left.reverse := by simp
  rw [trimReturns, trimReturns, hsplit, List.dropWhile_append]
  split
  · next hempty =>
    rw [List.isEmpty_iff.1 hempty]
    simp [hc]
  · simp

theorem length_le_trimReturns_iff {cs : List Char} :
    cs.length ≤ (trimReturns cs).length ↔ cs.getLast? ≠ some '\r' := by
  obtain ⟨n, hcs⟩ := exists_returns cs
  have hlength := congrArg List.length hcs
  rw [List.length_append, List.length_replicate] at hlength
  cases n with
  | zero =>
    rw [List.replicate_zero, List.append_nil] at hcs
    have hlast := getLast?_trimReturns cs
    rw [← hcs] at hlast ⊢
    exact iff_of_true (Nat.le_refl _) hlast
  | succ n =>
    have hlast : cs.getLast? = some '\r' := by
      rw [hcs, List.replicate_succ', ← List.append_assoc, List.getLast?_concat]
    exact iff_of_false (by omega) (fun h => h hlast)

/-- Carriage returns at its end are no reason why a line is shown or not. -/
theorem isEmpty_trim_trimReturns (cs : List Char) :
    (Text.trim (trimReturns cs)).isEmpty = cs.all Text.isWhiteSpace := by
  obtain ⟨n, hcs⟩ := exists_returns cs
  have hreturns : (List.replicate n '\r').all Text.isWhiteSpace = true := by
    rw [List.all_eq_true]
    intro c hc
    rw [List.eq_of_mem_replicate hc]
    rfl
  rw [Text.isEmpty_trim]
  conv => rhs; rw [hcs]
  rw [List.all_append, hreturns, Bool.and_true]

/-! ### Rows -/

/-- The two rows of an excerpt. -/
theorem splitOn_toText {e : Excerpt} (h : '\n' ∉ e.line) :
    e.toText.toList.splitOn '\n' = [List.replicate 4 ' ' ++ e.line,
      List.replicate 4 ' ' ++ (List.replicate e.column ' ' ++ List.replicate e.marks '^')] := by
  have hrows : e.toText.toList = (List.replicate 4 ' ' ++ e.line) ++ '\n' ::
      (List.replicate 4 ' ' ++ (List.replicate e.column ' ' ++ List.replicate e.marks '^')) := by
    simp [toText]
  rw [hrows, List.splitOn_append_cons_self_of_not_mem, List.splitOn_eq_singleton]
  · simp [List.mem_replicate]
  · simp [h]

/-! ### Any span -/

section
variable {source : String} {span : Span} {left right : List Char}

/-- The excerpt of a span, by the line on which the span starts. -/
theorem ofSpan_of_onLine (h : OnLine source span.start left right) :
    ofSpan source span =
      if (left ++ right).all Text.isWhiteSpace then .ok none
      else (Text.slice span.start (min span.stop (span.start + Text.width right))
        source.toList).map fun marked =>
          some ⟨trimReturns (left ++ right), left.length, max marked.length 1⟩ := by
  obtain ⟨⟨earlier, later, hsource, hstart, hearlier, hlater⟩, hleft, hright⟩ := h
  have hsplit : Text.splitAt? span.start source.toList =
      some (earlier ++ left, right ++ later) := by
    rw [Text.splitAt?_eq_some_iff, List.append_assoc]
    exact ⟨hsource, hstart⟩
  have hfirst : firstLine (right ++ later) = right := Segment.takeWhile_line hright hlater
  simp only [ofSpan, hsplit, hfirst, lastLine_append hleft hearlier, isEmpty_trim_trimReturns]
  split
  · rfl
  · cases Text.slice span.start (min span.stop (span.start + Text.width right)) source.toList <;>
      rfl

/-- There is an answer for every span that does not end before it starts, or inside a character
of the line on which it starts. -/
theorem exists_ofSpan (h : span.start ≤ span.stop)
    (hstop : Text.IsBoundary source.toList span.stop ∨ ∀ left right,
      OnLine source span.start left right → span.start + Text.width right ≤ span.stop) :
    ∃ e, ofSpan source span = .ok e := by
  cases hsplit : Text.splitAt? span.start source.toList with
  | none => exact ⟨none, by simp only [ofSpan, hsplit]⟩
  | some parts =>
    obtain ⟨before, after⟩ := parts
    obtain ⟨hsource, hstart⟩ := Text.splitAt?_eq_some_iff.1 hsplit
    obtain ⟨left, right, hline, -⟩ := exists_onLine hsource
    rw [← hstart] at hline
    -- The end of the span or the end of the line, whichever comes first, is a boundary.
    have hboundary : Text.IsBoundary source.toList
        (min span.stop (span.start + Text.width right)) := by
      rcases hstop with hstop | hpast
      · rcases Nat.le_total span.stop (span.start + Text.width right) with hle | hle
        · rwa [Nat.min_eq_left hle]
        · rw [Nat.min_eq_right hle]
          exact hline.isBoundary
      · rw [Nat.min_eq_right (hpast left right hline)]
        exact hline.isBoundary
    rw [ofSpan_of_onLine hline]
    split
    · exact ⟨none, rfl⟩
    · have hfirst : Text.IsBoundary source.toList span.start :=
        ⟨before, ⟨after, hsource.symm⟩, hstart⟩
      obtain ⟨marked, hmarked⟩ := Text.exists_slice hfirst hboundary (by omega)
      rw [hmarked]
      exact ⟨_, rfl⟩

end

end Excerpt

/-! ### Spans of diagnostics -/

/-- What a fault marks of its line, if it is at the character `c` and `right` follows this
character on the line. -/
inductive Fault.Marks : Fault → (c : Char) → (right marked : List Char) → Prop where
  | rejected (c : Char) (right : List Char) : Marks (.unexpectedCharacter c) c right [c]
  | openString (right : List Char) : Marks .unterminatedString '"' right ('"' :: right)

/-- A diagnostic starts behind `left` on its line, at the character `c`. -/
structure Diagnostic.Place (source : String) (d : Diagnostic) (left : List Char) (c : Char)
    (right marked : List Char) : Prop where
  onLine : OnLine source d.span.start left (c :: right)
  notBlank : Segment.isBlank c = false
  marks : d.fault.Marks c right marked
  stop : min d.span.stop (d.span.start + Text.width (c :: right)) =
    d.span.start + Text.width marked

section
variable {source : String} {d : Diagnostic} {left : List Char} {c : Char}
  {right marked : List Char}

/-- A diagnostic has its place on a line. -/
theorem exists_place (hd : d ∈ (scan source).diagnostics.reported) :
    ∃ left c right marked, d.Place source left c right marked := by
  obtain ⟨a, s, b, fault, hsegs, hfault, rfl⟩ := mem_diagnostics_iff.1 hd
  have hsource := eq_of_segments hsegs
  obtain ⟨hshape, hstops⟩ := fits_of_segments hsegs
  rw [List.flatMap_cons] at hsource
  cases s with
  | rejected c =>
    cases hfault
    have hblank : Segment.isBlank c = false := hshape.1
    have hne : c ≠ '\n' := Segment.ne_newline hblank
    obtain ⟨left, right, hline, -⟩ := exists_onLine_cons hne hsource
    refine ⟨left, c, right, [c], hline, hblank, .rejected c right, ?_⟩
    simp [Diagnostic.behind, Span.behind, Segment.text]
  | unterminated text =>
    cases hfault
    -- The string goes on behind its line, up to the end of the source.
    obtain ⟨body, -, rfl⟩ := hshape
    have hnil : b.flatMap Segment.text = [] := hstops
    rw [hnil, List.append_nil] at hsource
    obtain ⟨left, right, hline, more, rfl⟩ := exists_onLine_cons (by decide) hsource
    refine ⟨left, '"', right, '"' :: right, hline, by decide, .openString right, ?_⟩
    simp [Diagnostic.behind, Span.behind, Segment.text]
  | _ => cases hfault

theorem Fault.Marks.isPrefix {fault : Fault} (h : fault.Marks c right marked) :
    marked <+: c :: right := by
  cases h with
  | rejected => exact List.prefix_append [c] right
  | openString => exact List.prefix_refl _

theorem Fault.Marks.length_pos {fault : Fault} (h : fault.Marks c right marked) :
    0 < marked.length := by
  cases h <;> exact Nat.succ_pos _

theorem Diagnostic.Place.ne_return (h : d.Place source left c right marked) : c ≠ '\r' :=
  ne_of_apply_ne Segment.isBlank (by rw [h.notBlank]; decide)

/-- The excerpt of a diagnostic, by its place. -/
theorem Diagnostic.Place.ofSpan_eq (h : d.Place source left c right marked) :
    Excerpt.ofSpan source d.span =
      if (left ++ c :: right).all Text.isWhiteSpace then .ok none
      else .ok (some ⟨Excerpt.trimReturns (left ++ c :: right), left.length, marked.length⟩) := by
  rw [Excerpt.ofSpan_of_onLine h.onLine, h.stop, h.onLine.slice h.marks.isPrefix]
  simp only [Except.map, Nat.max_eq_left h.marks.length_pos]

theorem Diagnostic.Place.eq_of_ofSpan (h : d.Place source left c right marked) {e : Excerpt}
    (he : Excerpt.ofSpan source d.span = .ok (some e)) :
    e = ⟨Excerpt.trimReturns (left ++ c :: right), left.length, marked.length⟩ := by
  rw [h.ofSpan_eq] at he
  split at he
  · cases he
  · exact (Option.some.inj (Except.ok.inj he)).symm

/-! ### Diagnostics with their lines -/

/-- A diagnostic is shown with an excerpt of the line that it is on: with the text of the line,
carriage returns at its end aside, and with a mark at least. -/
structure Diagnostic.ShownWith (source : String) (d : Diagnostic) (text : List Char)
    (e : Excerpt) : Prop where
  excerpt : Excerpt.ofSpan source d.span = .ok (some e)
  line : ∃ n, text = e.line ++ List.replicate n '\r'
  marks : 0 < e.marks
  shown : Listing.diagnostic source d = .ok [Listing.headline d, Listing.excerpt e]

/-- What is shown of a diagnostic that starts on the given line. -/
structure Diagnostic.Shown (source : String) (d : Diagnostic) (line : Nat) (text : List Char) :
    Prop where
  number : lineAt source d.span.start = .ok line
  numbered : lineText? source line = some text
  excerpt_iff : (∃ e, d.ShownWith source text e) ↔ ∃ c ∈ text, Text.isWhiteSpace c = false
  blank : (∀ c ∈ text, Text.isWhiteSpace c = true) →
    Excerpt.ofSpan source d.span = .ok none ∧
      Listing.diagnostic source d = .ok [Listing.headline d]

/-- **A diagnostic is shown with its line**, unless there is nothing but white space on it. -/
theorem diagnostic_shown (hd : d ∈ (scan source).diagnostics.reported) :
    ∃ line text, d.Shown source line text := by
  obtain ⟨left, c, right, marked, hplace⟩ := exists_place hd
  obtain ⟨line, hnumber, htext⟩ := hplace.onLine.number
  have hspan := hplace.ofSpan_eq
  by_cases hblank : (left ++ c :: right).all Text.isWhiteSpace = true
  · rw [if_pos hblank] at hspan
    refine ⟨line, left ++ c :: right, hnumber, htext, ⟨fun hex => ?_, fun hex => ?_⟩,
      fun _ => ⟨hspan, ?_⟩⟩
    · obtain ⟨e, he⟩ := hex
      rw [he.excerpt] at hspan
      cases hspan
    · obtain ⟨x, hx, hvisible⟩ := hex
      rw [List.all_eq_true.1 hblank x hx] at hvisible
      cases hvisible
    · rw [Listing.diagnostic, hspan]
      rfl
  · rw [if_neg hblank] at hspan
    refine ⟨line, left ++ c :: right, hnumber, htext, iff_of_true ⟨_, hspan, ?_, ?_, ?_⟩ ?_,
      fun h => absurd (List.all_eq_true.2 h) hblank⟩
    · exact Excerpt.exists_returns _
    · exact hplace.marks.length_pos
    · rw [Listing.diagnostic, hspan]
      rfl
    · rw [Bool.not_eq_true, List.all_eq_false] at hblank
      simpa only [Bool.not_eq_true] using hblank

/-- A sharp s behind a line of white space that is rejected as well. -/
theorem diagnostic_shown_behind_blank_line :
    ⟨2, ⟨5, 7⟩, .unexpectedCharacter 'ß', ""⟩ ∈
      (scan "\u00a0\n\t\tß\r").diagnostics.reported ∧
    ∃ line text, Diagnostic.Shown "\u00a0\n\t\tß\r"
      ⟨2, ⟨5, 7⟩, .unexpectedCharacter 'ß', ""⟩ line text :=
  ⟨by decide +kernel, diagnostic_shown (by decide +kernel)⟩

/-- A space that must not be broken starts no token, and alone on its line it has no excerpt. -/
theorem no_excerpt_of_no_break_space :
    ∃ d ∈ (scan "\u00a0").diagnostics.reported, d.fault = .unexpectedCharacter '\u00a0' ∧
      Excerpt.ofSpan "\u00a0" d.span = .ok none :=
  ⟨⟨1, ⟨0, 2⟩, .unexpectedCharacter '\u00a0', ""⟩, by decide +kernel, rfl, by decide +kernel⟩

/-! ### The marks and the line above them -/

/-- How far the marks under the line `text` go on which a diagnostic starts. -/
structure Excerpt.MarksOn (e : Excerpt) (d : Diagnostic) (text : List Char) : Prop where
  on_line : e.column + e.marks ≤ text.length
  to_end : d.fault = .unterminatedString → e.column + e.marks = text.length
  /-- They go past what is shown exactly if a string is open there and a carriage return ends the
  line. -/
  within_iff : e.column + e.marks ≤ e.line.length ↔
    (d.fault = .unterminatedString → text.getLast? ≠ some '\r')

/-- **The marks stay on the line**, but not always under what is shown of it. -/
theorem excerpt_marksOn (hd : d ∈ (scan source).diagnostics.reported) {e : Excerpt}
    (he : Excerpt.ofSpan source d.span = .ok (some e)) :
    ∃ line text, lineAt source d.span.start = .ok line ∧ lineText? source line = some text ∧
      e.MarksOn d text := by
  obtain ⟨left, c, right, marked, hplace⟩ := exists_place hd
  obtain ⟨line, hnumber, htext⟩ := hplace.onLine.number
  obtain rfl := hplace.eq_of_ofSpan he
  refine ⟨line, left ++ c :: right, hnumber, htext, ?_⟩
  have hmarks := hplace.marks
  generalize hfault : d.fault = fault at hmarks
  cases hmarks with
  | rejected c right =>
    have hclosed : d.fault ≠ .unterminatedString := by
      rw [hfault]
      nofun
    have hshown : left.length + 1 ≤ (Excerpt.trimReturns (left ++ c :: right)).length := by
      rw [Excerpt.trimReturns_append_cons hplace.ne_return, List.length_append, List.length_cons]
      omega
    have hline : left.length + 1 ≤ (left ++ c :: right).length := by
      rw [List.length_append, List.length_cons]
      omega
    exact ⟨hline, fun h => absurd h hclosed, iff_of_true hshown fun h => absurd h hclosed⟩
  | openString right =>
    have hend : left.length + ('"' :: right).length = (left ++ '"' :: right).length :=
      List.length_append.symm
    refine ⟨Nat.le_of_eq hend, fun _ => hend, ?_⟩
    rw [hend, Excerpt.length_le_trimReturns_iff]
    exact ⟨fun h _ => h, fun h => h hfault⟩

/-- A string that is open at the end of its line. -/
theorem excerpt_marksOn_open_string :
    ∃ d ∈ (scan "x = \"open\nmore").diagnostics.reported, ∃ e,
      Excerpt.ofSpan "x = \"open\nmore" d.span = .ok (some e) ∧
      ∃ line text, lineAt "x = \"open\nmore" d.span.start = .ok line ∧
        lineText? "x = \"open\nmore" line = some text ∧ e.MarksOn d text := by
  have hd : ⟨2, ⟨4, 14⟩, .unterminatedString, ""⟩ ∈
      (scan "x = \"open\nmore").diagnostics.reported := by decide +kernel
  have he : Excerpt.ofSpan "x = \"open\nmore" ⟨4, 14⟩ =
      .ok (some ⟨"x = \"open".toList, 4, 5⟩) := by decide +kernel
  exact ⟨_, hd, _, he, excerpt_marksOn hd he⟩

/-- A carriage return is marked that is not shown. -/
theorem marks_past_line_with_return :
    ∃ d ∈ (scan "\"open\r\nmore").diagnostics.reported, ∃ e,
      Excerpt.ofSpan "\"open\r\nmore" d.span = .ok (some e) ∧
      e.toText = "    \"open\n    ^^^^^^" ∧ ¬ e.column + e.marks ≤ e.line.length :=
  ⟨⟨2, ⟨0, 11⟩, .unterminatedString, ""⟩, by decide +kernel, ⟨"\"open".toList, 0, 6⟩,
    by decide +kernel, by decide +kernel, by decide +kernel⟩

/-! ### What the marks point at -/

/-- The excerpt shows the line on which the diagnostic starts, and its first mark stands under the
character `c` at which it starts. -/
structure Excerpt.Points (e : Excerpt) (source : String) (d : Diagnostic) (left : List Char)
    (c : Char) (right : List Char) : Prop where
  onLine : OnLine source d.span.start left (c :: right)
  number : ∃ line, lineAt source d.span.start = .ok line ∧
    lineText? source line = some (left ++ c :: right)
  returns : ∃ n, left ++ c :: right = e.line ++ List.replicate n '\r'
  noReturn : e.line.getLast? ≠ some '\r'
  rows : e.toText.toList.splitOn '\n' = [List.replicate 4 ' ' ++ e.line,
    List.replicate 4 ' ' ++ (List.replicate left.length ' ' ++ List.replicate e.marks '^')]
  marks : 0 < e.marks
  pointed : e.line[left.length]? = some c
  fault : d.fault = .unexpectedCharacter c ∧ e.marks = 1 ∨ d.fault = .unterminatedString ∧ c = '"'

/-- Excerpts can be cut out of the source, and they point at what is at fault. -/
structure ExcerptsExact (source : String) : Prop where
  /-- The end of a span may be between two characters, or anywhere behind its first line. -/
  spans : ∀ span : Span, span.start ≤ span.stop →
    (Text.IsBoundary source.toList span.stop ∨ ∀ left right,
      OnLine source span.start left right → span.start + Text.width right ≤ span.stop) →
    ∃ e, Excerpt.ofSpan source span = .ok e
  diagnostics : ∀ d ∈ (scan source).diagnostics.reported,
    ∃ e, Excerpt.ofSpan source d.span = .ok e
  points : ∀ d ∈ (scan source).diagnostics.reported, ∀ e,
    Excerpt.ofSpan source d.span = .ok (some e) → ∃ left c right, e.Points source d left c right

theorem Diagnostic.Place.points (h : d.Place source left c right marked) {e : Excerpt}
    (he : Excerpt.ofSpan source d.span = .ok (some e)) : e.Points source d left c right := by
  obtain rfl := h.eq_of_ofSpan he
  have hreturns := Excerpt.exists_returns (left ++ c :: right)
  have hline : '\n' ∉ Excerpt.trimReturns (left ++ c :: right) := by
    obtain ⟨n, hn⟩ := hreturns
    have hnot := h.onLine.newline_notMem
    rw [hn, List.mem_append, not_or] at hnot
    exact hnot.1
  constructor
  case onLine => exact h.onLine
  case number => exact h.onLine.number
  case returns => exact hreturns
  case noReturn => exact Excerpt.getLast?_trimReturns _
  case rows => exact Excerpt.splitOn_toText hline
  case marks => exact h.marks.length_pos
  case pointed =>
    rw [Excerpt.trimReturns_append_cons h.ne_return, List.getElem?_append_right (Nat.le_refl _),
      Nat.sub_self, List.getElem?_cons_zero]
  case fault =>
    have hmarks := h.marks
    generalize d.fault = fault at hmarks ⊢
    cases hmarks with
    | rejected => exact .inl ⟨rfl, rfl⟩
    | openString => exact .inr ⟨rfl, rfl⟩

/-- **No excerpt fails, and every one points at the character at fault.** -/
theorem excerpts_exact (source : String) : ExcerptsExact source where
  spans := fun span h hstop => Excerpt.exists_ofSpan h hstop
  diagnostics := by
    intro d hd
    obtain ⟨left, c, right, marked, hplace⟩ := exists_place hd
    rw [hplace.ofSpan_eq]
    split <;> exact ⟨_, rfl⟩
  points := by
    intro d hd e he
    obtain ⟨left, c, right, marked, hplace⟩ := exists_place hd
    exact ⟨left, c, right, hplace.points he⟩

end

/-- A rejected character behind one that is as wide, and a string that is open across lines. -/
theorem points_at_sharp_s_and_quote :
    (∃ left c right, Excerpt.Points ⟨"é ß".toList, 2, 1⟩ "é ß\r\n \"a\r\nb"
      ⟨1, ⟨3, 5⟩, .unexpectedCharacter 'ß', ""⟩ left c right) ∧
    ∃ left c right, Excerpt.Points ⟨" \"a".toList, 1, 3⟩ "é ß\r\n \"a\r\nb"
      ⟨3, ⟨8, 13⟩, .unterminatedString, ""⟩ left c right :=
  ⟨(excerpts_exact _).points _ (by decide +kernel) _ (by decide +kernel),
    (excerpts_exact _).points _ (by decide +kernel) _ (by decide +kernel)⟩

end LoxFrontEnd
