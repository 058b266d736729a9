import LoxFrontEnd.Proofs.Lexical.Coverage
import LoxFrontEnd.Proofs.Lexical.Lookahead

/-! Going on behind rejected characters.

A character that starts no token is reported, and the scan goes on behind it. It does so
as if blanks stood there instead: a source in which every rejected character has given way
to as many spaces as it has bytes has the same tokens at the same places, and of its
diagnostics only an open string is left (`scan_blanked`). -/
namespace LoxFrontEnd

/-- The scan reports the character at the offset as one that starts no token. -/
def Scanned.Rejects (s : Scanned) (offset : Nat) (c : Char) : Prop :=
  ∃ d ∈ s.diagnostics.reported, d.span.start = offset ∧ d.fault = .unexpectedCharacter c

instance (s : Scanned) (offset : Nat) (c : Char) : Decidable (s.Rejects offset c) :=
  inferInstanceAs (Decidable (∃ d ∈ s.diagnostics.reported, _))

/-- A text from the offset on, with a space for each byte of a character that the scan rejects. -/
def Scanned.blank (s : Scanned) (offset : Nat) : List Char → List Char
  | [] => []
  | c :: cs =>
    (if s.Rejects offset c then List.replicate c.utf8Size ' ' else [c]) ++
      s.blank (offset + c.utf8Size) cs

/-- The source with a space for each byte of a rejected character. -/
def blanked (source : String) : String := String.ofList ((scan source).blank 0 source.toList)

namespace Scanned
variable (s : Scanned)

theorem blank_append (offset : Nat) (a b : List Char) :
    s.blank offset (a ++ b) = s.blank offset a ++ s.blank (offset + Text.width a) b := by
  induction a generalizing offset with
  | nil => rfl
  | cons c a ih => simp [blank, ih, Nat.add_assoc]

theorem blank_eq_self {offset : Nat} {cs : List Char}
    (h : ∀ p c q, cs = p ++ c :: q → ¬ s.Rejects (offset + Text.width p) c) :
    s.blank offset cs = cs := by
  induction cs generalizing offset with
  | nil => rfl
  | cons c cs ih =>
    have hrest : s.blank (offset + c.utf8Size) cs = cs := by
      refine ih fun p x q hcs => ?_
      rw [Nat.add_assoc]
      exact h (c :: p) x q (congrArg (c :: ·) hcs)
    have hc : ¬ s.Rejects offset c := h [] c cs rfl
    rw [blank, if_neg hc, hrest]
    rfl

end Scanned

/-! ### Which characters are rejected -/

/-- At each offset of a text there is one segment. -/
theorem segment_unique {segs a b c d : List Segment} {s t : Segment} (h : segs = a ++ s :: b)
    (h' : segs = c ++ t :: d) (hne : ∀ s ∈ segs, s.text ≠ [])
    (hle : Text.width (a.flatMap Segment.text) ≤ Text.width (c.flatMap Segment.text))
    (hlt : Text.width (c.flatMap Segment.text) < Text.width ((a ++ [s]).flatMap Segment.text)) :
    a = c ∧ s = t := by
  rcases List.append_eq_append_iff.1 (h.symm.trans h') with ⟨m, rfl, hm⟩ | ⟨m, rfl, hm⟩
  · cases m with
    | nil =>
      obtain ⟨rfl, -⟩ := List.cons.inj hm
      exact ⟨(List.append_nil a).symm, rfl⟩
    | cons x m =>
      obtain ⟨rfl, -⟩ := List.cons.inj hm
      have hwidth : Text.width ((a ++ s :: m).flatMap Segment.text) =
          Text.width ((a ++ [s]).flatMap Segment.text) + Text.width (m.flatMap Segment.text) := by
        rw [List.append_cons, List.flatMap_append, Text.width_append]
      omega
  · cases m with
    | nil =>
      obtain ⟨rfl, -⟩ := List.cons.inj hm
      exact ⟨List.append_nil c, rfl⟩
    | cons x m =>
      obtain ⟨rfl, -⟩ := List.cons.inj hm
      have hpos := width_pos (hne t (by simp [h']))
      rw [List.flatMap_append, List.flatMap_cons, Text.width_append, Text.width_append] at hle
      omega

section
variable {source : String} {a b : List Segment} {s : Segment}

theorem rejects_iff (h : segments source.toList = a ++ s :: b) {p q : List Char} {c : Char}
    (htext : s.text = p ++ c :: q) :
    (scan source).Rejects (Text.width (a.flatMap Segment.text) + Text.width p) c ↔
      s = .rejected c := by
  constructor
  · intro hex
    obtain ⟨d, hd, hstart, hfault⟩ := hex
    obtain ⟨a', t, b', fault, h', ht, rfl⟩ := mem_diagnostics_iff.1 hd
    have hstart : Text.width (a'.flatMap Segment.text) =
        Text.width (a.flatMap Segment.text) + Text.width p := hstart
    have hpos := Char.utf8Size_pos c
    have hle : Text.width (a.flatMap Segment.text) ≤ Text.width (a'.flatMap Segment.text) := by
      omega
    have hlt : Text.width (a'.flatMap Segment.text) <
        Text.width ((a ++ [s]).flatMap Segment.text) := by
      simp only [List.flatMap_append, List.flatMap_singleton, htext, Text.width_append,
        Text.width_cons]
      omega
    obtain ⟨-, rfl⟩ := segment_unique h h' (Cut.text_ne_nil (Cut.segments _)) hle hlt
    obtain rfl : fault = .unexpectedCharacter c := hfault
    cases s <;> cases ht
    rfl
  · intro hs
    subst hs
    obtain rfl : p = [] := by
      have hlength := congrArg List.length htext
      simp [Segment.text] at hlength
      exact List.length_eq_zero_iff.1 (by omega)
    exact ⟨_, mem_diagnostics_iff.2 ⟨a, _, b, _, h, rfl, rfl⟩, rfl, rfl⟩

end

/-! ### Spaces in place of segments -/

/-- A segment, or the spaces that stand in for it. -/
def Segment.blanked : Segment → List Segment
  | .rejected c => List.replicate c.utf8Size (.blank ' ')
  | s => [s]

theorem Segment.eq_rejected_or (s : Segment) :
    (∃ c, s = .rejected c) ∨ (∀ c, s ≠ .rejected c) ∧ s.blanked = [s] := by
  cases s <;> simp [blanked]

theorem flatMap_text_spaces (n : Nat) :
    (List.replicate n (Segment.blank ' ')).flatMap Segment.text = List.replicate n ' ' := by
  rw [← List.map_replicate, flatMap_text_blanks]

theorem isBlank_of_mem_spaces {n : Nat} {c : Char} (h : c ∈ List.replicate n ' ') :
    Segment.isBlank c = true := by
  rw [List.eq_of_mem_replicate h]
  rfl

/-- Blanking the text of a source is blanking its segments. -/
theorem blank_flatMap_text {source : String} {a b : List Segment}
    (h : segments source.toList = a ++ b) :
    (scan source).blank (Text.width (a.flatMap Segment.text)) (b.flatMap Segment.text) =
      (b.flatMap Segment.blanked).flatMap Segment.text := by
  induction b generalizing a with
  | nil => rfl
  | cons s b ih =>
    have hrest := ih (a := a ++ [s]) (by rw [h, List.append_cons])
    have hs : (scan source).blank (Text.width (a.flatMap Segment.text)) s.text =
        s.blanked.flatMap Segment.text := by
      rcases s.eq_rejected_or with ⟨c, rfl⟩ | ⟨hkept, hself⟩
      · have hc : (scan source).Rejects (Text.width (a.flatMap Segment.text)) c :=
          (rejects_iff h (p := []) rfl).2 rfl
        rw [Segment.blanked, flatMap_text_spaces, Segment.text, Scanned.blank, if_pos hc]
        exact List.append_nil _
      · rw [hself, List.flatMap_singleton]
        exact Scanned.blank_eq_self _ fun p c q htext hrejects =>
          hkept c ((rejects_iff h htext).1 hrejects)
    rw [List.flatMap_append, List.flatMap_singleton, Text.width_append] at hrest
    rw [List.flatMap_cons, Scanned.blank_append, hs, hrest, List.flatMap_cons,
      List.flatMap_append]

/-- Only rejected characters give way to spaces. -/
theorem whitened_blanked (segs : List Segment) :
    Whitened (segs.flatMap Segment.text) ((segs.flatMap Segment.blanked).flatMap Segment.text) := by
  induction segs with
  | nil => exact .nil
  | cons s segs ih =>
    rw [List.flatMap_cons, List.flatMap_cons, List.flatMap_append]
    rcases s.eq_rejected_or with ⟨c, rfl⟩ | ⟨-, hself⟩
    · rw [Segment.blanked, flatMap_text_spaces]
      refine .blanks c ?_ ?_ ih
      · simpa using Nat.ne_of_gt (Char.utf8Size_pos c)
      · exact fun _ => isBlank_of_mem_spaces
    · rw [hself, List.flatMap_singleton]
      exact ih.append_left s.text

/-- What a comment stops at stays in its place. -/
theorem longest_blanked_of_comment {cs : List Char} {segs : List Segment} (hcs : '\n' ∉ cs)
    (hsegs : Cut segs) (h : Longest ('/' :: '/' :: cs) (segs.flatMap Segment.text)) :
    Longest ('/' :: '/' :: cs) ((segs.flatMap Segment.blanked).flatMap Segment.text) := by
  cases hrest : segs.flatMap Segment.text with
  | nil =>
    obtain rfl := hsegs.eq_nil_of_text hrest
    exact longest_nil _
  | cons c rest =>
    rw [hrest] at h
    obtain rfl := h.lineEnd hcs c (List.prefix_append [c] rest)
    have hfirst : segs = .blank '\n' :: segments rest := by
      rw [← hsegs.segments_text, hrest, segments_newline]
    rw [hfirst]
    exact (longest_nil _).append_newline (.comment hcs) _

/-- Segments stay what they are in front of spaces in place of rejected characters. -/
theorem Cut.blanked {segs : List Segment} (h : Cut segs) : Cut (segs.flatMap Segment.blanked) := by
  induction h with
  | nil => exact .nil
  | @cons s segs hs hcut ih =>
    obtain ⟨hshape, hstops⟩ := hs
    rw [List.flatMap_cons]
    cases s with
    | token kind text => exact .cons ⟨hshape, hstops.whitened hshape (whitened_blanked segs)⟩ ih
    | comment text =>
      have hitem : Item none text := hshape
      cases hitem with
      | comment hcs => exact .cons ⟨hshape, longest_blanked_of_comment hcs hcut hstops⟩ ih
    | blank c => exact .cons ⟨hshape, trivial⟩ ih
    | rejected c =>
      rw [Segment.blanked, ← List.map_replicate]
      exact ih.blanks fun _ => isBlank_of_mem_spaces
    | unterminated text =>
      obtain rfl := hcut.eq_nil_of_text hstops
      exact .cons ⟨hshape, rfl⟩ .nil

/-! ### What is found -/

/-- What is still found if spaces stand in place of the rejected characters. -/
def Finding.remains : Finding → Bool
  | token _ => true
  | fault d => d.fault = .unterminatedString

theorem Text.width_spaces (n : Nat) : Text.width (List.replicate n ' ') = n := by
  induction n with
  | zero => rfl
  | succ n ih =>
    have hspace : ' '.utf8Size = 1 := rfl
    rw [List.replicate_succ, Text.width_cons, ih, hspace, Nat.add_comm]

/-- Spaces are as wide as the character in whose place they stand, and no rejected character is a
newline. -/
theorem Cursor.advance_blanked (k : Cursor) {s : Segment} (h : s.Shape) :
    k.advance (s.blanked.flatMap Segment.text) = k.advance s.text := by
  rcases s.eq_rejected_or with ⟨c, rfl⟩ | ⟨-, hself⟩
  · have hnewline : c ≠ '\n' := Segment.ne_newline h.1
    have hcount : (List.replicate c.utf8Size ' ').count '\n' = 0 :=
      List.count_eq_zero.2 fun hmem => absurd (List.eq_of_mem_replicate hmem) (by decide)
    rw [Segment.blanked, flatMap_text_spaces]
    simp [advance, Segment.text, Text.width_spaces, hcount, hnewline]
  · rw [hself, List.flatMap_singleton]

theorem Cursor.advance_flatMap_blanked {segs : List Segment} (h : Cut segs) (k : Cursor) :
    k.advance ((segs.flatMap Segment.blanked).flatMap Segment.text) =
      k.advance (segs.flatMap Segment.text) := by
  induction h generalizing k with
  | nil => rfl
  | cons hs _ ih =>
    rw [List.flatMap_cons, List.flatMap_append, advance_append, advance_blanked k hs.shape, ih,
      List.flatMap_cons, advance_append]

theorem Finding.ofSegments_spaces (k : Cursor) (n : Nat) :
    ofSegments k (List.replicate n (.blank ' ')) = [] := by
  induction n generalizing k with
  | zero => rfl
  | succ n ih => exact ih _

theorem Finding.ofSegments_blanked_self (k : Cursor) (s : Segment) :
    ofSegments k s.blanked = (ofSegment? k s).toList.filter remains := by
  cases s with
  | rejected c => exact ofSegments_spaces k c.utf8Size
  | _ => rfl

theorem Finding.ofSegments_blanked {segs : List Segment} (h : Cut segs) (k : Cursor) :
    ofSegments k (segs.flatMap Segment.blanked) = (ofSegments k segs).filter remains := by
  induction h generalizing k with
  | nil => rfl
  | cons hs _ ih =>
    rw [List.flatMap_cons, ofSegments_append, Cursor.advance_blanked k hs.shape, ih,
      ofSegments_blanked_self, ofSegments, List.filter_append]

/-- Blanking a source is blanking its segments. -/
theorem toList_blanked (source : String) : (blanked source).toList =
    ((segments source.toList).flatMap Segment.blanked).flatMap Segment.text := by
  have htext := blank_flatMap_text (a := []) (List.nil_append (segments source.toList)).symm
  rw [flatMap_text_segments] at htext
  rw [blanked, String.toList_ofList]
  exact htext

theorem findings_blanked (source : String) :
    findings (blanked source) = (findings source).filter Finding.remains := by
  have hcut := Cut.segments source.toList
  have hsegs : segments (blanked source).toList =
      (segments source.toList).flatMap Segment.blanked :=
    segments_eq_iff.2 ⟨hcut.blanked, (toList_blanked source).symm⟩
  rw [findings, hsegs, Finding.ofSegments_blanked hcut]
  rfl

theorem endToken_blanked (source : String) : endToken (blanked source) = endToken source := by
  rw [endToken, toList_blanked, Cursor.advance_flatMap_blanked (Cut.segments _),
    flatMap_text_segments]
  rfl

/-- **A rejected character affects nothing but its own diagnostic.** -/
theorem scan_blanked (source : String) :
    (scan (blanked source)).tokens = (scan source).tokens ∧
      (scan (blanked source)).diagnostics.reported =
        (scan source).diagnostics.reported.filter (·.fault = .unterminatedString) := by
  have htokens : ((findings source).filter Finding.remains).filterMap Finding.token? =
      (findings source).filterMap Finding.token? := by
    rw [List.filterMap_filter]
    congr 1
    funext f
    cases f <;> simp [Finding.remains, Finding.token?]
  have hreported : ((findings source).filter Finding.remains).filterMap Finding.diagnostic? =
      ((findings source).filterMap Finding.diagnostic?).filter
        (·.fault = .unterminatedString) := by
    rw [List.filterMap_filter, List.filter_filterMap]
    congr 1
    funext f
    cases f <;> simp [Finding.remains, Finding.diagnostic?, Option.filter]
  constructor
  · rw [scan, scan, findings_blanked, htokens, endToken_blanked]
  · rw [scan, findings_blanked, hreported]
    rfl

/-- A string keeps what would be rejected outside of it. -/
example : blanked "1é.5@ \"é\"_\"é" = "1  .5  \"é\" \"é" := by decide +kernel

end LoxFrontEnd
