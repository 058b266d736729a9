import LoxFrontEnd.Proofs.Lexical.Placement

/-! What a scan says, apart from places.

The kinds, texts and values of the tokens of a source are those of its segments
(`map_content_tokens`), and a string is reported as open if the last segment is one
(`endsInString_iff`). -/
namespace LoxFrontEnd

/-- The kind and the text of a segment that is a token. -/
def Segment.token? : Segment → Option (Kind × List Char)
  | .token kind text => some (kind, text)
  | .blank _ | .comment _ | .rejected _ | .unterminated _ => none

/-- The kinds and texts of the tokens of a text. -/
def tokensOf (cs : List Char) : List (Kind × List Char) := (segments cs).filterMap Segment.token?

/-- The tokens of a text are items. -/
theorem item_of_mem_tokensOf {cs : List Char} {t : Kind × List Char} (h : t ∈ tokensOf cs) :
    Item (some t.1) t.2 := by
  obtain ⟨s, hs, ht⟩ := List.mem_filterMap.1 h
  obtain ⟨a, b, hsegs⟩ := List.append_of_mem hs
  cases s with
  | token kind text =>
    cases ht
    exact (fits_of_segments hsegs).shape
  | _ => cases ht

/-- A token without its place. -/
def Token.content (t : Token) : Kind × String × Literal := (t.kind, t.lexeme, t.literal)

/-- What a token of the given kind and text is without its place. -/
def contentOf (token : Kind × List Char) : Kind × String × Literal :=
  (token.1, String.ofList token.2, Literal.ofLexeme token.1 token.2)

theorem map_content_ofSegments (k : Cursor) (segs : List Segment) :
    ((Finding.ofSegments k segs).filterMap Finding.token?).map Token.content =
      (segs.filterMap Segment.token?).map contentOf := by
  induction segs generalizing k with
  | nil => rfl
  | cons s segs ih =>
    rw [Finding.ofSegments, List.filterMap_append, List.map_append, ih]
    cases s <;> rfl

theorem map_content_tokens (source : String) :
    (scan source).tokens.map Token.content =
      (tokensOf source.toList).map contentOf ++ [(.eof, "", .none)] := by
  rw [scan, List.map_append, findings, map_content_ofSegments]
  rfl

/-- All tokens but the one for the end are found at segments. -/
theorem filter_tokens (source : String) :
    (scan source).tokens.filter (·.kind ≠ .eof) =
      (findings source).filterMap Finding.token? := by
  have hfound : ∀ t ∈ (findings source).filterMap Finding.token?, decide (t.kind ≠ .eof) = true :=
    fun t ht => decide_eq_true (kind_ne_eof (mem_found_tokens_iff.1 ht))
  have hend : [endToken source].filter (·.kind ≠ .eof) = [] := rfl
  rw [scan, List.filter_append, List.filter_eq_self.2 hfound, hend, List.append_nil]

/-- The tokens of a source without the one for its end. -/
theorem map_content_proper (source : String) :
    ((scan source).tokens.filter (·.kind ≠ .eof)).map Token.content =
      (tokensOf source.toList).map contentOf := by
  rw [filter_tokens, findings, map_content_ofSegments]
  rfl

/-- The text breaks off inside a string. -/
def EndsInString (cs : List Char) : Prop := ∃ text, .unterminated text ∈ segments cs

theorem endsInString_iff {source : String} :
    EndsInString source.toList ↔
      ∃ d ∈ (scan source).diagnostics.reported, d.fault = .unterminatedString := by
  constructor
  · intro hex
    obtain ⟨text, h⟩ := hex
    obtain ⟨a, b, hsegs⟩ := List.append_of_mem h
    exact ⟨_, mem_diagnostics_iff.2 ⟨a, _, b, _, hsegs, rfl, rfl⟩, rfl⟩
  · intro hex
    obtain ⟨d, hd, hfault⟩ := hex
    obtain ⟨a, s, b, fault, hsegs, hs, rfl⟩ := mem_diagnostics_iff.1 hd
    obtain rfl : fault = .unterminatedString := hfault
    cases s with
    | unterminated text => exact ⟨text, by simp [hsegs]⟩
    | _ => cases hs

end LoxFrontEnd
