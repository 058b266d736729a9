import LoxFrontEnd.Proofs.Lexical.LineEnd

/-! Tokens written with blanks between them.

A blank ends every token. Written one after the other with blanks between them, the
texts of tokens are therefore read as these tokens, whatever the blanks are and wherever
the tokens were found (`scan_respaced`): comments, rejected characters and the blanks of
the source at hand make no difference to its tokens. -/
namespace LoxFrontEnd

/-- The blanks between two tokens, one at least. -/
structure Spacing where
  text : String
  ne_empty : text ≠ ""
  isBlank : ∀ c ∈ text.toList, Segment.isBlank c = true

namespace Spacing

theorem exists_cons (s : Spacing) :
    ∃ c rest, s.text.toList = c :: rest ∧ Segment.isBlank c = true := by
  have hne : s.text.toList ≠ [] := mt String.toList_eq_nil_iff.1 s.ne_empty
  obtain ⟨c, rest, heq⟩ := List.exists_cons_of_ne_nil hne
  exact ⟨c, rest, heq, s.isBlank c (heq ▸ List.mem_cons_self ..)⟩

end Spacing

/-- Words in their order, with the given spacings between them. -/
def respaced (spacing : Nat → Spacing) : List String → String
  | [] => ""
  | [word] => word
  | word :: next :: rest =>
    word ++ ((spacing 0).text ++ respaced (fun n => spacing (n + 1)) (next :: rest))

/-- The texts of the tokens of a scan, but for its end. -/
def Scanned.lexemes (s : Scanned) : List String :=
  (s.tokens.filter (·.kind ≠ .eof)).map Token.lexeme

/-! ### Cuts into tokens and blanks -/

/-- A cut without faults, whose tokens are the given ones. -/
structure CutInto (tokens : List (Kind × List Char)) (segs : List Segment) : Prop where
  cut : Cut segs
  tokens_eq : segs.filterMap Segment.token? = tokens
  faultless : ∀ s ∈ segs, s.fault? = none

namespace CutInto
variable {tokens : List (Kind × List Char)} {segs : List Segment}

theorem nil : CutInto [] [] := ⟨.nil, rfl, fun _ hs => nomatch hs⟩

theorem token (h : CutInto tokens segs) {kind : Kind} {text : List Char}
    (hitem : Item (some kind) text) (hlongest : Longest text (segs.flatMap Segment.text)) :
    CutInto ((kind, text) :: tokens) (.token kind text :: segs) where
  cut := .cons ⟨hitem, hlongest⟩ h.cut
  tokens_eq := congrArg ((kind, text) :: ·) h.tokens_eq
  faultless := List.forall_mem_cons.2 ⟨rfl, h.faultless⟩

theorem blanks (h : CutInto tokens segs) {cs : List Char}
    (hblank : ∀ c ∈ cs, Segment.isBlank c = true) :
    CutInto tokens (cs.map .blank ++ segs) where
  cut := h.cut.blanks hblank
  tokens_eq := by
    have hnone : (cs.map Segment.blank).filterMap Segment.token? = [] := by
      simp [Segment.token?]
    rw [List.filterMap_append, hnone, List.nil_append, h.tokens_eq]
  faultless := by
    intro s hs
    rcases List.mem_append.1 hs with hs | hs
    · obtain ⟨c, -, rfl⟩ := List.mem_map.1 hs
      rfl
    · exact h.faultless s hs

end CutInto

/-- The text of a row of tokens. -/
def wordsOf (tokens : List (Kind × List Char)) : List String :=
  tokens.map fun t => String.ofList t.2

theorem exists_cutInto {tokens : List (Kind × List Char)}
    (h : ∀ t ∈ tokens, Item (some t.1) t.2) (spacing : Nat → Spacing) :
    ∃ segs, CutInto tokens segs ∧
      segs.flatMap Segment.text = (respaced spacing (wordsOf tokens)).toList := by
  induction tokens generalizing spacing with
  | nil => exact ⟨[], .nil, rfl⟩
  | cons t tokens ih =>
    obtain ⟨hitem, hrest⟩ := List.forall_mem_cons.1 h
    cases tokens with
    | nil =>
      refine ⟨_, CutInto.nil.token hitem (longest_nil t.2), ?_⟩
      simp [Segment.text, wordsOf, respaced]
    | cons next tokens =>
      obtain ⟨segs, hsegs, htext⟩ := ih hrest fun n => spacing (n + 1)
      obtain ⟨c, gap, hgap, hc⟩ := (spacing 0).exists_cons
      have hlongest : Longest t.2 (((spacing 0).text.toList.map Segment.blank ++ segs).flatMap
          Segment.text) := by
        rw [List.flatMap_append, flatMap_text_blanks, hgap]
        exact hitem.longest_of_blank hc _
      refine ⟨_, (hsegs.blanks (spacing 0).isBlank).token hitem hlongest, ?_⟩
      have hwords : respaced spacing (wordsOf (t :: next :: tokens)) =
          String.ofList t.2 ++ ((spacing 0).text ++
            respaced (fun n => spacing (n + 1)) (wordsOf (next :: tokens))) := rfl
      rw [hwords, List.flatMap_cons, List.flatMap_append, flatMap_text_blanks, htext,
        String.toList_append, String.toList_append, String.toList_ofList]
      rfl

theorem lexemes_scan (source : String) :
    (scan source).lexemes = wordsOf (tokensOf source.toList) := by
  have hcontent := congrArg (List.map fun c => c.2.1) (map_content_proper source)
  rw [List.map_map, List.map_map] at hcontent
  exact hcontent

/-- **The texts of the tokens of a source are read as the same tokens**, whatever blanks they are
written with. -/
theorem scan_respaced (source : String) (spacing : Nat → Spacing) :
    (scan (respaced spacing (scan source).lexemes)).diagnostics.reported = [] ∧
      ((scan (respaced spacing (scan source).lexemes)).tokens.filter (·.kind ≠ .eof)).map
          Token.content =
        ((scan source).tokens.filter (·.kind ≠ .eof)).map Token.content := by
  have hitems : ∀ t ∈ tokensOf source.toList, Item (some t.1) t.2 :=
    fun t ht => item_of_mem_tokensOf ht
  obtain ⟨segs, hsegs, htext⟩ := exists_cutInto hitems spacing
  rw [← lexemes_scan] at htext
  have hcut : segments (respaced spacing (scan source).lexemes).toList = segs :=
    segments_eq_iff.2 ⟨hsegs.cut, htext⟩
  constructor
  · rw [reported_eq_nil_iff, hcut]
    exact hsegs.faultless
  · rw [map_content_proper, map_content_proper, tokensOf, hcut, hsegs.tokens_eq]

/-- Neither do two slashes become a comment nor a point part of a numeral. -/
example :
    (scan (respaced (fun _ => ⟨"\t\n", by decide, by simp [Segment.isBlank]⟩)
      (scan "1.a/ /=\"x y\"// z").lexemes)).tokens.map Token.lexeme =
      ["1", ".", "a", "/", "/", "=", "\"x y\"", ""] := by decide +kernel

end LoxFrontEnd
