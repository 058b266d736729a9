import LoxFrontEnd.Proofs.Lexical.Content

/-! Line ends between items.

No item but a string reaches over a newline. So the tokens before and after a line
end can be found apart from each other unless a string is open there
(`tokensOf_append_lineEnd`), and a carriage return before the newline makes no
difference. -/
namespace LoxFrontEnd

open Segment

namespace Item

theorem blank_notMem_of_isAlphanum {cs : List Char} (h : ∀ c ∈ cs, c.isAlphanum = true) {x : Char}
    (hx : isBlank x = true) : x ∉ cs := fun hmem => by
  simp [isBlank_of_isAlphanum (h x hmem)] at hx

/-- Only strings and comments hold blanks. -/
theorem eq_of_blank_mem {k : Option Kind} {text : List Char} (h : Item k text) {x : Char}
    (hx : isBlank x = true) (hmem : x ∈ text) :
    (∃ body, '"' ∉ body ∧ text = '"' :: (body ++ ['"'])) ∨
      ∃ cs, '\n' ∉ cs ∧ text = '/' :: '/' :: cs := by
  cases h with
  | string hbody => exact .inl ⟨_, hbody, rfl⟩
  | comment hcs => exact .inr ⟨_, hcs, rfl⟩
  | bracket b =>
    have hsymbol : isBlank b.symbol = false := by cases b <;> rfl
    simp [List.mem_singleton.1 hmem, hsymbol] at hx
  | separator s =>
    have hsymbol : isBlank s.symbol = false := by cases s <;> rfl
    simp [List.mem_singleton.1 hmem, hsymbol] at hx
  | operator o =>
    have hsymbol : o.symbol.all (!isBlank ·) = true := by cases o <;> decide
    have hno := List.all_eq_true.1 hsymbol x hmem
    simp [hx] at hno
  | integer hds => exact absurd hmem (blank_notMem_of_isAlphanum hds.isAlphanum hx)
  | decimal hds hes =>
    have hpoint : x ≠ '.' := ne_of_apply_ne isBlank (by rw [hx]; decide)
    have hds := blank_notMem_of_isAlphanum hds.isAlphanum hx
    have hes := blank_notMem_of_isAlphanum hes.isAlphanum hx
    simp [hds, hes, hpoint] at hmem
  | keyword k => exact absurd hmem (blank_notMem_of_isAlphanum k.word_text.isAlphanum hx)
  | identifier hword _ => exact absurd hmem (blank_notMem_of_isAlphanum hword.isAlphanum hx)

/-- No item goes on to be a string: its closing quote would lie inside the string. -/
theorem eq_nil_of_append_quoted {k : Option Kind} {text more body : List Char} (h : Item k text)
    (hbody : '"' ∉ body) (heq : text ++ more = '"' :: (body ++ ['"'])) : more = [] := by
  by_contra hne
  obtain ⟨init, last, rfl⟩ : ∃ init last, more = init ++ [last] :=
    ⟨_, _, (List.dropLast_concat_getLast hne).symm⟩
  obtain ⟨c, t, rfl⟩ := List.exists_cons_of_ne_nil h.ne_nil
  obtain ⟨rfl, htail⟩ := List.cons.inj heq
  have happ : (t ++ init) ++ [last] = body ++ ['"'] := by
    rw [List.append_assoc]
    exact htail
  have hinit : t ++ init = body := (List.append_inj' happ rfl).1
  exact hbody (hinit ▸ List.mem_append_left init (quote_mem_of_item h))

/-- What a comment has in front of a character that is no slash is a comment. -/
theorem comment_of_append {cs more line : List Char} {x : Char} (hx : x ≠ '/')
    (hline : '\n' ∉ line) (heq : cs ++ x :: more = '/' :: '/' :: line) : Item none cs := by
  match cs, heq with
  | [], heq => exact absurd (List.cons.inj heq).1 hx
  | [c], heq => exact absurd (List.cons.inj (List.cons.inj heq).2).1 hx
  | c :: d :: cs, heq =>
    obtain ⟨rfl, hsecond⟩ := List.cons.inj heq
    obtain ⟨rfl, rfl⟩ := List.cons.inj hsecond
    exact .comment fun hcs => hline (List.mem_append_left _ hcs)

/-- A longer item than a given one reaches over no newline that the given one leaves out. -/
theorem newline_notMem_of_append {j k : Option Kind} {text more : List Char} (hj : Item j text)
    (hk : Item k (text ++ more)) : '\n' ∉ more := by
  intro hmem
  have hstring := hk.eq_of_blank_mem (by decide) (List.mem_append_right text hmem)
  rcases hstring with ⟨body, hbody, heq⟩ | ⟨cs, hcs, heq⟩
  · rw [hj.eq_nil_of_append_quoted hbody heq] at hmem
    cases hmem
  · have hline : '\n' ∈ '/' :: '/' :: cs := heq ▸ List.mem_append_right text hmem
    simp [hcs] at hline

/-- An item that ends with a blank is a comment, also without this blank. -/
theorem of_append_blank {k : Option Kind} {cs : List Char} {x : Char} (h : Item k (cs ++ [x]))
    (hx : isBlank x = true) : Item none cs := by
  have hquote : x ≠ '"' := ne_of_apply_ne isBlank (by rw [hx]; decide)
  have hslash : x ≠ '/' := ne_of_apply_ne isBlank (by rw [hx]; decide)
  have hmem : x ∈ cs ++ [x] := by simp
  rcases h.eq_of_blank_mem hx hmem with ⟨body, _, heq⟩ | ⟨line, hline, heq⟩
  · have h := congrArg List.getLast? heq
    rw [← List.cons_append, List.getLast?_concat, List.getLast?_concat] at h
    exact absurd (Option.some.inj h) hquote
  · exact comment_of_append hslash hline heq

/-- A blank ends every token. -/
theorem longest_of_blank {kind : Kind} {text : List Char} (h : Item (some kind) text) {x : Char}
    (hx : isBlank x = true) (rest : List Char) : Longest text (x :: rest) := by
  intro more hne hmore k hk
  obtain ⟨y, more, rfl⟩ := List.exists_cons_of_ne_nil hne
  obtain rfl : y = x := (List.cons_prefix_cons.1 hmore).1
  have hmem : y ∈ text ++ y :: more := by simp
  rcases hk.eq_of_blank_mem hx hmem with ⟨body, hbody, heq⟩ | ⟨line, hline, heq⟩
  · exact hne (h.eq_nil_of_append_quoted hbody heq)
  · have hslash : y ≠ '/' := ne_of_apply_ne isBlank (by rw [hx]; decide)
    cases h.kind_unique (comment_of_append hslash hline heq)

end Item

/-! ### Segments in front of a longer text -/

theorem prefix_of_newline_notMem {more rest b : List Char} (hmore : '\n' ∉ more)
    (h : more <+: rest ++ '\n' :: b) : more <+: rest := by
  have hline : rest ++ ['\n'] <+: rest ++ '\n' :: b :=
    (List.prefix_append_right_inj rest).2 (List.prefix_append ['\n'] b)
  rcases List.prefix_or_prefix_of_prefix h hline with h | h
  · rcases List.prefix_concat_iff.1 h with rfl | h
    · simp at hmore
    · exact h
  · exact absurd (h.subset (by simp)) hmore

theorem Longest.append_newline {k : Option Kind} {text rest : List Char} (h : Longest text rest)
    (hitem : Item k text) (b : List Char) : Longest text (rest ++ '\n' :: b) := by
  intro more hne hmore j hj
  have hline : '\n' ∉ more := hitem.newline_notMem_of_append hj
  exact h more hne (prefix_of_newline_notMem hline hmore) j hj

theorem Longest.append_blank {kind : Kind} {text rest : List Char} (h : Longest text rest)
    (hitem : Item (some kind) text) {x : Char} (hx : isBlank x = true) :
    Longest text (rest ++ [x]) := by
  intro more hne hmore j hj
  rcases List.prefix_concat_iff.1 hmore with rfl | hmore
  · rw [← List.append_assoc] at hj
    have hcomment : Item none (text ++ rest) := hj.of_append_blank hx
    by_cases hrest : rest = []
    · rw [hrest, List.append_nil] at hcomment
      cases hitem.kind_unique hcomment
    · exact h rest hrest (List.prefix_refl rest) none hcomment
  · exact h more hne hmore j hj

namespace Segment

/-- A segment that is no open string stays what it is when the text goes on after a newline. -/
theorem Fits.append_newline {s : Segment} {rest : List Char} (h : s.Fits rest)
    (hs : ∀ text, s ≠ .unterminated text) (b : List Char) : s.Fits (rest ++ '\n' :: b) := by
  obtain ⟨hshape, hstops⟩ := h
  refine ⟨hshape, ?_⟩
  cases s with
  | token kind text => exact hstops.append_newline hshape b
  | comment text => exact hstops.append_newline hshape b
  | blank c => trivial
  | rejected c => trivial
  | unterminated text => exact absurd rfl (hs text)

end Segment

theorem segments_newline (b : List Char) : segments ('\n' :: b) = .blank '\n' :: segments b := by
  rw [segments_cons]
  rfl

theorem Cut.unterminated_last {a b : List Segment} {text : List Char}
    (h : Cut (a ++ .unterminated text :: b)) : b = [] := by
  cases h.of_append with
  | cons hs hrest => exact hrest.eq_nil_of_text hs.stops

/-- The segments in front of a line end are those of a longer text as well. Only an open string
behind them may become something else. -/
theorem segments_of_newline {cs : List Char} {a b : List Segment} (h : segments cs = a ++ b)
    (ha : ∀ text, .unterminated text ∉ a) (more : List Char) :
    segments (cs ++ '\n' :: more) = a ++ segments (b.flatMap Segment.text ++ '\n' :: more) := by
  refine segments_append_of_fits h fun s hs rest hfits => ?_
  have hclosed : ∀ text, s ≠ .unterminated text := fun text heq => ha text (heq ▸ hs)
  rw [← List.append_assoc]
  exact hfits.append_newline hclosed more

/-- A newline outside of a string is a segment between two texts. -/
theorem segments_append_newline {a : List Char} (h : ¬ EndsInString a) (b : List Char) :
    segments (a ++ '\n' :: b) = segments a ++ .blank '\n' :: segments b := by
  have ha : ∀ text, .unterminated text ∉ segments a := fun text htext => h ⟨text, htext⟩
  rw [segments_of_newline (List.append_nil _).symm ha, ← segments_newline]
  rfl

theorem tokensOf_append_newline {a : List Char} (h : ¬ EndsInString a) (b : List Char) :
    tokensOf (a ++ '\n' :: b) = tokensOf a ++ tokensOf b := by
  rw [tokensOf, segments_append_newline h, List.filterMap_append]
  rfl

theorem endsInString_append_newline {a : List Char} (h : ¬ EndsInString a) (b : List Char) :
    EndsInString (a ++ '\n' :: b) ↔ EndsInString b := by
  have ha : ∀ text, .unterminated text ∉ segments a := fun text htext => h ⟨text, htext⟩
  simp [EndsInString, segments_append_newline h, ha]

theorem endsInString_iff_concat {cs : List Char} :
    EndsInString cs ↔ ∃ a text, segments cs = a ++ [.unterminated text] ∧
      ∀ other, .unterminated other ∉ a := by
  constructor
  · intro hex
    obtain ⟨text, hmem⟩ := hex
    obtain ⟨a, b, hsegs⟩ := List.append_of_mem hmem
    have hcut : Cut (a ++ .unterminated text :: b) := hsegs ▸ Cut.segments cs
    obtain rfl := hcut.unterminated_last
    refine ⟨a, text, hsegs, fun other hother => ?_⟩
    obtain ⟨c, d, rfl⟩ := List.append_of_mem hother
    rw [List.append_assoc, List.cons_append] at hcut
    exact absurd hcut.unterminated_last (by simp)
  · intro hex
    obtain ⟨a, text, hsegs, -⟩ := hex
    exact ⟨text, by simp [hsegs]⟩

/-- No token is lost when a text goes on after a newline. -/
theorem tokensOf_prefix (a b : List Char) : tokensOf a <+: tokensOf (a ++ '\n' :: b) := by
  by_cases h : EndsInString a
  · obtain ⟨before, text, hsegs, hbefore⟩ := endsInString_iff_concat.1 h
    rw [tokensOf, tokensOf, segments_of_newline hsegs hbefore, hsegs, List.filterMap_append,
      List.filterMap_append]
    exact (List.prefix_append_right_inj _).2 List.nil_prefix
  · rw [tokensOf_append_newline h]
    exact List.prefix_append _ _

/-! ### Carriage returns -/

/-- Two rows of segments with the same tokens, of which both or none end in an open string. -/
structure Agree (a b : List Segment) : Prop where
  tokens : a.filterMap Segment.token? = b.filterMap Segment.token?
  openString : (∃ text, .unterminated text ∈ a) ↔ ∃ text, .unterminated text ∈ b

theorem Agree.cons {a b : List Segment} (h : Agree a b) (s : Segment) :
    Agree (s :: a) (s :: b) where
  tokens := by rw [List.filterMap_cons, h.tokens, List.filterMap_cons]
  openString := by simp [exists_or, h.openString]

theorem longest_nil (text : List Char) : Longest text [] :=
  fun _ hne hmore => absurd (List.prefix_nil.1 hmore) hne

/-- A carriage return behind a text adds a blank to it, or becomes part of the comment or the
open string at its end. -/
theorem Cut.append_return {segs : List Segment} (h : Cut segs) :
    ∃ longer, Cut longer ∧ longer.flatMap Segment.text = segs.flatMap Segment.text ++ ['\r'] ∧
      Agree longer segs := by
  induction h with
  | nil => exact ⟨[.blank '\r'], .cons ⟨rfl, trivial⟩ .nil, rfl, rfl, by simp⟩
  | @cons s segs hs hcut ih =>
    obtain ⟨longer, hlonger, htext, hagree⟩ := ih
    have hcons (hfits : s.Fits (segs.flatMap Segment.text ++ ['\r'])) :
        ∃ longer, Cut longer ∧
          longer.flatMap Segment.text = (s :: segs).flatMap Segment.text ++ ['\r'] ∧
          Agree longer (s :: segs) := by
      refine ⟨s :: longer, .cons (htext ▸ hfits) hlonger, ?_, hagree.cons s⟩
      rw [List.flatMap_cons, htext, List.flatMap_cons, List.append_assoc]
    obtain ⟨hshape, hstops⟩ := hs
    cases s with
    | blank c => exact hcons ⟨hshape, trivial⟩
    | rejected c => exact hcons ⟨hshape, trivial⟩
    | token kind text => exact hcons ⟨hshape, hstops.append_blank hshape (by decide)⟩
    | comment text =>
      have hitem : Item none text := hshape
      cases hitem with
      | @comment cs hcs =>
        cases hrest : segs.flatMap Segment.text with
        | nil =>
          obtain rfl := hcut.eq_nil_of_text hrest
          have hline : '\n' ∉ cs ++ ['\r'] := by simp [hcs]
          exact ⟨[.comment ('/' :: '/' :: (cs ++ ['\r']))],
            .cons ⟨.comment hline, longest_nil _⟩ .nil, by simp [Segment.text], rfl, by simp⟩
        | cons c rest =>
          -- The comment is over already.
          have hstops : Longest ('/' :: '/' :: cs) (segs.flatMap Segment.text) := hstops
          rw [hrest] at hstops hcons
          obtain rfl := hstops.lineEnd hcs c (List.prefix_append [c] rest)
          exact hcons ⟨hshape, (longest_nil _).append_newline hshape (rest ++ ['\r'])⟩
    | unterminated text =>
      obtain ⟨body, hbody, rfl⟩ := hshape
      obtain rfl := hcut.eq_nil_of_text hstops
      have hquote : '"' ∉ body ++ ['\r'] := by simp [hbody]
      exact ⟨[.unterminated ('"' :: (body ++ ['\r']))], .cons ⟨⟨_, hquote, rfl⟩, rfl⟩ .nil,
        by simp [Segment.text], rfl, by simp⟩

theorem agree_segments_append_return (cs : List Char) :
    Agree (segments (cs ++ ['\r'])) (segments cs) := by
  obtain ⟨longer, hlonger, htext, hagree⟩ := (Cut.segments cs).append_return
  rw [flatMap_text_segments] at htext
  rwa [segments_eq_iff.2 ⟨hlonger, htext⟩]

/-! ### Line ends -/

/-- A newline, perhaps with a carriage return before it. -/
def IsLineEnd (cs : List Char) : Prop := cs = ['\n'] ∨ cs = ['\r', '\n']

/-- A text with a carriage return behind it, if the line end has one, and a newline. -/
theorem IsLineEnd.exists_newline {lineEnd : List Char} (h : IsLineEnd lineEnd) (a : List Char) :
    ∃ line, (∀ b, a ++ (lineEnd ++ b) = line ++ '\n' :: b) ∧
      Agree (segments line) (segments a) := by
  rcases h with rfl | rfl
  · exact ⟨a, fun b => rfl, rfl, Iff.rfl⟩
  · exact ⟨a ++ ['\r'], fun b => by simp, agree_segments_append_return a⟩

section
variable {lineEnd : List Char} (hend : IsLineEnd lineEnd)
include hend

/-- The tokens on both sides of a line end are found apart from each other unless a string is
open there. -/
theorem tokensOf_append_lineEnd {a : List Char} (h : ¬ EndsInString a) (b : List Char) :
    tokensOf (a ++ (lineEnd ++ b)) = tokensOf a ++ tokensOf b := by
  obtain ⟨line, hline, hagree⟩ := hend.exists_newline a
  have hclosed : ¬ EndsInString line := (not_congr hagree.openString).2 h
  have htokens : tokensOf line = tokensOf a := hagree.tokens
  rw [hline, tokensOf_append_newline hclosed, htokens]

theorem endsInString_append_lineEnd {a : List Char} (h : ¬ EndsInString a) (b : List Char) :
    EndsInString (a ++ (lineEnd ++ b)) ↔ EndsInString b := by
  obtain ⟨line, hline, hagree⟩ := hend.exists_newline a
  have hclosed : ¬ EndsInString line := (not_congr hagree.openString).2 h
  rw [hline, endsInString_append_newline hclosed]

/-- No token before a line end is lost in a longer text. -/
theorem tokensOf_prefix_lineEnd (a b : List Char) :
    tokensOf a <+: tokensOf (a ++ (lineEnd ++ b)) := by
  obtain ⟨line, hline, hagree⟩ := hend.exists_newline a
  have htokens : tokensOf line = tokensOf a := hagree.tokens
  rw [hline, ← htokens]
  exact tokensOf_prefix line b

end

end LoxFrontEnd
