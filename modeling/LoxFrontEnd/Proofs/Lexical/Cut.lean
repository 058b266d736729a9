import LoxFrontEnd.Proofs.Lexical.Item

/-! The cut of a source.

A segment fits in front of a text if a source made of the two starts with it: a
token or a comment is an item, and no longer one stands there. A row of segments of
which each fits in front of those behind it is a cut of the text that they are, and
every text has one cut (`segments_eq_iff`). Whatever is to be shown about the
segments of a text can thus be shown by giving the cut. -/
namespace LoxFrontEnd

/-- No item in front of `rest` is longer than `text`. -/
def Longest (text rest : List Char) : Prop :=
  ∀ more, more ≠ [] → more <+: rest → ∀ k, ¬ Item k (text ++ more)

/-- A comment is only over where its line is over. -/
theorem Longest.lineEnd {cs rest : List Char} (h : Longest ('/' :: '/' :: cs) rest)
    (hcs : '\n' ∉ cs) : ∀ c, [c] <+: rest → c = '\n' := by
  intro c hc
  by_contra hne
  refine h [c] (List.cons_ne_nil _ _) hc none (.comment ?_)
  simp [hcs, Ne.symm hne]

namespace Segment

/-- What the text of a segment looks like. -/
def Shape : Segment → Prop
  | .token kind text => Item (some kind) text
  | .comment text => Item none text
  | .blank c => isBlank c = true
  | .rejected c => isBlank c = false ∧ ∀ k more, ¬ Item k (c :: more)
  | .unterminated text => ∃ body, '"' ∉ body ∧ text = '"' :: body

/-- The segment does not reach into the text behind it. -/
def Stops (rest : List Char) : Segment → Prop
  | .token _ text | .comment text => Longest text rest
  | .unterminated _ => rest = []
  | .blank _ | .rejected _ => True

/-- The segment is the first one of the source if `rest` follows it. -/
structure Fits (s : Segment) (rest : List Char) : Prop where
  shape : s.Shape
  stops : s.Stops rest

/-! ### What the first segment is -/

theorem item_numeral {c : Char} {rest : List Char} (h : c.isDigit = true) :
    Item (some .number) (numeral (c :: rest)) := by
  have hwhole : Digits ((c :: rest).takeWhile Char.isDigit) :=
    ⟨by simp [h], fun x hx => List.mem_takeWhile_imp hx⟩
  simp only [numeral]
  split
  · next d more _ =>
    split
    · next hd =>
      exact .decimal hwhole ⟨by simp [hd], fun x hx => List.mem_takeWhile_imp hx⟩
    · exact .integer hwhole
  · exact .integer hwhole

theorem item_word {cs : List Char} (h : Word cs) : Item (some (kindOfWord cs)) cs := by
  by_cases hk : ∃ k : Keyword, cs = k.text.toList
  · obtain ⟨k, rfl⟩ := hk
    rw [kindOfWord_keyword]
    exact .keyword k
  · have hne : ∀ k : Keyword, cs ≠ k.text.toList := fun k hk' => hk ⟨k, hk'⟩
    rw [kindOfWord_identifier hne]
    exact .identifier h hne

theorem word_of_alpha {c : Char} {rest : List Char} (h : c.isAlpha = true) :
    Word (word (c :: rest)) := by
  rw [word, List.takeWhile_cons_of_pos (isAlphanum_of_isAlpha h)]
  exact ⟨h, fun x hx => List.mem_takeWhile_imp hx⟩

theorem item_symbol {c : Char} {kind : Kind} (h : kindOfSymbol? c = some kind) :
    Item (some kind) [c] := by
  unfold kindOfSymbol? at h
  split at h <;> cases h
  · exact .bracket .leftParen
  · exact .bracket .rightParen
  · exact .bracket .leftBrace
  · exact .bracket .rightBrace
  · exact .separator .comma
  · exact .separator .dot
  · exact .separator .semicolon
  · exact .operator .minus
  · exact .operator .plus
  · exact .operator .star

theorem item_comparison {c : Char} {single double : Operator}
    (h : comparison? c = some (single, double)) :
    Item (some (.operator single)) [c] ∧ Item (some (.operator double)) [c, '='] := by
  unfold comparison? at h
  split at h <;> cases h
  · exact ⟨.operator .bang, .operator .bangEqual⟩
  · exact ⟨.operator .equal, .operator .equalEqual⟩
  · exact ⟨.operator .greater, .operator .greaterEqual⟩
  · exact ⟨.operator .less, .operator .lessEqual⟩

theorem first_shape (c : Char) (rest : List Char) : (first c rest).Shape := by
  have hitem {k : Option Kind} {more : List Char} (h : Item k (c :: more)) := h.first_eq
  unfold first at hitem ⊢
  split
  · assumption
  rename_i hb
  split
  · next hq =>
    subst hq
    unfold quoted
    split
    · refine .string fun h => ?_
      simpa using List.mem_takeWhile_imp h
    · next hrest => exact ⟨rest, hrest, rfl⟩
  rename_i hq
  split
  · next hs =>
    subst hs
    unfold slash
    split
    · next more =>
      rw [List.takeWhile_cons_of_pos (by decide)]
      refine .comment fun h => ?_
      simpa using List.mem_takeWhile_imp h
    · exact .operator .slash
  rename_i hs
  split
  · next hd => exact item_numeral hd
  rename_i hd
  split
  · next ha => exact item_word (word_of_alpha ha)
  rename_i ha
  split
  · next hk => exact item_symbol hk
  rename_i hsym
  split
  · next hk =>
    unfold comparison
    split
    · exact (item_comparison hk).2
    · exact (item_comparison hk).1
  · -- An item that starts with this character would be the first segment of its own text.
    next hcmp =>
    refine ⟨by simpa using hb, fun k more h => ?_⟩
    have heq := hitem h
    simp only [hb, hq, hs, hd, ha, hsym, hcmp, if_false, Bool.false_eq_true] at heq
    cases k <;> simp [ofItem] at heq

theorem longest_first (c : Char) (rest : List Char) :
    Longest (first c rest).text (after c rest) := by
  intro more hne hmore k h
  have hle : ((first c rest).text ++ more).length ≤ (first c rest).text.length := by
    refine h.length_le_first ?_
    conv => rhs; rw [← first_text_append_after c rest]
    exact (List.prefix_append_right_inj _).2 hmore
  rw [List.length_append] at hle
  exact hne (List.length_eq_zero_iff.1 (by omega))

theorem text_of_first_eq_unterminated {c : Char} {rest text : List Char}
    (h : first c rest = .unterminated text) : text = c :: rest := by
  unfold first quoted slash comparison at h
  repeat' split at h
  all_goals cases h
  rfl

theorem first_fits (c : Char) (rest : List Char) : (first c rest).Fits (after c rest) := by
  refine ⟨first_shape c rest, ?_⟩
  have hlongest := longest_first c rest
  have happ := first_text_append_after c rest
  cases h : first c rest with
  | token kind text => rwa [h] at hlongest
  | comment text => rwa [h] at hlongest
  | blank c' => trivial
  | rejected c' => trivial
  | unterminated text =>
    rw [h, Segment.text, text_of_first_eq_unterminated h] at happ
    exact List.append_right_eq_self.1 happ

/-! ### Only the first segment fits -/

theorem text_first (c : Char) (rest : List Char) : ∃ more, (first c rest).text = c :: more := by
  obtain ⟨x, more, htext⟩ := List.exists_cons_of_ne_nil (first_text_ne_nil c rest)
  have hprefix := first_text_prefix c rest
  rw [htext] at hprefix
  obtain rfl : x = c := (List.cons_prefix_cons.1 hprefix).1
  exact ⟨more, htext⟩

theorem isBlank_of_item {k : Option Kind} {c : Char} {rest : List Char} (h : Item k (c :: rest)) :
    isBlank c = false := by
  rw [Bool.eq_false_iff]
  intro hb
  have heq := h.first_eq
  rw [first, if_pos hb] at heq
  cases k <;> cases heq

theorem quote_mem_of_item {k : Option Kind} {rest : List Char} (h : Item k ('"' :: rest)) :
    '"' ∈ rest := by
  by_contra hrest
  have heq : quoted '"' rest = _ := h.first_eq
  rw [quoted, if_neg hrest] at heq
  cases k <;> cases heq

theorem quote_notMem_of_unterminated {c : Char} {rest text : List Char}
    (h : first c rest = .unterminated text) : c = '"' ∧ '"' ∉ rest := by
  have hshape := first_shape c rest
  rw [h] at hshape
  obtain ⟨body, hbody, rfl⟩ := hshape
  obtain ⟨rfl, rfl⟩ := List.cons.inj (text_of_first_eq_unterminated h)
  exact ⟨rfl, hbody⟩

/-- A source that starts with an item has an item as its first segment. -/
theorem exists_item_first {k : Option Kind} {c : Char} {t : List Char} (h : Item k (c :: t))
    (rest : List Char) : ∃ j text, Item j text ∧ first c (t ++ rest) = ofItem j text := by
  have hshape := first_shape c (t ++ rest)
  obtain ⟨more, htext⟩ := text_first c (t ++ rest)
  cases hs : first c (t ++ rest) with
  | token kind text => exact ⟨some kind, text, by rwa [hs] at hshape, rfl⟩
  | comment text => exact ⟨none, text, by rwa [hs] at hshape, rfl⟩
  | blank x =>
    rw [hs] at hshape htext
    cases htext
    exact absurd hshape (by simp [Shape, isBlank_of_item h])
  | rejected x =>
    rw [hs] at hshape htext
    cases htext
    exact absurd h (hshape.2 k t)
  | unterminated text =>
    obtain ⟨rfl, hquote⟩ := quote_notMem_of_unterminated hs
    exact absurd (List.mem_append_left rest (quote_mem_of_item h)) hquote

theorem first_of_longest {k : Option Kind} {c : Char} {t rest : List Char} (h : Item k (c :: t))
    (hlongest : Longest (c :: t) rest) : first c (t ++ rest) = ofItem k (c :: t) := by
  obtain ⟨j, text, hj, heq⟩ := exists_item_first h rest
  have htext : (first c (t ++ rest)).text = text := by rw [heq, text_ofItem]
  have hle : (c :: t).length ≤ text.length := by
    rw [← htext]
    exact h.length_le_first (List.prefix_append _ _)
  have hprefix : text <+: (c :: t) ++ rest := htext ▸ first_text_prefix c (t ++ rest)
  obtain ⟨more, rfl⟩ := List.prefix_of_prefix_length_le (List.prefix_append _ _) hprefix hle
  have hmore : more = [] := by
    by_contra hne
    exact hlongest more hne ((List.prefix_append_right_inj _).1 hprefix) j hj
  subst hmore
  rw [List.append_nil] at hj heq
  rw [heq, hj.kind_unique h]

/-- A character that is no blank and starts no item is a segment of its own. -/
theorem first_rejected {c : Char} (hb : isBlank c = false) (hno : ∀ k more, ¬ Item k (c :: more))
    (rest : List Char) : first c rest = .rejected c := by
  have hshape := first_shape c rest
  obtain ⟨more, htext⟩ := text_first c rest
  cases hs : first c rest with
  | token kind text =>
    rw [hs] at hshape htext
    cases htext
    exact absurd hshape (hno _ more)
  | comment text =>
    rw [hs] at hshape htext
    cases htext
    exact absurd hshape (hno _ more)
  | blank x =>
    rw [hs] at hshape htext
    cases htext
    exact absurd hshape (by simp [Shape, hb])
  | rejected x =>
    rw [hs] at htext
    cases htext
    rfl
  | unterminated text =>
    obtain ⟨rfl, -⟩ := quote_notMem_of_unterminated hs
    exact absurd (Item.string List.not_mem_nil) (hno _ _)

theorem Fits.first_eq {s : Segment} {c : Char} {t rest : List Char} (h : s.Fits rest)
    (htext : s.text = c :: t) : first c (t ++ rest) = s := by
  obtain ⟨hshape, hstops⟩ := h
  cases s with
  | token kind text =>
    subst htext
    exact first_of_longest hshape hstops
  | comment text =>
    subst htext
    exact first_of_longest hshape hstops
  | blank x =>
    cases htext
    exact if_pos hshape
  | rejected x =>
    cases htext
    exact first_rejected hshape.1 hshape.2 _
  | unterminated text =>
    obtain ⟨body, hbody, rfl⟩ := hshape
    cases htext
    rw [hstops, List.append_nil]
    exact if_neg hbody

theorem Fits.text_ne_nil {s : Segment} {rest : List Char} (h : s.Fits rest) : s.text ≠ [] := by
  cases s with
  | token kind text => exact Item.ne_nil h.shape
  | comment text => exact Item.ne_nil h.shape
  | unterminated text =>
    obtain ⟨body, _, rfl⟩ := h.shape
    exact List.cons_ne_nil _ _
  | blank c => exact List.cons_ne_nil _ _
  | rejected c => exact List.cons_ne_nil _ _

end Segment

theorem flatMap_text_blanks (cs : List Char) :
    (cs.map Segment.blank).flatMap Segment.text = cs := by
  induction cs with
  | nil => rfl
  | cons c cs ih => rw [List.map_cons, List.flatMap_cons, ih]; rfl

/-! ### Cuts -/

/-- Every segment fits in front of those behind it. -/
inductive Cut : List Segment → Prop where
  | nil : Cut []
  | cons {s : Segment} {rest : List Segment} : s.Fits (rest.flatMap Segment.text) → Cut rest →
      Cut (s :: rest)

namespace Cut

theorem segments (cs : List Char) : Cut (segments cs) := by
  fun_induction LoxFrontEnd.segments cs with
  | case1 => exact .nil
  | case2 c rest ih =>
    refine .cons ?_ ih
    rw [flatMap_text_segments]
    exact Segment.first_fits c rest

/-- A cut is the cut of its text. -/
theorem segments_text {segs : List Segment} (h : Cut segs) :
    LoxFrontEnd.segments (segs.flatMap Segment.text) = segs := by
  induction h with
  | nil => exact segments_nil
  | @cons s rest hs _ ih =>
    obtain ⟨c, t, htext⟩ := List.exists_cons_of_ne_nil hs.text_ne_nil
    have hfirst := hs.first_eq htext
    have hafter : Segment.after c (t ++ rest.flatMap Segment.text) = rest.flatMap Segment.text := by
      have happ := Segment.first_text_append_after c (t ++ rest.flatMap Segment.text)
      rw [hfirst, htext] at happ
      exact List.append_cancel_left happ
    rw [List.flatMap_cons, htext, List.cons_append, segments_cons, hfirst, hafter, ih]

theorem blanks {segs : List Segment} (h : Cut segs) {cs : List Char}
    (hblank : ∀ c ∈ cs, Segment.isBlank c = true) : Cut (cs.map .blank ++ segs) := by
  induction cs with
  | nil => exact h
  | cons c cs ih =>
    obtain ⟨hc, hcs⟩ := List.forall_mem_cons.1 hblank
    exact .cons ⟨hc, trivial⟩ (ih hcs)

theorem of_append {a b : List Segment} (h : Cut (a ++ b)) : Cut b := by
  induction a with
  | nil => exact h
  | cons s a ih =>
    cases h with
    | cons _ hrest => exact ih hrest

/-- The end of a cut can be exchanged for one in front of which the segments before it fit too. -/
theorem exchange_end {a b c : List Segment} (h : Cut (a ++ b)) (hc : Cut c)
    (hfits : ∀ s ∈ a, ∀ rest, s.Fits (rest ++ b.flatMap Segment.text) →
      s.Fits (rest ++ c.flatMap Segment.text)) : Cut (a ++ c) := by
  induction a with
  | nil => exact hc
  | cons s a ih =>
    obtain ⟨hs, ha⟩ := List.forall_mem_cons.1 hfits
    cases h with
    | cons hhead hrest =>
      have hhead : s.Fits ((a ++ b).flatMap Segment.text) := hhead
      rw [List.flatMap_append] at hhead
      have hlonger : s.Fits ((a ++ c).flatMap Segment.text) := by
        rw [List.flatMap_append]
        exact hs _ hhead
      exact .cons hlonger (ih hrest ha)

theorem text_ne_nil {segs : List Segment} (h : Cut segs) : ∀ s ∈ segs, s.text ≠ [] := by
  induction h with
  | nil => intro s hs; cases hs
  | cons hs _ ih =>
    intro t ht
    rcases List.mem_cons.1 ht with rfl | ht
    · exact hs.text_ne_nil
    · exact ih t ht

theorem eq_nil_of_text {segs : List Segment} (h : Cut segs)
    (htext : segs.flatMap Segment.text = []) : segs = [] := by
  cases segs with
  | nil => rfl
  | cons s segs =>
    rw [List.flatMap_cons] at htext
    exact absurd (List.append_eq_nil_iff.1 htext).1 (h.text_ne_nil s (List.mem_cons_self ..))

end Cut

/-- Every text has one cut, its segments. -/
theorem segments_eq_iff {cs : List Char} {segs : List Segment} :
    segments cs = segs ↔ Cut segs ∧ segs.flatMap Segment.text = cs := by
  constructor
  · intro heq
    subst heq
    exact ⟨Cut.segments cs, flatMap_text_segments cs⟩
  · intro hex
    obtain ⟨h, rfl⟩ := hex
    exact h.segments_text

/-- The segments of a text with one more in front of it. -/
theorem Segment.Fits.segments_append {s : Segment} {rest : List Char} (h : s.Fits rest) :
    segments (s.text ++ rest) = s :: segments rest := by
  have htext := flatMap_text_segments rest
  refine segments_eq_iff.2 ⟨.cons (by rwa [htext]) (Cut.segments rest), ?_⟩
  rw [List.flatMap_cons, htext]

/-! ### A segment in its text -/

section
variable {cs : List Char} {a b : List Segment}

theorem eq_of_segments (h : segments cs = a ++ b) :
    cs = a.flatMap Segment.text ++ b.flatMap Segment.text := by
  rw [← List.flatMap_append, ← h, flatMap_text_segments]

theorem fits_of_segments {s : Segment} (h : segments cs = a ++ s :: b) :
    s.Fits (b.flatMap Segment.text) := by
  have hcut : Cut (s :: b) := (h ▸ Cut.segments cs).of_append
  cases hcut with
  | cons hs _ => exact hs

/-- The segments that fit in front of a longer text too are segments of it. -/
theorem segments_append_of_fits {more : List Char} (h : segments cs = a ++ b)
    (hfits : ∀ s ∈ a, ∀ rest, s.Fits (rest ++ b.flatMap Segment.text) →
      s.Fits (rest ++ (b.flatMap Segment.text ++ more))) :
    segments (cs ++ more) = a ++ segments (b.flatMap Segment.text ++ more) := by
  have htext := flatMap_text_segments (b.flatMap Segment.text ++ more)
  have hcut : Cut (a ++ b) := h ▸ Cut.segments cs
  refine segments_eq_iff.2 ⟨hcut.exchange_end (Cut.segments _) (by rwa [htext]), ?_⟩
  rw [List.flatMap_append, htext, ← List.append_assoc, ← eq_of_segments h]

end

end LoxFrontEnd
