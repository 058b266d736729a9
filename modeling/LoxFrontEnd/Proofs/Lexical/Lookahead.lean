import LoxFrontEnd.Proofs.Lexical.LineEnd

/-! How far ahead a scan looks.

Whether an item is over is settled by what stands right behind it: one character, or a
point with the digit after it (`Item.longest_iff`). So two bytes behind an item are enough
for it to stay what it is in every longer text (`Segment.Fits.append`), and the characters
behind a token can be exchanged for blanks (`Longest.whitened`). -/
namespace LoxFrontEnd

open Segment

/-! ### What an item looks at -/

/-- What an item looks at behind it before it is over: one character, or a point and a digit. -/
inductive Lookahead : List Char → Prop where
  | char (x : Char) : Lookahead [x]
  | point {d : Char} : d.isDigit = true → Lookahead ['.', d]

theorem Digits.of_append {cs more : List Char} (h : Digits (cs ++ more)) (hne : cs ≠ []) :
    Digits cs :=
  ⟨hne, fun c hc => h.isDigit c (List.mem_append_left more hc)⟩

theorem Word.of_append {cs more : List Char} (h : Word (cs ++ more)) (hne : cs ≠ []) : Word cs := by
  obtain ⟨c, rest, rfl⟩ := List.exists_cons_of_ne_nil hne
  cases h with
  | intro hc hrest => exact ⟨hc, fun x hx => hrest x (List.mem_append_left more hx)⟩

/-- The next piece of a numeral with a point in it, from any place inside of it. -/
theorem Digits.exists_lookahead {ds es text rest : List Char} {x : Char} (hds : Digits ds)
    (hes : Digits es) (htext : text ≠ []) (h : text ++ x :: rest = ds ++ '.' :: es) :
    ∃ ahead, Lookahead ahead ∧ ahead <+: x :: rest ∧ Item (some .number) (text ++ ahead) := by
  rcases List.append_eq_append_iff.1 h with ⟨whole, rfl, htail⟩ | ⟨part, rfl, htail⟩
  · cases whole with
    | nil =>
      obtain ⟨e, es, rfl, he⟩ := hes.eq_cons
      rw [htail]
      rw [List.append_nil] at hds
      exact ⟨['.', e], .point he, List.prefix_append ['.', e] es,
        .decimal hds ⟨List.cons_ne_nil _ _, by simpa using he⟩⟩
    | cons y whole =>
      obtain ⟨rfl, -⟩ := List.cons.inj htail
      rw [List.append_cons] at hds
      exact ⟨[x], .char x, List.prefix_append [x] rest, .integer (hds.of_append (by simp))⟩
  · cases part with
    | nil =>
      obtain ⟨rfl, rfl⟩ := List.cons.inj htail
      obtain ⟨e, es, rfl, he⟩ := hes.eq_cons
      refine ⟨['.', e], .point he, List.prefix_append ['.', e] es, ?_⟩
      rw [List.append_nil]
      exact .decimal hds ⟨List.cons_ne_nil _ _, by simpa using he⟩
    | cons y part =>
      rw [List.cons_append] at htail
      obtain ⟨rfl, rfl⟩ := List.cons.inj htail
      rw [List.append_cons] at hes
      refine ⟨[x], .char x, List.prefix_append [x] rest, ?_⟩
      rw [List.append_assoc]
      exact .decimal hds (hes.of_append (by simp))

namespace Item

/-- An item that goes on goes on by what it looks at. -/
theorem exists_lookahead {j k : Option Kind} {text more : List Char} (hj : Item j text)
    (hk : Item k (text ++ more)) (hne : more ≠ []) :
    ∃ ahead, Lookahead ahead ∧ ahead <+: more ∧ ∃ i, Item i (text ++ ahead) := by
  have htext : text ≠ [] := hj.ne_nil
  obtain ⟨x, rest, rfl⟩ := List.exists_cons_of_ne_nil hne
  have hchar (hitem : ∃ i, Item i (text ++ [x])) :
      ∃ ahead, Lookahead ahead ∧ ahead <+: x :: rest ∧ ∃ i, Item i (text ++ ahead) :=
    ⟨[x], .char x, List.prefix_append [x] rest, hitem⟩
  have hlonger : text ++ [x] ≠ [] := by simp
  have hword (hword : Word (text ++ x :: rest)) : ∃ i, Item i (text ++ [x]) := by
    rw [List.append_cons] at hword
    exact ⟨_, item_word (hword.of_append hlonger)⟩
  -- An item of one or two characters has no inner place but the one behind the first.
  have hshort {i : Option Kind} {symbol : List Char} (hitem : Item i symbol)
      (hle : symbol.length ≤ 2) (heq : text ++ x :: rest = symbol) : ∃ i, Item i (text ++ [x]) := by
    have hlength := congrArg List.length heq
    have hpos := List.length_pos_iff.2 htext
    rw [List.length_append, List.length_cons] at hlength
    obtain rfl : rest = [] := List.length_eq_zero_iff.1 (by omega)
    exact ⟨i, heq ▸ hitem⟩
  generalize heq : text ++ x :: rest = p at hk hword
  cases hk with
  | bracket b => exact hchar (hshort (.bracket b) (by simp) heq)
  | separator s => exact hchar (hshort (.separator s) (by simp) heq)
  | operator o => exact hchar (hshort (.operator o) (by cases o <;> decide) heq)
  | string hbody => exact absurd (hj.eq_nil_of_append_quoted hbody heq) hne
  | integer hds =>
    rw [← heq, List.append_cons] at hds
    exact hchar ⟨_, .integer (hds.of_append hlonger)⟩
  | decimal hds hes =>
    obtain ⟨ahead, hahead, hstarts, hitem⟩ := hds.exists_lookahead hes htext heq
    exact ⟨ahead, hahead, hstarts, _, hitem⟩
  | keyword k => exact hchar (hword k.word_text)
  | identifier hw _ => exact hchar (hword hw)
  | @comment cs hcs =>
    obtain ⟨c, text, rfl⟩ := List.exists_cons_of_ne_nil htext
    rw [List.cons_append] at heq
    obtain ⟨rfl, htail⟩ := List.cons.inj heq
    cases text with
    | nil =>
      obtain ⟨rfl, rfl⟩ := List.cons.inj htail
      exact hchar ⟨_, .comment List.not_mem_nil⟩
    | cons d text =>
      rw [List.cons_append] at htail
      obtain ⟨rfl, rfl⟩ := List.cons.inj htail
      refine hchar ⟨none, .comment fun hline => hcs ?_⟩
      rw [List.append_cons]
      exact List.mem_append_left rest hline

/-- An item is over if what it looks at belongs to no longer one. -/
theorem longest_iff {k : Option Kind} {text rest : List Char} (h : Item k text) :
    Longest text rest ↔
      ∀ ahead, Lookahead ahead → ahead <+: rest → ∀ j, ¬ Item j (text ++ ahead) := by
  constructor
  · intro hlongest ahead hahead hstarts
    refine hlongest ahead ?_ hstarts
    cases hahead <;> exact List.cons_ne_nil _ _
  · intro hover more hne hmore j hj
    obtain ⟨ahead, hahead, hstarts, i, hi⟩ := h.exists_lookahead hj hne
    exact hover ahead hahead (hstarts.trans hmore) i hi

/-- Nothing makes a string longer. -/
theorem longest_quoted {body : List Char} (h : '"' ∉ body) (rest : List Char) :
    Longest ('"' :: (body ++ ['"'])) rest := by
  intro more hne _ k hk
  have htail : body ++ ['"'] ++ more = body ++ '"' :: more := by simp
  rw [List.cons_append, htail] at hk
  have hclosed : first '"' (body ++ '"' :: more) = _ := quoted_closed h more
  have htext := congrArg Segment.text (hclosed.symm.trans hk.first_eq)
  rw [text_ofItem] at htext
  have hmore : body ++ ['"'] = body ++ '"' :: more := (List.cons.inj htext).2
  exact hne (List.cons.inj (List.append_cancel_left hmore)).2.symm

end Item

/-! ### In front of a longer text -/

/-- There is all that an item looks at: more than nothing, and more than a point. -/
structure Settled (rest : List Char) : Prop where
  ne_nil : rest ≠ []
  ne_point : rest ≠ ['.']

namespace Settled
variable {rest : List Char}

theorem append_left (h : Settled rest) (before : List Char) : Settled (before ++ rest) := by
  cases before with
  | nil => exact h
  | cons c before =>
    refine ⟨List.cons_ne_nil _ _, fun heq => ?_⟩
    exact h.ne_nil (List.append_eq_nil_iff.1 (List.cons.inj heq).2).2

theorem of_width (h : 2 ≤ Text.width rest) : Settled rest where
  ne_nil := by
    rintro rfl
    simp at h
  ne_point := by
    rintro rfl
    have hpoint : '.'.utf8Size = 1 := rfl
    simp [hpoint] at h

/-- What an item looks at in a longer text is in the shorter one already. -/
theorem prefix_of_append (h : Settled rest) {ahead more : List Char} (hahead : Lookahead ahead)
    (hstarts : ahead <+: rest ++ more) : ahead <+: rest := by
  obtain ⟨c, after, rfl⟩ := List.exists_cons_of_ne_nil h.ne_nil
  rw [List.cons_append] at hstarts
  cases hahead with
  | char x =>
    obtain rfl : x = c := (List.cons_prefix_cons.1 hstarts).1
    exact List.prefix_append [x] after
  | @point d _ =>
    obtain ⟨rfl, hdigit⟩ := List.cons_prefix_cons.1 hstarts
    cases after with
    | nil => exact absurd rfl h.ne_point
    | cons e after =>
      obtain rfl : d = e := (List.cons_prefix_cons.1 hdigit).1
      exact List.prefix_append ['.', d] after

end Settled

theorem Longest.append {k : Option Kind} {text rest : List Char} (h : Longest text rest)
    (hitem : Item k text) (hrest : Settled rest) (more : List Char) :
    Longest text (rest ++ more) := by
  rw [hitem.longest_iff] at h ⊢
  exact fun ahead hahead hstarts => h ahead hahead (hrest.prefix_of_append hahead hstarts)

/-- A segment with all behind it that it looks at stays what it is when the text goes on. -/
theorem Segment.Fits.append {s : Segment} {rest : List Char} (h : s.Fits rest)
    (hrest : Settled rest) (more : List Char) : s.Fits (rest ++ more) := by
  obtain ⟨hshape, hstops⟩ := h
  refine ⟨hshape, ?_⟩
  cases s with
  | token kind text => exact hstops.append hshape hrest more
  | comment text => exact hstops.append hshape hrest more
  | blank c => trivial
  | rejected c => trivial
  | unterminated text => exact absurd hstops hrest.ne_nil

/-- The segments in front of a settled text are those of a longer text as well. -/
theorem segments_append_of_settled {cs : List Char} {a b : List Segment} (h : segments cs = a ++ b)
    (hrest : Settled (b.flatMap Segment.text)) (more : List Char) :
    segments (cs ++ more) = a ++ segments (b.flatMap Segment.text ++ more) := by
  refine segments_append_of_fits h fun s _ rest hfits => ?_
  rw [← List.append_assoc]
  exact hfits.append (hrest.append_left rest) more

/-! ### In front of blanks -/

/-- The second text is the first one with blanks in place of some of its characters. -/
inductive Whitened : List Char → List Char → Prop where
  | nil : Whitened [] []
  | keep (c : Char) {cs ds : List Char} : Whitened cs ds → Whitened (c :: cs) (c :: ds)
  | blanks (c : Char) {bs cs ds : List Char} : bs ≠ [] → (∀ b ∈ bs, isBlank b = true) →
      Whitened cs ds → Whitened (c :: cs) (bs ++ ds)

theorem Whitened.append_left {cs ds : List Char} (h : Whitened cs ds) (text : List Char) :
    Whitened (text ++ cs) (text ++ ds) := by
  induction text with
  | nil => exact h
  | cons c text ih => exact .keep c ih

/-- What holds no blank is in the text as it was. -/
theorem Whitened.prefix_of_prefix {cs ds p : List Char} (h : Whitened cs ds) (hp : p <+: ds)
    (hblank : ∀ c ∈ p, isBlank c = false) : p <+: cs := by
  induction h generalizing p with
  | nil => exact hp
  | keep c _ ih =>
    cases p with
    | nil => exact List.nil_prefix
    | cons x p =>
      obtain ⟨rfl, htail⟩ := List.cons_prefix_cons.1 hp
      exact (List.prefix_cons_inj x).2 (ih htail fun y hy => hblank y (List.mem_cons_of_mem x hy))
  | blanks c hne hbs _ _ =>
    cases p with
    | nil => exact List.nil_prefix
    | cons x p =>
      obtain ⟨b, bs, rfl⟩ := List.exists_cons_of_ne_nil hne
      obtain rfl : x = b := (List.cons_prefix_cons.1 hp).1
      have hx := hbs x (List.mem_cons_self ..)
      rw [hblank x (List.mem_cons_self ..)] at hx
      cases hx

theorem Lookahead.eq_or_blank_notMem {ahead : List Char} (h : Lookahead ahead) :
    (∃ x, ahead = [x] ∧ isBlank x = true) ∨ ∀ c ∈ ahead, isBlank c = false := by
  cases h with
  | char x =>
    cases hx : isBlank x with
    | true => exact .inl ⟨x, rfl, hx⟩
    | false => exact .inr (by simpa using hx)
  | @point d hd =>
    have hpoint : isBlank '.' = false := rfl
    have hdigit : isBlank d = false := isBlank_of_isAlphanum (isAlphanum_of_isDigit hd)
    exact .inr (by simp [hpoint, hdigit])

/-- A token does not mind if what follows it gives way to blanks. -/
theorem Longest.whitened {kind : Kind} {text cs ds : List Char} (h : Longest text cs)
    (hitem : Item (some kind) text) (hds : Whitened cs ds) : Longest text ds := by
  rw [hitem.longest_iff] at h ⊢
  intro ahead hahead hstarts j
  rcases hahead.eq_or_blank_notMem with ⟨x, rfl, hx⟩ | hblank
  · exact hitem.longest_of_blank hx [] [x] (List.cons_ne_nil _ _) (List.prefix_refl _) j
  · exact h ahead hahead (hds.prefix_of_prefix hstarts hblank) j

end LoxFrontEnd
