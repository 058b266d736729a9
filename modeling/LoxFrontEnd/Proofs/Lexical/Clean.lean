import LoxFrontEnd.Proofs.Lexical.Placement

/-! Clean texts.

A text is clean if it can be cut into pieces of four simple forms. The pieces are not the
segments: a word is any number of pieces, and no piece says how far it reaches. Still
the scan finds no fault exactly in the clean texts (`clean_iff_reported_eq_nil`). The
reason is that a segment that is no fault can be taken off a clean text, and put in front of
one, without a difference (`Segment.Fits.clean_append_iff`). -/
namespace LoxFrontEnd

def bareSymbols : List Char :=
  ['(', ')', '{', '}', ',', '.', '-', '+', ';', '*', '!', '=', '<', '>']

/-- A character that is clean wherever it stands in code. -/
def isBare (c : Char) : Bool := Segment.isBlank c || c.isAlphanum || bareSymbols.contains c

/-- A text that is cut into clean pieces. -/
inductive Clean : List Char → Prop where
  | nil : Clean []
  | bare {c : Char} {rest : List Char} : isBare c = true → Clean rest → Clean (c :: rest)
  /-- A slash without another one behind it. -/
  | slash {rest : List Char} : ¬ ['/'] <+: rest → Clean rest → Clean ('/' :: rest)
  | string {body rest : List Char} : '"' ∉ body → Clean rest →
      Clean ('"' :: (body ++ '"' :: rest))
  /-- Two slashes and all that follows them on their line. -/
  | comment {cs rest : List Char} : '\n' ∉ cs → (∀ c, [c] <+: rest → c = '\n') → Clean rest →
      Clean ('/' :: '/' :: (cs ++ rest))

/-! ### One piece -/

section
variable {rest : List Char}

/-- A quote in a clean text opens a string. -/
theorem Clean.of_quote {text : List Char} (h : Clean ('"' :: text)) :
    ∃ body rest, '"' ∉ body ∧ text = body ++ '"' :: rest ∧ Clean rest := by
  cases h with
  | bare hbare => exact absurd hbare (by decide)
  | string hbody hrest => exact ⟨_, _, hbody, rfl, hrest⟩

/-- A slash in a clean text stands alone, or it opens a comment. -/
theorem Clean.of_slash {text : List Char} (h : Clean ('/' :: text)) :
    (¬ ['/'] <+: text ∧ Clean text) ∨
      ∃ cs rest, '\n' ∉ cs ∧ (∀ c, [c] <+: rest → c = '\n') ∧ text = '/' :: (cs ++ rest) ∧
        Clean rest := by
  cases h with
  | bare hbare => exact absurd hbare (by decide)
  | slash hslash hrest => exact .inl ⟨hslash, hrest⟩
  | comment hcs hend hrest => exact .inr ⟨_, _, hcs, hend, rfl, hrest⟩

theorem clean_bare_iff {c : Char} (h : isBare c = true) : Clean (c :: rest) ↔ Clean rest := by
  refine ⟨fun hclean => ?_, .bare h⟩
  cases hclean with
  | bare _ hrest => exact hrest
  | slash => exact absurd h (by decide)
  | string => exact absurd h (by decide)
  | comment => exact absurd h (by decide)

theorem clean_bares_iff {cs : List Char} (h : cs.all isBare = true) :
    Clean (cs ++ rest) ↔ Clean rest := by
  induction cs with
  | nil => rfl
  | cons c cs ih =>
    rw [List.all_cons, Bool.and_eq_true] at h
    exact (clean_bare_iff h.1).trans (ih h.2)

theorem clean_alphanum_iff {cs : List Char} (h : ∀ c ∈ cs, c.isAlphanum = true) :
    Clean (cs ++ rest) ↔ Clean rest :=
  clean_bares_iff (List.all_eq_true.2 fun c hc => by simp [isBare, h c hc])

theorem clean_slash_iff (h : ¬ ['/'] <+: rest) : Clean ('/' :: rest) ↔ Clean rest := by
  refine ⟨fun hclean => ?_, .slash h⟩
  rcases hclean.of_slash with ⟨-, hrest⟩ | ⟨cs, more, -, -, rfl, -⟩
  · exact hrest
  · exact absurd (List.prefix_append ['/'] _) h

theorem clean_string_iff {body : List Char} (h : '"' ∉ body) :
    Clean ('"' :: (body ++ '"' :: rest)) ↔ Clean rest := by
  refine ⟨fun hclean => ?_, .string h⟩
  obtain ⟨other, more, hother, heq, hmore⟩ := hclean.of_quote
  obtain ⟨-, rfl⟩ := Segment.append_cons_inj h hother heq
  exact hmore

theorem clean_comment_iff {cs : List Char} (h : '\n' ∉ cs) (hend : ∀ c, [c] <+: rest → c = '\n') :
    Clean ('/' :: '/' :: (cs ++ rest)) ↔ Clean rest := by
  refine ⟨fun hclean => ?_, .comment h hend⟩
  rcases hclean.of_slash with ⟨hslash, -⟩ | ⟨line, more, hline, hmore, htail, hclean⟩
  · exact absurd (List.prefix_append ['/'] _) hslash
  · have heq : cs ++ rest = line ++ more := (List.cons.inj htail).2
    have hcut := congrArg (List.takeWhile (· != '\n')) heq
    rw [Segment.takeWhile_line h hend, Segment.takeWhile_line hline hmore] at hcut
    subst hcut
    rwa [List.append_cancel_left heq]

end

/-! ### One segment -/

/-- Nothing but an item starts with a character that is clean in code and no blank. -/
theorem exists_item_of_isBare {c : Char} (h : isBare c = true) (hblank : Segment.isBlank c = false) :
    ∃ k, Item k [c] := by
  have hsymbols : bareSymbols.all (fun c => (Segment.kindOfSymbol? c).isSome ||
      (Segment.comparison? c).isSome) = true := by decide
  simp only [isBare, hblank, Bool.false_or, Bool.or_eq_true, List.contains_iff_mem] at h
  rcases h with h | h
  · by_cases hd : c.isDigit = true
    · exact ⟨_, .integer ⟨List.cons_ne_nil _ _, by simpa using hd⟩⟩
    · have ha : c.isAlpha = true := by simpa [Char.isAlphanum, hd] using h
      exact ⟨_, Segment.item_word (.of_all ha rfl)⟩
  · have hsome := List.all_eq_true.1 hsymbols c h
    rw [Bool.or_eq_true, Option.isSome_iff_exists, Option.isSome_iff_exists] at hsome
    rcases hsome with ⟨kind, hkind⟩ | ⟨⟨single, double⟩, hboth⟩
    · exact ⟨_, Segment.item_symbol hkind⟩
    · exact ⟨_, (Segment.item_comparison hboth).1⟩

/-- A token in front of a text makes no difference to whether it is clean. -/
theorem Item.clean_append_iff {kind : Kind} {text rest : List Char} (h : Item (some kind) text)
    (hlongest : Longest text rest) : Clean (text ++ rest) ↔ Clean rest := by
  cases h with
  | bracket b => exact clean_bares_iff (by cases b <;> decide)
  | separator s => exact clean_bares_iff (by cases s <;> decide)
  | operator o =>
    cases o with
    | slash =>
      refine clean_slash_iff fun hslash => ?_
      exact hlongest ['/'] (List.cons_ne_nil _ _) hslash none (.comment List.not_mem_nil)
    | _ => exact clean_bares_iff (by decide)
  | string hbody =>
    rw [List.cons_append, List.append_assoc]
    exact clean_string_iff hbody
  | integer hds => exact clean_alphanum_iff hds.isAlphanum
  | decimal hds hes =>
    rw [List.append_assoc, List.cons_append, clean_alphanum_iff hds.isAlphanum,
      clean_bare_iff (by decide), clean_alphanum_iff hes.isAlphanum]
  | keyword k => exact clean_alphanum_iff k.word_text.isAlphanum
  | identifier hword => exact clean_alphanum_iff hword.isAlphanum

/-- A character that is no blank and starts no item starts no clean text. -/
theorem not_clean_of_no_item {c : Char} (hblank : Segment.isBlank c = false)
    (hno : ∀ k more, ¬ Item k (c :: more)) (rest : List Char) : ¬ Clean (c :: rest) := by
  intro hclean
  cases hclean with
  | bare hbare =>
    obtain ⟨k, hk⟩ := exists_item_of_isBare hbare hblank
    exact hno k [] hk
  | slash => exact hno _ [] (.operator .slash)
  | string => exact hno _ _ (.string List.not_mem_nil)
  | comment => exact hno _ _ (.comment List.not_mem_nil)

theorem not_clean_of_quote {body : List Char} (h : '"' ∉ body) : ¬ Clean ('"' :: body) := by
  intro hclean
  obtain ⟨inner, rest, -, rfl, -⟩ := hclean.of_quote
  exact h (List.mem_append_right inner (List.mem_cons_self ..))

/-- A fault starts no clean text, and any other segment makes no difference to whether the text
behind it is clean. -/
theorem Segment.Fits.clean_append_iff {s : Segment} {rest : List Char} (h : s.Fits rest) :
    Clean (s.text ++ rest) ↔ s.fault? = none ∧ Clean rest := by
  obtain ⟨hshape, hstops⟩ := h
  cases s with
  | token kind text => exact (Item.clean_append_iff hshape hstops).trans (by simp [fault?])
  | blank c =>
    have hbare : isBare c = true := by simp [isBare, show isBlank c = true from hshape]
    exact (clean_bare_iff hbare).trans (by simp [fault?])
  | comment text =>
    have hitem : Item none text := hshape
    cases hitem with
    | comment hcs =>
      have hend := Longest.lineEnd hstops hcs
      exact (clean_comment_iff hcs hend).trans (by simp [fault?])
  | rejected c =>
    have hclean := not_clean_of_no_item hshape.1 hshape.2 rest
    exact ⟨fun h => absurd h hclean, fun h => absurd h.1 (Option.some_ne_none _)⟩
  | unterminated text =>
    obtain ⟨body, hbody, rfl⟩ := hshape
    obtain rfl : rest = [] := hstops
    have hclean := not_clean_of_quote hbody
    rw [text, List.append_nil]
    exact ⟨fun h => absurd h hclean, fun h => absurd h.1 (Option.some_ne_none _)⟩

/-! ### All segments -/

theorem Cut.clean_iff {segs : List Segment} (h : Cut segs) :
    Clean (segs.flatMap Segment.text) ↔ ∀ s ∈ segs, s.fault? = none := by
  induction h with
  | nil => simpa using Clean.nil
  | cons hs _ ih => rw [List.flatMap_cons, hs.clean_append_iff, ih, List.forall_mem_cons]

/-- **The clean texts are those without diagnostics.** -/
theorem clean_iff_reported_eq_nil {source : String} :
    Clean source.toList ↔ (scan source).diagnostics.reported = [] := by
  have hcut := (Cut.segments source.toList).clean_iff
  rw [flatMap_text_segments] at hcut
  rw [hcut, reported_eq_nil_iff]

theorem hadError_eq_false_iff {source : String} :
    (scan source).hadError = false ↔ Clean source.toList := by
  rw [clean_iff_reported_eq_nil]
  simp [Scanned.hadError, Diagnostics.hadError, Diagnostics.isEmpty]

instance : DecidablePred Clean := fun cs =>
  decidable_of_iff ((scan (String.ofList cs)).diagnostics.reported = []) <| by
    rw [← clean_iff_reported_eq_nil, String.toList_ofList]

end LoxFrontEnd
