import LoxFrontEnd.Proofs.Lexical.Content
import LoxFrontEnd.Text.WhiteSpace

/-! White space between items.

A blank of the source is white space, but not the other way round. Still no item starts
with white space, so that a text of nothing else has no tokens. -/
namespace LoxFrontEnd

theorem isWhiteSpace_of_isAlphanum {c : Char} (h : c.isAlphanum = true) :
    Text.isWhiteSpace c = false := by
  rw [Char.isAlphanum, Bool.or_eq_true, isAlpha_iff, isDigit_iff] at h
  simp [Text.isWhiteSpace, Text.whiteSpaceRanges]
  omega

/-- White space starts no item. -/
theorem Item.isWhiteSpace_eq_false {k : Option Kind} {c : Char} {rest : List Char}
    (h : Item k (c :: rest)) : Text.isWhiteSpace c = false := by
  generalize hp : c :: rest = p at h
  cases h with
  | bracket b => cases b <;> cases hp <;> rfl
  | separator s => cases s <;> cases hp <;> rfl
  | operator o => cases o <;> cases hp <;> rfl
  | string hbody => cases hp; rfl
  | comment hcs => cases hp; rfl
  | integer hds =>
    subst hp
    exact isWhiteSpace_of_isAlphanum (hds.isAlphanum c (List.mem_cons_self ..))
  | decimal hds hes =>
    obtain ⟨d, ds, rfl, hd⟩ := hds.eq_cons
    obtain ⟨rfl, -⟩ := List.cons.inj hp
    exact isWhiteSpace_of_isAlphanum (hds.isAlphanum c (List.mem_cons_self ..))
  | keyword k =>
    have hword : Word (c :: rest) := hp ▸ k.word_text
    exact isWhiteSpace_of_isAlphanum (hword.isAlphanum c (List.mem_cons_self ..))
  | identifier hword _ =>
    subst hp
    exact isWhiteSpace_of_isAlphanum (hword.isAlphanum c (List.mem_cons_self ..))

theorem tokensOf_eq_nil {cs : List Char} (h : ∀ c ∈ cs, Text.isWhiteSpace c = true) :
    tokensOf cs = [] := by
  rw [tokensOf, List.filterMap_eq_nil_iff]
  intro s hs
  cases s with
  | token kind text =>
    obtain ⟨a, b, hsegs⟩ := List.append_of_mem hs
    have hitem : Item (some kind) text := (fits_of_segments hsegs).shape
    obtain ⟨c, rest, rfl⟩ := List.exists_cons_of_ne_nil hitem.ne_nil
    have hmem : c ∈ cs := by
      rw [← flatMap_text_segments cs, List.mem_flatMap]
      exact ⟨_, hs, List.mem_cons_self ..⟩
    have hblank := h c hmem
    rw [hitem.isWhiteSpace_eq_false] at hblank
    cases hblank
  | _ => rfl

/-- A text is what trimming leaves of it, with white space before and after. -/
theorem Text.exists_trim (cs : List Char) :
    ∃ before after, cs = before ++ (trim cs ++ after) ∧
      (∀ c ∈ before, isWhiteSpace c = true) ∧ ∀ c ∈ after, isWhiteSpace c = true := by
  have hend : trim cs ++ ((trimStart cs).reverse.takeWhile isWhiteSpace).reverse =
      trimStart cs := by
    rw [trim, trimEnd, ← List.reverse_append, List.takeWhile_append_dropWhile,
      List.reverse_reverse]
  refine ⟨cs.takeWhile isWhiteSpace, ((trimStart cs).reverse.takeWhile isWhiteSpace).reverse,
    ?_, fun c hc => List.mem_takeWhile_imp hc,
    fun c hc => List.mem_takeWhile_imp (List.mem_reverse.1 hc)⟩
  rw [hend, trimStart, List.takeWhile_append_dropWhile]

/-- Trimming leaves nothing of white space only, and something of any other text. -/
theorem Text.isEmpty_trim (cs : List Char) : (trim cs).isEmpty = cs.all isWhiteSpace := by
  rw [Bool.eq_iff_iff, List.all_eq_true]
  constructor
  · intro h
    obtain ⟨before, after, hcs, hbefore, hafter⟩ := exists_trim cs
    rw [List.isEmpty_iff.1 h, List.nil_append] at hcs
    rw [hcs]
    exact List.forall_mem_append.2 ⟨hbefore, hafter⟩
  · intro h
    rw [trim, trimStart, List.dropWhile_eq_nil_iff.2 h]
    rfl

theorem Text.isWhiteSpace_head?_dropWhile (cs : List Char) :
    ∀ c ∈ (cs.dropWhile isWhiteSpace).head?, isWhiteSpace c = false := by
  intro c hc
  have hhead := List.head?_dropWhile_not isWhiteSpace cs
  rwa [Option.mem_def.1 hc] at hhead

/-- Trimming leaves no white space at the end. -/
theorem Text.isWhiteSpace_getLast?_trim (cs : List Char) :
    ∀ c ∈ (trim cs).getLast?, isWhiteSpace c = false := by
  rw [trim, trimEnd, List.getLast?_reverse]
  exact isWhiteSpace_head?_dropWhile _

theorem Text.dropWhile_isWhiteSpace {cs : List Char}
    (h : ∀ c ∈ cs.head?, isWhiteSpace c = false) : cs.dropWhile isWhiteSpace = cs := by
  cases cs with
  | nil => rfl
  | cons c cs => exact List.dropWhile_cons_of_neg (by simp [h c rfl])

/-- A text without white space at its ends is left as it is. -/
theorem Text.trim_of_ends {cs : List Char} (hhead : ∀ c ∈ cs.head?, isWhiteSpace c = false)
    (hlast : ∀ c ∈ cs.getLast?, isWhiteSpace c = false) : trim cs = cs := by
  rw [← List.head?_reverse] at hlast
  rw [trim, trimStart, dropWhile_isWhiteSpace hhead, trimEnd, dropWhile_isWhiteSpace hlast,
    List.reverse_reverse]

theorem Text.trim_append {blanks : List Char} (h : ∀ c ∈ blanks, isWhiteSpace c = true)
    (cs : List Char) : trim (blanks ++ cs) = trim cs := by
  rw [trim, trimStart, List.dropWhile_append_of_pos h, ← trimStart, ← trim]

end LoxFrontEnd
