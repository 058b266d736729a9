import LoxFrontEnd.Expr
import LoxFrontEnd.Proofs.Lexical.Content
import LoxFrontEnd.Proofs.Number.Text

/-! Reading an expression off its text.

A written expression is atoms between blanks and parentheses: `nil` or a number for an operand,
and behind an opening parenthesis an operator, or the word for a group. So the text of an
expression settles both the expression and where it ends in a longer text
(`toText_append_inj`), apart from the places of its operators, which are not written. -/
namespace LoxFrontEnd

/-! ### Atoms -/

def isAtomic (c : Char) : Bool := c != ' ' && c != '(' && c != ')'

/-- A text that a blank or a parenthesis ends. -/
structure Atom (cs : List Char) : Prop where
  ne_nil : cs ≠ []
  atomic : ∀ c ∈ cs, isAtomic c = true

/-- An atom in front of the text ends there. -/
def Ends (rest : List Char) : Prop := ∀ c ∈ rest.head?, isAtomic c = false

theorem Ends.cons {c : Char} (h : isAtomic c = false) (rest : List Char) : Ends (c :: rest) := by
  intro d hd
  obtain rfl := Option.some.inj hd
  exact h

namespace Atom
variable {a b u v : List Char}

theorem takeWhile_append (h : Atom a) (hu : Ends u) :
    (a ++ u).takeWhile isAtomic = a := by
  rw [List.takeWhile_append_of_pos h.atomic]
  cases u with
  | nil => exact List.append_nil a
  | cons c u => rw [List.takeWhile_cons_of_neg (by simp [hu c rfl]), List.append_nil]

/-- Where an atom ends in a text settles it. -/
theorem append_inj (ha : Atom a) (hb : Atom b) (hu : Ends u) (hv : Ends v)
    (h : a ++ u = b ++ v) : a = b ∧ u = v := by
  have heq := congrArg (List.takeWhile isAtomic) h
  rw [ha.takeWhile_append hu, hb.takeWhile_append hv] at heq
  subst heq
  exact ⟨rfl, List.append_cancel_left h⟩

theorem append_ne_paren (h : Atom a) : a ++ u ≠ '(' :: v := by
  intro heq
  obtain ⟨c, rest, rfl⟩ := List.exists_cons_of_ne_nil h.ne_nil
  have hc := h.atomic c (List.mem_cons_self ..)
  rw [(List.cons.inj heq).1] at hc
  cases hc

end Atom

theorem isAtomic_of_isAlphanum {c : Char} (h : c.isAlphanum = true) : isAtomic c = true := by
  rw [isAtomic, Bool.and_eq_true, Bool.and_eq_true, bne_iff_ne, bne_iff_ne, bne_iff_ne]
  refine ⟨⟨?_, ?_⟩, ?_⟩ <;> rintro rfl <;> cases h

theorem Operator.atom_symbol (o : Operator) : Atom o.symbol :=
  ⟨by cases o <;> simp [symbol], by cases o <;> simp [symbol, isAtomic]⟩

theorem Operator.symbol_inj {o o' : Operator} (h : o.symbol = o'.symbol) : o = o' := by
  have hkind := (Item.operator o).kind_unique (h ▸ Item.operator o')
  cases hkind
  rfl

theorem Number.Unsigned.atom_toText {x : Number} (h : x.Unsigned) : Atom x.toText.toList := by
  refine ⟨?_, fun c hc => ?_⟩
  · cases hx : x.isInfinite with
    | true => simp [h.toText_infinite hx]
    | false =>
      obtain ⟨d, rest, htext, -⟩ := h.exists_digit hx
      simp [htext]
  · rcases h.mem_toText hc with hc | rfl | rfl
    · exact isAtomic_of_isAlphanum hc
    · rfl
    · rfl

/-- No number is written like the absent value. -/
theorem Number.Unsigned.toText_ne_nil {x : Number} (h : x.Unsigned) : x.toText ≠ "nil" := by
  intro htext
  cases hx : x.isInfinite with
  | true =>
    have := h.toText_infinite hx
    rw [htext] at this
    revert this
    decide
  | false =>
    obtain ⟨d, rest, hcons, hd⟩ := h.exists_digit hx
    rw [htext] at hcons
    cases hcons
    cases hd

/-! ### Tokens -/

section
variable {source : String} {t : Token}

theorem exists_item_of_mem_tokens (ht : t ∈ (scan source).tokens) (hkind : t.kind ≠ .eof) :
    ∃ text, Item (some t.kind) text ∧ t.lexeme = String.ofList text ∧
      t.literal = Literal.ofLexeme t.kind text := by
  rcases mem_tokens_iff.1 ht with rfl | ⟨a, kind, text, b, hsegs, rfl⟩
  · exact absurd rfl hkind
  · exact ⟨text, (fits_of_segments hsegs).shape, rfl, rfl⟩

theorem exists_number_of_mem_tokens (ht : t ∈ (scan source).tokens) (hkind : t.kind = .number) :
    ∃ x : Number, x.Unsigned ∧ t.literal = .number x := by
  obtain ⟨text, -, -, hliteral⟩ := exists_item_of_mem_tokens ht (by simp [hkind])
  exact ⟨_, Number.unsigned_ofNumeral text, by rw [hliteral, hkind]; rfl⟩

theorem exists_operator_of_mem_tokens (ht : t ∈ (scan source).tokens)
    (hkind : t.kind.isOperator = true) :
    ∃ o : Operator, t.kind = .operator o ∧ t.lexeme = String.ofList o.symbol := by
  obtain ⟨text, hitem, hlexeme, -⟩ :=
    exists_item_of_mem_tokens ht (by rintro heof; rw [heof] at hkind; cases hkind)
  cases hk : t.kind with
  | operator o =>
    rw [hk] at hitem
    cases hitem with
    | operator => exact ⟨o, rfl, hlexeme⟩
  | _ => rw [hk] at hkind; cases hkind

end

/-! ### Expressions -/

/-- A literal that a scan leaves for an operand: none, or the value of a number. -/
inductive Operand : Literal → Prop
  | absent : Operand .none
  | number {source : String} {t : Token} : t ∈ (scan source).tokens → t.kind = .number →
      Operand t.literal

namespace Expr

/-- The expression is built of the tokens of scans, of one source or of several. -/
inductive FromScans : Expr → Prop
  | literal {value : Literal} : Operand value → FromScans (literal value)
  | group {inner : Expr} : FromScans inner → FromScans (group inner)
  | binary {source : String} {left right : Expr} {operator : Token} : FromScans left →
      operator ∈ (scan source).tokens → operator.kind.isOperator = true → FromScans right →
      FromScans (binary left operator right)

/-- The same shape, the same literals, and the same operators, perhaps found in different
places. -/
inductive Alike : Expr → Expr → Prop
  | literal (value : Literal) : Alike (literal value) (literal value)
  | group {a b : Expr} : Alike a b → Alike (group a) (group b)
  | binary {left right left' right' : Expr} {operator operator' : Token} : Alike left left' →
      operator.kind = operator'.kind → operator.lexeme = operator'.lexeme → Alike right right' →
      Alike (binary left operator right) (binary left' operator' right')

/-- What stands where an operator would if the parentheses hold a group. -/
def groupWord : List Char := ['g', 'r', 'o', 'u', 'p']

theorem atom_groupWord : Atom groupWord := ⟨by simp [groupWord], by simp [groupWord, isAtomic]⟩

theorem symbol_ne_groupWord (o : Operator) : o.symbol ≠ groupWord := by
  cases o <;> simp [Operator.symbol, groupWord]

theorem group_append (inner : Expr) (u : List Char) : (group inner).toText.toList ++ u =
    '(' :: (groupWord ++ ' ' :: (inner.toText.toList ++ ')' :: u)) := by
  simp [toText, groupWord]

theorem binary_append (left right : Expr) {operator : Token} {symbol : List Char}
    (h : operator.lexeme = String.ofList symbol) (u : List Char) :
    (binary left operator right).toText.toList ++ u = '(' :: (symbol ++
      ' ' :: (left.toText.toList ++ ' ' :: (right.toText.toList ++ ')' :: u))) := by
  simp [toText, h]

/-- The word behind an opening parenthesis ends at the first blank. -/
theorem word_inj {a b u v : List Char} (ha : Atom a) (hb : Atom b)
    (h : '(' :: (a ++ ' ' :: u) = '(' :: (b ++ ' ' :: v)) : a = b ∧ u = v := by
  obtain ⟨hword, hrest⟩ :=
    ha.append_inj hb (.cons rfl u) (.cons rfl v) (List.cons.inj h).2
  exact ⟨hword, (List.cons.inj hrest).2⟩

theorem exists_operand {value : Literal} (h : Operand value) : value = .none ∨
    ∃ x : Number, x.Unsigned ∧ value = .number x := by
  cases h with
  | absent => exact .inl rfl
  | number ht hkind => exact .inr (exists_number_of_mem_tokens ht hkind)

theorem atom_literal {value : Literal} (h : Operand value) :
    Atom (literal value).toText.toList := by
  rcases exists_operand h with rfl | ⟨x, hx, rfl⟩
  · exact ⟨by simp [toText], by simp [toText, isAtomic]⟩
  · exact hx.atom_toText

theorem literal_inj {value value' : Literal} (h : Operand value) (h' : Operand value')
    (heq : (literal value).toText = (literal value').toText) : value = value' := by
  rcases exists_operand h with rfl | ⟨x, hx, rfl⟩ <;>
    rcases exists_operand h' with rfl | ⟨y, hy, rfl⟩
  · rfl
  · exact absurd heq.symm hy.toText_ne_nil
  · exact absurd heq hx.toText_ne_nil
  · rw [(hx.toText_inj hy).1 heq]

theorem literal_append_ne {value : Literal} (h : Operand value) (u v : List Char) :
    (literal value).toText.toList ++ u ≠ '(' :: v := (atom_literal h).append_ne_paren

/-- The text of an expression settles it, and where it ends in a longer text. -/
theorem toText_append_inj {a b : Expr} (ha : a.FromScans) (hb : b.FromScans) {u v : List Char}
    (hu : Ends u) (hv : Ends v) (h : a.toText.toList ++ u = b.toText.toList ++ v) :
    a.Alike b ∧ u = v := by
  induction ha generalizing b u v with
  | @literal value hvalue =>
    cases hb with
    | @literal value' hvalue' =>
      obtain ⟨htext, rfl⟩ := (atom_literal hvalue).append_inj (atom_literal hvalue') hu hv h
      obtain rfl := literal_inj hvalue hvalue' (String.toList_inj.1 htext)
      exact ⟨.literal value, rfl⟩
    | group hinner =>
      rw [group_append] at h
      exact absurd h (literal_append_ne hvalue _ _)
    | binary hleft ht hkind hright =>
      obtain ⟨o, -, hlexeme⟩ := exists_operator_of_mem_tokens ht hkind
      rw [binary_append _ _ hlexeme] at h
      exact absurd h (literal_append_ne hvalue _ _)
  | group hinner ih =>
    rw [group_append] at h
    cases hb with
    | literal hvalue => exact absurd h.symm (literal_append_ne hvalue _ _)
    | group hinner' =>
      rw [group_append] at h
      obtain ⟨-, hrest⟩ := word_inj atom_groupWord atom_groupWord h
      obtain ⟨halike, hclosed⟩ := ih hinner' (.cons rfl u) (.cons rfl v) hrest
      exact ⟨.group halike, (List.cons.inj hclosed).2⟩
    | binary hleft ht hkind hright =>
      obtain ⟨o, -, hlexeme⟩ := exists_operator_of_mem_tokens ht hkind
      rw [binary_append _ _ hlexeme] at h
      exact absurd (word_inj atom_groupWord o.atom_symbol h).1.symm (symbol_ne_groupWord o)
  | binary hleft ht hkind hright ihleft ihright =>
    obtain ⟨o, ho, hlexeme⟩ := exists_operator_of_mem_tokens ht hkind
    rw [binary_append _ _ hlexeme] at h
    cases hb with
    | literal hvalue => exact absurd h.symm (literal_append_ne hvalue _ _)
    | group hinner =>
      rw [group_append] at h
      exact absurd (word_inj o.atom_symbol atom_groupWord h).1 (symbol_ne_groupWord o)
    | binary hleft' ht' hkind' hright' =>
      obtain ⟨o', ho', hlexeme'⟩ := exists_operator_of_mem_tokens ht' hkind'
      rw [binary_append _ _ hlexeme'] at h
      obtain ⟨hsymbol, hrest⟩ := word_inj o.atom_symbol o'.atom_symbol h
      obtain ⟨halikeleft, hrest⟩ := ihleft hleft' (.cons rfl _) (.cons rfl _) hrest
      obtain ⟨halikeright, hclosed⟩ :=
        ihright hright' (.cons rfl u) (.cons rfl v) (List.cons.inj hrest).2
      obtain rfl := Operator.symbol_inj hsymbol
      exact ⟨.binary halikeleft (ho.trans ho'.symm) (hlexeme.trans hlexeme'.symm) halikeright,
        (List.cons.inj hclosed).2⟩

theorem Alike.toText_eq {a b : Expr} (h : a.Alike b) : a.toText = b.toText := by
  induction h with
  | literal value => rfl
  | group hinner ih => rw [toText, toText, ih]
  | binary hleft hkind hlexeme hright ihleft ihright =>
    rw [toText, toText, hlexeme, ihleft, ihright]

/-- **The prefix form of an expression determines it.** -/
theorem toText_eq_iff_alike {a b : Expr} (ha : a.FromScans) (hb : b.FromScans) :
    a.toText = b.toText ↔ a.Alike b := by
  refine ⟨fun h => ?_, Alike.toText_eq⟩
  have hnil : Ends [] := fun c hc => nomatch hc
  exact (toText_append_inj ha hb hnil hnil (by rw [h])).1

/-- A comparison in a group, once with its tokens from one line and once from another, where the
number is spelled differently. -/
theorem toText_eq_iff_alike_respelled :
    ∃ one ∈ (scan "1.50 <= x").tokens, ∃ two ∈ (scan "1.50 <= x").tokens,
      ∃ one' ∈ (scan "\n<= 1.5").tokens, ∃ two' ∈ (scan "\n<= 1.5").tokens,
        one.lexeme ≠ one'.lexeme ∧ two.line ≠ two'.line ∧
        (group (binary (literal .none) two (literal one.literal))).toText =
          "(group (<= nil 1.5))" ∧
        (group (binary (literal .none) two (literal one.literal))).Alike
          (group (binary (literal .none) two' (literal one'.literal))) := by
  have hnumbers : ∀ t ∈ (scan "1.50 <= x").tokens[0]?, ∀ t' ∈ (scan "\n<= 1.5").tokens[1]?,
      t.kind = .number ∧ t'.kind = .number ∧ t.lexeme ≠ t'.lexeme ∧
      (literal t.literal).toText = "1.5" ∧ (literal t'.literal).toText = "1.5" := by
    decide +kernel
  have hoperators : ∀ t ∈ (scan "1.50 <= x").tokens[1]?, ∀ t' ∈ (scan "\n<= 1.5").tokens[0]?,
      t.kind.isOperator = true ∧ t'.kind.isOperator = true ∧ t.line ≠ t'.line ∧
      t.lexeme = "<=" ∧ t'.lexeme = "<=" := by
    decide +kernel
  obtain ⟨one, hone⟩ : ∃ t, (scan "1.50 <= x").tokens[0]? = some t :=
    Option.isSome_iff_exists.1 (by decide +kernel)
  obtain ⟨two, htwo⟩ : ∃ t, (scan "1.50 <= x").tokens[1]? = some t :=
    Option.isSome_iff_exists.1 (by decide +kernel)
  obtain ⟨one', hone'⟩ : ∃ t, (scan "\n<= 1.5").tokens[1]? = some t :=
    Option.isSome_iff_exists.1 (by decide +kernel)
  obtain ⟨two', htwo'⟩ : ∃ t, (scan "\n<= 1.5").tokens[0]? = some t :=
    Option.isSome_iff_exists.1 (by decide +kernel)
  obtain ⟨hkind, hkind', hspelled, htext, htext'⟩ := hnumbers one hone one' hone'
  obtain ⟨hop, hop', hline, hlexeme, hlexeme'⟩ := hoperators two htwo two' htwo'
  have hmem := List.mem_of_getElem? hone
  have hmem' := List.mem_of_getElem? hone'
  have hscans : (group (binary (literal .none) two (literal one.literal))).FromScans :=
    .group (.binary (.literal .absent) (List.mem_of_getElem? htwo) hop
      (.literal (.number hmem hkind)))
  have hscans' : (group (binary (literal .none) two' (literal one'.literal))).FromScans :=
    .group (.binary (.literal .absent) (List.mem_of_getElem? htwo') hop'
      (.literal (.number hmem' hkind')))
  have hwritten : (group (binary (literal .none) two (literal one.literal))).toText =
      "(group (<= nil 1.5))" := by
    rw [toText, toText, htext, hlexeme]
    rfl
  have hwritten' : (group (binary (literal .none) two' (literal one'.literal))).toText =
      "(group (<= nil 1.5))" := by
    rw [toText, toText, htext', hlexeme']
    rfl
  exact ⟨one, hmem, two, List.mem_of_getElem? htwo, one', hmem', two', List.mem_of_getElem? htwo',
    hspelled, hline, hwritten,
    (toText_eq_iff_alike hscans hscans').1 (hwritten.trans hwritten'.symm)⟩

end Expr

end LoxFrontEnd
