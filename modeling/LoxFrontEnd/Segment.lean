import LoxFrontEnd.Token.Basic

/-! Segments.

A source text is a row of segments: tokens, single blanks, comments, characters
that start no token, and perhaps a string at the end that is never closed. Each
segment reaches as far as it can. Every text is cut completely: its segments,
written one after the other, are the text (`flatMap_text_segments`). -/
namespace LoxFrontEnd

/-- A piece of the source. -/
inductive Segment where
  | token (kind : Kind) (text : List Char)
  | blank (c : Char)
  | comment (text : List Char)
  | rejected (c : Char)
  /-- A quote that no other quote follows, and everything after it. -/
  | unterminated (text : List Char)
deriving DecidableEq, Repr

namespace Segment

def text : Segment → List Char
  | token _ text | comment text | unterminated text => text
  | blank c | rejected c => [c]

def isBlank (c : Char) : Bool := c == ' ' || c == '\t' || c == '\r' || c == '\n'

/-! ### The segments that start with a given character -/

/-- The kind of a character that is a token whatever follows it. -/
def kindOfSymbol? (c : Char) : Option Kind :=
  match c with
  | '(' => some (.bracket .leftParen)
  | ')' => some (.bracket .rightParen)
  | '{' => some (.bracket .leftBrace)
  | '}' => some (.bracket .rightBrace)
  | ',' => some (.separator .comma)
  | '.' => some (.separator .dot)
  | ';' => some (.separator .semicolon)
  | '-' => some (.operator .minus)
  | '+' => some (.operator .plus)
  | '*' => some (.operator .star)
  | _ => none

/-- The operators that a character is on its own and with an equals sign after it. -/
def comparison? (c : Char) : Option (Operator × Operator) :=
  match c with
  | '!' => some (.bang, .bangEqual)
  | '=' => some (.equal, .equalEqual)
  | '>' => some (.greater, .greaterEqual)
  | '<' => some (.less, .lessEqual)
  | _ => none

/-- Digits, and a point with digits after it if both are there. -/
def numeral (cs : List Char) : List Char :=
  let whole := cs.takeWhile Char.isDigit
  match cs.dropWhile Char.isDigit with
  | '.' :: d :: rest =>
    if d.isDigit then whole ++ '.' :: (d :: rest).takeWhile Char.isDigit else whole
  | _ => whole

/-- Letters and digits. -/
def word (cs : List Char) : List Char := cs.takeWhile Char.isAlphanum

def kindOfWord (text : List Char) : Kind :=
  match Keyword.ofText? (String.ofList text) with
  | some k => .keyword k
  | none => .identifier

/-- A string from its opening quote `c` on. -/
def quoted (c : Char) (rest : List Char) : Segment :=
  if '"' ∈ rest then .token .string (c :: rest.takeWhile (· != '"') ++ ['"'])
  else .unterminated (c :: rest)

/-- A slash `c`: two of them start a comment, which ends before the next newline. -/
def slash (c : Char) (rest : List Char) : Segment :=
  match rest with
  | '/' :: _ => .comment (c :: rest.takeWhile (· != '\n'))
  | _ => .token (.operator .slash) [c]

/-- A character that is an operator on its own, and another one before an equals sign. -/
def comparison (c : Char) (single double : Operator) (rest : List Char) : Segment :=
  match rest with
  | '=' :: _ => .token (.operator double) [c, '=']
  | _ => .token (.operator single) [c]

/-- The first segment of the text `c :: rest`. -/
def first (c : Char) (rest : List Char) : Segment :=
  if isBlank c then .blank c
  else if c = '"' then quoted c rest
  else if c = '/' then slash c rest
  else if c.isDigit then .token .number (numeral (c :: rest))
  else if c.isAlpha then .token (kindOfWord (word (c :: rest))) (word (c :: rest))
  else match kindOfSymbol? c with
    | some kind => .token kind [c]
    | none => match comparison? c with
      | some (single, double) => comparison c single double rest
      | none => .rejected c

/-! ### A segment is a beginning of the text -/

theorem takeWhile_prefix_of_mem {a : Char} {cs : List Char} (h : a ∈ cs) :
    cs.takeWhile (· != a) ++ [a] <+: cs := by
  induction cs with
  | nil => simp at h
  | cons c cs ih =>
    by_cases hc : c = a
    · subst hc
      simp
    · rw [List.takeWhile_cons_of_pos (by simpa using hc), List.cons_append]
      exact (List.prefix_cons_inj c).2 (ih (by simpa [Ne.symm hc] using h))

theorem numeral_prefix (cs : List Char) : numeral cs <+: cs := by
  have split := List.takeWhile_append_dropWhile (p := Char.isDigit) (l := cs)
  simp only [numeral]
  split
  · next d rest hd =>
    rw [hd] at split
    split
    · conv => rhs; rw [← split]
      rw [List.prefix_append_right_inj, List.prefix_cons_inj]
      exact List.takeWhile_prefix _
    · exact List.takeWhile_prefix _
  · exact List.takeWhile_prefix _

theorem numeral_ne_nil {c : Char} {rest : List Char} (h : c.isDigit = true) :
    numeral (c :: rest) ≠ [] := by
  have hdrop : (c :: rest).dropWhile Char.isDigit = rest.dropWhile Char.isDigit :=
    List.dropWhile_cons_of_pos h
  simp only [numeral, List.takeWhile_cons_of_pos h, hdrop]
  split
  · split <;> simp
  · simp

theorem quoted_text_prefix (c : Char) (rest : List Char) :
    (quoted c rest).text <+: c :: rest := by
  unfold quoted
  split
  · next h => exact (List.prefix_cons_inj c).2 (takeWhile_prefix_of_mem h)
  · exact List.prefix_refl _

theorem slash_text_prefix (c : Char) (rest : List Char) :
    (slash c rest).text <+: c :: rest := by
  unfold slash
  split
  · exact (List.prefix_cons_inj c).2 (List.takeWhile_prefix _)
  · simp [text]

theorem comparison_text_prefix (c : Char) (single double : Operator) (rest : List Char) :
    (comparison c single double rest).text <+: c :: rest := by
  unfold comparison
  split <;> simp [text]

/-- The first segment takes nothing but the first characters of the text. -/
theorem first_text_prefix (c : Char) (rest : List Char) : (first c rest).text <+: c :: rest := by
  unfold first
  repeat' split
  · simp [text]
  · exact quoted_text_prefix c rest
  · exact slash_text_prefix c rest
  · exact numeral_prefix _
  · exact List.takeWhile_prefix _
  · simp [text]
  · exact comparison_text_prefix _ _ _ _
  · simp [text]

/-- The first segment takes at least one character. -/
theorem first_text_ne_nil (c : Char) (rest : List Char) : (first c rest).text ≠ [] := by
  unfold first quoted slash comparison
  repeat' split
  all_goals try simp [text]
  · next h => exact numeral_ne_nil h
  · next h => simp [word, Char.isAlphanum, h]

end Segment

/-- What follows the first segment of `c :: rest`. -/
def Segment.after (c : Char) (rest : List Char) : List Char :=
  (c :: rest).drop (Segment.first c rest).text.length

theorem Segment.first_text_append_after (c : Char) (rest : List Char) :
    (Segment.first c rest).text ++ Segment.after c rest = c :: rest := by
  have h := List.prefix_iff_eq_take.1 (Segment.first_text_prefix c rest)
  rw [Segment.after]
  conv => lhs; lhs; rw [h]
  exact List.take_append_drop _ _

theorem Segment.length_after_lt (c : Char) (rest : List Char) :
    (Segment.after c rest).length < (c :: rest).length := by
  have h := congrArg List.length (Segment.first_text_append_after c rest)
  have hpos := List.length_pos_iff.2 (Segment.first_text_ne_nil c rest)
  rw [List.length_append] at h
  omega

/-- All segments of a text. -/
def segments : List Char → List Segment
  | [] => []
  | c :: rest => Segment.first c rest :: segments (Segment.after c rest)
termination_by cs => cs.length
decreasing_by exact Segment.length_after_lt c rest

@[simp] theorem segments_nil : segments [] = [] := by rw [segments]

theorem segments_cons (c : Char) (rest : List Char) :
    segments (c :: rest) = Segment.first c rest :: segments (Segment.after c rest) := by
  rw [segments]

/-- The segments of a text are the text, cut. -/
theorem flatMap_text_segments (cs : List Char) : (segments cs).flatMap Segment.text = cs := by
  fun_induction segments cs with
  | case1 => rfl
  | case2 c rest ih => rw [List.flatMap_cons, ih, Segment.first_text_append_after]

end LoxFrontEnd
