import LoxFrontEnd.Number.Reading
import LoxFrontEnd.Scan

/-! The scanner.

A scanner stands at an offset of its source and moves on by the width of what it reads. It sees
the source only through slices between two offsets, and a slice fails if one of them lies
inside a character or past the end, or if they are in the wrong order. Each turn of its
loop reads one token, blank, comment or fault; a loop inside of a turn passes the characters
of a comment, a string, a numeral or a word. No loop needs more turns than there are bytes,
because every turn that goes on has read a character. -/
namespace LoxFrontEnd

structure Scanner where
  source : List Char
  tokens : List Token
  diagnostics : Diagnostics
  /-- The offset of the first character of the current lexeme. -/
  start : Nat
  /-- The offset of the next unread character. -/
  current : Nat
  line : Nat

/-- What a scanner does: it goes on in another state, or it has taken a bad slice. -/
abbrev Scanning := StateT Scanner (Except Text.BadRange)

namespace Scanner

def new (source : List Char) : Scanner := ⟨source, [], .empty, 0, 0, 1⟩

/-- The offset of the end of the source. -/
def stop (s : Scanner) : Nat := Text.width s.source

def isAtEnd (s : Scanner) : Bool := s.stop ≤ s.current

/-! ### Reading -/

def slice (start stop : Nat) : Scanning (List Char) := fun s =>
  (Text.slice start stop s.source).map fun part => (part, s)

/-- The text that is not read yet. -/
def unread : Scanning (List Char) := fun s => slice s.current s.stop s

def peek : Scanning (Option Char) := return (← unread).head?

/-- The character behind the next one. -/
def peekNext : Scanning (Option Char) := return (← unread)[1]?

/-- The state behind the next character. -/
def pass (s : Scanner) (c : Char) : Scanner := { s with current := s.current + c.utf8Size }

def advance : Scanning (Option Char) := do
  let c ← peek
  modify fun s => c.elim s s.pass
  return c

/-- Reads the next character only if it is the expected one. -/
def nextIs (expected : Char) : Scanning Bool := do
  if (← peek) = some expected then
    modify (·.pass expected)
    return true
  else return false

def lexeme : Scanning (List Char) := fun s => slice s.start s.current s

/-! ### Loops that pass characters -/

/-- A loop inside of a turn. -/
structure Loop where
  /-- The characters that it passes. -/
  passes : Char → Bool
  /-- Does it count the newlines among them? -/
  counts : Bool

namespace Loop

def comment : Loop := ⟨(· != '\n'), false⟩

def string : Loop := ⟨(· != '"'), true⟩

def digits : Loop := ⟨Char.isDigit, false⟩

def word : Loop := ⟨Char.isAlphanum, false⟩

/-- The lines that are passed with a text. -/
def lines (l : Loop) (cs : List Char) : Nat := if l.counts then cs.count '\n' else 0

end Loop

/-- One turn of a loop. It says whether the loop goes on. -/
def turn (l : Loop) : Scanning Bool := do
  match ← peek with
  | some c =>
    if l.passes c then
      let _ ← advance
      modify fun s => { s with line := s.line + l.lines [c] }
      return true
    else return false
  | none => return false

/-! ### Progress -/

/-- The second state is one of the same source, and no character is unread in it that was not in
the first. -/
structure Onward (s t : Scanner) : Prop where
  source : t.source = s.source
  current : s.current ≤ t.current

theorem Onward.refl (s : Scanner) : Onward s s := ⟨rfl, Nat.le_refl _⟩

theorem Onward.trans {s t u : Scanner} (h : Onward s t) (h' : Onward t u) : Onward s u :=
  ⟨h'.source.trans h.source, Nat.le_trans h.current h'.current⟩

/-- What the scanner does never takes it back. -/
def MovesOn {α : Type} (m : Scanning α) : Prop := ∀ s a t, m s = .ok (a, t) → Onward s t

/-- A sequence comes to an end exactly if both parts do. -/
theorem bind_eq_ok_iff {α β : Type} {m : Scanning α} {f : α → Scanning β} {s u : Scanner} {b : β} :
    (m >>= f) s = .ok (b, u) ↔ ∃ a t, m s = .ok (a, t) ∧ f a t = .ok (b, u) := by
  show (m s).bind (fun p => f p.1 p.2) = _ ↔ _
  cases m s with
  | error e => simp [Except.bind]
  | ok p =>
    obtain ⟨a, t⟩ := p
    constructor
    · exact fun h => ⟨a, t, rfl, h⟩
    · rintro ⟨a, t, ⟨⟩, h⟩
      exact h

namespace MovesOn
variable {α β : Type}

theorem pure (a : α) : MovesOn (pure a) := by
  rintro s a t ⟨⟩
  exact .refl s

theorem bind {m : Scanning α} {f : α → Scanning β} (hm : MovesOn m) (hf : ∀ a, MovesOn (f a)) :
    MovesOn (m >>= f) := by
  intro s b u h
  obtain ⟨a, t, hfirst, hthen⟩ := bind_eq_ok_iff.1 h
  exact (hm s a t hfirst).trans (hf a t b u hthen)

theorem modify {f : Scanner → Scanner} (h : ∀ s, Onward s (f s)) : MovesOn (modify f) := by
  rintro s a t ⟨⟩
  exact h s

end MovesOn

theorem slice_eq_ok_iff {start stop : Nat} {s t : Scanner} {part : List Char} :
    slice start stop s = .ok (part, t) ↔ Text.slice start stop s.source = .ok part ∧ t = s := by
  rw [slice]
  cases Text.slice start stop s.source with
  | error e => simp [Except.map]
  | ok found => simp [Except.map, eq_comm]

theorem MovesOn.slice (start stop : Nat) : MovesOn (slice start stop) := by
  intro s part t h
  rw [(slice_eq_ok_iff.1 h).2]
  exact .refl s

/-- What is unread reaches to the end of the source. -/
theorem unread_eq_ok {s t : Scanner} {rest : List Char} (h : unread s = .ok (rest, t)) :
    s.current + Text.width rest = s.stop ∧ t = s := by
  obtain ⟨hslice, ht⟩ := slice_eq_ok_iff.1 h
  obtain ⟨before, after, -, hcurrent, hstop⟩ := Text.slice_eq_ok_iff.1 hslice
  refine ⟨?_, ht⟩
  rw [hcurrent, hstop, Text.width_append]

theorem MovesOn.unread : MovesOn unread := by
  intro s rest t h
  rw [(unread_eq_ok h).2]
  exact .refl s

theorem MovesOn.peek : MovesOn peek := unread.bind fun _ => .pure _

theorem MovesOn.peekNext : MovesOn peekNext := unread.bind fun _ => .pure _

theorem MovesOn.lexeme : MovesOn lexeme := fun s => MovesOn.slice _ _ s

theorem pass_onward (s : Scanner) (c : Char) : Onward s (s.pass c) := ⟨rfl, Nat.le_add_right _ _⟩

/-- There is a next character exactly if the end is not reached, and it lies inside the source. -/
theorem peek_eq_ok {s t : Scanner} {next : Option Char} (h : peek s = .ok (next, t)) :
    t = s ∧ (next = none → s.isAtEnd) ∧ ∀ c ∈ next, s.current + c.utf8Size ≤ s.stop := by
  obtain ⟨rest, u, hunread, hpure⟩ := bind_eq_ok_iff.1 h
  obtain ⟨hwidth, rfl⟩ := unread_eq_ok hunread
  cases hpure
  cases rest with
  | nil =>
    refine ⟨rfl, fun _ => ?_, fun c hc => by cases hc⟩
    exact decide_eq_true (Nat.le_of_eq hwidth.symm)
  | cons d rest =>
    refine ⟨rfl, fun hnone => (nomatch hnone), fun c hc => ?_⟩
    obtain rfl : d = c := Option.some.inj hc
    rw [← hwidth, Text.width_cons]
    omega

theorem advance_eq_ok {s t : Scanner} {next : Option Char} (h : advance s = .ok (next, t)) :
    peek s = .ok (next, s) ∧ t = next.elim s s.pass := by
  obtain ⟨c, u, hpeek, hrest⟩ := bind_eq_ok_iff.1 h
  obtain ⟨rfl, -⟩ := peek_eq_ok hpeek
  cases hrest
  exact ⟨hpeek, rfl⟩

theorem MovesOn.advance : MovesOn advance := by
  intro s next t h
  rw [(advance_eq_ok h).2]
  cases next with
  | none => exact .refl s
  | some c => exact pass_onward s c

theorem MovesOn.nextIs (expected : Char) : MovesOn (nextIs expected) := by
  refine peek.bind fun next => ?_
  split
  · exact (MovesOn.modify fun s => pass_onward s expected).bind fun _ => .pure _
  · exact .pure _

/-- A turn that goes on has read a character of the source, and one that does not has changed
nothing. -/
theorem turn_eq_ok {l : Loop} {s t : Scanner} {goesOn : Bool} (h : turn l s = .ok (goesOn, t)) :
    if goesOn then t.source = s.source ∧ s.current < t.current ∧ t.current ≤ s.stop else t = s := by
  obtain ⟨next, u, hpeek, hturn⟩ := bind_eq_ok_iff.1 h
  obtain ⟨rfl, -, hbound⟩ := peek_eq_ok hpeek
  cases next with
  | none => cases hturn; rfl
  | some c =>
    dsimp only at hturn
    split at hturn
    · obtain ⟨next, v, hadvance, hcount⟩ := bind_eq_ok_iff.1 hturn
      obtain ⟨hagain, rfl⟩ := advance_eq_ok hadvance
      cases hpeek.symm.trans hagain
      cases hcount
      exact ⟨rfl, Nat.lt_add_of_pos_right c.utf8Size_pos, hbound c rfl⟩
    · cases hturn
      rfl

/-- Passes characters as long as the loop goes on. -/
def skip (l : Loop) : Scanning Unit := fun s =>
  match _h : turn l s with
  | .error e => .error e
  | .ok (false, t) => .ok ((), t)
  | .ok (true, t) => skip l t
termination_by s => s.stop - s.current
decreasing_by
  obtain ⟨hsource, hlt, hle⟩ := turn_eq_ok _h
  simp only [stop, hsource] at hle ⊢
  omega

theorem MovesOn.skip (l : Loop) : MovesOn (skip l) := by
  intro s a t h
  fun_induction Scanner.skip l s with
  | case1 => cases h
  | case2 s u hturn =>
    cases h
    obtain rfl := turn_eq_ok hturn
    exact .refl _
  | case3 s u hturn ih =>
    obtain ⟨hsource, hlt, -⟩ := turn_eq_ok hturn
    exact Onward.trans ⟨hsource, Nat.le_of_lt hlt⟩ (ih h)

/-! ### Tokens and faults -/

def addToken (kind : Kind) (literal : Literal) : Scanning Unit := do
  let text ← lexeme
  modify fun s => { s with
    tokens := s.tokens ++
      [⟨kind, String.ofList text, literal, s.line, ⟨s.start, s.current⟩⟩] }

def report (fault : Fault) : Scanning Unit :=
  modify fun s => { s with
    diagnostics := s.diagnostics.report { line := s.line, span := ⟨s.start, s.current⟩, fault } }

def scanComparison (single double : Operator) : Scanning Unit := do
  let both ← nextIs '='
  addToken (.operator (if both then double else single)) .none

def scanSlash : Scanning Unit := do
  if ← nextIs '/' then skip .comment
  else addToken (.operator .slash) .none

/-- The text of a string that is closed, without its quotes. -/
def quotedText : Scanning (List Char) := fun s => slice (s.start + 1) (s.current - 1) s

def scanString : Scanning Unit := do
  skip .string
  if (← get).isAtEnd then report .unterminatedString
  else
    let _ ← advance
    let text ← quotedText
    addToken .string (.text (String.ofList text))

/-- A point and the digits after it, if there is a digit. -/
def scanFraction : Scanning Unit := do
  if (← peek) = some '.' then
    if (← peekNext).any Char.isDigit then
      let _ ← advance
      skip .digits

/-- Reads on behind the first digit of a numeral. The text is all that was read of it. -/
def numeralText : Scanning (List Char) := do
  skip .digits
  scanFraction
  lexeme

/-- A text that denotes no number would count as a NaN. -/
def scanNumber : Scanning Unit := do
  let text ← numeralText
  addToken .number (.number ((Number.ofText? text).getD .nan))

def scanWord : Scanning Unit := do
  skip .word
  let text ← lexeme
  addToken (Segment.kindOfWord text) .none

/-- What there is behind a first character that stands for no kind. -/
def scanOther (c : Char) : Scanning Unit :=
  if c = '/' then scanSlash
  else if c = ' ' ∨ c = '\r' ∨ c = '\t' then return
  else if c = '\n' then modify fun s => { s with line := s.line + 1 }
  else if c = '"' then scanString
  else if c.isDigit then scanNumber
  else if c.isAlpha then scanWord
  else report (.unexpectedCharacter c)

/-- What there is behind a first character. -/
def scanBehind (c : Char) : Scanning Unit :=
  match Segment.kindOfSymbol? c, Segment.comparison? c with
  | some kind, _ => addToken kind .none
  | none, some (single, double) => scanComparison single double
  | none, none => scanOther c

def scanToken : Scanning Unit := do
  match ← advance with
  | none => return
  | some c => scanBehind c

/-- A turn of the main loop. -/
def scanNext : Scanning Unit := do
  modify fun s => { s with start := s.current }
  scanToken

theorem MovesOn.addToken (kind : Kind) (literal : Literal) : MovesOn (addToken kind literal) :=
  lexeme.bind fun _ => .modify fun _ => ⟨rfl, Nat.le_refl _⟩

theorem MovesOn.report (fault : Fault) : MovesOn (report fault) :=
  .modify fun _ => ⟨rfl, Nat.le_refl _⟩

theorem MovesOn.scanSlash : MovesOn scanSlash := by
  refine (nextIs '/').bind fun both => ?_
  cases both with
  | true => exact skip .comment
  | false => exact addToken _ _

theorem MovesOn.scanString : MovesOn scanString := by
  refine (skip .string).bind fun _ => ?_
  refine bind (m := get) ?_ fun s => ?_
  · rintro s a t ⟨⟩
    exact .refl s
  · split
    · exact report _
    · exact advance.bind fun _ => bind (fun s => slice _ _ s) fun _ => addToken _ _

theorem MovesOn.scanFraction : MovesOn scanFraction := by
  refine peek.bind fun next => ?_
  split
  · refine peekNext.bind fun behind => ?_
    split
    · exact advance.bind fun _ => skip .digits
    · exact .pure _
  · exact .pure _

theorem MovesOn.numeralText : MovesOn numeralText :=
  (skip .digits).bind fun _ => scanFraction.bind fun _ => lexeme

theorem MovesOn.scanOther (c : Char) : MovesOn (scanOther c) := by
  unfold Scanner.scanOther
  repeat' split
  · exact scanSlash
  · exact .pure _
  · exact .modify fun _ => ⟨rfl, Nat.le_refl _⟩
  · exact scanString
  · exact numeralText.bind fun _ => addToken _ _
  · exact (skip .word).bind fun _ => lexeme.bind fun _ => addToken _ _
  · exact report _

theorem MovesOn.scanBehind (c : Char) : MovesOn (scanBehind c) := by
  unfold Scanner.scanBehind
  split
  · exact addToken _ _
  · exact (nextIs '=').bind fun _ => addToken _ _
  · exact scanOther c

/-! ### The scan -/

/-- A turn of the main loop reads a character if there is one. -/
theorem current_lt_of_scanNext {s t : Scanner} {a : Unit} (h : scanNext s = .ok (a, t))
    (hend : ¬ s.isAtEnd) : t.source = s.source ∧ s.current < t.current := by
  obtain ⟨⟨⟩, u, hstart, htoken⟩ := bind_eq_ok_iff.1 h
  cases hstart
  obtain ⟨next, v, hadvance, hrest⟩ := bind_eq_ok_iff.1 htoken
  obtain ⟨hpeek, rfl⟩ := advance_eq_ok hadvance
  cases next with
  | none => exact absurd ((peek_eq_ok hpeek).2.1 rfl) hend
  | some c =>
    obtain ⟨hsource, hle⟩ := MovesOn.scanBehind c _ _ _ hrest
    exact ⟨hsource, Nat.lt_of_lt_of_le (Nat.lt_add_of_pos_right c.utf8Size_pos) hle⟩

/-- Takes turns up to the end of the source. -/
def run (s : Scanner) : Except Text.BadRange Scanner :=
  if _hend : s.isAtEnd then .ok s
  else match _h : scanNext s with
    | .error e => .error e
    | .ok (_, t) => run t
termination_by s.stop - s.current
decreasing_by
  obtain ⟨hsource, hlt⟩ := current_lt_of_scanNext _h _hend
  simp only [isAtEnd, decide_eq_true_eq] at _hend
  simp only [stop, hsource] at _hend ⊢
  omega

/-- The token for the end of the source closes the tokens. -/
def finish (s : Scanner) : Scanned :=
  ⟨s.tokens ++ [⟨.eof, "", .none, s.line, ⟨s.stop, s.stop⟩⟩], s.diagnostics⟩

/-- Scans a source from its beginning. -/
def scanSource (source : String) : Except Text.BadRange Scanned :=
  (new source.toList).run.map finish

end Scanner

end LoxFrontEnd
