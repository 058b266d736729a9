import LoxFrontEnd.Session.Balance

/-! Entries.

An entry is made of one line or of several: lines are added, with their line
ends between them, until the entry is complete. A backspace in the input erases
the character before it. -/
namespace LoxFrontEnd.Session

/-- Cuts bytes into lines, each with the newline that ends it; the last one may have none. -/
def lines : List UInt8 → List (List UInt8)
  | [] => []
  | b :: rest =>
    if b = 10 then [b] :: lines rest
    else match lines rest with
      | [] => [[b]]
      | line :: others => (b :: line) :: others

/-- The bytes are their lines, one after the other. -/
theorem flatten_lines (bytes : List UInt8) : (lines bytes).flatten = bytes := by
  fun_induction lines bytes <;> simp_all

/-- A newline ends a line, so that the lines before it and those after it are apart. -/
theorem lines_append_newline (a b : List UInt8) :
    lines (a ++ 10 :: b) = lines (a ++ [10]) ++ lines b := by
  induction a with
  | nil => simp [lines]
  | cons c a ih =>
    by_cases hc : c = 10
    · simp [lines, hc, ih]
    · have hne : lines (a ++ [10]) ≠ [] := fun h => by
        have := flatten_lines (a ++ [10])
        simp [h] at this
      obtain ⟨line, others, h⟩ := List.exists_cons_of_ne_nil hne
      simp [lines, hc, ih, h]

/-- A line without its end, and its end: nothing, a newline, or a carriage return and a
newline. -/
def splitEnd (line : List Char) : List Char × List Char :=
  match line.reverse with
  | '\n' :: '\r' :: rest => (rest.reverse, ['\r', '\n'])
  | '\n' :: rest => (rest.reverse, ['\n'])
  | _ => (line, [])

theorem splitEnd_append (line : List Char) : (splitEnd line).1 ++ (splitEnd line).2 = line := by
  unfold splitEnd
  split
  · next h => rw [← line.reverse_reverse, h]; simp
  · next h => rw [← line.reverse_reverse, h]; simp
  · simp

/-- The text that is left when every backspace has erased the character before it. The characters
kept so far are given, the last first.

A carriage return and a newline after it are erased as one. No other characters are, although a
line editor erases a whole grapheme cluster, such as a letter and the accents written behind it:
the text left is the editor's where no other cluster has more than one character, as in ASCII. -/
def eraseFrom (kept : List (List Char)) : List Char → List Char
  | [] => kept.reverse.flatten
  | '\x08' :: rest => eraseFrom (kept.drop 1) rest
  | '\r' :: '\n' :: rest => eraseFrom (['\r', '\n'] :: kept) rest
  | c :: rest => eraseFrom ([c] :: kept) rest

/-- What its backspaces leave of a typed text. Each erases one character, or a carriage return and
its newline, where a line editor erases a grapheme cluster; `eraseFrom` says when that is the
same. -/
def eraseBackspaces (text : List Char) : List Char := eraseFrom [] text

/-- A text without backspaces stays as it is. -/
theorem eraseFrom_of_notMem {text : List Char} (h : '\x08' ∉ text) (kept : List (List Char)) :
    eraseFrom kept text = kept.reverse.flatten ++ text := by
  fun_induction eraseFrom kept text <;> simp_all

theorem eraseBackspaces_of_notMem {text : List Char} (h : '\x08' ∉ text) :
    eraseBackspaces text = text := by
  simp [eraseBackspaces, eraseFrom_of_notMem h]

/-- What a line makes of the text before it. -/
inductive Reading where
  | entry (text : String)
  | unfinished (buffer : List Char)
deriving DecidableEq, Repr

/-- Adds a line to the text of an unfinished entry. -/
def addLine (buffer line : List Char) : Reading :=
  let (body, lineEnd) := splitEnd line
  let text := eraseBackspaces (buffer ++ body)
  if isComplete (String.ofList text) then .entry (String.ofList text)
  else .unfinished (text ++ lineEnd)

end LoxFrontEnd.Session
