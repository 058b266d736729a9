/-! Complete entries.

An entry is complete when no bracket and no string is open at its end, or when
some closing bracket does not match: a wrong entry is shown at once. The text is
read character by character, with the closing brackets that are awaited. -/
namespace LoxFrontEnd.Session

/-- Where in a text a character stands. -/
inductive Place where
  | code | string | comment
deriving DecidableEq, Repr

/-- Is a text complete that goes on with the given characters? The nearest awaited bracket
comes first. -/
def isCompleteFrom (place : Place) (awaited : List Char) : List Char → Bool
  | [] => awaited.isEmpty && place != .string
  | c :: rest =>
    match place with
    | .string => isCompleteFrom (if c = '"' then .code else .string) awaited rest
    | .comment => isCompleteFrom (if c = '\n' then .code else .comment) awaited rest
    | .code =>
      if c = '"' then isCompleteFrom .string awaited rest
      else if c = '/' ∧ rest.head? = some '/' then isCompleteFrom .comment awaited rest
      else if c = '(' then isCompleteFrom .code (')' :: awaited) rest
      else if c = '{' then isCompleteFrom .code ('}' :: awaited) rest
      else if c = ')' ∨ c = '}' then
        match awaited with
        | next :: others => if next = c then isCompleteFrom .code others rest else true
        | [] => true
      else isCompleteFrom .code awaited rest

/-- No string literal, parenthesis or brace of the text is left open, or one is closed
wrongly. -/
def isComplete (text : String) : Bool := isCompleteFrom .code [] text.toList

end LoxFrontEnd.Session
