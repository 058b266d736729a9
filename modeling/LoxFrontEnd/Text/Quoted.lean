import LoxFrontEnd.Text.Visible

/-! Quoted text.

A text between double quotes, with a backslash before whatever would end it or
would not show: the quote, the backslash and some controls have letters of their
own, other characters are written by their code points. -/
namespace LoxFrontEnd.Text

/-- The code point of a character in braces, in hexadecimal digits. -/
def codePoint (c : Char) : List Char :=
  ['\\', 'u', '{'] ++ Nat.toDigits 16 c.toNat ++ ['}']

def quoteChar (c : Char) : List Char :=
  match c with
  | '"' => ['\\', '"']
  | '\\' => ['\\', '\\']
  | '\n' => ['\\', 'n']
  | '\r' => ['\\', 'r']
  | '\t' => ['\\', 't']
  | '\x00' => ['\\', '0']
  | c => if isVisible c then [c] else codePoint c

def quote (s : String) : String :=
  String.ofList ('"' :: s.toList.flatMap quoteChar ++ ['"'])

end LoxFrontEnd.Text
