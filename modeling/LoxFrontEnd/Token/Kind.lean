/-! Kinds of tokens.

A token is a bracket, a separator, an operator, a reserved word, an identifier, a
string, a number, or the end of the source. Each kind has a name of its own, in
capitals. -/
namespace LoxFrontEnd

inductive Bracket where
  | leftParen | rightParen | leftBrace | rightBrace
deriving DecidableEq, Repr

inductive Separator where
  | comma | dot | semicolon
deriving DecidableEq, Repr

inductive Operator where
  | minus | plus | slash | star
  | bang | bangEqual | equal | equalEqual | greater | greaterEqual | less | lessEqual
deriving DecidableEq, Repr

/-- The reserved words. -/
inductive Keyword where
  | and | class_ | else_ | false | for_ | fun_ | if_ | nil
  | or | print | return_ | super | this | true | var | while_
deriving DecidableEq, Repr

inductive Kind where
  | bracket (b : Bracket)
  | separator (s : Separator)
  | operator (o : Operator)
  | identifier
  | string
  | number
  | keyword (k : Keyword)
  | eof
deriving DecidableEq, Repr

namespace Bracket

def all : List Bracket := [leftParen, rightParen, leftBrace, rightBrace]

def symbol : Bracket → Char
  | leftParen => '('
  | rightParen => ')'
  | leftBrace => '{'
  | rightBrace => '}'

def name : Bracket → String
  | leftParen => "LEFT_PAREN"
  | rightParen => "RIGHT_PAREN"
  | leftBrace => "LEFT_BRACE"
  | rightBrace => "RIGHT_BRACE"

end Bracket

namespace Separator

def all : List Separator := [comma, dot, semicolon]

def symbol : Separator → Char
  | comma => ','
  | dot => '.'
  | semicolon => ';'

def name : Separator → String
  | comma => "COMMA"
  | dot => "DOT"
  | semicolon => "SEMICOLON"

end Separator

namespace Operator

def all : List Operator :=
  [minus, plus, slash, star, bang, bangEqual, equal, equalEqual, greater, greaterEqual, less,
    lessEqual]

def symbol : Operator → List Char
  | minus => ['-']
  | plus => ['+']
  | slash => ['/']
  | star => ['*']
  | bang => ['!']
  | bangEqual => ['!', '=']
  | equal => ['=']
  | equalEqual => ['=', '=']
  | greater => ['>']
  | greaterEqual => ['>', '=']
  | less => ['<']
  | lessEqual => ['<', '=']

def name : Operator → String
  | minus => "MINUS"
  | plus => "PLUS"
  | slash => "SLASH"
  | star => "STAR"
  | bang => "BANG"
  | bangEqual => "BANG_EQUAL"
  | equal => "EQUAL"
  | equalEqual => "EQUAL_EQUAL"
  | greater => "GREATER"
  | greaterEqual => "GREATER_EQUAL"
  | less => "LESS"
  | lessEqual => "LESS_EQUAL"

end Operator

namespace Keyword

/-- The reserved words in alphabetical order. -/
def all : List Keyword :=
  [and, class_, else_, false, for_, fun_, if_, nil, or, print, return_, super, this, true, var,
    while_]

def text : Keyword → String
  | and => "and"
  | class_ => "class"
  | else_ => "else"
  | false => "false"
  | for_ => "for"
  | fun_ => "fun"
  | if_ => "if"
  | nil => "nil"
  | or => "or"
  | print => "print"
  | return_ => "return"
  | super => "super"
  | this => "this"
  | true => "true"
  | var => "var"
  | while_ => "while"

def name : Keyword → String
  | and => "AND"
  | class_ => "CLASS"
  | else_ => "ELSE"
  | false => "FALSE"
  | for_ => "FOR"
  | fun_ => "FUN"
  | if_ => "IF"
  | nil => "NIL"
  | or => "OR"
  | print => "PRINT"
  | return_ => "RETURN"
  | super => "SUPER"
  | this => "THIS"
  | true => "TRUE"
  | var => "VAR"
  | while_ => "WHILE"

/-- The reserved word that a text spells, letter by letter and in lower case. -/
def ofText? (text : String) : Option Keyword := all.find? fun k => k.text == text

theorem mem_all (k : Keyword) : k ∈ all := by cases k <;> decide

/-- A text is looked up as a word exactly if it is its spelling. -/
theorem ofText?_eq_some_iff {text : String} {k : Keyword} : ofText? text = some k ↔ text = k.text := by
  constructor
  · intro h
    have := List.find?_some h
    exact (beq_iff_eq.1 this).symm
  · rintro rfl
    cases k <;> decide

end Keyword

namespace Kind

def all : List Kind :=
  Bracket.all.map bracket ++ Separator.all.map separator ++ Operator.all.map operator ++
    [identifier, string, number] ++ Keyword.all.map keyword ++ [eof]

def name : Kind → String
  | bracket b => b.name
  | separator s => s.name
  | operator o => o.name
  | identifier => "IDENTIFIER"
  | string => "STRING"
  | number => "NUMBER"
  | keyword k => k.name
  | eof => "EOF"

instance : ToString Kind := ⟨name⟩

def ofName? (name : String) : Option Kind := all.find? fun k => k.name == name

def isKeyword : Kind → Bool
  | keyword _ => true
  | _ => false

/-- The kinds whose tokens carry a value. -/
def isLiteral : Kind → Bool
  | string | number => true
  | _ => false

def isOperator : Kind → Bool
  | operator _ => true
  | _ => false

theorem mem_all (k : Kind) : k ∈ all := by
  cases k with
  | bracket b => cases b <;> decide
  | separator s => cases s <;> decide
  | operator o => cases o <;> decide
  | keyword k => cases k <;> decide
  | _ => decide

example : all.length = 39 := by decide

end Kind

end LoxFrontEnd
