import LoxFrontEnd.Token.Basic

/-! Expressions.

An expression is a literal, a group, or an operator token between two
expressions. It is written with every operator before its operands and inside
parentheses, so that no precedence is needed to read it. -/
namespace LoxFrontEnd

inductive Expr where
  | literal (value : Literal)
  | group (inner : Expr)
  | binary (left : Expr) (operator : Token) (right : Expr)
deriving BEq, Inhabited, Repr

namespace Expr

/-- The parenthesised form. The absent literal is written `nil`. -/
def toText : Expr → String
  | literal .none => "nil"
  | literal value => value.toText
  | group inner => "(group " ++ inner.toText ++ ")"
  | binary left operator right =>
    "(" ++ operator.lexeme ++ " " ++ left.toText ++ " " ++ right.toText ++ ")"

instance : ToString Expr := ⟨toText⟩

end Expr

end LoxFrontEnd
