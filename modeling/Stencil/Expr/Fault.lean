import Stencil.Expr.Token

/-! # Faults of expressions

Everything that can be wrong with an expression, and what is said about it. -/
namespace Stencil

inductive Expectation where
  | name
  | condition
  | filterArgument
  | endOfExpression
  | endOfCondition
deriving DecidableEq, Repr

def Expectation.description : Expectation → String
  | name => "name"
  | condition => "condition"
  | filterArgument => "filter argument"
  | endOfExpression => "`|` or end of expression"
  | endOfCondition => "`and`, `or` or end of condition"

inductive SyntaxFault where
  /-- A character that begins no token, at its distance in bytes from the start. -/
  | stray (c : Char) (offset : Nat)
  /-- A token, or the end of the input, in the wrong place. -/
  | unexpected (found : Option Token) (expected : Expectation)
  | unclosedCall
  | missingComma
  | missingFilterName
  | tooDeep
  | unclosedGroup
  | unopenedGroup
  | negatedComparison
  | comparedGroup
deriving DecidableEq

namespace SyntaxFault

def message : SyntaxFault → String
  | stray c offset =>
    "invalid token: " ++ String.singleton c ++ " (at offset " ++ toString offset ++ ")"
  | unexpected found expected =>
    "unexpected " ++ (found.map Token.description).getD "end of input" ++
      ", expected " ++ expected.description
  | unclosedCall => "mismatched parentheses in filter call"
  | missingComma => "missing comma between filter arguments"
  | missingFilterName => "missing filter name after `|`"
  | tooDeep => "condition is nested too deeply"
  | unclosedGroup => "mismatched parentheses in condition"
  | unopenedGroup => "mismatched parentheses"
  | negatedComparison => "`not` cannot be used next to a comparison, use the converse operator"
  | comparedGroup => "a parenthesized condition cannot be compared"

def error (f : SyntaxFault) : Error := .new .syntaxError f.message

end SyntaxFault

end Stencil
