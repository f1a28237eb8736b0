import Stencil.Decimal.Layout
import Stencil.Expr.Token

/-! # Writing expressions

The tokens of an expression, and the text of tokens. A group is written in parentheses, a filter
without arguments without them, and tokens stand one space apart. -/
namespace Stencil

def Token.spelling : Token → List Char
  | word name => name.toList
  | text s => '"' :: escapeText s.toList ++ ['"']
  | int n => (toString n.toInt).toList
  | float x => x.debugText.toList
  | symbol s => s.spelling.toList
  | connective .and => "and".toList
  | connective .or => "or".toList
  | negation => "not".toList

def spell (tokens : List Token) : List Char := [' '].intercalate (tokens.map Token.spelling)

/-- The token of a constant. The truth values have none; a name stands in their place. -/
def Literal.token : Literal → Token
  | text s => .text s
  | int n => .int n
  | float x => .float x
  | bool b => .word (toString b)

def Argument.token : Argument → Token
  | constant l => l.token
  | lookup name => .word name

/-- The tokens of a filter, behind its pipe. -/
def FilterCall.tokens (call : FilterCall) : List Token :=
  .symbol .pipe :: .word call.name ::
    if call.arguments = [] then []
    else .symbol .opening ::
      (call.arguments.map Argument.token).intersperse (.symbol .comma) ++ [.symbol .closing]

def Pipeline.tokens (p : Pipeline) : List Token :=
  .word p.name :: p.filters.flatMap FilterCall.tokens

def Operand.tokens : Operand → List Token
  | pipeline p => p.tokens
  | constant l => [l.token]

def negationTokens (negated : Bool) : List Token := if negated then [.negation] else []

mutual

def Term.tokens : Term → List Token
  | operand negated x => negationTokens negated ++ x.tokens
  | comparison op left right => left.tokens ++ .symbol (.comparator op) :: right.tokens
  | group negated first rest =>
    negationTokens negated ++ .symbol .opening :: (first.tokens ++ Term.tokensAfter rest) ++
      [.symbol .closing]

def Term.tokensAfter : List (Connective × Term) → List Token
  | [] => []
  | (op, t) :: rest => .connective op :: t.tokens ++ Term.tokensAfter rest

end

def Condition.tokens (c : Condition) : List Token := c.first.tokens ++ Term.tokensAfter c.rest

end Stencil
