import Stencil.Expr.Lexer

/-! # Reading expressions

Each reader takes what it recognizes from the front of the tokens and gives back the others.
Groups may nest to a fixed depth, over which the readers of terms recur; chains of terms recur
over a count that the tokens left over bound. -/
namespace Stencil.Parser

def argument : Token → Except SyntaxFault Argument
  | .text s => .ok (.constant (.text s))
  | .int n => .ok (.constant (.int n))
  | .float x => .ok (.constant (.float x))
  | .word name => .ok (.lookup name)
  | t => .error (.unexpected (some t) .filterArgument)

mutual

def filters : List Token → Except SyntaxFault (List FilterCall × List Token)
  | .symbol .pipe :: .word name :: .symbol .opening :: .symbol .closing :: rest => do
    let (calls, rest) ← filters rest
    return (⟨name, []⟩ :: calls, rest)
  | .symbol .pipe :: .word name :: .symbol .opening :: rest => arguments name [] rest
  | .symbol .pipe :: .word name :: rest => do
    let (calls, rest) ← filters rest
    return (⟨name, []⟩ :: calls, rest)
  | .symbol .pipe :: _ => .error .missingFilterName
  | rest => .ok ([], rest)

/-- The other arguments of a filter, of which at least one follows, and the filters after it. -/
def arguments (name : String) (given : List Argument) :
    List Token → Except SyntaxFault (List FilterCall × List Token)
  | [] => .error .unclosedCall
  | t :: rest => do
    let a ← argument t
    match rest with
    | .symbol .comma :: rest => arguments name (given ++ [a]) rest
    | .symbol .closing :: rest => do
      let (calls, rest) ← filters rest
      return (⟨name, given ++ [a]⟩ :: calls, rest)
    | [] => .error .unclosedCall
    | _ :: _ => .error .missingComma

end

def pipeline : List Token → Except SyntaxFault (Pipeline × List Token)
  | .word name :: rest => do
    let (calls, rest) ← filters rest
    return (⟨name, calls⟩, rest)
  | t :: _ => .error (.unexpected (some t) .name)
  | [] => .error (.unexpected none .name)

def operand : List Token → Except SyntaxFault (Operand × List Token)
  | .text s :: rest => .ok (.constant (.text s), rest)
  | .int n :: rest => .ok (.constant (.int n), rest)
  | .float x :: rest => .ok (.constant (.float x), rest)
  | .word name :: rest => do
    let (p, rest) ← pipeline (.word name :: rest)
    return (.pipeline p, rest)
  | t :: _ => .error (.unexpected (some t) .condition)
  | [] => .error (.unexpected none .condition)

/-- Whether an odd number of negations stands in front, and what follows them. -/
def negations (negated : Bool) : List Token → Bool × List Token
  | .negation :: rest => negations (!negated) rest
  | rest => (negated, rest)

/-- A term before it is known whether it is compared. -/
inductive Unary where
  | operand (negated : Bool) (x : Operand)
  | group (negated : Bool) (c : Condition)

def unary (group : List Token → Except SyntaxFault (Condition × List Token))
    (tokens : List Token) : Except SyntaxFault (Unary × List Token) :=
  match negations false tokens with
  | (negated, .symbol .opening :: rest) => do
    let (c, rest) ← group rest
    match rest with
    | .symbol .closing :: rest => return (.group negated c, rest)
    | _ => .error .unclosedGroup
  | (negated, rest) => do
    let (x, rest) ← operand rest
    return (.operand negated x, rest)

/-- Only a plain operand can be compared. -/
def comparable : Unary → Except SyntaxFault Operand
  | .operand false x => .ok x
  | .operand true _ => .error .negatedComparison
  | .group .. => .error .comparedGroup

def term (group : List Token → Except SyntaxFault (Condition × List Token))
    (tokens : List Token) : Except SyntaxFault (Term × List Token) := do
  let (left, rest) ← unary group tokens
  match rest with
  | .symbol (.comparator op) :: rest => do
    let left ← comparable left
    match rest with
    | .negation :: _ => .error .negatedComparison
    | _ => do
      let (right, rest) ← unary group rest
      let right ← comparable right
      return (.comparison op left right, rest)
  | _ => match left with
    | .operand negated x => return (.operand negated x, rest)
    | .group negated c => return (.group negated c.first c.rest, rest)

/-- Further terms, each behind a connective; `fuel` bounds their number. -/
def continuation (term : List Token → Except SyntaxFault (Term × List Token)) :
    Nat → List Token → Except SyntaxFault (List (Connective × Term) × List Token)
  | fuel + 1, .connective op :: rest => do
    let (t, rest) ← term rest
    let (more, rest) ← continuation term fuel rest
    return ((op, t) :: more, rest)
  | _, rest => .ok ([], rest)

def chain (term : List Token → Except SyntaxFault (Term × List Token))
    (tokens : List Token) : Except SyntaxFault (Condition × List Token) := do
  let (first, rest) ← term tokens
  let (more, rest) ← continuation term rest.length rest
  return (⟨first, more⟩, rest)

/-- A condition in which fewer than `depth` groups nest one inside the other. -/
def conditionWithin : Nat → List Token → Except SyntaxFault (Condition × List Token)
  | 0, _ => .error .tooDeep
  | depth + 1, tokens => chain (term (conditionWithin depth)) tokens

def maxDepth : Nat := 150

def condition (tokens : List Token) : Except SyntaxFault (Condition × List Token) :=
  conditionWithin (maxDepth + 1) tokens

def finish {α : Type} (expected : Expectation) : α × List Token → Except SyntaxFault α
  | (a, []) => .ok a
  | (_, .symbol .closing :: _) => .error .unopenedGroup
  | (_, t :: _) => .error (.unexpected (some t) expected)

def pipelineOfTokens (tokens : List Token) : Except SyntaxFault Pipeline := do
  finish .endOfExpression (← pipeline tokens)

def conditionOfTokens (tokens : List Token) : Except SyntaxFault Condition := do
  finish .endOfCondition (← condition tokens)

end Parser

def Pipeline.ofText (text : List Char) : Except SyntaxFault Pipeline := do
  Parser.pipelineOfTokens (← Lexer.tokens text)

def Condition.ofText (text : List Char) : Except SyntaxFault Condition := do
  Parser.conditionOfTokens (← Lexer.tokens text)

end Stencil
