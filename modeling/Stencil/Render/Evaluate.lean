import Stencil.Context
import Stencil.Environment
import Stencil.Expr.Syntax

/-! # Values of expressions

An expression has a value in an environment and a context, or none: when a name does not resolve
or a filter fails. A condition always holds or not. -/
namespace Stencil

variable (env : Environment) (context : Context)

/-- The value of an argument; a name that does not resolve gives absence. -/
def Argument.value : Argument → Value
  | constant l => l.value
  | lookup name => (context.load? name).getD .absent

def FilterCall.unknown (name : String) : Error :=
  .new .unknownFilter ("filter " ++ name ++ " is unknown")

def FilterCall.apply (call : FilterCall) (v : Value) : Except Error Value :=
  match env.find? call.name with
  | some f => f (v :: call.arguments.map (Argument.value context))
  | none => .error (FilterCall.unknown call.name)

/-- Passes a value through filters, as long as none fails. -/
def throughFilters (v : Value) : List FilterCall → Option Value
  | [] => some v
  | call :: rest => match call.apply env context v with
    | .ok v => throughFilters v rest
    | .error _ => none

def Pipeline.value? (p : Pipeline) : Option Value :=
  (context.load? p.name).bind fun v => throughFilters env context v p.filters

def Operand.value? : Operand → Option Value
  | pipeline p => p.value? env context
  | constant l => some l.value

/-- Whether an operand has a value that counts as true. -/
def Operand.holds (x : Operand) : Bool := ((x.value? env context).map Value.isTrue).getD false

/-- Whether a comparison holds; without a value on either side it does not. -/
def comparisonHolds (op : Comparator) (left right : Operand) : Bool :=
  match left.value? env context, right.value? env context with
  | some a, some b => a.compares op b
  | _, _ => false

def Connective.join : Connective → Bool → Bool → Bool
  | and, a, b => a && b
  | or, a, b => a || b

mutual

def Term.holds : Term → Bool
  | operand negated x => x.holds env context != negated
  | comparison op left right => comparisonHolds env context op left right
  | group negated first rest => Term.holdsAfter (Term.holds first) rest != negated

/-- Joins a truth value with those of further terms, from left to right. -/
def Term.holdsAfter (joined : Bool) : List (Connective × Term) → Bool
  | [] => joined
  | (op, t) :: rest => Term.holdsAfter (op.join joined (Term.holds t)) rest

end

def Condition.holds (c : Condition) : Bool :=
  Term.holdsAfter env context (c.first.holds env context) c.rest

end Stencil
