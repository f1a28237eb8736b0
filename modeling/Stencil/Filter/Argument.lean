import Stencil.Decimal.Reader
import Stencil.Value.Display

/-! # Arguments of filters

Filters receive values and work on texts, numbers and booleans. The conversions are exact: a float
becomes an integer only if it is one, and a text only if it spells one. -/
namespace Stencil

inductive ArgumentFault where
  | missing
  | tooMany
  | unsupported (kind : Value.Kind) (target : String)
deriving DecidableEq, Repr

namespace ArgumentFault

def error : ArgumentFault → Error
  | missing => .new .missingArgument "missing argument"
  | tooMany => .new .invalidArguments "too many arguments"
  | unsupported kind target =>
    .new .invalidArguments ("cannot convert " ++ kind.name ++ " to " ++ target)

end ArgumentFault

namespace Value

/-- The signed 64-bit integer that a number is or a text spells. -/
def toInt? : Value → Option Int64
  | int n => some n
  | float x => if (Binary64.ofInt x.truncate).numEq x then some (Int64.ofInt x.truncate) else none
  | text s => readInt64? (Text.trim s.toList)
  | _ => none

def toFloat? : Value → Option Binary64
  | int n => some (.ofInt n.toInt)
  | float x => some x
  | text s => readFloat? (Text.trim s.toList)
  | _ => none

end Value

/-- How an argument is converted, given none if it is missing. -/
abbrev Parameter (α : Type) := Option Value → Except ArgumentFault α

namespace Parameter

/-- A parameter without which a filter cannot do. -/
def required {α : Type} (target : String) (convert : Value → Option α) : Parameter α
  | none => .error .missing
  | some v => match convert v with
    | some a => .ok a
    | none => .error (.unsupported v.kind target)

def value : Parameter Value
  | none => .error .missing
  | some v => .ok v

def text : Parameter String
  | none => .error .missing
  | some v => .ok v.display

def int : Parameter Int64 := required "i64" Value.toInt?

def natural : Parameter Nat :=
  required "usize" fun v => v.toInt?.bind fun n => if 0 ≤ n.toInt then some n.toInt.toNat else none

def float : Parameter Binary64 := required "f64" Value.toFloat?

def bool : Parameter Bool :=
  required "bool" fun v => match v with
    | .bool b => some b
    | _ => none

/-- A parameter that may be missing or absent. -/
def optional {α : Type} (p : Parameter α) : Parameter (Option α)
  | none | some .absent => .ok none
  | some v => (p (some v)).map some

end Parameter

abbrev Arguments (α : Type) := StateT (List Value) (Except ArgumentFault) α

def Parameter.take {α : Type} (p : Parameter α) : Arguments α := fun
  | [] => do return (← p none, [])
  | v :: rest => do return (← p (some v), rest)

/-- A named operation on values, the first of which is the one that is filtered. It has no state:
the same values give the same result in every render. -/
abbrev Filter := List Value → Except Error Value

namespace Filter

/-- Takes the arguments, refuses further ones, and computes the result. -/
def of {α : Type} (parameters : Arguments α) (compute : α → Except Error Value) : Filter :=
  fun values => match parameters values with
    | .error fault => .error fault.error
    | .ok (_, _ :: _) => .error ArgumentFault.tooMany.error
    | .ok (a, []) => compute a

end Filter

end Stencil
