import Stencil.Filter.Argument
import Stencil.Format.Sprintf
import Stencil.Text.Case

/-! # The filters that are always there

Texts in other cases, items and lengths, formatting and joining, and divisibility. -/
namespace Stencil.Filter

private def onText (f : List Char → List Char) : Filter :=
  .of Parameter.text.take fun s => .ok (.text (String.ofList (f s.toList)))

def upper : Filter := onText Text.upper

def lower : Filter := onText Text.lower

def title : Filter := onText Text.title

/-- How many characters, items or entries there are; zero for what has no length. -/
def len : Filter := .of Parameter.value.take fun v => .ok (.ofNat (v.length?.getD 0))

/-- The item or character at a position; out of range, the empty text. -/
def index : Filter :=
  .of (do return (← Parameter.value.take, ← Parameter.int.take)) fun (v, position) =>
    let item := if 0 ≤ position.toInt then v.item? position.toInt.toNat else none
    .ok (item.getD (.text ""))

def format : Filter :=
  .of (do return (← Parameter.value.take, ← Parameter.text.take)) fun (v, format) =>
    match sprintf format [v] with
    | .ok s => .ok (.text s)
    | .error fault => .error fault.error

/-- The texts of the items with a separator between them; what is no sequence has no items. -/
def join : Filter :=
  .of (do return (← Parameter.value.take, ← Parameter.text.take)) fun (v, separator) =>
    .ok (.text (separator.intercalate (v.items.map Value.display)))

def divisionByZero : Error := .new .invalidOperation "cannot divide by zero"

def divisibleBy : Filter :=
  .of (do return (← Parameter.int.take, ← Parameter.int.take)) fun (n, divisor) =>
    if divisor.toInt = 0 then .error divisionByZero
    else .ok (.bool (n.toInt % divisor.toInt == 0))

/-- All of these by name, in the order of names. -/
def builtins : List (String × Filter) :=
  [("divisibleby", divisibleBy), ("format", format), ("index", index), ("join", join), ("len", len),
    ("lower", lower), ("title", title), ("upper", upper)]

end Stencil.Filter
