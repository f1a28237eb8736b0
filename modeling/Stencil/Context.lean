import Stencil.Value.Display

/-! # Contexts

The chain of values against which names are resolved, the innermost first. A frame that a loop
pushed knows the position of its item. -/
namespace Stencil

/-- A value of the chain, and its position if it is an item of a sequence. -/
structure Frame where
  value : Value
  index : Option Nat
deriving Inhabited

namespace Frame

def selfName : String := "."

/-- The names of the position, counted from zero and from one. -/
def indexName : String := ".index"
def index1Name : String := ".index1"

/-- What a name is in the value of a frame: a method comes before a field. A method that fails
gives absence, unless the value does not know it. -/
def member? (v : Value) (name : String) : Option Value :=
  match v.method name with
  | .ok result => some result
  | .error e => if e.kind = .unknownMethod then v.field? name else some .absent

def load? (f : Frame) (name : String) : Option Value :=
  if name = selfName then some f.value
  else match f.index with
    | some i =>
      if name = indexName then some (.ofNat i)
      else if name = index1Name then some (.ofNat (i + 1))
      else member? f.value name
    | none => member? f.value name

def debugText (f : Frame) : String :=
  "Frame \x7b value: " ++ f.value.debugText ++
    (match f.index with
      | some i => ", index: " ++ toString i
      | none => "") ++ " \x7d"

end Frame

/-- Frames, the innermost first. -/
abbrev Context := List Frame

namespace Context

def ofChain (chain : List Value) : Context := chain.map fun v => ⟨v, none⟩

/-- What a name is in the innermost frame that knows it. -/
def load? (context : Context) (name : String) : Option Value :=
  context.findSome? fun f => f.load? name

def debugText (context : Context) : String :=
  "[" ++ ", ".intercalate (context.map Frame.debugText) ++ "]"

end Context

end Stencil
