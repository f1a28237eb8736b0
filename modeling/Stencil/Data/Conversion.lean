import Stencil.Data.Datum
import Stencil.Value.Display
import Stencil.Value.Record

/-! # From data to values

A part that fails becomes absence, and an entry whose key fails is dropped; nothing else is
lost. Finished values among the parts cannot be described, so while a conversion is under way
they are handed over by number: the value is put into a registry, its number is passed on,
and the receiving end takes it out again.
-/
namespace Stencil

/-- The state of handing values over: whether a conversion is under way, the last number given
out, and the values put down and not yet taken. -/
structure Handles where
  marking : Bool
  last : UInt32
  registry : List (UInt32 × Value)

namespace Handles

def initial : Handles := ⟨false, 0, []⟩

/-- Puts a value down under the next number, which wraps around; an older value under that
number is lost. -/
def put (v : Value) : StateM Handles UInt32 := fun h =>
  let number := h.last + 1
  (number, ⟨h.marking, number, (number, v) :: h.registry.filter (·.1 != number)⟩)

def take? (number : UInt32) : StateM Handles (Option Value) := fun h =>
  (h.registry.lookup number, ⟨h.marking, h.last, h.registry.filter (·.1 != number)⟩)

end Handles

namespace Datum

/-- The result of converting a part: absence in place of a failure. -/
def orAbsent (result : Except Error Value) : Value :=
  match result with
  | .ok v => v
  | .error _ => .absent

def keyText (key : Value) : String := key.display

/-- A record under construction: its entries, and the key that waits for its value. -/
structure Draft where
  entries : List (String × Value)
  key : Option String

namespace Draft

def empty : Draft := ⟨[], none⟩

/-- Takes the next key. If its conversion failed, no key waits. -/
def takeKey (draft : Draft) (result : Except Error Value) : Draft :=
  ⟨draft.entries, match result with
    | .ok key => some (keyText key)
    | .error _ => none⟩

def takeValue (draft : Draft) (key : String) (v : Value) : Draft :=
  ⟨Record.insert draft.entries key v, none⟩

end Draft

def handleName : String := "\x01__mandira_ValueHandle"

/-- Receives a case without content: the value that was put down under its number, if it has the
reserved name, and its name otherwise. -/
def receiveCase (type : String) (number : UInt32) (name : String) :
    StateM Handles (Except Error Value) := do
  if type = handleName ∧ name = handleName then
    match ← Handles.take? number with
    | some v => pure (.ok v)
    | none => pure (.error (.unserializable "value handle not in registry"))
  else pure (.ok (.text name))

def handOver (v : Value) : StateM Handles (Except Error Value) := do
  if (← get).marking then
    let number ← Handles.put v
    receiveCase handleName number handleName
  else pure (.ok v.plain)

mutual

def convert : Datum → StateM Handles (Except Error Value)
  | unit => pure (.ok .absent)
  | bool b => pure (.ok (.bool b))
  | int n => pure (.ok (.ofInt n))
  | float x => pure (.ok (.float x))
  | text s => pure (.ok (.text s))
  | bytes content => pure (.ok (.seq (content.map fun b => .ofNat b.toNat)))
  | wrapped content => do pure (.ok (orAbsent (← convert content)))
  | seq items => do pure (.ok (.seq (← convertItems items)))
  | map entries => do pure (.ok (.record (← convertEntries .empty entries).entries))
  | fields entries => do pure (.ok (.record (← convertFields [] entries)))
  | case name => pure (.ok (.text name))
  | caseOf name content => do pure (.ok (.record [(name, orAbsent (← convert content))]))
  | caseSeq name items => do pure (.ok (.record [(name, .seq (← convertItems items))]))
  | caseFields name entries => do
    pure (.ok (.record [(name, .record (← convertFields [] entries))]))
  | failing message => pure (.error (.unserializable message))
  | failingAfter described message => do
    let _ ← convert described
    pure (.error (.unserializable message))
  | value v => handOver v

def convertItems : List Datum → StateM Handles (List Value)
  | [] => pure []
  | d :: rest => do
    let v := orAbsent (← convert d)
    pure (v :: (← convertItems rest))

/-- Converts keys and values in turn. A value for which no key waits is not looked at. -/
def convertEntries (draft : Draft) : List (Datum × Datum) → StateM Handles Draft
  | [] => pure draft
  | (key, d) :: rest => do
    let draft := draft.takeKey (← convert key)
    match draft.key with
    | some waiting =>
      let v := orAbsent (← convert d)
      convertEntries (draft.takeValue waiting v) rest
    | none => convertEntries draft rest

def convertFields (built : List (String × Value)) :
    List (String × Datum) → StateM Handles (List (String × Value))
  | [] => pure built
  | (name, d) :: rest => do
    let v := orAbsent (← convert d)
    convertFields (Record.insert built name v) rest

end

/-- Converts data while marking is on, and then restores the marking. -/
def toValueWith (d : Datum) : StateM Handles Value := do
  let before := (← get).marking
  modify fun h => ⟨true, h.last, h.registry⟩
  let v := orAbsent (← convert d)
  modify fun h => ⟨before, h.last, h.registry⟩
  pure v

def toValue (d : Datum) : Value := (d.toValueWith.run .initial).1

end Datum

end Stencil
