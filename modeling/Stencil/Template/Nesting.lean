import Stencil.Template.Tag

/-! # Matching tags

The items of a source are taken one by one. Whatever is open waits on a stack, the innermost
first, each level with the nodes collected for it; the first fault ends the matching.
-/
namespace Stencil

/-- The nodes of one level, collected in reverse. -/
structure Block where
  body : List Node
  orElse : List Node
  inElse : Bool

namespace Block

def empty : Block := ⟨[], [], false⟩

def push (b : Block) (n : Node) : Block :=
  if b.inElse then ⟨b.body, n :: b.orElse, true⟩ else ⟨n :: b.body, b.orElse, false⟩

end Block

/-- A section or conditional that is open, and the nodes inside it so far. -/
structure Opened where
  name : String
  line : Nat
  test : Option Condition
  block : Block

def Opened.node (o : Opened) : Node :=
  match o.test with
  | some c => .choice c o.block.body.reverse o.block.orElse.reverse o.line
  | none => .scope o.name o.block.body.reverse o.block.orElse.reverse o.line

/-- What is open, the innermost first, and the nodes outside of all of it in reverse. -/
structure Nesting where
  opened : List Opened
  root : List Node

namespace Nesting

def start : Nesting := ⟨[], []⟩

def push (s : Nesting) (n : Node) : Nesting :=
  match s.opened with
  | [] => ⟨[], n :: s.root⟩
  | o :: outer => ⟨⟨o.name, o.line, o.test, o.block.push n⟩ :: outer, s.root⟩

def takeTag (s : Nesting) (line : Nat) : Tag → Except TagFault Nesting
  | .comment => .ok s
  | .variable p raw => .ok (s.push (.variable p raw))
  | .opening name => .ok ⟨⟨name, line, none, .empty⟩ :: s.opened, s.root⟩
  | .test c => .ok ⟨⟨Tag.testName, line, some c, .empty⟩ :: s.opened, s.root⟩
  | .otherwise => match s.opened with
    | [] => .error .elseOutside
    | o :: outer =>
      .ok ⟨⟨o.name, o.line, o.test, ⟨o.block.body, o.block.orElse, true⟩⟩ :: outer, s.root⟩
  | .closing name => match s.opened with
    | [] => .error .unopenedClose
    | o :: outer =>
      if o.name = name then .ok ((⟨outer, s.root⟩ : Nesting).push o.node)
      else .error (.crossedClose name)

def take (s : Nesting) : Item → Except PlacedFault Nesting
  | .text text => .ok (s.push (.text (String.ofList text)))
  | .tag line raw inner =>
    match (Tag.ofInner raw inner).bind (s.takeTag line) with
    | .ok s => .ok s
    | .error fault => .error ⟨line, fault⟩
  | .unclosed line => .error ⟨line, .unclosedTag⟩

/-- The tree, if nothing is open any more. -/
def finish (s : Nesting) : Except PlacedFault (List Node) :=
  match s.opened with
  | [] => .ok s.root.reverse
  | o :: _ => .error ⟨o.line, .unclosedSection o.name⟩

def takeAll (s : Nesting) : List Item → Except PlacedFault (List Node)
  | [] => s.finish
  | i :: rest => do takeAll (← s.take i) rest

end Nesting

def nest (items : List Item) : Except PlacedFault (List Node) := Nesting.start.takeAll items

def parseNodes (source : List Char) : Except PlacedFault (List Node) := nest (itemsOf source)

/-- A source with its tree, and a name for messages. -/
structure Template where
  name : Option String
  source : String
  nodes : List Node

namespace Template

def read (source : String) : Except Error Template :=
  match parseNodes source.toList with
  | .ok nodes => .ok ⟨none, source, nodes⟩
  | .error fault => .error fault.error

/-- Reads a source under a name, which errors carry too. -/
def readNamed (name source : String) : Except Error Template :=
  match read source with
  | .ok t => .ok ⟨some name, t.source, t.nodes⟩
  | .error e => .error (e.inTemplate name)

end Template

end Stencil
