import Stencil.Expr.Printer
import Stencil.Template.Tag

/-! # Writing trees

A source for a tree. Tags hold their expression between spaces, the opening tag of a section
takes a line end with it, and an empty other body is left out. -/
namespace Stencil

def closingTag (name : String) : List Char :=
  "\x7b\x7b/".toList ++ name.toList ++ " \x7d\x7d".toList

def otherwiseTag : List Char := "\x7b\x7b?else\x7d\x7d".toList

/-- Two bodies that are written already, the other one perhaps left out. -/
def joinBodies (body : List Char) (leaveOut : Bool) (orElse : List Char) : List Char :=
  if leaveOut then body else body ++ otherwiseTag ++ orElse

mutual

def Node.print : Node → List Char
  | .text s => s.toList
  | .variable p true => "\x7b\x7b\x7b ".toList ++ spell p.tokens ++ " \x7d\x7d\x7d".toList
  | .variable p false => "\x7b\x7b ".toList ++ spell p.tokens ++ " \x7d\x7d".toList
  | .scope name body orElse _ =>
    "\x7b\x7b#".toList ++ name.toList ++ " \x7d\x7d\n".toList ++
      joinBodies (Node.printAll body) orElse.isEmpty (Node.printAll orElse) ++ closingTag name
  | .choice test body orElse _ =>
    "\x7b\x7b?if ".toList ++ spell test.tokens ++ " \x7d\x7d".toList ++
      joinBodies (Node.printAll body) orElse.isEmpty (Node.printAll orElse) ++
      closingTag Tag.testName

def Node.printAll : List Node → List Char
  | [] => []
  | n :: rest => n.print ++ Node.printAll rest

end

def printNodes (nodes : List Node) : String := String.ofList (Node.printAll nodes)

end Stencil
