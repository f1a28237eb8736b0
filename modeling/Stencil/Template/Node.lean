import Stencil.Expr.Fault

/-! # Template trees

What a template is once its tags are matched, and what can be wrong before that. -/
namespace Stencil

inductive Node where
  | text (s : String)
  /-- A value that is shown, escaped unless `raw`. -/
  | variable (p : Pipeline) (raw : Bool)
  /-- A section: its body is shown in the scope of the value of a name, once for every item of a
  sequence. -/
  | scope (name : String) (body orElse : List Node) (line : Nat)
  /-- A conditional: one of two bodies is shown. -/
  | choice (test : Condition) (body orElse : List Node) (line : Nat)
deriving Inhabited

inductive TagFault where
  | unclosedTag
  | empty
  | unnamedSection
  | elseOutside
  | badConditional (tag : String)
  | unopenedClose
  | crossedClose (name : String)
  | unclosedSection (name : String)
  | expression (fault : SyntaxFault)
deriving DecidableEq

namespace TagFault

def error : TagFault → Error
  | unclosedTag => .new .parseError "unmatched open tag"
  | empty => .new .parseError "empty tag"
  | unnamedSection => .new .parseError "section tag without a name"
  | elseOutside => .new .parseError "else tag outside of a section"
  | badConditional tag => .new .parseError ("invalid conditional tag: " ++ tag)
  | unopenedClose => .new .parseError "unmatched close tag"
  | crossedClose name => .new .parseError ("interleaved closing tag: " ++ name)
  | unclosedSection name => .new .parseError (name ++ " has no closing tag")
  | expression fault => fault.error

end TagFault

/-- A fault and the line of the tag that it concerns. -/
structure PlacedFault where
  line : Nat
  fault : TagFault
deriving DecidableEq

def PlacedFault.error (f : PlacedFault) : Error := f.fault.error.atLine f.line

end Stencil
