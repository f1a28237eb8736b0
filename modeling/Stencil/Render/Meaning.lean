import Stencil.Render.Machine

/-! # The meaning of a tree

The text that a tree stands for in a context, node by node, without a machine. Rendering writes
this text. -/
namespace Stencil.Meaning

/-- The texts of a body for the items of a sequence. -/
def items (body : Context → String) (context : Context) (position : Nat) : List Value → String
  | [] => ""
  | v :: rest => body (⟨v, some position⟩ :: context) ++ items body context (position + 1) rest

/-- The text of a section around a body. -/
def scope (name : String) (body : Context → String) (context : Context) : String :=
  match context.load? name with
  | none => ""
  | some v =>
    if v.isFalsy then ""
    else match v with
      | .seq vs => items body context 0 vs
      | .record .. | .object .. => body (⟨v, none⟩ :: context)
      | _ => body context

mutual

def node (env : Environment) : Node → Context → String
  | .text text, _ => text
  | .variable p raw, context => match p.value? env context with
    | none => ""
    | some v => if raw then v.display else Text.escape v.display
  | .scope name body _ _, context => scope name (nodes env body) context
  | .choice test body orElse _, context =>
    if test.holds env context then nodes env body context else nodes env orElse context

def nodes (env : Environment) : List Node → Context → String
  | [], _ => ""
  | n :: rest, context => node env n context ++ nodes env rest context

end

end Stencil.Meaning
