import Stencil.Proofs.Render.Writes
import Stencil.Proofs.Text.Escaping

/-! # Data cannot bring in markup

Where no variable is raw and no text between tags has a special character, neither has the
rendered text: whatever the data and the filters are, a value enters the output escaped. -/
namespace Stencil

mutual

/-- At no depth is a variable raw or does a text have a special character. -/
def Node.isGuarded : Node → Bool
  | .text s => s.toList.all fun c => c ∉ Text.markupChars
  | .variable _ raw => !raw
  | .scope _ body orElse _ => Node.allGuarded body && Node.allGuarded orElse
  | .choice _ body orElse _ => Node.allGuarded body && Node.allGuarded orElse

/-- All nodes and what is inside them are guarded. -/
def Node.allGuarded : List Node → Bool
  | [] => true
  | n :: rest => n.isGuarded && Node.allGuarded rest

end

namespace Meaning

/-- What holds of the empty text, of texts put together and of a body in every context holds of a
section. -/
theorem scope_property {P : String → Prop} (hempty : P "") (happend : ∀ {a b}, P a → P b → P (a ++ b))
    {body : Context → String} (hbody : ∀ context, P (body context)) (name : String)
    (context : Context) : P (scope name body context) := by
  have hitems : ∀ (vs : List Value) (position : Nat), P (items body context position vs) := by
    intro vs
    induction vs with
    | nil => exact fun _ => hempty
    | cons v rest ih => exact fun position => happend (hbody _) (ih (position + 1))
  unfold scope
  cases context.load? name with
  | none => exact hempty
  | some v =>
    dsimp only
    by_cases hf : v.isFalsy
    · rw [if_pos hf]
      exact hempty
    · rw [if_neg hf]
      cases v with
      | seq vs => exact hitems vs 0
      | absent | bool | int | float | text | record | object | callable => exact hbody _

variable (env : Environment)

theorem isEscaped_variable (p : Pipeline) (context : Context) :
    Text.IsEscaped (node env (.variable p false) context).toList := by
  unfold node
  cases p.value? env context with
  | none => exact Text.isEscaped_nil
  | some v => exact Text.isEscaped_escape v.display

mutual

theorem isEscaped_node : ∀ (n : Node), n.isGuarded = true → ∀ context : Context,
    Text.IsEscaped (node env n context).toList
  | .text s, h, _ => by
    simp only [Node.isGuarded, List.all_eq_true, decide_eq_true_eq] at h
    exact Text.isEscaped_of_plain h
  | .variable p raw, h, context => by
    simp only [Node.isGuarded, Bool.not_eq_true'] at h
    subst h
    exact isEscaped_variable env p context
  | .scope name body orElse line, h, context => by
    simp only [Node.isGuarded, Bool.and_eq_true] at h
    unfold node
    exact scope_property (P := fun text => Text.IsEscaped text.toList) Text.isEscaped_nil
      (fun ha hb => by rw [String.toList_append]; exact ha.append hb)
      (isEscaped_nodes body h.1) name context
  | .choice test body orElse line, h, context => by
    simp only [Node.isGuarded, Bool.and_eq_true] at h
    unfold node
    split
    · exact isEscaped_nodes body h.1 context
    · exact isEscaped_nodes orElse h.2 context

theorem isEscaped_nodes : ∀ (tree : List Node), Node.allGuarded tree = true →
    ∀ context : Context, Text.IsEscaped (nodes env tree context).toList
  | [], _, _ => Text.isEscaped_nil
  | n :: rest, h, context => by
    simp only [Node.allGuarded, Bool.and_eq_true] at h
    rw [nodes, String.toList_append]
    exact (isEscaped_node n h.1 context).append (isEscaped_nodes rest h.2 context)

end

end Meaning

namespace Environment

/-- Escaping cannot be bypassed by data: whatever the filters and the values are, a guarded template
renders to an escaped text. -/
theorem isEscaped_render (env : Environment) (t : Template) (chain : List Value)
    (h : Node.allGuarded t.nodes = true) : Text.IsEscaped (env.render t chain).toList := by
  rw [env.render_eq_meaning]
  exact Meaning.isEscaped_nodes env t.nodes h (.ofChain chain)

/-- A filter and an item of the data bring in markup, and both leave it escaped. -/
theorem isEscaped_render_filter :
    let env : Environment := ⟨[("bold", fun _ => .ok (.text "<b>&amp;"))]⟩
    let tree := [Node.scope "." [.variable ⟨".", []⟩ false, .variable ⟨".", [⟨"bold", []⟩]⟩ false] [] 1]
    Node.allGuarded tree = true ∧
    env.render ⟨none, "", tree⟩ [.seq [.text "\"'"]] = "&quot;&apos;&lt;b&gt;&amp;amp;" ∧
    Text.IsEscaped (env.render ⟨none, "", tree⟩ [.seq [.text "\"'"]]).toList := by
  intro env tree
  have h : Node.allGuarded tree = true := by decide
  exact ⟨h, by decide +kernel, isEscaped_render env ⟨none, "", tree⟩ [.seq [.text "\"'"]] h⟩

end Environment

end Stencil
