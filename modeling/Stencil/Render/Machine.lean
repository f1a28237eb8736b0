import Stencil.Render.Evaluate
import Stencil.Render.Sink
import Stencil.Template.Nesting
import Stencil.Text.Escape

/-! # Rendering

A machine with a stack of frames and a sink walks the tree. Sections push a frame and pop it
again, also when the sink refuses a text in between; a refusal ends the walk. -/
namespace Stencil

namespace Render

structure State (σ : Type) where
  context : Context
  sink : σ

/-- A step of the machine: the state after it, and whether the walk goes on. -/
abbrev Run (σ : Type) := State σ → State σ × Bool

variable {σ : Type}

def skip : Run σ := fun s => (s, true)

/-- Goes on with a second step, unless the first one ended the walk. -/
def andThen (a b : Run σ) : Run σ := fun s =>
  match a s with
  | (s, true) => b s
  | (s, false) => (s, false)

def emit (out : Sink σ) (text : String) : Run σ := fun s =>
  let (sink, taken) := out.write s.sink text
  (⟨s.context, sink⟩, taken)

def emitAll (out : Sink σ) : List String → Run σ
  | [] => skip
  | text :: rest => andThen (emit out text) (emitAll out rest)

/-- Pushes a frame for the time of a step. -/
def within (frame : Frame) (body : Run σ) : Run σ := fun s =>
  let (s, more) := body ⟨frame :: s.context, s.sink⟩
  (⟨s.context.tail, s.sink⟩, more)

/-- Repeats a step for the items of a sequence, counting their positions. -/
def eachItem (body : Run σ) (position : Nat) : List Value → Run σ
  | [] => skip
  | v :: rest => andThen (within ⟨v, some position⟩ body) (eachItem body (position + 1) rest)

/-- A section around a step: its name decides how often it is taken, and in which scope. -/
def section? (name : String) (body : Run σ) : Run σ := fun s =>
  match s.context.load? name with
  | none => (s, true)
  | some v =>
    if v.isFalsy then (s, true)
    else match v with
      | .seq items => eachItem body 0 items s
      | .record .. | .object .. => within ⟨v, none⟩ body s
      | _ => body s

mutual

def node (env : Environment) (out : Sink σ) : Node → Run σ
  | .text text => emit out text
  | .variable p raw => fun s => match p.value? env s.context with
    | none => (s, true)
    | some v => (if raw then emit out v.display else emitAll out (Text.escapePieces v.display)) s
  | .scope name body _ _ => section? name (nodes env out body)
  | .choice test body orElse _ => fun s =>
    if test.holds env s.context then nodes env out body s else nodes env out orElse s

def nodes (env : Environment) (out : Sink σ) : List Node → Run σ
  | [] => skip
  | n :: rest => andThen (node env out n) (nodes env out rest)

end

def run (env : Environment) (out : Sink σ) (tree : List Node) (chain : List Value) (start : σ) :
    State σ × Bool :=
  nodes env out tree ⟨.ofChain chain, start⟩

end Render

namespace Environment

/-- The text of a template against a chain of values, the innermost first. -/
def render (env : Environment) (t : Template) (chain : List Value) : String :=
  (Render.run env .text t.nodes chain "").1.sink

/-- Renders a template into a writer: the writer after that, and the error if it failed. -/
def renderTo {σ : Type} (env : Environment) (w : Writer σ) (t : Template) (chain : List Value)
    (start : σ) : σ × Except Error Unit :=
  let (s, done) := Render.run env (.encoding w) t.nodes chain ⟨start, none⟩
  s.sink.outcome done

/-- The bytes that a writer takes that has room for `limit` of them, and whether that was all. -/
def renderLimited (env : Environment) (t : Template) (chain : List Value) (limit : Nat) :
    List UInt8 × Except Error Unit :=
  env.renderTo (.limited limit) t chain []

def contentName : String := "content"

/-- Renders a template, and then a layout that sees the result in a frame of its own. -/
def renderInLayout (env : Environment) (t layout : Template) (chain : List Value) : String :=
  env.render layout (.record [(contentName, .text (env.render t chain))] :: chain)

def renderSource (env : Environment) (source : String) (v : Value) : Except Error String := do
  return env.render (← Template.read source) [v]

def renderSourceInLayout (env : Environment) (source layout : String) (v : Value) :
    Except Error String := do
  let t ← Template.read source
  let layout ← Template.read layout
  return env.renderInLayout t layout [v]

end Environment

end Stencil
