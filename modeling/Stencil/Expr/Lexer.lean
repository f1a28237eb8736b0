import Stencil.Expr.Fault

/-! # Cutting an expression into tokens

An automaton that takes one character after another. Spaces and tabs separate words; the marks
`|`, `(`, `)` and `,` and the comparison operators stand by themselves; a quote opens a literal
that runs to the next quote that no backslash hides. -/
namespace Stencil.Lexer

/-- What the automaton is in the middle of. -/
inductive Mode where
  /-- A word, perhaps not begun yet; its characters are collected in reverse. -/
  | word (pending : List Char)
  | operator (first : Char)
  /-- A literal, its characters collected in reverse; `escaped` after a backslash that hides. -/
  | literal (body : List Char) (escaped : Bool)
deriving DecidableEq

def mark? (c : Char) : Option Symbol :=
  if c = '|' then some .pipe
  else if c = '(' then some .opening
  else if c = ')' then some .closing
  else if c = ',' then some .comma
  else none

def beginsOperator (c : Char) : Bool := c = '<' || c = '>' || c = '=' || c = '!'

def single? (c : Char) : Option Symbol :=
  if c = '<' then some (.comparator .lt) else if c = '>' then some (.comparator .gt) else none

def double (c : Char) : Symbol :=
  if c = '<' then .comparator .le
  else if c = '>' then .comparator .ge
  else if c = '=' then .comparator .eq
  else .comparator .ne

def flush (pending : List Char) : List Lexeme :=
  if pending = [] then [] else [.word pending.reverse]

def stepWord (pending : List Char) (c : Char) : List Lexeme × Mode :=
  if c = ' ' ∨ c = '\t' then (flush pending ++ [.blank c], .word [])
  else if beginsOperator c then (flush pending, .operator c)
  else if c = '"' then (flush pending, .literal [] false)
  else match mark? c with
    | some s => (flush pending ++ [.symbol s], .word [])
    | none => ([], .word (c :: pending))

/-- The pieces that a character completes, and what follows. -/
def step (mode : Mode) (offset : Nat) (c : Char) : Except SyntaxFault (List Lexeme × Mode) :=
  match mode with
  | .word pending => .ok (stepWord pending c)
  | .operator first =>
    if c = '=' then .ok ([.symbol (double first)], .word [])
    else match single? first with
      | some s =>
        let (pieces, mode) := stepWord [] c
        .ok (.symbol s :: pieces, mode)
      | none => .error (.stray first (offset - 1))
  | .literal body escaped =>
    if escaped then .ok ([], .literal (c :: body) false)
    else if c = '\\' then .ok ([], .literal (c :: body) true)
    else if c = '"' then .ok ([.quoted body.reverse true], .word [])
    else .ok ([], .literal (c :: body) false)

def finish (mode : Mode) (offset : Nat) : Except SyntaxFault (List Lexeme) :=
  match mode with
  | .word pending => .ok (flush pending)
  | .operator first => match single? first with
    | some s => .ok [.symbol s]
    | none => .error (.stray first (offset - 1))
  | .literal body _ => .ok [.quoted body.reverse false]

/-- The pieces of the rest of an expression; `offset` counts the bytes before it. -/
def run (mode : Mode) (offset : Nat) : List Char → Except SyntaxFault (List Lexeme)
  | [] => finish mode offset
  | c :: rest => do
    let (pieces, mode) ← step mode offset c
    let more ← run mode (offset + c.utf8Size) rest
    return pieces ++ more

def lexemes (text : List Char) : Except SyntaxFault (List Lexeme) := run (.word []) 0 text

def tokens (text : List Char) : Except SyntaxFault (List Token) := do
  return (← lexemes text).filterMap Lexeme.token?

end Stencil.Lexer
