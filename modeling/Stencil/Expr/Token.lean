import Stencil.Decimal.Reader
import Stencil.Expr.Syntax

/-! # Tokens

The words of the expression language, and the pieces of text that spell them. The pieces of an
expression put together again are the expression: spaces are pieces too.
-/
namespace Stencil

/-- A mark that needs no space around it. -/
inductive Symbol where
  | comparator (op : Comparator)
  | pipe
  | opening
  | closing
  | comma
deriving DecidableEq, Repr

def Symbol.spelling : Symbol → String
  | comparator op => op.spelling
  | pipe => "|"
  | opening => "("
  | closing => ")"
  | comma => ","

inductive Token where
  | word (name : String)
  | text (s : String)
  | int (n : Int64)
  | float (x : Binary64)
  | symbol (s : Symbol)
  | connective (op : Connective)
  | negation
deriving DecidableEq

namespace Token

def description : Token → String
  | word _ => "name"
  | text _ => "string"
  | int _ => "integer"
  | float _ => "float"
  | symbol s => "`" ++ s.spelling ++ "`"
  | connective .and => "`and`"
  | connective .or => "`or`"
  | negation => "`not`"

/-- Whether a word could be a number: it starts with a digit, or with a sign or a point that a
digit or a point follows. -/
def looksNumeric : List Char → Bool
  | c :: rest =>
    isDigit c || ((c = '+' || c = '-' || c = '.') && match rest with
      | d :: _ => isDigit d || d = '.'
      | [] => false)
  | [] => false

def ofWord (w : List Char) : Token :=
  let name := String.ofList w
  if name = "and" then connective .and
  else if name = "or" then connective .or
  else if name = "not" then negation
  else if looksNumeric w then
    match readInt64? w with
    | some n => int n
    | none => match readFloat? w with
      | some x => float x
      | none => word name
  else word name

/-- Resolves the escapes of a quoted text: a backslash hides a quote or a backslash, and stands
for itself before anything else. -/
def unescape : List Char → List Char
  | '\\' :: '"' :: rest => '"' :: unescape rest
  | '\\' :: '\\' :: rest => '\\' :: unescape rest
  | c :: rest => c :: unescape rest
  | [] => []

def escapeText (s : List Char) : List Char :=
  s.flatMap fun c => if c = '"' ∨ c = '\\' then ['\\', c] else [c]

end Token

inductive Lexeme where
  | blank (c : Char)
  | word (w : List Char)
  /-- A quoted text, as it is written; the last one of an expression may lack its closing quote. -/
  | quoted (body : List Char) (closed : Bool)
  | symbol (s : Symbol)
deriving DecidableEq

namespace Lexeme

def text : Lexeme → List Char
  | blank c => [c]
  | word w => w
  | quoted body closed => '"' :: body ++ (if closed then ['"'] else [])
  | symbol s => s.spelling.toList

/-- The token that a piece spells. Spaces spell none. -/
def token? : Lexeme → Option Token
  | blank _ => none
  | word w => some (.ofWord w)
  | quoted body _ => some (.text (String.ofList (Token.unescape body)))
  | symbol s => some (.symbol s)

end Lexeme

end Stencil
