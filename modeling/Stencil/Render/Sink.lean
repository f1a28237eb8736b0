import Stencil.Error
import Stencil.Text.Utf8

/-! # Where output goes

A sink takes texts one after another and may refuse one, after which nothing more is written.
A writer takes bytes; texts for it are encoded, and what it says when it fails is held for the
report. -/
namespace Stencil

/-- Takes a text: the sink after it, and whether all of it was taken. -/
structure Sink (σ : Type) where
  write : σ → String → σ × Bool

/-- Takes bytes: the writer after them, and what it says if it failed. -/
structure Writer (σ : Type) where
  write : σ → List UInt8 → σ × Option String

namespace Writer

def fullMessage : String := "limit reached"

/-- Takes a number of bytes in all: of bytes that do not fit it takes the part that does, and
then fails. -/
def limited (limit : Nat) : Writer (List UInt8) :=
  ⟨fun taken bytes =>
    let room := limit - taken.length
    (taken ++ bytes.take room, if bytes.length ≤ room then none else some fullMessage)⟩

end Writer

/-- A writer, and what it said when it failed. -/
structure Held (σ : Type) where
  writer : σ
  failure : Option String

namespace Held

variable {σ : Type}

/-- The error of a text that was refused: the failure that is held, or else the given error. -/
def error (held : Held σ) (original : Error) : Error :=
  match held.failure with
  | some message => (Error.new .writeFailure "I/O error during rendering").causedBy message
  | none => original

/-- The writer when the writing is over, and the error if that was before its end. -/
def outcome (held : Held σ) (done : Bool) : σ × Except Error Unit :=
  (held.writer, if done then .ok () else .error (held.error .unwritable))

end Held

namespace Sink

variable {σ : Type}

def text : Sink String := ⟨fun taken s => (taken ++ s, true)⟩

def encoding (w : Writer σ) : Sink (Held σ) :=
  ⟨fun held s =>
    match w.write held.writer (Text.encode s.toList) with
    | (writer, none) => (⟨writer, held.failure⟩, true)
    | (writer, some message) => (⟨writer, some message⟩, false)⟩

end Sink

end Stencil
