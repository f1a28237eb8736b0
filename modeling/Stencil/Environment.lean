import Stencil.Filter.Builtin
import Stencil.NameTable

/-! # Environments

The filters that expressions can name. There is at most one of a name, and they stand in the
order of their names. -/
namespace Stencil

structure Environment where
  filters : List (String × Filter)

namespace Environment

def empty : Environment := ⟨[]⟩

def standard : Environment := ⟨Filter.builtins⟩

/-- Registers a filter, replacing one of the same name. -/
def add (env : Environment) (name : String) (f : Filter) : Environment :=
  ⟨NameTable.insert name f env.filters⟩

def remove (env : Environment) (name : String) : Environment := ⟨NameTable.erase name env.filters⟩

def find? (env : Environment) (name : String) : Option Filter := env.filters.lookup name

def has (env : Environment) (name : String) : Bool := (env.find? name).isSome

def debugText (env : Environment) : String :=
  let names := ", ".intercalate (env.filters.map fun entry => Text.quote entry.1)
  "Environment \x7b filters: [" ++ names ++ "] \x7d"

end Environment

/-- The environment that is used where none is given. Its first use fixes it. -/
structure DefaultEnvironment where
  fixed : Option Environment

namespace DefaultEnvironment

def initial : DefaultEnvironment := ⟨none⟩

def use (d : DefaultEnvironment) : Environment × DefaultEnvironment :=
  let env := d.fixed.getD .standard
  (env, ⟨some env⟩)

/-- Whether an environment could be put in place, and the state after that. -/
def install (d : DefaultEnvironment) (env : Environment) : Bool × DefaultEnvironment :=
  match d.fixed with
  | some _ => (false, d)
  | none => (true, ⟨some env⟩)

end DefaultEnvironment

end Stencil
