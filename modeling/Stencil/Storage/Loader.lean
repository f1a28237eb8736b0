import Stencil.Render.Machine
import Stencil.Storage.Disk
import Stencil.Storage.MemoTable

/-! # Loading templates

A loader keeps the templates of a directory tree by their paths. It reads them when they are
first asked for, or all of them beforehand, and then no others. A template that is kept is the
same instance each time, until it is replaced. -/
namespace Stencil

namespace Template

def unreadable (kind : ErrorKind) (name : String) : Error :=
  .new kind ("template " ++ name ++ " does not exist or cannot be loaded")

def notFound (name : String) : Error := unreadable .templateNotFound name

def readError (name : String) (fault : ReadFault) : Error :=
  let kind := if fault = .notText then ErrorKind.invalidOperation else .templateNotFound
  (unreadable kind name).causedBy fault.message

def ofContent (name : String) (content : Except ReadFault String) : Except Error Template :=
  match content with
  | .ok source => readNamed name source
  | .error fault => .error (readError name fault)

/-- Reads a file; its path is its name. -/
def ofFile (read : String → Except ReadFault String) (path : String) : Except Error Template :=
  ofContent path (read path)

end Template

/-- A template that is kept, and a number that no other one has. -/
structure Instance where
  identity : Nat
  template : Template

/-- The templates kept by path, and the next number. -/
structure Loader where
  root : String
  preload : Bool
  cache : List (String × Instance)
  next : Nat

namespace Loader

/-- Keeps a template, replacing one of the same path. -/
def keep (l : Loader) (path : String) (t : Template) : Loader :=
  ⟨l.root, l.preload, MemoTable.replace path ⟨l.next, t⟩ l.cache, l.next + 1⟩

def fetch (l : Loader) (disk : Disk) (path : String) : Except Error Template :=
  match Path.safeJoin? l.root path with
  | some full => Template.ofContent path (disk.read full)
  | none => .error (Template.notFound path)

/-- The template of a path: the one that is kept, or a new one. -/
def get (l : Loader) (disk : Disk) (path : String) : Except Error Instance × Loader :=
  match l.cache.lookup path with
  | some i => (.ok i, l)
  | none =>
    if l.preload then (.error (Template.notFound path), l)
    else
      let fresh := (l.fetch disk path).map fun t => (⟨l.next, t⟩ : Instance)
      let (result, cache) := MemoTable.getOrTryInsert path fresh l.cache
      (result, ⟨l.root, l.preload, cache, if fresh.isOk then l.next + 1 else l.next⟩)

/-- Keeps template files one after another, up to the first one that is broken. -/
def keepAll (l : Loader) (disk : Disk) : List (String × String) → Except Error Unit × Loader
  | [] => (.ok (), l)
  | (name, path) :: rest =>
    match Template.ofContent name (disk.read path) with
    | .ok t => (l.keep name t).keepAll disk rest
    | .error e => (.error e, l)

/-- Reads all template files below the root again. -/
def refresh (l : Loader) (disk : Disk) : Except Error Unit × Loader :=
  l.keepAll disk (disk.templates l.root)

def new (disk : Disk) (root : String) (preload : Bool) : Except Error Loader :=
  let l : Loader := ⟨root, preload, [], 0⟩
  if preload then
    match l.refresh disk with
    | (.ok (), l) => .ok l
    | (.error e, _) => .error e
  else .ok l

def add (l : Loader) (path : String) (t : Template) : Loader := l.keep path t

end Loader

namespace Environment

def renderFile (env : Environment) (read : String → Except ReadFault String) (path : String)
    (v : Value) : Except Error String := do
  return env.render (← Template.ofFile read path) [v]

def renderFileInLayout (env : Environment) (read : String → Except ReadFault String)
    (path layout : String) (v : Value) : Except Error String := do
  let t ← Template.ofFile read path
  let layout ← Template.ofFile read layout
  return env.renderInLayout t layout [v]

end Environment

end Stencil
