import Stencil.NameTable
import Stencil.Storage.Path
import Stencil.Text.Utf8

/-! # Directory trees

All files from their root on, and where in them relative paths start. A directory says whether its
entries can be listed and whether paths can lead through it; the two do not depend on each other,
and the type of an entry is known from the list that it stands in. -/
namespace Stencil

structure Access where
  listed : Bool
  entered : Bool
deriving DecidableEq, Repr

/-- A file with its bytes or with the reason why it does not give them out, or a directory. -/
inductive Entry where
  | file (content : List UInt8)
  | unreadable (reason : String)
  | folder (access : Access) (children : List (String × Entry))
deriving Inhabited

inductive ReadFault where
  | missing
  | isDirectory
  | notDirectory
  | denied
  | tooLong
  | notText
  | refused (reason : String)
deriving DecidableEq, Repr

def ReadFault.message : ReadFault → String
  | missing => "No such file or directory (os error 2)"
  | isDirectory => "Is a directory (os error 21)"
  | notDirectory => "Not a directory (os error 20)"
  | denied => "Permission denied (os error 13)"
  | tooLong => "File name too long (os error 36)"
  | notText => "stream did not contain valid UTF-8"
  | refused reason => reason

namespace Entry

/-- A directory that refuses nothing. -/
@[match_pattern] def directory (children : List (String × Entry)) : Entry :=
  folder ⟨true, true⟩ children

/-- Where a segment leads, given the directories from which the present one was reached. Only an
empty one asks nothing of the directory, and there is nothing above the root. -/
def step (outer : List Entry) (here : Entry) (segment : List Char) :
    Except ReadFault (List Entry × Entry) :=
  match here with
  | file _ | unreadable _ => .error .notDirectory
  | folder access children =>
    if segment = [] then .ok (outer, here)
    else if access.entered = false then .error .denied
    else match Path.component? segment with
      | some (.normal name) => match children.lookup (String.ofList name) with
        | some e => .ok (here :: outer, e)
        | none => .error .missing
      | some .parent => match outer with
        | e :: outer => .ok (outer, e)
        | [] => .ok ([], here)
      | _ => .ok (outer, here)

def walk (outer : List Entry) (here : Entry) : List (List Char) → Except ReadFault Entry
  | [] => .ok here
  | s :: rest => do
    let (outer, e) ← step outer here s
    walk outer e rest

/-- The place along names, with the directories on the way there, whatever these refuse. -/
def trail (outer : List Entry) : List String → Entry → Option (List Entry × Entry)
  | [], here => some (outer, here)
  | name :: rest, folder access children =>
    (children.lookup name).bind (trail (folder access children :: outer) rest)
  | _ :: _, _ => none

def text : Entry → Except ReadFault String
  | file content => match Text.decode? content with
    | some text => .ok (String.ofList text)
    | none => .error .notText
  | unreadable reason => .error (.refused reason)
  | folder access _ => .error (if access.listed then .isDirectory else .denied)

def put (new : Entry) : List String → Entry → Entry
  | [], _ => new
  | name :: rest, folder access children =>
    let child := (children.lookup name).getD (directory [])
    folder access (NameTable.insert name (put new rest child) children)
  | _ :: _, e => e

def remove : List String → Entry → Entry
  | [], e => e
  | [name], folder access children => folder access (NameTable.erase name children)
  | name :: rest, folder access children =>
    match children.lookup name with
    | some child => folder access (NameTable.insert name (remove rest child) children)
    | none => folder access children
  | _ :: _, e => e

def namesOf (path : String) : List String :=
  (Path.components path.toList).filterMap fun c => match c with
    | .normal name => some (String.ofList name)
    | _ => none

def childPath (path name : String) : String := if path = "" then name else path ++ "/" ++ name

end Entry

/-- All files, and the names that lead from the root to the working directory. -/
structure Disk where
  root : Entry
  working : List String

namespace Disk

/-- The longest path that is looked up, in bytes. -/
def longestPath : Nat := 4095

/-- Where a path starts, with the directories on the way there. -/
def origin (disk : Disk) (path : List Char) : Except ReadFault (List Entry × Entry) :=
  match path with
  | [] => .error .missing
  | '/' :: _ => .ok ([], disk.root)
  | _ => match disk.root.trail [] disk.working with
    | some place => .ok place
    | none => .error .missing

def resolve (disk : Disk) (path : String) : Except ReadFault Entry :=
  if longestPath < path.utf8ByteSize then .error .tooLong
  else do
    let (outer, here) ← disk.origin path.toList
    here.walk outer (Path.segments path.toList)

def read (disk : Disk) (path : String) : Except ReadFault String := do
  (← disk.resolve path).text

/-- Whether a path leads to a directory that can be listed. -/
def lists (disk : Disk) (path : String) : Bool :=
  match disk.resolve path with
  | .ok (.folder access _) => access.listed
  | _ => false

mutual

/-- The names and the paths of the template files at or below a place. The entries of a directory
are taken in the order of their names; one that cannot be listed by its path is passed over. -/
def templatesAt (disk : Disk) (name path : String) : Entry → List (String × String)
  | .file _ | .unreadable _ => if Path.isTemplate path then [(name, path)] else []
  | .folder _ children =>
    if disk.lists path then
      (NameTable.ofList (disk.templatesBelow name path children)).flatMap Prod.snd
    else []

def templatesBelow (disk : Disk) (name path : String) :
    List (String × Entry) → List (String × List (String × String))
  | [] => []
  | (child, e) :: rest =>
    (child, disk.templatesAt (Entry.childPath name child) (Path.join path child) e) ::
      disk.templatesBelow name path rest

end

/-- The template files below a root, by their names from there and with their paths. -/
def templates (disk : Disk) (root : String) : List (String × String) :=
  match disk.resolve root with
  | .ok (.folder access children) => disk.templatesAt "" root (.folder access children)
  | _ => []

end Disk

/-- A tree is in use as the working directory. -/
instance : Coe Entry Disk := ⟨fun top => ⟨.directory [("work", top)], ["work"]⟩⟩

namespace Entry

def resolve (top : Entry) (path : String) : Except ReadFault Entry := Disk.resolve top path

def read (top : Entry) (path : String) : Except ReadFault String := Disk.read top path

end Entry

end Stencil
