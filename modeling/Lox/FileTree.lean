namespace Lox

inductive FileError where
  | missing
  | denied
  | notFolder
  | nameTooLong
  | folder
  | invalidText
  | unreadable (reason : String)
deriving DecidableEq, Repr

namespace FileError

def reason : FileError → String
  | missing => "No such file or directory (os error 2)"
  | denied => "Permission denied (os error 13)"
  | notFolder => "Not a directory (os error 20)"
  | nameTooLong => "File name too long (os error 36)"
  | folder => "Is a directory (os error 21)"
  | invalidText => "stream did not contain valid UTF-8"
  | unreadable reason => reason

/-- What fails: a folder can be opened, but not read. -/
def action : FileError → String
  | folder => "read"
  | invalidText => "read"
  | _ => "open"

end FileError

inductive FileTree where
  | file (contents : ByteArray)
  | folder (entries : List (String × FileTree))

structure Place where
  here : FileTree
  around : List FileTree

namespace Place

def maxNameSize : Nat := 255

def maxPathSize : Nat := 4095

/-- The root is the folder around itself. -/
def leave (place : Place) : Place :=
  match place.around with
  | [] => place
  | outer :: around => ⟨outer, around⟩

def root (place : Place) : Place := ⟨place.around.getLastD place.here, []⟩

/-- One step of a path. Even a step that stays needs a folder to stay in. -/
def enter (name : String) (place : Place) : Except FileError Place :=
  match place.here with
  | .file _ => .error .notFolder
  | .folder entries =>
    if name = "" || name = "." then .ok place
    else if name = ".." then .ok place.leave
    else if maxNameSize < name.utf8ByteSize then .error .nameTooLong
    else
      match entries.lookup name with
      | none => .error .missing
      | some entry => .ok ⟨entry, place.here :: place.around⟩

def follow : List String → Place → Except FileError Place
  | [], place => .ok place
  | name :: rest, place =>
    match place.enter name with
    | .ok next => follow rest next
    | .error error => .error error

def contents (place : Place) : Except FileError ByteArray :=
  match place.here with
  | .file contents => .ok contents
  | .folder _ => .error .folder

def read (path : String) (place : Place) : Except FileError ByteArray :=
  if path = "" then .error .missing
  else if maxPathSize < path.utf8ByteSize then .error .nameTooLong
  else
    let start := if path.startsWith "/" then place.root else place
    match start.follow (path.splitOn "/") with
    | .ok place => place.contents
    | .error error => .error error

end Place

end Lox
