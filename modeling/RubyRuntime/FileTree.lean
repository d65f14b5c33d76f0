/-!
# Reading a file by its path

A file system is a tree of directories and files. A path is walked one component at a time, from the
root if it starts with a slash and else from a working directory. The walk may fail, and so may
reading what it leads to.
-/
namespace RubyRuntime

inductive ReadFailure where
  | missing
  | notDirectory
  | isDirectory
  | nameTooLong
  | unnameable
  | undecodable
  deriving DecidableEq, Repr

def ReadFailure.message : ReadFailure → String
  | missing => "No such file or directory (os error 2)"
  | notDirectory => "Not a directory (os error 20)"
  | isDirectory => "Is a directory (os error 21)"
  | nameTooLong => "File name too long (os error 36)"
  | unnameable => "file name contained an unexpected NUL byte"
  | undecodable => "stream did not contain valid UTF-8"

inductive FileTree where
  | file (bytes : List UInt8)
  | directory (entries : List (String × FileTree))

namespace FileTree

def maxName : Nat := 255

def maxPath : Nat := 4095

/-- Follows components from a place, which is given with the directories around it, the innermost
first. Above the outermost directory is that directory itself. -/
def walk (around : List FileTree) (place : FileTree) :
    (components : List String) → Except ReadFailure FileTree
  | [] => .ok place
  | name :: rest =>
    match place with
    | file _ => .error .notDirectory
    | directory entries =>
      if name = "" ∨ name = "." then walk around place rest
      else if name = ".." then walk around.tail (around.head?.getD place) rest
      else if maxName < name.utf8ByteSize then .error .nameTooLong
      else
        match entries.lookup name with
        | some next => walk (place :: around) next rest
        | none => .error .missing

/-- The place that a path leads to. The working directory is an empty one in the root. -/
def locate (root : FileTree) (path : String) : Except ReadFailure FileTree :=
  if path.toList.contains '\x00' then .error .unnameable
  else if path = "" then .error .missing
  else if maxPath < path.utf8ByteSize then .error .nameTooLong
  else if path.startsWith "/" then walk [] root (path.splitOn "/")
  else walk [root] (directory []) (path.splitOn "/")

def decode (bytes : List UInt8) : Except ReadFailure String :=
  match String.fromUTF8? ⟨bytes.toArray⟩ with
  | some text => .ok text
  | none => .error .undecodable

def read (root : FileTree) (path : String) : Except ReadFailure String := do
  match ← root.locate path with
  | file bytes => decode bytes
  | directory _ => .error .isDirectory

/-- What every system has and what reads the same on all of them: the standard directories and the
null device. -/
def standard : FileTree :=
  let empty := fun name => (name, directory [])
  directory <|
    [("dev", directory [("null", file [])]), ("proc", directory [empty "self"])] ++
      ["bin", "etc", "home", "lib", "opt", "root", "run", "sbin", "sys", "tmp", "usr", "var"].map
        empty

end FileTree

end RubyRuntime
