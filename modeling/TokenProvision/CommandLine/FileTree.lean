/-!
Trees of files, and how a path leads through one. A path is a sequence of names between slashes: a
single dot stays, two dots go up, and from the top they stay. Every name, even an empty one, asks
for a directory to be looked up in, so nothing can follow the name of a file, not even a slash. The
first name that cannot be followed decides.
-/
namespace TokenProvision.CommandLine

inductive FileFault where
  | missing | noDevice | forbidden | notADirectory | isADirectory | nameTooLong | notText
  deriving DecidableEq, Repr

namespace FileFault

def message : FileFault → String
  | missing => "No such file or directory (os error 2)"
  | noDevice => "No such device or address (os error 6)"
  | forbidden => "Permission denied (os error 13)"
  | notADirectory => "Not a directory (os error 20)"
  | isADirectory => "Is a directory (os error 21)"
  | nameTooLong => "File name too long (os error 36)"
  | notText => "stream did not contain valid UTF-8"

end FileFault

inductive FileTree where
  | file (content : Except FileFault String)
  | directory (entries : List (String × FileTree))

namespace FileTree

/-- The longest name, in bytes. -/
def maxName : Nat := 255

/-- The longest path, in bytes. -/
def maxPath : Nat := 4095

def emptyDirectory : FileTree := directory []

def names (path : String) : List String := path.splitOn "/"

/-- A place in a tree: what is there, and the directories above it, nearest first. -/
structure Place where
  here : FileTree
  above : List FileTree

namespace Place

def top (p : Place) : Place :=
  match p.above.getLast? with
  | none => p
  | some t => ⟨t, []⟩

/-- The place above; there is none above the top. -/
def up (p : Place) : Place :=
  match p.above with
  | [] => p
  | t :: above => ⟨t, above⟩

def follow (p : Place) (name : String) : Except FileFault Place :=
  match p.here with
  | .file _ => .error .notADirectory
  | .directory entries =>
    if name = "" ∨ name = "." then .ok p
    else if name = ".." then .ok p.up
    else if maxName < name.utf8ByteSize then .error .nameTooLong
    else
      match entries.lookup name with
      | none => .error .missing
      | some t => .ok ⟨t, p.here :: p.above⟩

/-- Follows a path, from the top if it starts with a slash. -/
def walk (p : Place) (path : String) : Except FileFault Place :=
  if path.isEmpty then .error .missing
  else if maxPath < path.utf8ByteSize then .error .nameTooLong
  else (names path).foldlM follow (if path.startsWith "/" then p.top else p)

def read (p : Place) (path : String) : Except FileFault String :=
  match p.walk path with
  | .error f => .error f
  | .ok q =>
    match q.here with
    | .file content => content
    | .directory _ => .error .isADirectory

end Place

end FileTree

end TokenProvision.CommandLine
