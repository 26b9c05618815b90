set_option autoImplicit false

/-! # Reading files

Files are read as text, and reading can fail. `FileTree` is a directory held in memory: it resolves
paths the way a file system does, so that a run of the program can be studied without a disk. -/

namespace Lexis

/-- Why a file cannot be read as text. -/
inductive ReadError where
  | notFound
  | isDirectory
  | notDirectory
  /-- The content is not UTF-8. -/
  | notText
  | other (message : String)
deriving DecidableEq, Repr

/-- The message of a failure to read. -/
def ReadError.message : ReadError → String
  | notFound => "No such file or directory (os error 2)"
  | isDirectory => "Is a directory (os error 21)"
  | notDirectory => "Not a directory (os error 20)"
  | notText => "stream did not contain valid UTF-8"
  | other message => message

/-- How paths are read. -/
abbrev Reading := String → Except ReadError String

/-- The text of some bytes. -/
def textOfBytes (bytes : ByteArray) : Except ReadError String :=
  match String.fromUTF8? bytes with
  | some text => .ok text
  | none => .error .notText

/-- A file, or a directory with what it holds. -/
inductive FileTree where
  | file (content : ByteArray)
  | directory (entries : List (String × FileTree))

namespace FileTree

/-- Follow the parts of a path. The place reached is given by the trees on the way to it, nearest
    first; above the root of the tree, where there are none, is a directory without known
    entries. -/
def follow : List FileTree → List String → Except ReadError (List FileTree)
  | way, [] => .ok way
  | [], name :: names =>
    if name = "" ∨ name = "." ∨ name = ".." then follow [] names else .error .notFound
  | .file _ :: _, _ :: _ => .error .notDirectory
  | .directory entries :: parents, name :: names =>
    if name = "" ∨ name = "." then follow (.directory entries :: parents) names
    else if name = ".." then follow parents names
    else
      match entries.lookup name with
      | some tree => follow (tree :: .directory entries :: parents) names
      | none => .error .notFound

/-- Read the file at a path. A path that starts with a slash starts above the root of the tree. -/
def read (root : FileTree) : Reading := fun path =>
  if path = "" then .error .notFound
  else do
    let start := if path.startsWith "/" then [] else [root]
    match ← follow start (path.splitOn "/") with
    | .file content :: _ => textOfBytes content
    | _ => .error .isDirectory

end FileTree

end Lexis
