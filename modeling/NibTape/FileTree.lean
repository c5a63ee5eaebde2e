/-!
# Finding a program file

A file tree is the content of the directory a program is started in. A path is followed
component by component: every component but the last has to be a directory, and two dots
lead back to the directory above. What lies outside of the tree cannot be read.

Every reason why a file cannot be read is reported alike, except for a path that holds a
NUL character, which no file system accepts.
-/

namespace NibTape

/-- A directory's files with their contents and its subdirectories, at any depth. -/
structure FileTree where
  files : List (List String × List UInt8) := []
  directories : List (List String) := []

namespace FileTree

/-- Why a file was not read. -/
inductive Refusal where
  | unreadable
  | nulCharacter
  deriving DecidableEq, Repr

def Refusal.message : Refusal → String
  | unreadable => "Invalid input file, or insufficient permissions"
  | nulCharacter => "embedded null byte"

/-- The number of bytes at which a path is too long to be followed. -/
def pathLimit : Nat := 4096

def splitSlashes : List Char → List (List Char)
  | [] => [[]]
  | c :: rest =>
    if c = '/' then [] :: splitSlashes rest
    else
      match splitSlashes rest with
      | first :: others => (c :: first) :: others
      | [] => [[c]]

/-- The components of a path, empty ones included. -/
def components (path : String) : List String :=
  (splitSlashes path.toList).map String.ofList

/-- The components of a path that name something. -/
def place (path : String) : List String :=
  (components path).filter fun c => c != "" && c != "."

def ofPaths (files : List (String × List UInt8)) (directories : List String) : FileTree :=
  { files := files.map fun (path, content) => (place path, content)
    directories := directories.map place }

/-- Whether a place is a directory: the top, a listed directory or one above a listed
place. -/
def isDirectory (tree : FileTree) (here : List String) : Bool :=
  here.isEmpty || tree.directories.any (here.isPrefixOf ·) ||
    tree.files.any fun file => here.isPrefixOf file.1 && file.1 != here

def content? (tree : FileTree) (here : List String) : Option (List UInt8) :=
  (tree.files.find? fun file => file.1 == here).map (·.2)

def follow? (tree : FileTree) : (here : List String) → List String → Option (List UInt8)
  | _, [] => none
  | here, c :: rest =>
    if c = "" ∨ c = "." then follow? tree here rest
    else if c = ".." then
      if here.isEmpty then none else follow? tree here.dropLast rest
    else if rest.isEmpty then tree.content? (here ++ [c])
    else if tree.isDirectory (here ++ [c]) then follow? tree (here ++ [c]) rest
    else none

def read (tree : FileTree) (path : String) : Except Refusal (List UInt8) :=
  if path.toList.contains '\x00' then .error .nulCharacter
  else if pathLimit ≤ path.utf8ByteSize || path.toList.head? == some '/' then .error .unreadable
  else
    match tree.follow? [] (components path) with
    | some content => .ok content
    | none => .error .unreadable

/-- The plain form of a path: single slashes, no components that stay in place, and a dot
for the empty path. Exactly two leading slashes are kept. -/
def plainPath (path : String) : String :=
  let slashes := (path.toList.takeWhile (· == '/')).length
  let root := if slashes = 0 then "" else if slashes = 2 then "//" else "/"
  let body := "/".intercalate (place path)
  if root == "" && body == "" then "." else root ++ body

end FileTree

end NibTape
