set_option autoImplicit false

/-! # Trees of files

Files and folders as a value: enough of a file system to read, to write and to make folders, seen
from one folder. A path is a text with slashes; the way along it must lead through folders. The
folders around the one we look from exist, and nothing else is known of them. -/

namespace ThreeAddress.CommandLine

/-- A place in a tree: the names on the way to it, behind a `..` for each folder to go out of. -/
abbrev Place := List String

/-- Files with their texts, and the folders besides the one we look from and those around it. -/
structure FileTree where
  files : List (Place × String) := []
  folders : List Place := []
deriving DecidableEq, Repr

namespace FileTree

/-- Whether there is a folder at a place. -/
def isFolder (t : FileTree) (p : Place) : Bool := p.all (· == "..") || t.folders.contains p

/-- Whether there is a file at a place. -/
def isFile (t : FileTree) (p : Place) : Bool := (t.files.lookup p).isSome

/-- Whether a text can be the name of a file. -/
def isName (s : String) : Bool := decide (s.utf8ByteSize ≤ 255) && !s.toList.contains '\x00'

/-- The folder around a place. -/
def outside (p : Place) : Place := if p.all (· == "..") then p ++ [".."] else p.dropLast

/-- Follow the parts of a path from a folder. -/
def follow (t : FileTree) : Place → List String → Option Place
  | here, [] => some here
  | here, part :: rest =>
    if !t.isFolder here then none
    else if part = "" || part = "." then follow t here rest
    else if part = ".." then follow t (outside here) rest
    else if isName part then follow t (here ++ [part]) rest
    else none

/-- Whether a text can be a path inside a tree. A path has at most 4095 bytes. -/
def isPath (s : String) : Bool :=
  !s.isEmpty && !s.startsWith "/" && decide (s.utf8ByteSize ≤ 4095)

/-- The parts of a path between its slashes. -/
def parts (path : String) : List String := (path.toList.splitOn '/').map String.ofList

/-- The place that a path leads to, whether or not there is something. -/
def locate (t : FileTree) (path : String) : Option Place :=
  if isPath path then t.follow [] (parts path) else none

/-- The file that reads as empty and swallows what is written to it. -/
def nullDevice : String := "/dev/null"

/-- The text of a file. -/
def read? (t : FileTree) (path : String) : Option String :=
  if path = nullDevice then some "" else (t.locate path).bind fun p => t.files.lookup p

/-- Write a file, replacing the one that is there. Its folder must exist. -/
def write? (t : FileTree) (path text : String) : Option FileTree :=
  if path = nullDevice then some t
  else do
    let p ← t.locate path
    if t.isFolder p then none
    else some { t with files := (p, text) :: t.files.filter (fun f => f.1 ≠ p) }

/-- Make the folders along the parts of a path, as far as they do not exist. -/
def makeFolders (t : FileTree) : Place → List String → Option FileTree
  | _, [] => some t
  | here, part :: rest =>
    if part = ".." then makeFolders t (outside here) rest
    else
      let p := here ++ [part]
      if t.isFolder p then makeFolders t p rest
      else if t.isFile p || !isName part then none
      else makeFolders { t with folders := p :: t.folders } p rest

/-- The folders in front of the last part of a path. -/
def parent (path : String) : List String :=
  ((parts path).filter (fun part => part ≠ "" && part ≠ ".")).dropLast

/-- Write a file after making the folders that lead to it. -/
def save? (t : FileTree) (path text : String) : Option FileTree :=
  if isPath path then (t.makeFolders [] (parent path)).bind fun t => t.write? path text
  else none

/-- A tree with the given files, in folders as their paths say. -/
def ofFiles (files : List (String × String)) : FileTree :=
  files.foldl (fun t (path, text) => (t.save? path text).getD t) {}

end FileTree

end ThreeAddress.CommandLine
