import Inyandiko.Text.Blank

/-! Locations of files, and the files that exist. A location is a list of components from the top;
a written name is followed component by component, where an empty part and a dot stay and two dots
go up. -/
namespace Inyandiko

open Text

/-- An absolute location in normal form: its components from the top. -/
abbrev Location := List String

namespace Location

def parts (name : String) : List String := (splitOn '/' name.toList).map String.ofList

def isAbsolute (name : String) : Bool := name.toList.head? = some '/'

def follow (location : Location) (part : String) : Location :=
  if part = "" || part = "." then location
  else if part = ".." then location.dropLast
  else location ++ [part]

def start (directory : Location) (name : String) : Location :=
  if isAbsolute name then [] else directory

def resolve (directory : Location) (name : String) : Location :=
  (parts name).foldl follow (start directory name)

/-- The last dot of a component and what follows it, unless the dot is its first or last
character. -/
def suffixOf (component : String) : String :=
  let tail := component.toList.reverse.takeWhile (· ≠ '.')
  if tail.isEmpty || component.length ≤ tail.length + 1 then ""
  else String.ofList ('.' :: tail.reverse)

def suffix (location : Location) : String := (location.getLast?.map suffixOf).getD ""

def isWithin (directory location : Location) : Bool := directory.isPrefixOf location

end Location

inductive FileNode
  | directory
  | file (bytes : List UInt8)
  deriving DecidableEq, Repr

structure FileTree where
  nodes : List (Location × FileNode) := []

namespace FileTree

def add (tree : FileTree) (directory : Location) (name : String) (node : FileNode) : FileTree :=
  ⟨(Location.resolve directory name, node) :: tree.nodes⟩

def file? (tree : FileTree) (location : Location) : Option (List UInt8) :=
  match tree.nodes.lookup location with
  | some (.file bytes) => some bytes
  | _ => none

/-- Whether a location is a directory: it is known as one, or something stands below it. -/
def isDirectory (tree : FileTree) (location : Location) : Bool :=
  tree.nodes.lookup location = some .directory ||
    tree.nodes.any fun (other, _) => location.isPrefixOf other && location ≠ other

/-- Follows the parts of a written name through directories that exist. -/
def walk (tree : FileTree) (location : Location) : List String → Option Location
  | [] => some location
  | part :: parts =>
    if part = "" || part = "." then tree.walk location parts
    else if tree.isDirectory location then tree.walk (location.follow part) parts
    else none

/-- The bytes of the file that a written name leads to from a directory, if every directory on
the way exists. -/
def open? (tree : FileTree) (directory : Location) (name : String) : Option (List UInt8) := do
  if name.toList.contains '\x00' then none
  else tree.file? (← tree.walk (Location.start directory name) (Location.parts name))

end FileTree

end Inyandiko
