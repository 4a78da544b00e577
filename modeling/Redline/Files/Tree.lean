import Redline.Text.Search
import Redline.Text.Utf8

namespace Redline.Files

abbrev Path := List String

inductive Content where
  | text (content : String)
  | bytes (content : List UInt8)
deriving DecidableEq, Inhabited

def Content.ofBytes (bytes : List UInt8) : Content :=
  match Text.ofUtf8? bytes with
  | some content => .text (String.ofList content)
  | none => .bytes bytes

def Content.size : Content → Nat
  | text content => content.utf8ByteSize
  | bytes content => content.length

inductive Node where
  | directory
  | file (content : Content)
  | link (target : String)
deriving DecidableEq, Inhabited

abbrev Tree := List (Path × Node)

inductive Problem where
  | notFound
  | occupied
  | notDirectory
  | isDirectory
  | tooManyLinks
  | nameTooLong
  | notText
deriving DecidableEq, Inhabited

def Problem.message : Problem → String
  | notFound => "No such file or directory (os error 2)"
  | occupied => "File exists (os error 17)"
  | notDirectory => "Not a directory (os error 20)"
  | isDirectory => "Is a directory (os error 21)"
  | tooManyLinks => "Too many levels of symbolic links (os error 40)"
  | nameTooLong => "File name too long (os error 36)"
  | notText => "stream did not contain valid UTF-8"

-- A path written with slashes. Empty names and single dots stand for the place itself.
def names (written : String) : Path := (Text.splitOn '/' written.toList).map String.ofList

structure Location where
  shown : String
  path : Path
deriving DecidableEq, Inhabited

def Location.child (place : Location) (name : String) : Location :=
  { shown :=
      if place.shown.isEmpty then name
      else if place.shown.toList.getLast? = some '/' then place.shown ++ name
      else place.shown ++ "/" ++ name
    path := place.path ++ [name] }

def Location.join (place : Location) (written : String) : Location :=
  { place.child written with path := place.path ++ names written }

-- The longest name that a directory can hold, in bytes.
def greatestName : Nat := 255

namespace Tree

def node? (tree : Tree) (path : Path) : Option Node :=
  if path.isEmpty then some .directory else List.lookup path tree

def put (tree : Tree) (path : Path) (node : Node) : Tree :=
  if (List.lookup path tree).isSome then tree.map fun row => if row.1 = path then (path,node) else row
  else tree ++ [(path,node)]

def drop (tree : Tree) (path : Path) : Tree := tree.filter fun row => row.1 ≠ path

-- Where a path leads from a directory. `links` bounds the links that may be followed; one at the
-- very end is followed only on demand. The last name need not exist.
def walk (tree : Tree) (followLast : Bool) (links : Nat) (current : Path) (rest : Path) : Except Problem Path :=
  match rest with
  | [] => .ok current
  | name :: rest =>
      if name = "" ∨ name = "." then walk tree followLast links current rest
      else if name = ".." then walk tree followLast links current.dropLast rest
      else if name.utf8ByteSize > greatestName then .error .nameTooLong
      else
        let here := current ++ [name]
        match node? tree here with
        | none => if rest.isEmpty then .ok here else .error .notFound
        | some .directory => walk tree followLast links here rest
        | some (.file _) => if rest.isEmpty then .ok here else .error .notDirectory
        | some (.link target) =>
            if rest.isEmpty && !followLast then .ok here
            else match links with
              | 0 => .error .tooManyLinks
              | links + 1 =>
                  if target.startsWith "/" then .error .notFound
                  else walk tree followLast links current (names target ++ rest)
termination_by (links,rest.length)

def resolve (tree : Tree) (followLast : Bool) (path : Path) : Except Problem Path :=
  walk tree followLast 40 [] path

def look (tree : Tree) (followLast : Bool) (path : Path) : Except Problem Node := do
  let place ← resolve tree followLast path
  match node? tree place with
  | some node => return node
  | none => throw .notFound

def isDirectory (tree : Tree) (path : Path) : Bool :=
  match look tree true path with
  | .ok .directory => true
  | _ => false

def children (tree : Tree) (path : Path) : List String :=
  tree.filterMap fun row => if row.1 ≠ [] ∧ row.1.dropLast = path then row.1.getLast? else none

def list (tree : Tree) (path : Path) : Except Problem (List String) := do
  let place ← resolve tree true path
  match node? tree place with
  | some .directory => return children tree place
  | some _ => throw .notDirectory
  | none => throw .notFound

def readText (tree : Tree) (path : Path) : Except Problem String := do
  match ← look tree true path with
  | .file (.text content) => return content
  | .file (.bytes _) => throw .notText
  | .directory => throw .isDirectory
  | .link _ => throw .tooManyLinks

def placeFor (tree : Tree) (followLast : Bool) (path : Path) : Except Problem Path := do
  let place ← resolve tree followLast path
  match node? tree place.dropLast with
  | some .directory => return place
  | some _ => throw .notDirectory
  | none => throw .notFound

def write (tree : Tree) (path : Path) (content : Content) : Except Problem Tree := do
  let place ← placeFor tree true path
  match node? tree place with
  | some .directory => throw .isDirectory
  | _ => return put tree place (.file content)

def remove (tree : Tree) (path : Path) : Except Problem Tree := do
  let place ← resolve tree false path
  match node? tree place with
  | some .directory => throw .isDirectory
  | some _ => return drop tree place
  | none => throw .notFound

def makeDirectory (tree : Tree) (path : Path) : Except Problem Tree := do
  let place ← placeFor tree false path
  match node? tree place with
  | some _ => throw .occupied
  | none => return put tree place .directory

-- A directory with those above it; one that is there already is as good as new.
def makeDirectories (tree : Tree) (path : Path) : Nat → Except Problem Tree
  | 0 => .ok tree
  | above + 1 =>
      match makeDirectory tree path with
      | .ok made => .ok made
      | .error .notFound => do
          let tree ← makeDirectories tree path.dropLast above
          match makeDirectory tree path with
          | .ok made => return made
          | .error problem => if isDirectory tree path then return tree else throw problem
      | .error problem => if isDirectory tree path then .ok tree else .error problem

def ensureDirectory (tree : Tree) (path : Path) : Except Problem Tree :=
  makeDirectories tree path path.length

-- What is left where `makeDirectories` fails: those above that could be made.
def madeAbove (tree : Tree) (path : Path) : Nat → Tree
  | 0 => tree
  | above + 1 =>
      match makeDirectory tree path with
      | .error .notFound =>
          match makeDirectories tree path.dropLast above with
          | .ok made => made
          | .error _ => madeAbove tree path.dropLast above
      | _ => tree

def leftovers (tree : Tree) (path : Path) : Tree := madeAbove tree path path.length

def writeWithin (tree : Tree) (path : Path) (content : Content) : Except Problem Tree := do
  let tree ← tree.ensureDirectory path.dropLast
  tree.write path content

def addLink (tree : Tree) (path : Path) (target : String) : Except Problem Tree := do
  let place ← placeFor tree false path
  match node? tree place with
  | some _ => throw .occupied
  | none => return put tree place (.link target)

end Tree

end Redline.Files
