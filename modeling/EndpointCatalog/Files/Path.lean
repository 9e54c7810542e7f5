import EndpointCatalog.Text.Split

/-! Paths. A path keeps the text it was written as, and is printed as that text; what
it means is the list of its components. Repeated and trailing slashes and `.`
between components carry no meaning, while a `.` at the front and every `..` do.
Two paths are the same when their components are. -/

namespace EndpointCatalog

structure Path where
  text : String
  deriving DecidableEq, Repr

/-- A component of a path: the root, `.` at the front, `..`, or a name. -/
inductive Component
  | root
  | here
  | up
  | name (s : String)
  deriving DecidableEq, Repr

namespace Component

def ofPiece (piece : String) : Component := if piece = ".." then .up else .name piece

def text : Component → String
  | root => "/"
  | here => "."
  | up => ".."
  | name s => s

def rank : Component → Nat
  | root => 0
  | here => 1
  | up => 2
  | name _ => 3

/-- The root comes first, then `.`, then `..`, then names by their bytes. -/
def before : Component → Component → Bool
  | name a, name b => a < b
  | a, b => a.rank < b.rank

/-- Paths in order of their components, a shorter path before its extensions. -/
def listLe : List Component → List Component → Bool
  | [], _ => true
  | _ :: _, [] => false
  | a :: as, b :: bs => a.before b || (!b.before a && listLe as bs)

end Component

namespace Path

def isSlash (c : Char) : Bool := c == '/'

/-- The shortest text with the given components. -/
def ofComponents : List Component → Path
  | .root :: rest => ⟨"/" ++ "/".intercalate (rest.map Component.text)⟩
  | cs => ⟨"/".intercalate (cs.map Component.text)⟩

def isAbsolute (p : Path) : Bool := p.text.toList.head?.any isSlash

/-- The components of the pieces after the front of a path, where `.` means nothing. -/
def innerComponents (pieces : List String) : List Component :=
  (pieces.filter (· ≠ ".")).map Component.ofPiece

def components (p : Path) : List Component :=
  match p.isAbsolute, Text.splitPieces isSlash p.text with
  | true, pieces => .root :: innerComponents pieces
  | false, "." :: rest => .here :: innerComponents rest
  | false, pieces => innerComponents pieces

def le (p q : Path) : Bool := Component.listLe p.components q.components

/-- A path below `p`; an absolute `piece` stands for itself. -/
def join (p : Path) (piece : String) : Path :=
  match Path.isAbsolute ⟨piece⟩, p.text.toList.getLast?.all isSlash with
  | true, _ => ⟨piece⟩
  | false, true => ⟨p.text ++ piece⟩
  | false, false => ⟨p.text ++ "/" ++ piece⟩

/-- The path itself and then the directories above it, nearest first. -/
def selfAndAbove (p : Path) : List Path :=
  let above := p.components.dropLast
  if p.text = "" then []
  else p :: (List.range above.length).map fun i => ofComponents (above.take (above.length - i))

/-- The name that a list of components ends with, if it ends with a name. -/
def lastName (cs : List Component) : Option String :=
  match cs.getLast? with
  | some (.name s) => some s
  | _ => none

def fileName (p : Path) : Option String := lastName p.components

/-- The name of the directory that holds the file. -/
def folderName (p : Path) : Option String := lastName p.components.dropLast

/-- A name without its extension: what stands before the last point, unless that is
nothing. -/
def stem (name : String) : String :=
  match (Text.split (· == '.') name.toList).reverse with
  | _ :: piece :: pieces =>
    match ['.'].intercalate (piece :: pieces).reverse with
    | [] => name
    | front => String.ofList front
  | _ => name

def fileStem (p : Path) : Option String := p.fileName.map stem

end Path

end EndpointCatalog
