import EndpointCatalog.Files.IoError
import EndpointCatalog.Files.Path
import EndpointCatalog.Text.Utf8

/-! A tree of files. It lists what stands at each location, a location being the names
on the way down from the root, and it has a working directory from which relative
paths start. A path is looked up name by name; on the way links are followed, at
most forty of them, and every name but the last must be that of a folder. -/

namespace EndpointCatalog

/-- The names on the way down from the root. -/
abbrev Location := List String

inductive Entry
  | file (content : Text.Utf8.Bytes)
  | folder
  | link (target : String)
  deriving DecidableEq

/-- The entries of a file system; the first one listed for a location counts. -/
structure FileTree where
  entries : List (Location × Entry)
  workDir : Location

namespace FileTree

def entry? (t : FileTree) (loc : Location) : Option Entry :=
  if loc = [] then some .folder else t.entries.lookup loc

def put (t : FileTree) (loc : Location) (e : Entry) : FileTree :=
  { t with entries := (loc, e) :: t.entries.filter (·.1 ≠ loc) }

def erase (t : FileTree) (loc : Location) : FileTree :=
  { t with entries := t.entries.filter (·.1 ≠ loc) }

/-! ### Looking up a path -/

/-- The end of a walk: an entry, or a folder that has no entry of the last name. -/
inductive Lookup
  | found (loc : Location) (entry : Entry)
  | missing (folder : Location) (name : String)

def maxLinks : Nat := 40

def maxNameSize : Nat := 255

def maxPathSize : Nat := 4096

/-- The pieces of a path between its slashes. An empty piece, as behind a trailing
slash, stays where it is but asks for a folder. -/
def pieces (text : String) : List String := (Text.split Path.isSlash text.toList).map String.ofList

/-- What a path is looked up for: what stands at its end, the link itself if a link
stands there, or a file to be written, which no path with a slash at its end names. -/
inductive Purpose
  | target
  | itself
  | writing
  deriving DecidableEq, Repr

/-- Where the walk along a path starts: an absolute path leaves the root, any other
one leaves `here`. -/
def start (here : Location) (p : Path) : Location :=
  match p.isAbsolute with
  | true => []
  | false => here

/-- Walks down from `here`. -/
def walk (t : FileTree) (purpose : Purpose) (links : Nat) (here : Location) (path : List String) :
    Except IoError Lookup :=
  match t.entry? here, path with
  | none, _ => .error .notFound
  | some e, [] => .ok (.found here e)
  | some .folder, piece :: rest =>
    if piece = "" ∨ piece = "." then t.walk purpose links here rest
    else if piece = ".." then t.walk purpose links here.dropLast rest
    else if purpose = .writing ∧ rest ≠ [] ∧ rest.all (· = "") then .error .isDirectory
    else if maxNameSize < piece.utf8ByteSize then .error .nameTooLong
    else
      match t.entry? (here ++ [piece]), links with
      | none, _ => if rest.all (· = "") then .ok (.missing here piece) else .error .notFound
      | some (.link target), links =>
        if rest = [] ∧ purpose = .itself then .ok (.found (here ++ [piece]) (.link target))
        else
          match links with
          | 0 => .error .linkLoop
          | links + 1 =>
            t.walk purpose links (start here ⟨target⟩) (pieces target ++ rest)
      | some _, links => t.walk purpose links (here ++ [piece]) rest
  | some _, _ :: _ => .error .notDirectory
termination_by (links, path.length)

def lookup (t : FileTree) (purpose : Purpose) (p : Path) : Except IoError Lookup :=
  if p.text = "" then .error .notFound
  else if '\x00' ∈ p.text.toList then .error .nulInPath
  else if maxPathSize ≤ p.text.utf8ByteSize then .error .nameTooLong
  else t.walk purpose maxLinks (start t.workDir p) (pieces p.text)

/-! ### Reading -/

/-- The location and the entry that a path leads to. -/
def resolve (t : FileTree) (p : Path) : Except IoError (Location × Entry) :=
  match t.lookup .target p with
  | .ok (.found loc e) => .ok (loc, e)
  | .ok (.missing ..) => .error .notFound
  | .error e => .error e

def isPresent (t : FileTree) (p : Path) : Bool := (t.resolve p).isOk

/-- The location of the folder that a path leads to. -/
def folder? (t : FileTree) (p : Path) : Option Location :=
  match t.resolve p with
  | .ok (loc, .folder) => some loc
  | _ => none

def read (t : FileTree) (p : Path) : Except IoError Text.Utf8.Bytes :=
  match t.resolve p with
  | .ok (_, .file content) => .ok content
  | .ok _ => .error .isDirectory
  | .error e => .error e

def readText (t : FileTree) (p : Path) : Except IoError String :=
  match t.read p with
  | .ok bytes => match Text.Utf8.decode? bytes with
    | some cs => .ok (String.ofList cs)
    | none => .error .notUtf8
  | .error e => .error e

end FileTree

end EndpointCatalog
