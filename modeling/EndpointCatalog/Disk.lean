import EndpointCatalog.Files.Change
import EndpointCatalog.Text.LowerCase

/-! The files of the machine. The part of them that a command may look at is loaded into
a tree, and what a command has changed in its tree is stored again. -/

namespace EndpointCatalog.Disk

/-- The place of a location on the machine. -/
def place (loc : Location) : IO.FS.DirEntry := ⟨⟨"/"⟩, "/".intercalate loc⟩

def names (text : String) : Location := Text.splitPieces Path.isSlash text

def absent (t : FileTree) (loc : Location) : Bool := (t.entry? loc).isNone

def bytesOf (b : ByteArray) : Text.Utf8.Bytes := b.data.toList

/-- Loads the entry at a location. The content of a file counts only if `wanted` says
so of its name. A link leads to the place that it stands for in the end. -/
def loadEntry (wanted : String → Bool) (t : FileTree) (loc : Location) : IO FileTree := do
  if !absent t loc then return t
  let path := (place loc).path
  match ← path.symlinkMetadata.toBaseIO with
  | .error _ => return t
  | .ok data =>
    match data.type with
    | .dir => return t.put loc .folder
    | .symlink =>
      match ← (IO.FS.realPath path).toBaseIO with
      | .ok target => return t.put loc (.link target.toString)
      | .error _ => return t
    | _ =>
      if wanted (loc.getLast?.getD "") then
        return t.put loc (.file (bytesOf (← IO.FS.readBinFile path)))
      else return t.put loc (.file [])

/-- Loads every entry on the way along a path, and gives the location it leads to. -/
partial def loadPath (wanted : String → Bool) (t : FileTree) (here : Location) :
    List String → IO (FileTree × Location)
  | [] => return (t, here)
  | piece :: rest => do
    if piece = "" ∨ piece = "." then loadPath wanted t here rest
    else if piece = ".." then loadPath wanted t here.dropLast rest
    else
      let loc := here ++ [piece]
      let t ← loadEntry wanted t loc
      match t.entry? loc with
      | some (.link target) => loadPath wanted t [] (FileTree.pieces target ++ rest)
      | _ => loadPath wanted t loc rest

/-- Loads everything below a location, and everything that links there lead to. -/
partial def loadBelow (wanted : String → Bool) (t : FileTree) (loc : Location) : IO FileTree := do
  match t.entry? loc with
  | some (.link target) =>
    let seen := !absent t (names target)
    let (t, there) ← loadPath wanted t [] (names target)
    if seen then return t else loadBelow wanted t there
  | some .folder =>
    match ← (place loc).path.readDir.toBaseIO with
    | .error _ => return t
    | .ok children =>
      children.foldlM (fun t child => do
        let below := loc ++ [child.fileName]
        loadBelow wanted (← loadEntry wanted t below) below) t
  | _ => return t

/-- Loads what a path leads to, and for a folder everything below it if `deep`. -/
def load (wanted : String → Bool) (deep : Bool) (t : FileTree) (p : Path) : IO FileTree := do
  let (t, loc) ← loadPath wanted t (FileTree.start t.workDir p) (FileTree.pieces p.text)
  if deep then loadBelow wanted t loc else return t

/-- A tree with nothing but the working directory of the program. -/
def start : IO FileTree := do
  let here ← IO.currentDir
  load (fun _ => false) false ⟨[], names here.toString⟩ ⟨here.toString⟩

def storeEntry (loc : Location) : Entry → IO Unit
  | .folder => do
    if !(← (place loc).path.isDir) then IO.FS.createDir (place loc).path
  | .file content => IO.FS.writeBinFile (place loc).path ⟨content.toArray⟩
  | .link _ => pure ()

/-- Stores the difference between two trees, folders before what is in them. -/
def store (before after : FileTree) : IO Unit := do
  for (loc, _) in before.entries do
    if absent after loc then IO.FS.removeFile (place loc).path
  let changed := after.entries.filter fun e => before.entry? e.1 != some e.2
  for (loc, entry) in changed.mergeSort (fun a b => a.1.length ≤ b.1.length) do
    storeEntry loc entry

end EndpointCatalog.Disk
