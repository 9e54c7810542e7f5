import EndpointCatalog.Files.Tree

/-! Changing a tree of files. A change that fails leaves the tree as it was, except
that creating a chain of folders keeps the folders made before the failure. -/

namespace EndpointCatalog.FileTree

/-- A change of a tree that may fail. -/
abbrev Change := EStateM IoError FileTree

/-- A path without the slashes at its end, unless it is all slashes. -/
def withoutSlashes (p : Path) : Path :=
  match p.text.toList.reverse.dropWhile Path.isSlash with
  | [] => p
  | rest => ⟨String.ofList rest.reverse⟩

/-- Creates or replaces a file; a dangling link at the end of the path is filled. -/
def write (p : Path) (content : Text.Utf8.Bytes) : Change Unit := do
  let t ← get
  match t.lookup .writing p with
  | .ok (.found loc (.file _)) => set (t.put loc (.file content))
  | .ok (.found ..) => throw .isDirectory
  | .ok (.missing folder name) => set (t.put (folder ++ [name]) (.file content))
  | .error e => throw e

/-- Removes a file or a link, but no folder. -/
def remove (p : Path) : Change Unit := do
  let t ← get
  match t.lookup .itself p with
  | .ok (.found _ .folder) => throw .isDirectory
  | .ok (.found loc _) => set (t.erase loc)
  | .ok (.missing ..) => throw .notFound
  | .error e => throw e

def createFolder (p : Path) : Change Unit := do
  let t ← get
  match t.lookup .itself (withoutSlashes p) with
  | .ok (.found ..) => throw .fileExists
  | .ok (.missing folder name) => set (t.put (folder ++ [name]) .folder)
  | .error e => throw e

/-- Creates the first path of a list; if the folder for it is missing, creates the
rest of the list first. A folder that is there already is as good as a new one. -/
def createFirst : List Path → Change Unit
  | [] => pure ()
  | p :: above => do
    let settle (e : IoError) : Change Unit := do
      if ((← get).folder? p).isSome then pure () else throw e
    let t ← get
    match (createFolder p).run t with
    | .ok _ t => set t
    | .error .notFound _ => do
      createFirst above
      let t ← get
      match (createFolder p).run t with
      | .ok _ t => set t
      | .error e _ => settle e
    | .error e _ => settle e

/-- Creates a folder and every folder above it that is missing. -/
def createFolders (p : Path) : Change Unit := createFirst p.selfAndAbove

/-- Puts a link at a path. -/
def createLink (p : Path) (target : String) : Change Unit := do
  let t ← get
  match t.lookup .itself p with
  | .ok (.found ..) => throw .fileExists
  | .ok (.missing folder name) => set (t.put (folder ++ [name]) (.link target))
  | .error e => throw e

/-- Removes whatever a path names, a folder with all that is in it. -/
def removeAll (p : Path) : Change Unit := do
  let t ← get
  match t.lookup .itself p with
  | .ok (.found loc _) => set { t with entries := t.entries.filter fun e => !loc.isPrefixOf e.1 }
  | .ok (.missing ..) => throw .notFound
  | .error e => throw e

end EndpointCatalog.FileTree
