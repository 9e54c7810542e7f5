import EndpointCatalog.Directive.Reference
import EndpointCatalog.Directive.Script
import EndpointCatalog.Files.Tree

/-! Resolving the directives of a controller. Each script that the controller refers to
is read once, however often and in whatever spelling it is referred to; its
endpoints count as found where the controller first refers to it. A script that
cannot be read is passed over and reported. -/

namespace EndpointCatalog.Directive

/-- A reference whose script could not be read. -/
structure Skipped where
  reference : String
  path : Path
  cause : IoError
  deriving DecidableEq, Repr

def Skipped.reason (s : Skipped) : String :=
  "Directive file unreadable: " ++ s.path.text ++ ": " ++ s.cause.message

/-- What the scripts of a controller contribute to it. -/
structure Resolution where
  endpoints : List Located
  resolved : Nat
  skipped : List Skipped

/-- A reference together with the file it names. -/
structure Target where
  reference : Located
  path : Path

/-- The files that a text refers to, each with the first reference to it. -/
def targets (base : Path) (text : List Char) : List Target :=
  distinctBy (·.path.components) ((references text).map fun r => ⟨r, resolvePath base r.value⟩)

/-- The endpoints in the script of a target, at the offset of its reference. -/
def Target.read (tree : FileTree) (letters : LetterCase) (t : Target) :
    Except Skipped (List Located) :=
  match tree.read t.path with
  | .ok script => .ok ((scriptEndpoints letters script).map (⟨·, t.reference.offset⟩))
  | .error e => .error ⟨t.reference.value, t.path, e⟩

def resolve (tree : FileTree) (base : Path) (letters : LetterCase) (text : List Char) : Resolution :=
  let outcomes := (targets base text).map (·.read tree letters)
  let read := outcomes.filterMap (·.toOption)
  { endpoints := distinctBy (·.value) read.flatten
    resolved := read.length
    skipped := outcomes.filterMap fun
      | .error s => some s
      | .ok _ => none }

end EndpointCatalog.Directive
