import EndpointCatalog.Directive.Resolve
import EndpointCatalog.Scan.Options

/-! What a controller file yields: the page it stands for and the endpoints found in it
and in the scripts it refers to, each with its redirect. This depends on the file
tree and the options only, and on no store. -/

namespace EndpointCatalog

/-- The names that identify a page. -/
structure PageIdentity where
  folder : String
  controller : String
  deriving DecidableEq, Repr

def Path.pageIdentity (p : Path) : PageIdentity := ⟨p.folderName.getD "", p.fileStem.getD ""⟩

namespace Scan

/-- A route of a controller with the redirect it takes. -/
structure Route where
  url : String
  redirect : String
  deriving DecidableEq, Repr

structure Controller where
  identity : PageIdentity
  routes : List Route
  resolved : Nat
  skipped : List Directive.Skipped

/-- The endpoints in a text itself, followed by those that only its scripts have. -/
def locatedEndpoints (text : List Char) (r : Directive.Resolution) : List Located :=
  distinctBy (·.value) (Extract.endpoints text ++ r.endpoints)

/-- What a controller with the given text yields; references start from `base`. -/
def Controller.ofText (tree : FileTree) (options : ScanOptions) (base path : Path)
    (text : List Char) : Controller :=
  let resolution := Directive.resolve tree base options.letters text
  let redirects := Extract.redirects text
  { identity := path.pageIdentity
    routes := (locatedEndpoints text resolution).map fun l =>
      ⟨l.value, options.policy.choose redirects l.offset⟩
    resolved := resolution.resolved
    skipped := resolution.skipped }

def Controller.read (tree : FileTree) (options : ScanOptions) (base path : Path) :
    Except IoError Controller :=
  (tree.read path).map fun bytes =>
    Controller.ofText tree options base path (Text.Utf8.decodeLossy bytes)

end Scan

end EndpointCatalog
