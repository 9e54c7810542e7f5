import EndpointCatalog.Directive.Script
import EndpointCatalog.Extract.Located
import EndpointCatalog.Files.Path

/-! How a scan is carried out: which files count as controllers, where directive
scripts lie, which redirect an endpoint takes and when endpoints are written. -/

namespace EndpointCatalog

/-- Which redirect of a controller its endpoints take: the first one, or for each
endpoint the one that most closely precedes it. -/
inductive RedirectPolicy
  | first
  | nearest
  deriving DecidableEq, Repr

namespace RedirectPolicy

def name : RedirectPolicy → String
  | first => "first"
  | nearest => "nearest"

def ofName? (s : String) : Option RedirectPolicy := [first, nearest].find? (·.name = s)

/-- The policy of a name in any letter case. -/
def parse (s : String) : Option RedirectPolicy := ofName? (Text.lower s)

/-- The later of two redirects; of two at one place, the second. -/
def later (best : Option Located) (r : Located) : Option Located :=
  match best with
  | none => some r
  | some b => if b.offset ≤ r.offset then some r else some b

/-- The last redirect at or before an offset. -/
def preceding (redirects : List Located) (offset : Nat) : Option Located :=
  (redirects.filter (·.offset ≤ offset)).foldl later none

/-- The redirect of an endpoint at an offset, empty if there are none. -/
def choose (policy : RedirectPolicy) (redirects : List Located) (offset : Nat) : String :=
  let chosen := match policy with
    | first => redirects.head?
    | nearest => (preceding redirects offset).or redirects.head?
  chosen.elim "" (·.value)

end RedirectPolicy

/-- When new endpoints are written: each as it is found, or all at the end. -/
inductive Persistence
  | incremental
  | batched
  deriving DecidableEq, Repr

structure ScanOptions where
  fileSuffix : String
  /-- The base of directive references, if it is not the root of the scan. -/
  directiveRoot : Option Path
  letters : Directive.LetterCase
  policy : RedirectPolicy
  persistence : Persistence
  deriving DecidableEq, Repr

namespace ScanOptions

def defaultSuffix : String := "controller.js"

def standard : ScanOptions := ⟨defaultSuffix, none, .preserve, .first, .incremental⟩

end ScanOptions

end EndpointCatalog
