import EndpointCatalog.Directive.Resolve
import EndpointCatalog.Store.Record

/-! The account of a scan: for each controller the page, the endpoints with a note
whether they are new, and the scripts that were read and passed over. -/

namespace EndpointCatalog.Scan

/-- An endpoint of a controller; `added` is false if the page had its url before. -/
structure Found where
  url : String
  redirect : String
  added : Bool
  deriving DecidableEq, Repr

structure PageScan where
  path : Path
  page : Page
  pageCreated : Bool
  endpoints : List Found
  resolved : Nat
  skipped : List Directive.Skipped
  deriving DecidableEq, Repr

structure Summary where
  pages : List PageScan
  deriving DecidableEq, Repr

namespace Summary

def filesScanned (s : Summary) : Nat := s.pages.length

def pagesCreated (s : Summary) : Nat := s.pages.countP (·.pageCreated)

def endpointsAdded (s : Summary) : Nat := (s.pages.flatMap (·.endpoints)).countP (·.added)

def skipped (s : Summary) : List Directive.Skipped := s.pages.flatMap (·.skipped)

/-- Whether directives were referred to but none of them could be read. -/
def directiveRootUnresolved (s : Summary) : Bool :=
  s.pages.all (·.resolved == 0) && !s.skipped.isEmpty

end Summary

end EndpointCatalog.Scan
