/-! The records of the catalog: pages, their endpoints, and the sessions in which they
were scanned. -/

namespace EndpointCatalog

/-- A page is known by the name of its controller and the folder that holds it. -/
structure Page where
  id : Int
  folder : String
  controller : String
  deriving DecidableEq, Repr

/-- An endpoint of a page. An empty redirect means that none was found. -/
structure Endpoint where
  id : Int
  pageId : Int
  url : String
  redirect : String
  deriving DecidableEq, Repr

/-- An endpoint that no store has numbered yet. -/
structure NewEndpoint where
  pageId : Int
  url : String
  redirect : String
  deriving DecidableEq, Repr

def NewEndpoint.numbered (e : NewEndpoint) (id : Int) : Endpoint :=
  ⟨id, e.pageId, e.url, e.redirect⟩

inductive SessionStatus
  | running
  | completed
  | failed
  deriving DecidableEq, Repr

namespace SessionStatus

def name : SessionStatus → String
  | running => "running"
  | completed => "completed"
  | failed => "failed"

def ofName? (s : String) : Option SessionStatus := [running, completed, failed].find? (·.name = s)

end SessionStatus

/-- One scan of a root. Times are seconds since 1970. -/
structure Session where
  id : Nat
  root : String
  started : Int
  ended : Option Int
  status : SessionStatus
  filesScanned : Nat
  endpointsAdded : Nat
  deriving DecidableEq, Repr

end EndpointCatalog
