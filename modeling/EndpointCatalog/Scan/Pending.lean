import EndpointCatalog.Store.Record

/-! Endpoints that wait to be written in one batch. A page has each url at most once
among them. -/

namespace EndpointCatalog.Scan

structure Pending where
  records : List NewEndpoint
  deriving DecidableEq, Repr

namespace Pending

def empty : Pending := ⟨[]⟩

def holds (p : Pending) (pageId : Int) (url : String) : Bool :=
  p.records.any fun r => r.pageId = pageId ∧ r.url = url

/-- Adds an endpoint unless its page has the url already, and says whether it did. -/
def insert (p : Pending) (e : NewEndpoint) : Bool × Pending :=
  if p.holds e.pageId e.url then (false, p) else (true, ⟨p.records ++ [e]⟩)

def size (p : Pending) : Nat := p.records.length

def isEmpty (p : Pending) : Bool := p.records.isEmpty

end Pending

end EndpointCatalog.Scan
