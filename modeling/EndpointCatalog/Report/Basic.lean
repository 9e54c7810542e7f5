import EndpointCatalog.Store.Basic

/-! The report on a catalog: every page with its endpoints, the pages in the order of
their folders and then of their controllers. -/

namespace EndpointCatalog

namespace Report

structure EndpointEntry where
  url : String
  redirect : String
  deriving DecidableEq, Repr

structure PageEntry where
  folder : String
  controller : String
  endpoints : List EndpointEntry
  deriving DecidableEq, Repr

namespace PageEntry

def le (a b : PageEntry) : Bool :=
  a.folder < b.folder || (a.folder = b.folder && a.controller ≤ b.controller)

end PageEntry

/-- The forms in which a report can be written. -/
inductive Format
  | text
  | json
  | csv
  | markdown
  deriving DecidableEq, Repr

end Report

structure Report where
  /-- Seconds since 1970. -/
  generatedAt : Int
  totalPages : Nat
  totalEndpoints : Nat
  pages : List Report.PageEntry
  deriving DecidableEq, Repr

namespace Report

variable {σ : Type} [Store σ]

def pageEntry (store : σ) (p : Page) : PageEntry where
  folder := p.folder
  controller := p.controller
  endpoints := (Store.pageEndpoints store p.id).map fun e => ⟨e.url, e.redirect⟩

/-- The report on what a store holds at the time `now`. -/
def ofStore (now : Int) (store : σ) : Report :=
  let pages := ((Store.pages store).map (pageEntry store)).mergeSort PageEntry.le
  { generatedAt := now
    totalPages := pages.length
    totalEndpoints := (pages.flatMap (·.endpoints)).length
    pages }

end Report

end EndpointCatalog
