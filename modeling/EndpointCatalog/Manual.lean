import EndpointCatalog.Scan.Error
import EndpointCatalog.Store.Basic
import EndpointCatalog.Text.Blank

/-! Entering endpoints by hand. All text is trimmed; blank urls and urls that the page
has already are passed over. -/

namespace EndpointCatalog.Manual

structure Entry where
  url : String
  redirect : String
  deriving DecidableEq, Repr

structure Account where
  page : Page
  pageCreated : Bool
  added : Nat
  skipped : Nat
  deriving DecidableEq, Repr

variable {σ : Type} [Store σ]

/-- Enters one endpoint and says whether it is new. -/
def addEntry (pageId : Int) (e : Entry) : StoreM σ Bool := do
  let url := Text.trim e.url
  if url.isEmpty || Store.endpointExists (← get) pageId url then return false
  let _ ← Store.createEndpoint ⟨pageId, url, Text.trim e.redirect⟩
  return true

/-- Enters endpoints of the page with the given names, which is created if need be. -/
def add (folder controller : String) (entries : List Entry) : StoreM σ Account := do
  let (page, created) ← Store.findOrCreatePage (Text.trim folder) (Text.trim controller)
  let news ← entries.mapM (addEntry page.id)
  return ⟨page, created, news.count true, news.count false⟩

end EndpointCatalog.Manual
