import EndpointCatalog.Store.Basic

/-! The store in memory, for dry runs. Pages and endpoints are listed in the order of
their creation and numbered by their place in the list. -/

namespace EndpointCatalog

structure MemoryStore where
  pages : List Page
  endpoints : List Endpoint
  deriving DecidableEq, Repr

namespace MemoryStore

def empty : MemoryStore := ⟨[], []⟩

def findPage (s : MemoryStore) (folder controller : String) : Option Page :=
  s.pages.find? fun p => p.folder = folder ∧ p.controller = controller

def pageEndpoints (s : MemoryStore) (pageId : Int) : List Endpoint :=
  s.endpoints.filter (·.pageId = pageId)

def endpointExists (s : MemoryStore) (pageId : Int) (url : String) : Bool :=
  s.endpoints.any fun e => e.pageId = pageId ∧ e.url = url

def createPage (folder controller : String) : StoreM MemoryStore Page := do
  let s ← get
  if (s.findPage folder controller).isSome then
    throw (.constraint (.pageTaken folder controller))
  let page : Page := ⟨s.pages.length + 1, folder, controller⟩
  set { s with pages := s.pages ++ [page] }
  return page

def createEndpoint (e : NewEndpoint) : StoreM MemoryStore Endpoint := do
  let s ← get
  if !s.pages.any (·.id = e.pageId) then
    throw (.constraint (.unknownPage e.pageId))
  if s.endpointExists e.pageId e.url then
    throw (.constraint (.endpointTaken e.url e.pageId))
  let created := e.numbered (s.endpoints.length + 1)
  set { s with endpoints := s.endpoints ++ [created] }
  return created

/-- A batch that fails part way is cut back to what there was before it. -/
def createEndpoints (batch : List NewEndpoint) : StoreM MemoryStore Unit := fun s =>
  match (batch.forM fun e => discard (createEndpoint e)).run s with
  | .ok _ after => .ok () after
  | .error e after => .error e { after with endpoints := after.endpoints.take s.endpoints.length }

instance : Store MemoryStore where
  findPage := findPage
  pageEndpoints := pageEndpoints
  endpointExists := endpointExists
  pages := pages
  createPage := createPage
  createEndpoint := createEndpoint
  createEndpoints := createEndpoints

end MemoryStore

end EndpointCatalog
