import EndpointCatalog.Store.Error
import EndpointCatalog.Store.Record

/-! What every store of the catalog can do. Questions are answered from a store as it
is; a change takes a store to the one it leaves behind, also when it fails. A
store keeps each (folder, controller) and each (page, url) at most once. -/

namespace EndpointCatalog

/-- A change of a store that may be refused. -/
abbrev StoreM (σ : Type) := EStateM StoreError σ

/-- What a change gives, and the store that it leaves behind, also when it is refused. -/
def StoreM.attempt {σ α : Type} (change : StoreM σ α) (s : σ) : Except StoreError α × σ :=
  match change.run s with
  | .ok a s => (.ok a, s)
  | .error e s => (.error e, s)

class Store (σ : Type) where
  findPage : σ → (folder controller : String) → Option Page
  pageEndpoints : σ → (pageId : Int) → List Endpoint
  endpointExists : σ → (pageId : Int) → (url : String) → Bool
  pages : σ → List Page
  createPage : (folder controller : String) → StoreM σ Page
  createEndpoint : NewEndpoint → StoreM σ Endpoint
  /-- Creates all endpoints of a batch or none. -/
  createEndpoints : List NewEndpoint → StoreM σ Unit

/-- A store that keeps a record of its scans as well, a session for each of them. -/
class RecordingStore (σ : Type) extends Store σ where
  /-- Opens a session at the time `now` and gives its number. -/
  createSession : (now : Int) → (root : String) → StoreM σ Nat
  completeSession : (now : Int) → (id filesScanned endpointsAdded : Nat) → StoreM σ Unit
  failSession : (now : Int) → (id : Nat) → StoreM σ Unit

/-- The page of the given names and whether it had to be created. -/
def Store.findOrCreatePage {σ : Type} [Store σ] (folder controller : String) :
    StoreM σ (Page × Bool) := do
  match Store.findPage (← get) folder controller with
  | some page => return (page, false)
  | none => return (← Store.createPage folder controller, true)

end EndpointCatalog
