import EndpointCatalog.Store.Basic

/-! The database of the catalog. Rows are numbered from a sequence that only a
successful insert moves on. An insert is refused by a guard on its table, then
because its row would not be unique, then because it belongs to no page; a batch
of inserts is one transaction, and a failure takes back all of it. -/

namespace EndpointCatalog

inductive Table
  | pages
  | endpoints
  | sessions
  deriving DecidableEq, Repr

/-- A rule that refuses inserts into a table, or only those of one url. -/
structure Guard where
  table : Table
  url : Option String
  message : String
  deriving DecidableEq, Repr

structure Database where
  pages : List Page
  lastPageId : Int
  endpoints : List Endpoint
  lastEndpointId : Int
  sessions : List Session
  guards : List Guard
  deriving DecidableEq, Repr

namespace Database

def empty : Database := ⟨[], 0, [], 0, [], []⟩

/-! ### Guards -/

/-- Fails if a guard refuses an insert into a table; `url` is that of an endpoint. -/
def checkGuards (table : Table) (url : Option String) : StoreM Database Unit := do
  match (← get).guards.find? fun g => g.table = table && (g.url.isNone || g.url = url) with
  | some g => throw (.database (.refused g.message))
  | none => pure ()

/-- Lifts the guard of a table. -/
def accept (db : Database) (table : Table) : Database :=
  { db with guards := db.guards.filter (·.table ≠ table) }

/-- Puts a guard on a table in place of any earlier one. -/
def reject (db : Database) (g : Guard) : Database :=
  { db.accept g.table with guards := g :: (db.accept g.table).guards }

/-! ### Pages and endpoints -/

def findPage (db : Database) (folder controller : String) : Option Page :=
  db.pages.find? fun p => p.folder = folder ∧ p.controller = controller

def pageEndpoints (db : Database) (pageId : Int) : List Endpoint :=
  (db.endpoints.filter (·.pageId = pageId)).mergeSort (·.id ≤ ·.id)

def endpointExists (db : Database) (pageId : Int) (url : String) : Bool :=
  db.endpoints.any fun e => e.pageId = pageId ∧ e.url = url

/-- Pages by folder and then by controller. -/
def pageLe (a b : Page) : Bool :=
  a.folder < b.folder || (a.folder = b.folder && a.controller ≤ b.controller)

def sortedPages (db : Database) : List Page := db.pages.mergeSort pageLe

def createPage (folder controller : String) : StoreM Database Page := do
  checkGuards .pages none
  let db ← get
  if (db.findPage folder controller).isSome then throw (.database .pageNotUnique)
  let page : Page := ⟨db.lastPageId + 1, folder, controller⟩
  set { db with pages := db.pages ++ [page], lastPageId := page.id }
  return page

def createEndpoint (e : NewEndpoint) : StoreM Database Endpoint := do
  checkGuards .endpoints (some e.url)
  let db ← get
  if db.endpointExists e.pageId e.url then throw (.database .endpointNotUnique)
  if !db.pages.any (·.id = e.pageId) then throw (.database .foreignKey)
  let created := e.numbered (db.lastEndpointId + 1)
  set { db with endpoints := db.endpoints ++ [created], lastEndpointId := created.id }
  return created

/-- Runs a change as one transaction: if it fails, the database is as before. -/
def transaction {α : Type} (change : StoreM Database α) : StoreM Database α := fun db =>
  match change.run db with
  | .ok a after => .ok a after
  | .error e _ => .error e db

def createEndpoints (batch : List NewEndpoint) : StoreM Database Unit :=
  transaction (batch.forM fun e => discard (createEndpoint e))

def countEndpoints (db : Database) : Nat := db.endpoints.length

instance : Store Database where
  findPage := findPage
  pageEndpoints := pageEndpoints
  endpointExists := endpointExists
  pages := sortedPages
  createPage := createPage
  createEndpoint := createEndpoint
  createEndpoints := createEndpoints

/-! ### Sessions -/

/-- The number of the next session; no session has it yet. -/
def nextSession (db : Database) : Nat := db.sessions.foldr (fun s next => max (s.id + 1) next) 0

/-- Opens a session at the time `now` and gives its number. -/
def createSession (now : Int) (root : String) : StoreM Database Nat := do
  checkGuards .sessions none
  let db ← get
  let session : Session := ⟨db.nextSession, root, now, none, .running, 0, 0⟩
  set { db with sessions := db.sessions ++ [session] }
  return session.id

/-- Changes the session of a number; without such a session nothing changes. -/
def updateSession (db : Database) (id : Nat) (change : Session → Session) : Database :=
  { db with sessions := db.sessions.map fun s => if s.id = id then change s else s }

def completeSession (db : Database) (now : Int) (id filesScanned endpointsAdded : Nat) : Database :=
  db.updateSession id fun s =>
    { s with status := .completed, ended := some now, filesScanned, endpointsAdded }

def failSession (db : Database) (now : Int) (id : Nat) : Database :=
  db.updateSession id fun s => { s with status := .failed, ended := some now }

instance : RecordingStore Database where
  createSession := createSession
  completeSession now id filesScanned endpointsAdded :=
    modify (·.completeSession now id filesScanned endpointsAdded)
  failSession now id := modify (·.failSession now id)

/-- The sessions by the time of their start. -/
def sessionsByStart (db : Database) : List Session :=
  db.sessions.mergeSort (·.started ≤ ·.started)

end Database

end EndpointCatalog
