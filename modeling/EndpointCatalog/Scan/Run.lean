import EndpointCatalog.Files.Walk
import EndpointCatalog.Scan.Controller
import EndpointCatalog.Scan.Error
import EndpointCatalog.Scan.Pending
import EndpointCatalog.Scan.Summary
import EndpointCatalog.Store.Basic

/-! Scanning controllers into a store. Files are scanned in the order of their paths.
Each one finds or creates its page and then brings in its endpoints one by one; in
a batched scan the new endpoints wait until every file has been scanned. A scan
that fails keeps what it has written so far. -/

namespace EndpointCatalog.Scan

/-- Where a scan stands: the store, the endpoints that wait for the end of the scan,
and the files visited so far. -/
structure State (σ : Type) where
  store : σ
  pending : Pending
  visited : List Path

abbrev ScanM (σ : Type) := EStateM CatalogError (State σ)

variable {σ : Type}

/-- Carries out a change of the store. -/
def onStore {α : Type} (change : StoreM σ α) : ScanM σ α := fun s =>
  match change.run s.store with
  | .ok a store => .ok a { s with store }
  | .error e store => .error (.store e) { s with store }

/-- Notes that a file is being scanned. -/
def visit (path : Path) : ScanM σ Unit :=
  modify fun s => { s with visited := s.visited ++ [path] }

variable [Store σ]

/-- Brings in one endpoint and says whether it is new. -/
def addEndpoint (persistence : Persistence) (e : NewEndpoint) : ScanM σ Bool := do
  let s ← get
  if Store.endpointExists s.store e.pageId e.url then return false
  match persistence with
  | .incremental =>
    let _ ← onStore (Store.createEndpoint e)
    return true
  | .batched =>
    let (added, pending) := s.pending.insert e
    set { s with pending }
    return added

def addRoute (persistence : Persistence) (page : Page) (r : Route) : ScanM σ Found := do
  let added ← addEndpoint persistence ⟨page.id, r.url, r.redirect⟩
  return ⟨r.url, r.redirect, added⟩

/-- Brings in everything a controller yields. -/
def addController (persistence : Persistence) (path : Path) (c : Controller) :
    ScanM σ PageScan := do
  let (page, created) ← onStore (Store.findOrCreatePage c.identity.folder c.identity.controller)
  let endpoints ← c.routes.mapM (addRoute persistence page)
  return ⟨path, page, created, endpoints, c.resolved, c.skipped⟩

def scanFile (tree : FileTree) (options : ScanOptions) (base path : Path) :
    ScanM σ PageScan := do
  visit path
  match Controller.read tree options base path with
  | .ok c => addController options.persistence path c
  | .error e => throw (.unreadable path e)

/-- Writes the endpoints that have waited, if there are any. -/
def flush : ScanM σ Unit := do
  let s ← get
  if s.pending.isEmpty then pure () else onStore (Store.createEndpoints s.pending.records)

def scanAll (tree : FileTree) (options : ScanOptions) (base : Path) (files : List Path) :
    ScanM σ Summary := do
  let pages ← (files.mergeSort Path.le).mapM (scanFile tree options base)
  flush
  return ⟨pages⟩

/-- Whether a file name ends with a suffix, in any letter case. -/
def hasSuffix (suffix name : String) : Bool :=
  (Text.lowerChars suffix.toList).isSuffixOf (Text.lowerChars name.toList)

/-- The controllers below a root, in the order in which a walk comes to them. -/
def discover (tree : FileTree) (suffix : String) (root : Path) : Except CatalogError (List Path) :=
  match tree.folder? root with
  | none => .error (.rootNotFound root)
  | some top =>
    let files := (tree.filesFrom root top).filter fun names => names.getLast?.any (hasSuffix suffix)
    .ok (files.map (·.foldl Path.join root))

/-- What a scan leaves behind: its result, the store, and the files it visited. -/
structure Outcome (σ : Type) where
  result : Except CatalogError Summary
  store : σ
  visited : List Path

def Outcome.of (scan : ScanM σ Summary) (store : σ) : Outcome σ :=
  match scan.run ⟨store, .empty, []⟩ with
  | .ok summary s => ⟨.ok summary, s.store, s.visited⟩
  | .error e s => ⟨.error e, s.store, s.visited⟩

/-- Scans a list of files; references start from the working directory unless the
options say otherwise. -/
def scanFiles (tree : FileTree) (options : ScanOptions) (files : List Path) (store : σ) :
    Outcome σ :=
  .of (scanAll tree options (options.directiveRoot.getD ⟨"."⟩) files) store

/-- Scans every controller below a root, from which references start unless the
options say otherwise. -/
def scanRoot (tree : FileTree) (options : ScanOptions) (root : Path) (store : σ) : Outcome σ :=
  match discover tree options.fileSuffix root with
  | .error e => ⟨.error e, store, []⟩
  | .ok files => .of (scanAll tree options (options.directiveRoot.getD root) files) store

end EndpointCatalog.Scan
