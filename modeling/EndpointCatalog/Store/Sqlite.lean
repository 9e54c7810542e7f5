import EndpointCatalog.Files.Tree
import EndpointCatalog.Store.Database

/-! Databases in files. SQLite keeps the tables of a database in a file and in others
beside it. It is a parameter here, by what the catalog asks of it; a connection to a
database carries out each statement on the tables first, and then SQLite commits it. -/

namespace EndpointCatalog

/-- SQLite, as the catalog uses it. -/
structure Sqlite where
  /-- The location of the database file that a path names, whether it is there or not. -/
  place : FileTree → Path → Except DatabaseFailure Location
  /-- Opens the database at a location, which a path has named, with its tables; what is
  missing of them is created. -/
  connect : Path → Location → EStateM DatabaseFailure FileTree Database
  /-- Stores a database that a statement has changed. -/
  commit : Location → (before after : Database) → EStateM DatabaseFailure FileTree Unit
  /-- Closes the database at a location. -/
  disconnect : Location → FileTree → FileTree

namespace Sqlite

/-- Whether SQLite takes the text of a path for a URI. -/
def isUri (p : Path) : Bool := "file:".toList.isPrefixOf p.text.toList

/-- The locations of the files that SQLite keeps beside a database file. -/
def beside (loc : Location) : List Location :=
  ["-journal", "-wal", "-shm"].map fun ending =>
    loc.dropLast ++ [loc.getLast?.getD "" ++ ending]

/-- The locations of all files of a database. -/
def files (loc : Location) : List Location := loc :: beside loc

end Sqlite

/-- An open database: the location of its file, its tables, and the files around it. -/
structure Connection (sqlite : Sqlite) where
  place : Location
  db : Database
  tree : FileTree

namespace Connection

variable {sqlite : Sqlite}

/-- Carries out a statement. One that fails changes no table, also if only storing what it
has changed fails. -/
def statement {α : Type} (change : StoreM Database α) : StoreM (Connection sqlite) α := fun c =>
  match change.run c.db with
  | .error e _ => .error e c
  | .ok a db =>
    match (sqlite.commit c.place c.db db).run c.tree with
    | .ok _ tree => .ok a { c with db, tree }
    | .error e tree => .error (.database e) { c with tree }

instance : RecordingStore (Connection sqlite) where
  findPage c := c.db.findPage
  pageEndpoints c := c.db.pageEndpoints
  endpointExists c := c.db.endpointExists
  pages c := c.db.sortedPages
  createPage folder controller := statement (Store.createPage folder controller)
  createEndpoint e := statement (Store.createEndpoint e)
  createEndpoints batch := statement (Store.createEndpoints batch)
  createSession now root := statement (RecordingStore.createSession now root)
  completeSession now id filesScanned endpointsAdded :=
    statement (RecordingStore.completeSession now id filesScanned endpointsAdded)
  failSession now id := statement (RecordingStore.failSession now id)

end Connection

end EndpointCatalog
