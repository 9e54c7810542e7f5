import EndpointCatalog.Files.Path

/-! The ways in which a store refuses a change or fails to open, and how each is
reported. -/

namespace EndpointCatalog

/-- A rule of the catalog that a change would break, as the store in memory reports it. -/
inductive Violation
  | unknownPage (pageId : Int)
  | endpointTaken (url : String) (pageId : Int)
  | pageTaken (folder controller : String)
  deriving DecidableEq, Repr

def Violation.message : Violation → String
  | unknownPage id => s!"page {id} does not exist"
  | endpointTaken url id => s!"endpoint {url} already exists for page {id}"
  | pageTaken folder controller => s!"page {folder}/{controller} already exists"

/-- What a database reports. A guard of the database refuses with words of its own, and so
does SQLite where files are in the way. -/
inductive DatabaseFailure
  | pageNotUnique
  | endpointNotUnique
  | foreignKey
  | refused (message : String)
  | notDatabase
  | cannotOpen (path : Path)
  | reported (message code : String)
  deriving DecidableEq, Repr

namespace DatabaseFailure

def message : DatabaseFailure → String
  | pageNotUnique => "UNIQUE constraint failed: pages.folder_name, pages.controller_name"
  | endpointNotUnique => "UNIQUE constraint failed: endpoints.page_id, endpoints.url"
  | foreignKey => "FOREIGN KEY constraint failed"
  | refused message => message
  | notDatabase => "file is not a database"
  | cannotOpen path => "unable to open database file: " ++ path.text
  | reported message _ => message

/-- The code of a failure and what the code stands for. -/
def code : DatabaseFailure → String
  | pageNotUnique | endpointNotUnique => "Error code 2067: A UNIQUE constraint failed"
  | foreignKey => "Error code 787: Foreign key constraint failed"
  | refused _ => "Error code 1811: A RAISE function within a trigger fired"
  | notDatabase => "Error code 26: File opened that is not a database file"
  | cannotOpen _ => "Error code 14: Unable to open the database file"
  | reported _ code => code

/-- The message and then, after a colon, the code. -/
def chain (f : DatabaseFailure) : String := f.message ++ ": " ++ f.code

end DatabaseFailure

inductive StoreError
  | constraint (v : Violation)
  | database (f : DatabaseFailure)
  deriving DecidableEq, Repr

def StoreError.message : StoreError → String
  | constraint v => "Store constraint violated: " ++ v.message
  | database f => "Store failure: " ++ f.message

end EndpointCatalog
