import EndpointCatalog.Files.IoError
import EndpointCatalog.Store.Error

/-! The ways in which working with the catalog fails. -/

namespace EndpointCatalog

inductive CatalogError
  | rootNotFound (root : Path)
  | store (e : StoreError)
  | unreadable (path : Path) (e : IoError)
  | io (e : IoError)
  deriving DecidableEq, Repr

namespace CatalogError

def message : CatalogError → String
  | rootNotFound root => "Not Found => " ++ root.text
  | store e => e.message
  | unreadable path e => "Failed to read " ++ path.text ++ ": " ++ e.message
  | io e => "IO error: " ++ e.message

/-- The message and then, after colons, those of the causes behind it. -/
def chain : CatalogError → String
  | rootNotFound root => message (rootNotFound root)
  | store (.constraint v) => message (store (.constraint v))
  | store (.database f) => message (store (.database f)) ++ ": " ++ f.chain
  | unreadable path e => message (unreadable path e) ++ ": " ++ e.message
  | io e => message (io e) ++ ": " ++ e.message

end CatalogError

end EndpointCatalog
