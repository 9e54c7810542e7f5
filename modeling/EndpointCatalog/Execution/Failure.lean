import EndpointCatalog.Config

/-! The ways in which a command fails, and what it then says. A message goes on to the
cause behind it, after a colon. -/

namespace EndpointCatalog.Execution

inductive Failure
  | loadConfig (p : Path) (cause : Config.LoadError)
  | noDatabase (p : Path)
  | openDatabase (p : Path) (cause : DatabaseFailure)
  | noRoot
  | catalog (e : CatalogError)
  | unreadableInput
  | createFolder (p : Path) (cause : IoError)
  | removeDatabase (p : Path) (cause : IoError)
  | writeConfig (p : Path) (cause : IoError)
  | createDatabase (p : Path) (cause : DatabaseFailure)
  deriving DecidableEq, Repr

namespace Failure

/-- What was to be done to a path, and why it could not be. -/
def because (deed : String) (p : Path) (cause : String) : String :=
  "Failed to " ++ deed ++ " " ++ p.text ++ ": " ++ cause

def message : Failure → String
  | loadConfig p cause => because "load" p cause.chain
  | noDatabase p => "No database at " ++ p.text ++ ". Run \x60ctrlscan init\x60 first."
  | openDatabase p cause => because "open" p cause.chain
  | noRoot => "No scan root given and none set in config.toml"
  | catalog e => e.chain
  | unreadableInput => IoError.notUtf8.message
  | createFolder p cause => because "create" p cause.message
  | removeDatabase p cause => because "remove" p cause.message
  | writeConfig p cause => because "write" p (CatalogError.io cause).chain
  | createDatabase p cause => because "create" p cause.chain

end Failure

end EndpointCatalog.Execution
