import EndpointCatalog.Files.Path

/-! Paths as users write them, where a `~` at the front stands for the home directory. -/

namespace EndpointCatalog

/-- Replaces a leading `~` that is a whole piece of the path. -/
def Path.expand (home raw : String) : Path :=
  match raw.toList with
  | ['~'] => ⟨home⟩
  | '~' :: '/' :: rest => ⟨home ++ String.ofList ('/' :: rest)⟩
  | _ => ⟨raw⟩

end EndpointCatalog
