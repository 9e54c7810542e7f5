import EndpointCatalog.Extract.Located
import EndpointCatalog.Files.Path

/-! References to directive scripts. A controller names the scripts it uses by paths
with a `directives` folder in them, written with slashes or backslashes; below a
base directory the pieces between them are joined one by one, so that a leading
slash does not lead out of the base. -/

namespace EndpointCatalog.Directive

/-- The distinct references of a text, in the order of the text. -/
def references (text : List Char) : List Located :=
  let found := (Pattern.directiveReference.find text).filterMap fun (offset, hit) =>
    let value := Text.trimChars hit.value
    if value.isEmpty then none else some ⟨String.ofList value, offset⟩
  distinctBy (·.value) found

def isSeparator (c : Char) : Bool := c == '/' || c == '\\'

/-- The file that a reference names below a base directory. -/
def resolvePath (base : Path) (reference : String) : Path :=
  (Text.splitPieces isSeparator reference).foldl Path.join base

end EndpointCatalog.Directive
