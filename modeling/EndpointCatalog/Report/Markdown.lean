import EndpointCatalog.Report.Basic
import EndpointCatalog.Report.Timestamp

/-! The report as a Markdown document: a section for each page with a table of its
endpoints. A pipe inside a cell is escaped. -/

namespace EndpointCatalog.Report.Markdown

/-- Puts a backslash before each pipe. -/
def escapePipes (cs : List Char) : List Char :=
  cs.flatMap fun c => if c == '|' then ['\\', '|'] else [c]

def cell (s : String) : String := String.ofList (escapePipes s.toList)

def row (e : EndpointEntry) : String :=
  "| \x60" ++ cell e.url ++ "\x60 | " ++ cell e.redirect ++ " |\n"

def tableHead : String := "| Endpoint | Redirect |\n|---|---|\n"

def table (endpoints : List EndpointEntry) : String :=
  if endpoints.isEmpty then "_No endpoints_\n\n"
  else tableHead ++ String.join (endpoints.map row) ++ "\n"

def pageSection (p : PageEntry) : String :=
  "## " ++ p.folder ++ "/" ++ p.controller ++ "\n\n" ++ table p.endpoints

def render (r : Report) : String :=
  "# Endpoint Catalog\n\nGenerated " ++ (Timestamp.ofSeconds r.generatedAt).text ++ " | " ++
    toString r.totalPages ++ " pages | " ++ toString r.totalEndpoints ++ " endpoints\n\n" ++
    String.join (r.pages.map pageSection)

end EndpointCatalog.Report.Markdown
