import EndpointCatalog.Report.Basic
import EndpointCatalog.Report.Timestamp

/-! The report as plain text for the screen. -/

namespace EndpointCatalog.Report.Plain

def rule : String := String.ofList (List.replicate 78 '━') ++ "\n"

def endpointLine (e : EndpointEntry) : String :=
  "  - " ++ e.url ++ " (Redirect: " ++ e.redirect ++ ")\n"

def page (p : PageEntry) : String :=
  "Folder: " ++ p.folder ++ "\nController: " ++ p.controller ++ "\nAPIs:\n" ++
    (if p.endpoints.isEmpty then "  (none)\n" else String.join (p.endpoints.map endpointLine)) ++
    "\n"

def render (r : Report) : String :=
  rule ++ "                         CTRLSCAN ENDPOINT CATALOG\n" ++ rule ++
    "\nGenerated:    " ++ (Timestamp.ofSeconds r.generatedAt).text ++
    "\nPages:        " ++ toString r.totalPages ++
    "\nEndpoints:    " ++ toString r.totalEndpoints ++ "\n\n" ++
    String.join (r.pages.map page) ++ rule

end EndpointCatalog.Report.Plain
