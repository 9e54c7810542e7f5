import EndpointCatalog.Scan.Summary
import EndpointCatalog.Terminal.Style

/-! The account of a scan on the screen. -/

namespace EndpointCatalog.Scan

open Terminal

/-- A line for an endpoint, marked with `+` if it is new. -/
def Found.line (color : Bool) (f : Found) : String :=
  let marker := if f.added then paint color Style.green.bold "+" else paint color .plain "-"
  "  " ++ marker ++ " " ++ f.url ++ " (Redirect: " ++ f.redirect ++ ")\n"

def skippedLine (color : Bool) (s : Directive.Skipped) : String :=
  "  " ++ paint color .yellow "⚠" ++ " directive skipped: " ++ s.path.text ++ "\n"

def PageScan.text (color : Bool) (p : PageScan) : String :=
  "Folder: " ++ paint color .brightWhite p.page.folder ++ "\n" ++
    "Controller: " ++ paint color .brightWhite p.page.controller ++ "\n" ++
    "APIs:\n" ++ String.join (p.endpoints.map (·.line color)) ++
    String.join (p.skipped.map (skippedLine color))

def unresolvedWarning (color : Bool) : String :=
  "  " ++ paint color .yellow "⚠" ++
    " No directive file could be read. Pass --directive-root <web root> " ++
    "(the directory directive references are relative to).\n"

def Summary.text (color : Bool) (s : Summary) : String :=
  String.join (s.pages.map (·.text color)) ++ "\n" ++
    paint color Style.green.bold "✓" ++ " Scan complete\n" ++
    "  Files scanned:      " ++ toString s.filesScanned ++ "\n" ++
    "  Pages created:      " ++ toString s.pagesCreated ++ "\n" ++
    "  Endpoints added:    " ++ toString s.endpointsAdded ++ "\n" ++
    "  Directives skipped: " ++ toString s.skipped.length ++ "\n" ++
    (if s.directiveRootUnresolved then unresolvedWarning color else "")

end EndpointCatalog.Scan
