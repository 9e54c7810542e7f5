import EndpointCatalog.Report.Csv
import EndpointCatalog.Report.Json
import EndpointCatalog.Report.Markdown
import EndpointCatalog.Report.Plain
import EndpointCatalog.Text.LowerCase

/-! Writing a report in each of its forms. -/

namespace EndpointCatalog

/-- The version of the program, as its reports and its banner give it. -/
def version : String := "0.1.0"

namespace Report

namespace Format

/-- The form that a name stands for, in any letter case. -/
def ofName? (s : String) : Option Format :=
  match Text.lower s with
  | "text" => some text
  | "json" => some json
  | "csv" => some csv
  | "markdown" | "md" => some markdown
  | _ => none

end Format

def EndpointEntry.toJson (e : EndpointEntry) : Json :=
  .object [("redirect", .text e.redirect), ("url", .text e.url)]

def PageEntry.toJson (p : PageEntry) : Json :=
  .object [("controller_name", .text p.controller),
    ("endpoints", .list (p.endpoints.map EndpointEntry.toJson)),
    ("folder_name", .text p.folder)]

/-- The report as a document, with the fields of each object in alphabetical order. -/
def toJson (r : Report) : Json :=
  .object [("catalog", .object [
    ("metadata", .object [
      ("generated_at", .text (Timestamp.ofSeconds r.generatedAt).isoText),
      ("generator", .text "ctrlscan"),
      ("version", .text version)]),
    ("pages", .list (r.pages.map PageEntry.toJson)),
    ("summary", .object [
      ("total_endpoints", .number r.totalEndpoints),
      ("total_pages", .number r.totalPages)])])]

def render (r : Report) : Format → String
  | .text => Plain.render r
  | .json => Json.render 0 r.toJson
  | .csv => Csv.render r
  | .markdown => Markdown.render r

end Report

end EndpointCatalog
